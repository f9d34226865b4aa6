import Chalkboard.Proofs.Decimal.Rounding
import Chalkboard.Scalar

/-!
# Magnitudes of rounded results

How large a computed number can be, in powers of two. A power of two is a binary64 number itself,
so rounding never passes it: a product of numbers up to `2 ^ k` and up to `2 ^ l` is at most
`2 ^ (k + l)` after rounding as before it, and no error has to be carried along. That is all that is
needed to see that a computation does not overflow.

* `Within`, `Reaches` — a magnitude is at most, or at least, a power of two.
* `Within.add`, `Within.sub`, `Within.mul`, `Within.div` — the operations.
* `Within.quotient` — dividing by the larger of two numbers.
-/

namespace Chalkboard

namespace Binary64

/-! ## Rounding does not pass a power of two -/

theorem roundDiv_le {num den bound : Nat} (pos : 0 < den) (h : num ≤ bound * den) :
    roundDiv .even num den ≤ bound := by
  rcases roundDiv_eq_or .even num den with whole | next
  · rw [whole]
    exact Nat.div_le_of_le_mul (by rwa [mul_comm])
  · by_contra above
    -- the quotient is the bound itself, and rounding a whole number changes nothing
    have reached : num = bound * den := by
      have low : bound ≤ num / den := by omega
      exact le_antisymm h ((Nat.le_div_iff_mul_le pos).mp low)
    rw [reached, roundDiv_mul_right .even bound pos] at above
    exact above le_rfl

/-- The units of a pattern that is put together from a mantissa and places. -/
theorem units_add {m s : Nat} (high : m ≤ 2 * binadeSize) (low : s = 0 ∨ binadeSize ≤ m) :
    units (m + s * binadeSize) = m * 2 ^ s := by
  rw [units_eq]
  have size : 0 < binadeSize := by decide
  rcases Nat.lt_or_eq_of_le high with fits | carry
  · have shift : shiftOf (m + s * binadeSize) = s := by
      unfold shiftOf
      unfold binadeSize at *
      omega
    rw [(fields_add fits low).1, shift]
  · have next : m + s * binadeSize = binadeSize + (s + 1) * binadeSize := by
      rw [carry]
      ring
    have shift : shiftOf (binadeSize + (s + 1) * binadeSize) = s + 1 := by
      unfold shiftOf
      unfold binadeSize at *
      omega
    rw [next, (fields_add (by omega) (.inr le_rfl)).1, shift, carry, pow_succ]
    ring

/-- Larger patterns have more units. -/
theorem units_le_units {p q : Nat} (h : p ≤ q) : units p ≤ units q := by
  have size := mantissaOf_lt p
  have hp := mantissaOf_add_shiftOf p
  have hq := mantissaOf_add_shiftOf q
  rw [units_eq, units_eq]
  have shifts : shiftOf p ≤ shiftOf q := by
    unfold shiftOf
    have := Nat.div_le_div_right h (c := binadeSize)
    omega
  rcases Nat.lt_or_eq_of_le shifts with lt | eq
  · calc mantissaOf p * 2 ^ shiftOf p ≤ 2 * binadeSize * 2 ^ shiftOf p :=
          Nat.mul_le_mul_right _ size.le
      _ = binadeSize * 2 ^ (shiftOf p + 1) := by
          rw [pow_succ]
          ring
      _ ≤ mantissaOf q * 2 ^ shiftOf q :=
          Nat.mul_le_mul (le_mantissaOf (by omega)) (Nat.pow_le_pow_right two_pos lt)
  · rw [← eq] at hq ⊢
    exact Nat.mul_le_mul_right _ (by omega)

/-- The units of a rounded quotient that does not overflow. -/
theorem units_nearest {num den : Nat} (finite : nearest num den < infinity) :
    units (nearest num den) =
      roundDiv .even num (den * 2 ^ scale (num / den)) * 2 ^ scale (num / den) := by
  obtain ⟨high, low⟩ := roundDiv_scale_bounds num den
  unfold nearest at finite ⊢
  simp only [Nat.pow_eq] at finite ⊢
  have value : roundDiv .even num (den * 2 ^ scale (num / den)) +
      scale (num / den) * binadeSize < infinity := by
    omega
  rw [min_eq_right value.le, units_add high low]

/-- A larger number of units has no smaller scale. -/
theorem scale_le_scale {u v : Nat} (h : u ≤ v) : scale u ≤ scale v := by
  unfold scale
  have log : u.log2 ≤ v.log2 := by
    rw [Nat.log2_eq_log_two, Nat.log2_eq_log_two]
    exact Nat.log_mono_right h
  omega

/-- **Rounding does not pass a number.** -/
theorem nearest_le {num den p : Nat} (pos : 0 < den) (h : num ≤ units p * den) :
    nearest num den ≤ p := by
  have high := (roundDiv_scale_bounds num den).1
  have places : scale (num / den) ≤ shiftOf p := by
    rw [← scale_units]
    exact scale_le_scale (Nat.div_le_of_le_mul (by rwa [mul_comm]))
  have whole := mantissaOf_add_shiftOf p
  refine (Nat.min_le_right _ _).trans ?_
  simp only [Nat.pow_eq]
  rcases Nat.lt_or_eq_of_le places with fewer | same
  · -- a whole binade lies between
    have least := le_mantissaOf (p := p) (by omega)
    unfold binadeSize at *
    omega
  · have rounded : roundDiv .even num (den * 2 ^ scale (num / den)) ≤ mantissaOf p := by
      refine roundDiv_le (Nat.mul_pos pos (Nat.two_pow_pos _)) (h.trans_eq ?_)
      rw [units_eq, same]
      ring
    rw [same] at rounded ⊢
    omega

/-- A power of two is a number. -/
theorem exists_units_two_pow {k : Nat} (small : k ≤ 2097) :
    ∃ p < infinity, units p = 2 ^ k := by
  have size : binadeSize = 2 ^ 52 := by decide
  rcases Nat.lt_or_ge k 52 with low | high
  · have bound : 2 ^ k < binadeSize := by
      rw [size]
      exact Nat.pow_lt_pow_right one_lt_two low
    refine ⟨2 ^ k + 0 * binadeSize, ?_, ?_⟩
    · unfold infinity binadeSize at *
      omega
    · rw [units_add (by omega) (.inl rfl), pow_zero, mul_one]
  · refine ⟨binadeSize + (k - 52) * binadeSize, ?_, ?_⟩
    · unfold infinity binadeSize
      omega
    · rw [units_add (by omega) (.inr le_rfl), size, ← pow_add, Nat.add_sub_cancel' high]

/-- **Rounding does not pass a power of two**, as long as that is a finite number. -/
theorem nearest_le_two_pow {num den k : Nat} (pos : 0 < den) (h : num ≤ 2 ^ k * den)
    (small : k ≤ 2097) : nearest num den < infinity ∧ units (nearest num den) ≤ 2 ^ k := by
  obtain ⟨p, hp, power⟩ := exists_units_two_pow small
  have bound : nearest num den ≤ p := nearest_le pos (power ▸ h)
  exact ⟨bound.trans_lt hp, power ▸ units_le_units bound⟩

/-! ## Bounds -/

/-- The number of units of a finite number, its sign apart. -/
def units? (x : Float) : Option Nat :=
  match valueOf x with
  | .finite _ u => some u
  | _ => none

/-- **`Within k x`** — `x` is finite and its magnitude is at most `2 ^ k`. The unit being `2 ^ -1074`,
`k` is meant to be no less than `-1074`. -/
def Within (k : Int) (x : Float) : Prop :=
  ∃ u ∈ units? x, u ≤ 2 ^ (k + 1074).toNat

/-- **`Reaches k x`** — `x` is finite and its magnitude is at least `2 ^ k`. -/
def Reaches (k : Int) (x : Float) : Prop :=
  ∃ u ∈ units? x, 2 ^ (k + 1074).toNat ≤ u

instance (k : Int) (x : Float) : Decidable (Within k x) :=
  inferInstanceAs (Decidable (∃ u ∈ units? x, _))

instance (k : Int) (x : Float) : Decidable (Reaches k x) :=
  inferInstanceAs (Decidable (∃ u ∈ units? x, _))

variable {k l : Int} {x y : Float} {p q : Nat}

theorem units?_ofPattern (s : Bool) (hp : p < infinity) :
    units? (ofPattern s p) = some (units p) := by
  unfold units?
  rw [valueOf_ofPattern s hp.le, if_pos hp]

/-- A number that has units is finite. -/
theorem exists_of_units? {u : Nat} (h : units? x = some u) :
    ∃ s p, p < infinity ∧ x = ofPattern s p ∧ units p = u := by
  have finite : x.toBits.toNat % signBit < infinity := by
    by_contra past
    unfold units? valueOf at h
    simp only [if_neg past] at h
    split_ifs at h
  have same := eq_ofPattern finite.le
  rw [same, units?_ofPattern _ finite] at h
  exact ⟨_, _, finite, same, Option.some.inj h⟩

theorem within_ofPattern (s : Bool) (hp : p < infinity) :
    Within k (ofPattern s p) ↔ units p ≤ 2 ^ (k + 1074).toNat := by
  unfold Within
  rw [units?_ofPattern s hp]
  simp

theorem reaches_ofPattern (s : Bool) (hp : p < infinity) :
    Reaches k (ofPattern s p) ↔ 2 ^ (k + 1074).toNat ≤ units p := by
  unfold Reaches
  rw [units?_ofPattern s hp]
  simp

theorem Within.exists_ofPattern (h : Within k x) :
    ∃ s p, p < infinity ∧ x = ofPattern s p ∧ units p ≤ 2 ^ (k + 1074).toNat := by
  obtain ⟨u, hu, bound⟩ := h
  obtain ⟨s, p, hp, rfl, rfl⟩ := exists_of_units? hu
  exact ⟨s, p, hp, rfl, bound⟩

theorem Reaches.exists_ofPattern (h : Reaches k x) :
    ∃ s p, p < infinity ∧ x = ofPattern s p ∧ 2 ^ (k + 1074).toNat ≤ units p := by
  obtain ⟨u, hu, bound⟩ := h
  obtain ⟨s, p, hp, rfl, rfl⟩ := exists_of_units? hu
  exact ⟨s, p, hp, rfl, bound⟩

theorem Within.isFinite (h : Within k x) : x.isFinite = true := by
  obtain ⟨s, p, hp, rfl, -⟩ := h.exists_ofPattern
  rw [isFinite_ofPattern s hp.le]
  exact decide_eq_true hp

theorem Within.isNaN (h : Within k x) : x.isNaN = false := by
  obtain ⟨s, p, hp, rfl, -⟩ := h.exists_ofPattern
  exact isNaN_ofPattern s hp.le

theorem Within.mono (h : Within k x) (hkl : k ≤ l) : Within l x := by
  obtain ⟨u, hu, bound⟩ := h
  exact ⟨u, hu, bound.trans (Nat.pow_le_pow_right two_pos (by omega))⟩

/-! ## Operations -/

/-- A quotient of units up to a power of two. -/
theorem within_nearest (s : Bool) {num den : Nat} (pos : 0 < den)
    (h : num ≤ 2 ^ (k + 1074).toNat * den) (small : k ≤ 1023) :
    Within k (ofPattern s (nearest num den)) := by
  obtain ⟨finite, bound⟩ := nearest_le_two_pow pos h (by omega)
  exact (within_ofPattern s finite).mpr bound

/-- The pattern of a number that reaches a power of two. -/
theorem pos_of_reaches (s : Bool) (h : Reaches k (ofPattern s p)) : 0 < p := by
  by_contra zero
  rw [Nat.eq_zero_of_not_pos zero, reaches_ofPattern s (by decide), units_zero] at h
  exact (Nat.two_pow_pos _).not_ge h

theorem Within.neg (h : Within k x) : Within k (-x) := by
  obtain ⟨s, p, hp, rfl, bound⟩ := h.exists_ofPattern
  rw [neg_ofPattern s hp.le]
  exact (within_ofPattern (!s) hp).mpr bound

/-- **A sum** of numbers up to a power of two is at most the next power. -/
theorem Within.add (hx : Within k x) (hy : Within k y) (low : -1074 ≤ k) (high : k + 1 ≤ 1023) :
    Within (k + 1) (x + y) := by
  obtain ⟨s, p, hp, rfl, xbound⟩ := hx.exists_ofPattern
  obtain ⟨t, q, hq, rfl, ybound⟩ := hy.exists_ofPattern
  rw [add_ofPattern s t hp hq]
  refine within_nearest _ one_pos ?_ high
  have triangle := Int.natAbs_add_le (signed s (units p)) (signed t (units q))
  rw [natAbs_signed, natAbs_signed] at triangle
  have double : 2 ^ (k + 1 + 1074).toNat = 2 * 2 ^ (k + 1074).toNat := by
    rw [← pow_succ']
    congr 1
    omega
  rw [double]
  omega

theorem Within.sub (hx : Within k x) (hy : Within k y) (low : -1074 ≤ k) (high : k + 1 ≤ 1023) :
    Within (k + 1) (x - y) := by
  obtain ⟨s, p, hp, rfl, xbound⟩ := hx.exists_ofPattern
  obtain ⟨t, q, hq, rfl, ybound⟩ := hy.exists_ofPattern
  rw [sub_ofPattern s t hp.le hq.le]
  exact Within.add ((within_ofPattern s hp).mpr xbound) ((within_ofPattern (!t) hq).mpr ybound)
    low high

/-- **A product**: the exponents are added. -/
theorem Within.mul (hx : Within k x) (hy : Within l y) (hk : -1074 ≤ k) (hl : -1074 ≤ l)
    (low : -1074 ≤ k + l) (high : k + l ≤ 1023) : Within (k + l) (x * y) := by
  obtain ⟨s, p, hp, rfl, xbound⟩ := hx.exists_ofPattern
  obtain ⟨t, q, hq, rfl, ybound⟩ := hy.exists_ofPattern
  rw [mul_ofPattern s t hp hq]
  refine within_nearest _ one_units_pos ?_ high
  obtain ⟨a, ha, hone⟩ := exists_one_eq
  have powers : (k + 1074).toNat + (l + 1074).toNat = (k + l + 1074).toNat + a := by omega
  calc units p * units q ≤ 2 ^ (k + 1074).toNat * 2 ^ (l + 1074).toNat :=
        Nat.mul_le_mul xbound ybound
    _ = 2 ^ (k + l + 1074).toNat * one := by
        rw [hone, Nat.pow_eq, ← pow_add, powers, pow_add]

/-- **A quotient**: the exponent of a lower bound of the divisor is subtracted. -/
theorem Within.div (hx : Within k x) (hy : Reaches l y) (hk : -1074 ≤ k) (hl : -1074 ≤ l)
    (low : -1074 ≤ k - l) (high : k - l ≤ 1023) : Within (k - l) (x / y) := by
  obtain ⟨s, p, hp, rfl, xbound⟩ := hx.exists_ofPattern
  obtain ⟨t, q, hq, rfl, ybound⟩ := hy.exists_ofPattern
  have pos := pos_of_reaches t hy
  rw [div_ofPattern s t hp hq pos]
  refine within_nearest _ (units_pos pos) ?_ high
  obtain ⟨a, ha, hone⟩ := exists_one_eq
  have powers : (k + 1074).toNat + a = (k - l + 1074).toNat + (l + 1074).toNat := by omega
  calc units p * one ≤ 2 ^ (k + 1074).toNat * one := Nat.mul_le_mul_right _ xbound
    _ = 2 ^ (k - l + 1074).toNat * 2 ^ (l + 1074).toNat := by
        rw [hone, Nat.pow_eq, ← pow_add, powers, pow_add]
    _ ≤ 2 ^ (k - l + 1074).toNat * units q := Nat.mul_le_mul_left _ ybound

theorem within_zero : Within k 0.0 := by
  rw [zero_eq_ofPattern, within_ofPattern false (by decide), units_zero]
  exact Nat.zero_le _

theorem within_one : Within 0 1.0 := by
  decide +kernel

/-! ## Comparisons -/

theorem order_abs_ofPattern (s : Bool) (hp : p ≤ infinity) : order (ofPattern s p).abs = p := by
  rw [abs_ofPattern s hp, order_ofPattern false hp]
  rfl

theorem Within.order_abs_neg (h : Within k x) : order (-x).abs = order x.abs := by
  obtain ⟨s, p, hp, rfl, -⟩ := h.exists_ofPattern
  rw [neg_ofPattern s hp.le, order_abs_ofPattern _ hp.le, order_abs_ofPattern s hp.le]

/-- What is no larger than a bounded number is bounded. -/
theorem Within.of_order_abs_le (hx : Within l x) (hy : Within k y)
    (h : order x.abs ≤ order y.abs) : Within k x := by
  obtain ⟨s, p, hp, rfl, -⟩ := hx.exists_ofPattern
  obtain ⟨t, q, hq, rfl, bound⟩ := hy.exists_ofPattern
  rw [order_abs_ofPattern s hp.le, order_abs_ofPattern t hq.le, Int.ofNat_le] at h
  exact (within_ofPattern s hp).mpr ((units_le_units h).trans bound)

/-- What is no smaller than a number that reaches a power of two reaches it. -/
theorem Reaches.of_order_abs_le (hx : Reaches k x) (hy : Within l y)
    (h : order x.abs ≤ order y.abs) : Reaches k y := by
  obtain ⟨s, p, hp, rfl, bound⟩ := hx.exists_ofPattern
  obtain ⟨t, q, hq, rfl, -⟩ := hy.exists_ofPattern
  rw [order_abs_ofPattern s hp.le, order_abs_ofPattern t hq.le, Int.ofNat_le] at h
  exact (reaches_ofPattern t hq).mpr (bound.trans (units_le_units h))

/-- **A quotient by the larger of two numbers** is at most one. -/
theorem Within.quotient (hx : Within l x) (hy : Reaches k y) (h : order x.abs ≤ order y.abs) :
    Within 0 (x / y) := by
  obtain ⟨s, p, hp, rfl, -⟩ := hx.exists_ofPattern
  obtain ⟨t, q, hq, rfl, -⟩ := hy.exists_ofPattern
  rw [order_abs_ofPattern s hp.le, order_abs_ofPattern t hq.le, Int.ofNat_le] at h
  have pos := pos_of_reaches t hy
  rw [div_ofPattern s t hp hq pos]
  refine within_nearest _ (units_pos pos) ?_ (by decide)
  obtain ⟨a, ha, hone⟩ := exists_one_eq
  have unit : 2 ^ (0 + 1074 : Int).toNat = one := by
    rw [hone, Nat.pow_eq, show (0 + 1074 : Int).toNat = a by omega]
  rw [unit, mul_comm]
  exact Nat.mul_le_mul_left _ (units_le_units h)

/-- **A number that reaches a power of two** lies between some higher power and the next. -/
theorem Reaches.exists_binade (h : Reaches k x) (low : -1074 ≤ k) :
    ∃ q : Int, k ≤ q ∧ q ≤ 1023 ∧ Reaches q x ∧ Within (q + 1) x := by
  obtain ⟨s, p, hp, rfl, bound⟩ := h.exists_ofPattern
  have positive : units p ≠ 0 := ((Nat.two_pow_pos _).trans_le bound).ne'
  have log := (Nat.le_log2 positive).mpr bound
  have most : (units p).log2 ≤ 2097 := by
    have places := scale_units p
    unfold scale shiftOf at places
    unfold infinity binadeSize at *
    omega
  have exponent (c : Int) (n : Nat) (hc : c + 1074 = n) : 2 ^ (c + 1074).toNat = 2 ^ n := by
    rw [hc, Int.toNat_natCast]
  refine ⟨(units p).log2 - 1074, by omega, by omega, ?_, ?_⟩
  · rw [reaches_ofPattern s hp, exponent _ (units p).log2 (by omega)]
    exact (Nat.le_log2 positive).mp le_rfl
  · rw [within_ofPattern s hp, exponent _ ((units p).log2 + 1) (by omega)]
    exact ((Nat.log2_lt positive).mp (Nat.lt_succ_self _)).le

/-- **Clearing a place.** A factor that is no larger than the pivot, times a pivot row that has been
multiplied by the inverse of the pivot, is at most twice as large as the row was: what the small
pivot adds, the factor takes away. -/
theorem Within.cleared {p f g : Float} {j : Int} (hp : Reaches (-j) p) (hf : Within l f)
    (le : order f.abs ≤ order p.abs) (hg : Within k g) (hk : 0 ≤ k) (hj : 0 ≤ j)
    (high : k + j ≤ 1022) : Within (k + 1) (f * (g * (1.0 / p))) := by
  obtain ⟨q, hq, top, reaches, within⟩ := hp.exists_binade (by omega)
  have inverse : Within (0 - q) (1.0 / p) :=
    within_one.div reaches (by omega) (by omega) (by omega) (by omega)
  have row : Within (k + (0 - q)) (g * (1.0 / p)) :=
    hg.mul inverse (by omega) (by omega) (by omega) (by omega)
  have factor : Within (q + 1) f := hf.of_order_abs_le within le
  exact (factor.mul row (by omega) (by omega) (by omega) (by omega)).mono (by omega)

/-! ## Tolerances -/

/-- **`Threshold j epsilon`** — the tolerance is positive and at least `2 ^ -j`. -/
structure Threshold (j : Nat) (epsilon : Float) : Prop where
  pos : 0.0 < epsilon
  reaches : Reaches (-j) epsilon

/-- What is not negligible is at least as large as the tolerance. -/
theorem Threshold.reaches_of_not_negligible {j : Nat} {epsilon v : Float}
    (h : Threshold j epsilon) (hv : Within l v) (large : Scalar.negligible epsilon v = false) :
    Reaches (-j) v := by
  obtain ⟨s, p, hp, rfl, -⟩ := h.reaches.exists_ofPattern
  obtain ⟨t, q, hq, rfl, -⟩ := hv.exists_ofPattern
  refine h.reaches.of_order_abs_le hv ?_
  have hsmall : ¬ (ofPattern t q).abs < ofPattern s p := of_decide_eq_false large
  rw [lt_iff_order (by rw [isNaN_abs, isNaN_ofPattern t hq.le]) (isNaN_ofPattern s hp.le), not_lt]
    at hsmall
  -- a positive tolerance is its own magnitude
  have hpos := h.pos
  rw [zero_eq_ofPattern, lt_iff_order (isNaN_ofPattern false (Nat.zero_le _))
    (isNaN_ofPattern s hp.le), order_ofPattern false (Nat.zero_le _), order_ofPattern s hp.le]
    at hpos
  rw [order_abs_ofPattern s hp.le]
  rw [order_ofPattern s hp.le] at hsmall
  cases s with
  | true => exact absurd hpos (by simp [signed])
  | false => exact hsmall

end Binary64

end Chalkboard
