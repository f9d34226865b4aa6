import Chalkboard.Decimal.Shortest
import Chalkboard.Decimal.Literal
import Chalkboard.Proofs.Decimal.Pattern

/-!
# The rounding interval of a binary64 number

A finite magnitude is a mantissa scaled by a power of two. All quotients in the interval around it
are nearest to it, also those past the end of its binade, where the grid of the next lower binade is
twice as fine; at the ends themselves an even mantissa wins.
-/

namespace Chalkboard

/-! ## Rounding a quotient -/

/-- **Rounding to the nearest whole number.** Half-way quotients go to the even neighbour. -/
theorem roundDiv_even_eq {m num den : Nat} (pos : 0 < den) (low : 2 * m * den ≤ 2 * num + den)
    (high : 2 * num ≤ 2 * m * den + den)
    (tie : m % 2 = 1 → 2 * m * den < 2 * num + den ∧ 2 * num < 2 * m * den + den) :
    roundDiv .even num den = m := by
  have split := Nat.div_add_mod num den
  have small := Nat.mod_lt num pos
  unfold roundDiv
  generalize num / den = q at *
  generalize num % den = r at *
  -- the quotient is `m`, or one less
  have hq : q = m ∨ q + 1 = m := by
    have hle : q ≤ m := by
      by_contra h
      have : (m + 1) * den ≤ q * den := Nat.mul_le_mul_right den (by omega)
      nlinarith
    have hge : m ≤ q + 1 := by
      by_contra h
      have : (q + 2) * den ≤ m * den := Nat.mul_le_mul_right den (by omega)
      nlinarith
    omega
  rcases hq with rfl | rfl
  · have expand : 2 * q * den = 2 * (den * q) := by ring
    rw [expand] at high tie
    simp only
    split_ifs with below above
    · rfl
    · omega
    · -- the quotient lies half-way above `q`
      have even : q % 2 = 0 := by omega
      show q + q % 2 = q
      omega
  · have expand : 2 * (q + 1) * den = 2 * (den * q) + 2 * den := by ring
    rw [expand] at low tie
    simp only
    split_ifs with below above
    · omega
    · rfl
    · -- the quotient lies half-way below `q + 1`
      have odd : q % 2 = 1 := by omega
      show q + q % 2 = q + 1
      omega

/-- Rounding gives the quotient without its fraction, or one more. -/
theorem roundDiv_eq_or (tie : Tie) (num den : Nat) :
    roundDiv tie num den = num / den ∨ roundDiv tie num den = num / den + 1 := by
  unfold roundDiv
  simp only
  split_ifs
  · exact .inl rfl
  · exact .inr rfl
  · cases tie with
    | up => exact .inr rfl
    | even => exact (Nat.mod_two_eq_zero_or_one (num / den)).imp (by simp [·]) (by simp [·])

namespace Binary64

/-! ## Mantissa and shift -/

/-- The exponent of the unit, as a variable: a proof about it should not compute the power. -/
theorem exists_one_eq : ∃ k, k = 1074 ∧ one = Nat.pow 2 k := by
  refine ⟨1074, rfl, ?_⟩
  unfold one
  with_reducible rfl

/-- The power of two that the mantissa of a pattern is shifted by, in units. -/
def shiftOf (pattern : Nat) : Nat :=
  pattern / binadeSize - 1

theorem mantissaOf_add_shiftOf (p : Nat) : mantissaOf p + shiftOf p * binadeSize = p := by
  have := Nat.div_add_mod p binadeSize
  unfold mantissaOf shiftOf binadeSize at *
  split_ifs <;> omega

theorem mantissaOf_lt (p : Nat) : mantissaOf p < 2 * binadeSize := by
  unfold mantissaOf binadeSize
  split_ifs <;> omega

theorem le_mantissaOf {p : Nat} (h : 0 < shiftOf p) : binadeSize ≤ mantissaOf p := by
  unfold shiftOf at h
  unfold mantissaOf
  rw [if_neg (by omega)]
  exact Nat.le_add_right _ _

theorem units_eq (p : Nat) : units p = mantissaOf p * 2 ^ shiftOf p := by
  unfold units mantissaOf shiftOf
  simp only [Nat.pow_eq]
  split_ifs with h
  · rw [h, pow_zero, mul_one, Nat.mod_eq_of_lt]
    unfold binadeSize at *
    omega
  · rfl

theorem units_pos {p : Nat} (h : 0 < p) : 0 < units p := by
  rw [units_eq]
  exact Nat.mul_pos (mantissaOf_pos h) (Nat.two_pow_pos _)

/-- The scale of a number of units is known by its binade. -/
theorem scale_eq {u s : Nat} (high : u < 2 * binadeSize * 2 ^ s)
    (low : s = 0 ∨ binadeSize * 2 ^ s ≤ u) : scale u = s := by
  have size : binadeSize = 2 ^ 52 := by decide
  have bound : u < 2 ^ (53 + s) := by
    rw [pow_add]
    rw [size] at high
    exact high
  unfold scale
  rcases low with rfl | low
  · by_cases zero : u = 0
    · subst zero
      rfl
    · have := (Nat.log2_lt zero).mpr bound
      omega
  · rw [size, ← pow_add] at low
    have pos : 0 < u := (Nat.two_pow_pos _).trans_le low
    have := (Nat.log2_lt pos.ne').mpr bound
    have := (Nat.le_log2 pos.ne').mpr low
    omega

theorem scale_units (p : Nat) : scale (units p) = shiftOf p := by
  have pos : 0 < 2 ^ shiftOf p := Nat.two_pow_pos _
  rw [units_eq]
  refine scale_eq (Nat.mul_lt_mul_of_pos_right (mantissaOf_lt p) pos) ?_
  rcases Nat.eq_zero_or_pos (shiftOf p) with zero | shifted
  · exact .inl zero
  · exact .inr (Nat.mul_le_mul_right _ (le_mantissaOf shifted))

/-! ## The interval -/

theorem endsIncluded_units (p : Nat) : endsIncluded (units p) = decide (mantissaOf p % 2 = 0) := by
  unfold endsIncluded
  rw [scale_units, units_eq]
  simp only [Nat.pow_eq]
  rw [Nat.mul_div_cancel _ (Nat.two_pow_pos _)]
  rfl

theorem upperEnd_units (p : Nat) : upperEnd (units p) = (4 * mantissaOf p + 2) * 2 ^ shiftOf p := by
  unfold upperEnd
  rw [scale_units, units_eq]
  simp only [Nat.pow_eq]
  ring

theorem lowerEnd_units (p : Nat) :
    lowerEnd (units p) = (4 * mantissaOf p -
      if 0 < shiftOf p ∧ mantissaOf p = binadeSize then 1 else 2) * 2 ^ shiftOf p := by
  have size : binadeSize = 2 ^ 52 := by decide
  have least : units p = Nat.pow 2 (52 + shiftOf p) ↔ mantissaOf p = binadeSize := by
    rw [units_eq, Nat.pow_eq, pow_add, size]
    exact Nat.mul_left_inj (Nat.two_pow_pos _).ne'
  unfold lowerEnd
  simp only [scale_units, least]
  rw [units_eq, Nat.sub_mul, mul_assoc]
  simp only [Nat.pow_eq]
  split_ifs
  · rw [one_mul]
  · rfl

/-- What a quotient of known scale is nearest to. -/
theorem nearest_of_scale {m s num den : Nat} (hscale : scale (num / den) = s)
    (hround : roundDiv .even num (den * 2 ^ s) = m) (finite : m + s * binadeSize < infinity) :
    nearest num den = m + s * binadeSize := by
  unfold nearest
  simp only [hscale, Nat.pow_eq, hround]
  exact Nat.min_eq_right finite.le

/-- Before the least number of a binade places are half as large. -/
theorem nearest_of_below {t num den : Nat} (pos : 0 < den)
    (finite : binadeSize + t.succ * binadeSize < infinity)
    (low : 4 * (binadeSize * (den * 2 ^ t.succ)) ≤ 4 * num + den * 2 ^ t.succ)
    (below : num < binadeSize * (den * 2 ^ t.succ)) :
    nearest num den = binadeSize + t.succ * binadeSize := by
  have double : den * 2 ^ t.succ = 2 * (den * 2 ^ t) := by
    rw [pow_succ]
    ring
  rw [double] at low below
  have place : 0 < den * 2 ^ t := Nat.mul_pos pos (Nat.two_pow_pos t)
  have hscale : scale (num / den) = t := by
    refine scale_eq ?_ (.inr ?_)
    · rw [Nat.div_lt_iff_lt_mul pos, mul_assoc, mul_comm (2 ^ t), mul_assoc]
      nlinarith
    · rw [Nat.le_div_iff_mul_le pos, mul_assoc, mul_comm (2 ^ t)]
      have : 1 ≤ binadeSize := by decide
      nlinarith
  have hround : roundDiv .even num (den * 2 ^ t) = 2 * binadeSize :=
    roundDiv_even_eq place (by nlinarith) (by nlinarith) fun odd => absurd odd (by omega)
  have hwhole : 2 * binadeSize + t * binadeSize = binadeSize + t.succ * binadeSize := by
    rw [Nat.succ_mul t]
    omega
  rw [← hwhole] at finite ⊢
  exact nearest_of_scale hscale hround finite

/-- **A quotient near a mantissa.** Its distance from `m` places of size `2 ^ s` is at most half a
place, or a quarter towards the finer places below a binade. -/
theorem nearest_of_near {m s num den : Nat} (pos : 0 < den) (bound : m < 2 * binadeSize)
    (least : 0 < s → binadeSize ≤ m) (finite : m + s * binadeSize < infinity)
    (low : 4 * (m * (den * 2 ^ s)) ≤
      4 * num + (if 0 < s ∧ m = binadeSize then 1 else 2) * (den * 2 ^ s))
    (high : 4 * num ≤ 4 * (m * (den * 2 ^ s)) + 2 * (den * 2 ^ s))
    (strict : m % 2 = 1 → 4 * (m * (den * 2 ^ s)) < 4 * num + 2 * (den * 2 ^ s) ∧
      4 * num < 4 * (m * (den * 2 ^ s)) + 2 * (den * 2 ^ s)) :
    nearest num den = m + s * binadeSize := by
  have place : 0 < den * 2 ^ s := Nat.mul_pos pos (Nat.two_pow_pos s)
  have half : (if 0 < s ∧ m = binadeSize then 1 else 2) * (den * 2 ^ s) ≤ 2 * (den * 2 ^ s) :=
    Nat.mul_le_mul_right _ (by split_ifs <;> omega)
  by_cases inBinade : s = 0 ∨ binadeSize * (den * 2 ^ s) ≤ num
  · have quotient : num / den < 2 * binadeSize * 2 ^ s := by
      rw [Nat.div_lt_iff_lt_mul pos, mul_assoc (2 * binadeSize), mul_comm (2 ^ s)]
      have : (m + 1) * (den * 2 ^ s) ≤ 2 * binadeSize * (den * 2 ^ s) :=
        Nat.mul_le_mul_right _ bound
      rw [Nat.add_mul] at this
      omega
    have hscale : scale (num / den) = s := by
      refine scale_eq quotient (inBinade.imp_right fun h => ?_)
      rwa [Nat.le_div_iff_mul_le pos, mul_assoc, mul_comm (2 ^ s)]
    have hround : roundDiv .even num (den * 2 ^ s) = m :=
      roundDiv_even_eq place (by rw [mul_assoc]; omega) (by rw [mul_assoc]; omega)
        fun odd => by rw [mul_assoc]; have := strict odd; omega
    exact nearest_of_scale hscale hround finite
  · -- the quotient lies before the binade of `m`, so that `m` is its least number
    obtain ⟨shifted, hnum⟩ := not_or.mp inBinade
    obtain ⟨t, rfl⟩ := Nat.exists_eq_succ_of_ne_zero shifted
    have hm : m = binadeSize := by
      refine le_antisymm ?_ (least t.succ_pos)
      by_contra h
      have : (binadeSize + 1) * (den * 2 ^ t.succ) ≤ m * (den * 2 ^ t.succ) :=
        Nat.mul_le_mul_right _ (by omega)
      rw [Nat.add_mul] at this
      omega
    subst hm
    rw [if_pos ⟨t.succ_pos, rfl⟩, one_mul] at low
    exact nearest_of_below pos finite low (not_le.mp hnum)

/-- **All of the interval is nearest to its number.** -/
theorem nearest_of_between {p num den : Nat} (hp : p < infinity) (pos : 0 < den)
    (low : lowerEnd (units p) * den ≤ 4 * num) (high : 4 * num ≤ upperEnd (units p) * den)
    (strict : endsIncluded (units p) = false →
      lowerEnd (units p) * den < 4 * num ∧ 4 * num < upperEnd (units p) * den) :
    nearest num den = p := by
  have whole := mantissaOf_add_shiftOf p
  have lower (x : Nat) : (4 * mantissaOf p - x) * 2 ^ shiftOf p * den =
      4 * (mantissaOf p * (den * 2 ^ shiftOf p)) - x * (den * 2 ^ shiftOf p) := by
    rw [Nat.sub_mul, Nat.sub_mul]
    congr 1 <;> ring
  have upper : (4 * mantissaOf p + 2) * 2 ^ shiftOf p * den =
      4 * (mantissaOf p * (den * 2 ^ shiftOf p)) + 2 * (den * 2 ^ shiftOf p) := by
    ring
  rw [lowerEnd_units, lower] at low
  rw [upperEnd_units, upper] at high
  rw [lowerEnd_units, upperEnd_units, endsIncluded_units, lower, upper] at strict
  rw [← whole]
  refine nearest_of_near pos (mantissaOf_lt p) le_mantissaOf (whole.symm ▸ hp) (by omega) high ?_
  intro odd
  obtain ⟨hlow, hhigh⟩ := strict (decide_eq_false (by omega))
  refine ⟨?_, hhigh⟩
  have half : (if 0 < shiftOf p ∧ mantissaOf p = binadeSize then 1 else 2) *
      (den * 2 ^ shiftOf p) ≤ 2 * (den * 2 ^ shiftOf p) :=
    Nat.mul_le_mul_right _ (by split_ifs <;> omega)
  omega

end Binary64

end Chalkboard
