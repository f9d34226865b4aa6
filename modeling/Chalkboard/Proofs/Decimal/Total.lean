import Chalkboard.Proofs.Decimal.Magnitude
import Chalkboard.Proofs.Decimal.Zero

/-!
# Totals of finite numbers

What becomes of finite numbers that are added up from left to right. The sum of two can be infinite,
but it is a number; and an infinity to which finite numbers are added stays. So a total is finite
exactly if all the totals on the way to it are.

Rounding cannot make a total grow without bound. A rounded sum is no further from the exact one than
the total so far is, that is, than the magnitude of the number that was added: so each number counts
at most twice, however many there are.

* `isFinite_foldl_add_iff` — when a total is finite.
* `magnitude_foldl_add_le` — how large it is, from the magnitudes of the numbers together.
* `IsTotal` — all that is known of a total.
-/

namespace Chalkboard

open Float.Model (UnpackedFloat)

namespace Binary64

/-! ## Infinite totals -/

/-- A sum of finite numbers is a number, if perhaps an infinite one. -/
theorem isNaN_add_of_isFinite {x y : Float} (hx : x.isFinite = true) (hy : y.isFinite = true) :
    (x + y).isNaN = false := by
  obtain ⟨s, p, hp, rfl⟩ := exists_ofPattern_of_isFinite hx
  obtain ⟨t, q, hq, rfl⟩ := exists_ofPattern_of_isFinite hy
  rw [add_ofPattern s t hp hq]
  exact isNaN_ofPattern _ (Nat.min_le_left _ _)

/-- A number is finite, or one of the two infinities. -/
theorem isFinite_or_infinite {x : Float} (h : x.isNaN = false) :
    x.isFinite = true ∨ ∃ s, x = ofPattern s infinity := by
  obtain ⟨s, p, hp, rfl⟩ := exists_ofPattern h
  rcases hp.lt_or_eq with finite | rfl
  · rw [isFinite_ofPattern s hp, decide_eq_true finite]
    exact .inl rfl
  · exact .inr ⟨s, rfl⟩

theorem isFinite_infinity (s : Bool) : (ofPattern s infinity).isFinite = false := by
  rw [isFinite_ofPattern s le_rfl]
  exact decide_eq_false (lt_irrefl infinity)

/-- **An infinity stays** when a finite number is added. -/
theorem infinity_add (s : Bool) {y : Float} (hy : y.isFinite = true) :
    ofPattern s infinity + y = ofPattern s infinity := by
  obtain ⟨t, q, hq, rfl⟩ := exists_ofPattern_of_isFinite hy
  have same : UnpackedFloat.add .binary64 (pieces s infinity) (pieces t q) =
      pieces s infinity := by
    have top : pieces s infinity = .infinity (signOf s) := if_pos rfl
    rw [top]
    rcases Nat.eq_zero_or_pos q with rfl | pos
    · rfl
    · rw [pieces_finite t hq pos]
      rfl
  show Float.ofModel (Float.Model.pack (UnpackedFloat.add .binary64
    (unpacked (ofPattern s infinity)) (unpacked (ofPattern t q)))) = _
  rw [unpacked_ofPattern s le_rfl, unpacked_ofPattern t hq.le, same,
    ofModel_pack_pieces s le_rfl]

theorem isFinite_zero : (0.0 : Float).isFinite = true :=
  (within_zero (k := 0)).isFinite

theorem isFinite_zero_add {x : Float} (hx : x.isFinite = true) : (0.0 + x).isFinite = true := by
  obtain ⟨s, p, hp, rfl⟩ := exists_ofPattern_of_isFinite hx
  rw [zero_add_ofPattern s hp.le]
  split_ifs
  · exact isFinite_zero
  · exact hx

section Totals

variable {xs : List Float}

theorem infinity_foldl_add (s : Bool) (each : ∀ x ∈ xs, x.isFinite = true) :
    xs.foldl (· + ·) (ofPattern s infinity) = ofPattern s infinity := by
  induction xs with
  | nil => rfl
  | cons x xs ih =>
    obtain ⟨first, rest⟩ := List.forall_mem_cons.mp each
    rw [List.foldl_cons, infinity_add s first]
    exact ih rest

/-- A total and all totals on the way to it are finite, or it is infinite. -/
theorem foldl_add_finite_or_infinite (each : ∀ x ∈ xs, x.isFinite = true) :
    ∀ start : Float, start.isFinite = true →
      (∀ k, ((xs.take k).foldl (· + ·) start).isFinite = true) ∨
        ∃ s, xs.foldl (· + ·) start = ofPattern s infinity := by
  induction xs with
  | nil =>
    intro start finite
    refine .inl fun k => ?_
    rw [List.take_nil]
    exact finite
  | cons x xs ih =>
    intro start finite
    obtain ⟨first, rest⟩ := List.forall_mem_cons.mp each
    rw [List.foldl_cons]
    rcases isFinite_or_infinite (isNaN_add_of_isFinite finite first) with next | ⟨s, infinite⟩
    · refine (ih rest _ next).imp_left fun totals k => ?_
      cases k with
      | zero => exact finite
      | succ k => exact totals k
    · -- the total is infinite from here on
      rw [infinite]
      exact .inr ⟨s, infinity_foldl_add s rest⟩

variable {start : Float}

/-- **A total is finite** exactly if all the totals on the way to it are. -/
theorem isFinite_foldl_add_iff (each : ∀ x ∈ xs, x.isFinite = true)
    (finite : start.isFinite = true) :
    (xs.foldl (· + ·) start).isFinite = true ↔
      ∀ k, ((xs.take k).foldl (· + ·) start).isFinite = true := by
  constructor
  · intro total
    rcases foldl_add_finite_or_infinite each start finite with totals | ⟨s, infinite⟩
    · exact totals
    · rw [infinite, isFinite_infinity] at total
      exact absurd total Bool.false_ne_true
  · intro totals
    have last := totals xs.length
    rwa [List.take_length] at last

/-- **A total is a number.** -/
theorem isNaN_foldl_add (each : ∀ x ∈ xs, x.isFinite = true) (finite : start.isFinite = true) :
    (xs.foldl (· + ·) start).isNaN = false := by
  rcases foldl_add_finite_or_infinite each start finite with totals | ⟨s, infinite⟩
  · have total := (isFinite_foldl_add_iff each finite).mpr totals
    obtain ⟨s, p, hp, number⟩ := exists_ofPattern_of_isFinite total
    rw [number]
    exact isNaN_ofPattern s hp.le
  · rw [infinite]
    exact isNaN_ofPattern s le_rfl

end Totals

/-! ## How large a total is -/

/-- The units of a finite number without its sign; none of any other. -/
def magnitude (x : Float) : Nat :=
  (units? x).getD 0

theorem magnitude_ofPattern (s : Bool) {p : Nat} (hp : p < infinity) :
    magnitude (ofPattern s p) = units p := by
  rw [magnitude, units?_ofPattern s hp]
  rfl

/-- What is finite is within a power of two that bounds its magnitude. -/
theorem within_of_magnitude_le {k : Int} {x : Float} (finite : x.isFinite = true)
    (h : magnitude x ≤ 2 ^ (k + 1074).toNat) : Within k x := by
  obtain ⟨s, p, hp, rfl⟩ := exists_ofPattern_of_isFinite finite
  rw [magnitude_ofPattern s hp] at h
  exact (within_ofPattern s hp).mpr h

/-- A number below is no larger than what is left when the last places are cut off. -/
theorem units_le_cut {p n : Nat} (h : units p ≤ n) :
    units p ≤ n / 2 ^ scale n * 2 ^ scale n := by
  have places : shiftOf p ≤ scale n := by
    rw [← scale_units]
    exact scale_le_scale h
  have pos : 0 < 2 ^ scale n := Nat.two_pow_pos _
  rcases Nat.lt_or_eq_of_le places with fewer | same
  · have top : 2 ^ (52 + scale n) ≤ n := by
      have nonzero : n ≠ 0 := by
        rintro rfl
        have none : scale 0 = 0 := rfl
        omega
      have log : 52 + scale n = n.log2 := by
        unfold scale at *
        omega
      rw [log]
      exact Nat.log2_self_le nonzero
    have size : binadeSize = 2 ^ 52 := by decide
    have quotient : binadeSize ≤ n / 2 ^ scale n := by
      rw [size, Nat.le_div_iff_mul_le pos, ← pow_add]
      exact top
    calc units p = mantissaOf p * 2 ^ shiftOf p := units_eq p
      _ ≤ 2 * binadeSize * 2 ^ shiftOf p := Nat.mul_le_mul_right _ (mantissaOf_lt p).le
      _ = binadeSize * 2 ^ (shiftOf p + 1) := by rw [pow_succ]; ring
      _ ≤ n / 2 ^ scale n * 2 ^ scale n :=
          Nat.mul_le_mul quotient (Nat.pow_le_pow_right two_pos fewer)
  · rw [units_eq, same] at h ⊢
    exact Nat.mul_le_mul_right _ ((Nat.le_div_iff_mul_le pos).mpr h)

/-- Rounding up takes a rest of at least a half. -/
theorem half_le_of_rounded_up {n den : Nat} (pos : 0 < den)
    (up : roundDiv .even n den = n / den + 1) : den ≤ 2 * (n % den) := by
  have split := Nat.div_add_mod n den
  have small := Nat.mod_lt n pos
  by_contra less
  have down : roundDiv .even n den = n / den := by
    refine roundDiv_even_eq pos ?_ ?_ fun _ => ⟨?_, ?_⟩ <;> rw [mul_assoc, mul_comm (n / _)] <;>
      omega
  omega

/-- **Rounding up goes no further than there is a number below.** -/
theorem units_nearest_add_le {p n : Nat} (h : units p ≤ n) (finite : nearest n 1 < infinity) :
    units (nearest n 1) + units p ≤ 2 * n := by
  have value := units_nearest finite
  rw [Nat.div_one, one_mul] at value
  have split := Nat.div_add_mod' n (2 ^ scale n)
  have below := units_le_cut h
  rcases roundDiv_eq_or .even n (2 ^ scale n) with down | up
  · rw [value, down]
    omega
  · have half := half_le_of_rounded_up (Nat.two_pow_pos _) up
    rw [value, up, add_mul, one_mul]
    omega

/-- **One number more** counts at most twice. -/
theorem magnitude_add_le {k : Nat} (top : k ≤ 2097) {x y : Float} (hx : x.isFinite = true)
    (hy : y.isFinite = true) (small : magnitude x + 2 * magnitude y ≤ 2 ^ k) :
    (x + y).isFinite = true ∧ magnitude (x + y) ≤ magnitude x + 2 * magnitude y := by
  obtain ⟨s, p, hp, rfl⟩ := exists_ofPattern_of_isFinite hx
  obtain ⟨t, q, hq, rfl⟩ := exists_ofPattern_of_isFinite hy
  rw [magnitude_ofPattern s hp, magnitude_ofPattern t hq] at small ⊢
  rw [add_ofPattern s t hp hq]
  have triangle := Int.natAbs_add_le (signed s (units p)) (signed t (units q))
  rw [natAbs_signed, natAbs_signed] at triangle
  generalize (signed s (units p) + signed t (units q)).natAbs = n at *
  have bound : n ≤ 2 ^ k * 1 := by
    rw [Nat.mul_one]
    omega
  obtain ⟨finite, -⟩ := nearest_le_two_pow Nat.one_pos bound top
  rw [isFinite_ofPattern _ finite.le, magnitude_ofPattern _ finite]
  refine ⟨decide_eq_true finite, ?_⟩
  rcases Nat.le_total (units p) n with above | below
  · have := units_nearest_add_le above finite
    omega
  · have within : n ≤ units p * 1 := below.trans_eq (Nat.mul_one _).symm
    have := units_le_units (nearest_le Nat.one_pos within)
    omega

/-- A total that goes on from a finite number. -/
theorem magnitude_foldl_add_le {k : Nat} (top : k ≤ 2097) {xs : List Float}
    (each : ∀ x ∈ xs, x.isFinite = true) :
    ∀ start : Float, start.isFinite = true →
      magnitude start + 2 * (xs.map magnitude).sum ≤ 2 ^ k →
      (xs.foldl (· + ·) start).isFinite = true ∧
        magnitude (xs.foldl (· + ·) start) ≤ magnitude start + 2 * (xs.map magnitude).sum := by
  induction xs with
  | nil =>
    intro start finite _
    exact ⟨finite, Nat.le_add_right _ _⟩
  | cons x xs ih =>
    intro start finite small
    obtain ⟨first, rest⟩ := List.forall_mem_cons.mp each
    rw [List.map_cons, List.sum_cons] at small ⊢
    obtain ⟨next, bound⟩ := magnitude_add_le top finite first (by omega)
    obtain ⟨last, total⟩ := ih rest (start + x) next (by omega)
    rw [List.foldl_cons]
    exact ⟨last, by omega⟩

/-- **`IsTotal xs x`** — `x` is what the finite numbers `xs` give when they are added up from left to
right, starting from zero. -/
structure IsTotal (xs : List Float) (x : Float) : Prop where
  each : ∀ y ∈ xs, y.isFinite = true
  sum : x = xs.foldl (· + ·) 0.0
  number : x.isNaN = false
  finite_iff : x.isFinite = true ↔ ∀ k, ((xs.take k).foldl (· + ·) 0.0).isFinite = true
  single : xs.length ≤ 1 → x.isFinite = true
  /-- It is within `2 ^ (e + 1)` if the magnitudes are at most `2 ^ e` together. -/
  within : ∀ e : Int, -1074 ≤ e → e ≤ 1022 →
    (xs.map magnitude).sum ≤ 2 ^ (e + 1074).toNat → Within (e + 1) x

/-- **What is known of a total.** -/
theorem isTotal_foldl_add {xs : List Float} (each : ∀ x ∈ xs, x.isFinite = true) :
    IsTotal xs (xs.foldl (· + ·) 0.0) where
  each := each
  sum := rfl
  number := isNaN_foldl_add each isFinite_zero
  finite_iff := isFinite_foldl_add_iff each isFinite_zero
  single := by
    intro one
    match xs, each, one with
    | [], _, _ => exact isFinite_zero
    | [x], each, _ =>
      exact isFinite_zero_add (each x (List.mem_singleton_self x))
  within := by
    intro e low high small
    have zero : magnitude 0.0 = 0 := by
      rw [zero_eq_ofPattern, magnitude_ofPattern false (by decide), units_zero]
    have double : 2 ^ (e + 1 + 1074).toNat = 2 * 2 ^ (e + 1074).toNat := by
      rw [← pow_succ']
      congr 1
      omega
    obtain ⟨finite, bound⟩ := magnitude_foldl_add_le (k := (e + 1 + 1074).toNat) (by omega) each
      0.0 isFinite_zero (by omega)
    exact within_of_magnitude_le finite (by omega)

end Binary64

end Chalkboard
