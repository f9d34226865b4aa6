import Chalkboard.Proofs.Decimal.Pattern

/-!
# A multiple of zero

What is left of a number to which a multiple of zero is added. A finite multiple of zero is a zero
and changes nothing that is not a zero itself; any other multiple is not a number, and then the sum
is none either. So such a sum is zero exactly if the number is zero and the factor is finite.

* `add_mul_beq_zero_iff` — the statement above, for all numbers, infinite ones and those that are
  none included.
-/

namespace Chalkboard

open Float.Model (Format UnpackedFloat)
open Float.Model.UnpackedFloat

namespace Binary64

/-- What equals zero is one of the two zeros. -/
theorem exists_zero_of_beq {x : Float} (h : (x == 0.0) = true) : ∃ s, x = ofPattern s 0 := by
  have number : x.isNaN = false := (isNaN_of_compare (o := .eq) (beq_iff_eq.mp h)).1
  obtain ⟨s, p, hp, rfl⟩ := exists_ofPattern number
  rw [ofPattern_beq_zero s hp, decide_eq_true_iff] at h
  subst h
  exact ⟨s, rfl⟩

theorem unpacked_zero (s : Bool) : unpacked (ofPattern s 0) = .zero (signOf s) :=
  unpacked_ofPattern s (Nat.zero_le infinity)

theorem isFinite_eq_unpacked (x : Float) : x.isFinite = (unpacked x).isFinite := rfl

theorem unpacked_notANumber :
    unpacked (Float.ofModel (Float.Model.pack .notANumber)) = .notANumber :=
  unpacked_of_isNaN (by decide +kernel)

/-- A sum with what is not a number is none. -/
theorem add_notANumber_beq_zero {x y : Float} (h : unpacked y = .notANumber) :
    (x + y == 0.0) = false := by
  have sum : UnpackedFloat.add .binary64 (unpacked x) .notANumber = .notANumber := by
    cases unpacked x <;> rfl
  have unequal : (Float.ofModel (Float.Model.pack .notANumber) == 0.0) = false := by
    decide +kernel
  show (Float.ofModel (Float.Model.pack
    (UnpackedFloat.add .binary64 (unpacked x) (unpacked y))) == 0.0) = false
  rw [h, sum, unequal]

/-- Adding a zero keeps what is zero and what is not. -/
theorem add_zero_beq_zero {x y : Float} (h : (y == 0.0) = true) :
    (x + y == 0.0) = (x == 0.0) := by
  obtain ⟨t, rfl⟩ := exists_zero_of_beq h
  by_cases hx : (x == 0.0) = true
  · obtain ⟨s, rfl⟩ := exists_zero_of_beq hx
    rw [hx]
    -- the sign of the sum is a matter of the two signs
    cases s <;> cases t <;> decide +kernel
  · have same : UnpackedFloat.add .binary64 (unpacked x) (.zero (signOf t)) = unpacked x := by
      cases hu : unpacked x with
      | zero s =>
        have hzero : x = Float.ofModel (Float.Model.pack (.zero s)) := by
          rw [← hu, ofModel_pack_unpacked]
        rw [hzero] at hx
        cases s <;> exact absurd (by decide +kernel) hx
      | notANumber => rfl
      | infinity s => rfl
      | finite s m e pos => rfl
    show (Float.ofModel (Float.Model.pack
      (UnpackedFloat.add .binary64 (unpacked x) (unpacked (ofPattern t 0)))) == 0.0) = _
    rw [unpacked_zero, same, ofModel_pack_unpacked]

/-- A finite multiple of zero is zero; any other is not a number. -/
theorem mul_zero_cases {f y : Float} (h : (y == 0.0) = true) :
    f.isFinite = true ∧ (f * y == 0.0) = true ∨
      f.isFinite = false ∧ unpacked (f * y) = .notANumber := by
  obtain ⟨t, rfl⟩ := exists_zero_of_beq h
  have product {u : UnpackedFloat}
      (hu : UnpackedFloat.mul .binary64 (unpacked f) (.zero (signOf t)) = u) :
      f * ofPattern t 0 = Float.ofModel (Float.Model.pack u) := by
    rw [← hu, ← unpacked_zero]
    rfl
  have zeros (s : Sign) : (Float.ofModel (Float.Model.pack (.zero s)) == 0.0) = true := by
    cases s <;> decide +kernel
  rw [isFinite_eq_unpacked]
  cases hf : unpacked f with
  | notANumber =>
    refine .inr ⟨rfl, ?_⟩
    rw [product (u := .notANumber) (by rw [hf]; rfl), unpacked_notANumber]
  | infinity s =>
    refine .inr ⟨rfl, ?_⟩
    rw [product (u := .notANumber) (by rw [hf]; rfl), unpacked_notANumber]
  | zero s =>
    refine .inl ⟨rfl, ?_⟩
    rw [product (u := .zero (s * signOf t)) (by rw [hf]; rfl), zeros]
  | finite s m e pos =>
    refine .inl ⟨rfl, ?_⟩
    rw [product (u := .zero (s * signOf t)) (by rw [hf]; rfl), zeros]

/-- **Adding a multiple of zero** leaves a zero exactly of a zero, and only if the factor is
finite. -/
theorem add_mul_beq_zero_iff {x f y : Float} (h : (y == 0.0) = true) :
    (x + f * y == 0.0) = true ↔ (x == 0.0) = true ∧ f.isFinite = true := by
  rcases mul_zero_cases (f := f) h with ⟨finite, zero⟩ | ⟨infinite, none⟩
  · rw [add_zero_beq_zero zero, finite]
    exact (and_iff_left rfl).symm
  · rw [add_notANumber_beq_zero none, infinite]
    exact ⟨nofun, nofun⟩

/-- A number and its opposite are finite together. -/
theorem isFinite_neg (x : Float) : (-x).isFinite = x.isFinite := by
  cases h : x.isNaN with
  | true => rw [neg_of_isNaN h]
  | false =>
    obtain ⟨s, p, hp, rfl⟩ := exists_ofPattern h
    rw [neg_ofPattern s hp, isFinite_ofPattern s hp, isFinite_ofPattern (!s) hp]

end Binary64

end Chalkboard
