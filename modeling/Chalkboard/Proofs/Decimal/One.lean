import Chalkboard.Proofs.Decimal.Rounding

/-!
# Products with one

Multiplying by one changes nothing: a finite number is the one nearest to itself, an infinity keeps
its sign, and what is not a number stays none. Together with `eq_one_of_beq` this is all that an
elimination has to know of one.

* `float_mul_one` — for all numbers, infinite ones and those that are none included.
* `float_one_div_one` — one is its own inverse.
-/

namespace Chalkboard

open Float.Model (UnpackedFloat)

namespace Binary64

/-- The units of one. -/
theorem units_one : units (1023 * binadeSize) = one := by
  obtain ⟨k, hk, hone⟩ := exists_one_eq
  -- the places by a name, for the power is not to be computed
  obtain ⟨places, hplaces, shift⟩ : ∃ j, j = 1022 ∧ shiftOf (1023 * binadeSize) = j :=
    ⟨1022, rfl, by decide⟩
  have mantissa : mantissaOf (1023 * binadeSize) = 2 ^ 52 := by decide
  have sum : k = 52 + places := by omega
  rw [units_eq, mantissa, shift, hone, sum, Nat.pow_eq, pow_add]

/-- The nearest number to a finite one times one. -/
theorem nearest_mul_one {p : Nat} (hp : p < infinity) : nearest (units p * one) one = p := by
  have same : units p * one * 1 = units p * one := Nat.mul_one _
  rw [nearest_congr one_units_pos Nat.one_pos same, nearest_units hp]

/-- **A product with one** is the other factor. -/
theorem float_mul_one (x : Float) : x * 1.0 = x := by
  cases h : x.isNaN with
  | true =>
    have none := unpacked_of_isNaN h
    have product : UnpackedFloat.mul .binary64 (unpacked x) (unpacked 1.0) = unpacked x := by
      rw [none]
      rfl
    show Float.ofModel (Float.Model.pack
      (UnpackedFloat.mul .binary64 (unpacked x) (unpacked 1.0))) = x
    rw [product, ofModel_pack_unpacked]
  | false =>
    obtain ⟨s, p, hp, rfl⟩ := exists_ofPattern h
    rcases Nat.lt_or_eq_of_le hp with finite | rfl
    · rw [one_eq_ofPattern, mul_ofPattern s false finite (by decide), units_one,
        nearest_mul_one finite, Bool.bne_false]
    · cases s <;> decide +kernel

theorem float_one_div_one : (1.0 / 1.0 : Float) = 1.0 := by
  decide +kernel

end Binary64

end Chalkboard
