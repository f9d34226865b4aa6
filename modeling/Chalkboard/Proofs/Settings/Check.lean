import Chalkboard.Proofs.Decimal.Pattern
import Chalkboard.Settings

/-!
# Admitted settings

Settings pass the check exactly if the tolerance is a positive finite number and some size is
admitted.
-/

namespace Chalkboard

open Binary64

namespace Settings

variable {s : Settings Float}

/-- Numbers that are no more than zero, by sign and pattern. -/
theorem ofPattern_le_zero (negative : Bool) {p : Nat} (hp : p < infinity) :
    ofPattern negative p ≤ 0.0 ↔ negative = true ∨ p = 0 := by
  rw [zero_eq_ofPattern,
    le_iff_order (isNaN_ofPattern negative hp.le) (isNaN_ofPattern false (Nat.zero_le _)),
    order_ofPattern negative hp.le, order_ofPattern false (Nat.zero_le _)]
  cases negative with
  | true =>
    rw [signed, signed, if_pos rfl]
    simp
  | false =>
    rw [signed, signed, if_neg Bool.false_ne_true]
    simp

/-- **The check** passes if the tolerance is a positive finite number and some size is admitted, and
not otherwise. -/
theorem check_eq_ok_iff :
    s.check = .ok s ↔
      (∃ p, 0 < p ∧ p < infinity ∧ s.epsilon = ofPattern false p) ∧ s.maxSize ≠ 0 := by
  unfold check
  constructor
  · intro checked
    split_ifs at checked with refused none
    rw [Bool.or_eq_true, not_or, Bool.not_eq_true', Bool.not_eq_false, decide_eq_true_eq] at refused
    obtain ⟨negative, p, hp, same⟩ := exists_ofPattern_of_isFinite refused.1
    have above := refused.2
    rw [same, ofPattern_le_zero negative hp, not_or, Bool.not_eq_true] at above
    obtain ⟨rfl, pos⟩ := above
    exact ⟨⟨p, Nat.pos_of_ne_zero pos, hp, same⟩, none⟩
  · rintro ⟨⟨p, pos, hp, same⟩, size⟩
    have finite : s.epsilon.isFinite = true := by
      rw [same, isFinite_ofPattern false hp.le]
      exact decide_eq_true hp
    have above : ¬ s.epsilon ≤ 0.0 := by
      rw [same, ofPattern_le_zero false hp]
      simp only [Bool.false_eq_true, false_or]
      exact pos.ne'
    rw [if_neg, if_neg size]
    rw [finite, decide_eq_false above]
    exact Bool.false_ne_true

/-- A finite number is above zero, or it is not. -/
theorem zero_lt_iff {x : Float} (finite : x.isFinite = true) : 0.0 < x ↔ ¬ x ≤ 0.0 := by
  obtain ⟨negative, p, hp, rfl⟩ := exists_ofPattern_of_isFinite finite
  have number : (ofPattern negative p).isNaN = false := isNaN_ofPattern negative hp.le
  have zero : (0.0 : Float).isNaN = false := by
    rw [zero_eq_ofPattern]
    exact isNaN_ofPattern false (Nat.zero_le _)
  rw [lt_iff_order zero number, ← not_le, ← le_iff_order number zero]

/-- Admitted settings have a positive tolerance. -/
theorem epsilon_pos_of_check (checked : s.check = .ok s) : 0.0 < s.epsilon := by
  obtain ⟨⟨p, pos, hp, same⟩, -⟩ := check_eq_ok_iff.mp checked
  have finite : s.epsilon.isFinite = true := by
    rw [same, isFinite_ofPattern false hp.le]
    exact decide_eq_true hp
  rw [zero_lt_iff finite, same, ofPattern_le_zero false hp]
  simp only [Bool.false_eq_true, false_or]
  exact pos.ne'

end Settings

end Chalkboard
