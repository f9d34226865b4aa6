import Chalkboard.Proofs.Decimal.Reading

/-!
# The text of an entry

An entry of a matrix is written with digits, letters, a point and a minus, whatever number it is. Its
text tells the number, except for the sign of zero and for what a number that is none looks like.

* `told` — the number that the text of an entry tells.
* `readFloat?_valueText` — it is read from the text.
-/

namespace Chalkboard

open Binary64

/-! ## Characters -/

/-- Characters of entries. -/
def isEntryChar (c : Char) : Bool :=
  c.isAlphanum || c = '.' || c = '-'

theorem isEntryChar_of_isDigit {c : Char} (h : c.isDigit) : isEntryChar c = true := by
  rw [isEntryChar, Char.isAlphanum, h, Bool.or_true, Bool.true_or, Bool.true_or]

theorem IsNumeral.all_isEntryChar {cs : List Char} (h : IsNumeral cs) :
    cs.all isEntryChar = true := by
  refine List.all_eq_true.mpr fun c hc => ?_
  rcases h.digit_or_point c hc with digit | rfl
  · exact isEntryChar_of_isDigit digit
  · rfl

theorem all_isEntryChar_plainText (x : Float) : (plainText x).toList.all isEntryChar = true := by
  have signed (negative : Bool) {w : String} (h : w.toList.all isEntryChar = true) :
      (signText negative ++ w).toList.all isEntryChar = true := by
    have sign : (signText negative).toList.all isEntryChar = true := by
      cases negative <;> decide
    rw [String.toList_append, List.all_append, sign, h]
    rfl
  unfold plainText
  split
  · decide
  · exact signed _ (by decide)
  · exact signed _ (by decide)
  · next units _ _ =>
    obtain ⟨numeral, -⟩ := Decimal.read?_positional (Decimal.shortest .up units)
    refine signed _ ?_
    rw [String.toList_ofList]
    exact numeral.all_isEntryChar

/-- **All characters of an entry** are characters of entries. -/
theorem all_isEntryChar_valueText (x : Float) : (valueText x).toList.all isEntryChar = true := by
  unfold valueText
  split_ifs
  · decide
  · exact all_isEntryChar_plainText x

/-! ## Numbers -/

/-- **`told x`** — what the text of an entry tells of the number `x`: one zero, and one number that
is none. -/
def told (x : Float) : Float :=
  if x.isNaN then 0.0 / 0.0 else plusZero x

theorem told_of_isFinite {x : Float} (h : x.isFinite = true) : told x = plusZero x := by
  obtain ⟨negative, p, hp, rfl⟩ := exists_ofPattern_of_isFinite h
  rw [told, isNaN_ofPattern negative hp.le]
  exact if_neg Bool.false_ne_true

/-- What is not a number equals no zero. -/
theorem beq_zero_of_isNaN {x : Float} (h : x.isNaN = true) : (x == 0.0) = false := by
  by_contra zero
  rw [Bool.not_eq_false] at zero
  have number := (isNaN_of_compare (o := .eq) (beq_iff_eq.mp zero)).1
  rw [h] at number
  exact nomatch number

theorem valueText_of_isNaN {x : Float} (h : x.isNaN = true) : valueText x = "NaN" := by
  have value : valueOf x = .nan := by
    have large : ¬ x.toBits.toNat % signBit ≤ infinity := by
      intro small
      rw [eq_ofPattern small, isNaN_ofPattern _ small] at h
      exact nomatch h
    unfold valueOf
    simp only
    rw [if_neg (fun lt => large lt.le), if_neg (fun eq => large eq.le)]
  rw [valueText, beq_zero_of_isNaN h, if_neg Bool.false_ne_true, plainText, value]

theorem valueText_infinity (negative : Bool) :
    valueText (ofPattern negative infinity) = infinityText negative := by
  have nonzero : (ofPattern negative infinity == 0.0) = false := by
    rw [ofPattern_beq_zero negative le_rfl]
    decide
  rw [valueText, nonzero, if_neg Bool.false_ne_true, plainText,
    valueOf_ofPattern negative le_rfl, if_neg (lt_irrefl infinity)]

theorem told_infinity (negative : Bool) :
    told (ofPattern negative infinity) = ofPattern negative infinity := by
  rw [told, isNaN_ofPattern negative le_rfl, if_neg Bool.false_ne_true, plusZero,
    ofPattern_beq_zero negative le_rfl]
  rfl

/-- **An entry is read from its text.** -/
theorem readFloat?_valueText (x : Float) : readFloat? (valueText x) = some (told x) := by
  cases number : x.isNaN with
  | true =>
    have word : readFloat? "NaN" = some (0.0 / 0.0) := by decide +kernel
    rw [valueText_of_isNaN number, word, told, number, if_pos rfl]
  | false =>
    obtain ⟨negative, p, hp, rfl⟩ := exists_ofPattern number
    rcases Nat.lt_or_eq_of_le hp with finite | rfl
    · have isFinite : (ofPattern negative p).isFinite = true := by
        rw [isFinite_ofPattern negative hp]
        exact decide_eq_true finite
      have read := readFinite?_valueText isFinite
      rw [readFinite?, Option.filter_eq_some_iff] at read
      rw [told_of_isFinite isFinite]
      exact read.1
    · rw [valueText_infinity, told_infinity]
      cases negative with
      | true => decide +kernel
      | false => decide +kernel

end Chalkboard
