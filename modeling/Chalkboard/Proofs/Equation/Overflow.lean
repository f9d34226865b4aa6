import Chalkboard.Proofs.Decimal.Total
import Chalkboard.Proofs.Equation.Printing

/-!
# Overflow of coefficients

What is written in front of a letter is finite, and so is the constant: reading makes sure of both.
A coefficient is the total of what stands in front of its letter, and of that total nothing makes
sure. It is a number, and finite for a letter that occurs once, or as long as the magnitudes of the
numbers together leave a place at the top of the range (`read_totals`); but two terms near the
largest number have an infinite sum (`read_overflow`).
-/

namespace Chalkboard

theorem isFinite_of_readFinite? {text : String} {v : Float} (h : readFinite? text = some v) :
    v.isFinite = true :=
  (Option.filter_eq_some_iff.mp h).2

theorem IsCoefficient.isFinite {cs : List Char} {v : Float} (h : IsCoefficient cs v) :
    v.isFinite = true := by
  cases h with
  | omitted => exact Binary64.within_one.isFinite
  | numeral _ hv => exact isFinite_of_readFinite? hv

/-- **What a term adds is finite.** -/
theorem IsTerm.isFinite {unknowns : List Char} {t : WrittenTerm} {x : Float}
    (h : IsTerm unknowns t x) : x.isFinite = true := by
  obtain ⟨v, coefficient, rfl⟩ := h.coefficient
  split_ifs
  · rw [Binary64.isFinite_neg]
    exact coefficient.isFinite
  · exact coefficient.isFinite

namespace Equation

variable {unknowns : List Char}

/-- The numbers in front of the letter of unknown `j`, from left to right. -/
def addends (unknowns : List Char) (terms : List (WrittenTerm × Float)) (j : Nat) : List Float :=
  (terms.filter fun p => unknowns.idxOf p.1.letter = j).map (·.2)

theorem addUp_eq_foldl (terms : List (WrittenTerm × Float)) (j : Nat) (start : Float) :
    addUp unknowns terms j start = (addends unknowns terms j).foldl (· + ·) start := rfl

theorem isFinite_of_mem_addends {left : List Char} {terms : List (WrittenTerm × Float)}
    (h : IsSum unknowns left terms) (j : Nat) :
    ∀ x ∈ addends unknowns terms j, x.isFinite = true := by
  intro x hx
  obtain ⟨p, hp, rfl⟩ := List.mem_map.mp hx
  exact (h.each p (List.mem_of_mem_filter hp)).isFinite

/-- **What is read is a row of totals and a finite constant.** -/
theorem read_totals {text : String} {row : Vector Float unknowns.length} {constant : Float}
    (h : read unknowns text = .ok (row, constant)) :
    constant.isFinite = true ∧
      ∃ left right terms, text.toList.filter (!isBlank ·) = left ++ '=' :: right ∧
        IsSum unknowns left terms ∧
        ∀ j : Fin unknowns.length, Binary64.IsTotal (addends unknowns terms j) (row.get j) := by
  obtain ⟨left, right, htext, ne, -, -, hleft, hright⟩ := exists_sides_of_read h
  obtain ⟨terms, sum, hrow⟩ := (readLeft_eq_ok_iff ne).mp hleft
  refine ⟨isFinite_of_readFinite? (readRight_eq_ok_iff.mp hright), left, right, terms, htext, sum,
    fun j => ?_⟩
  rw [hrow, addUp_eq_foldl]
  exact Binary64.isTotal_foldl_add (isFinite_of_mem_addends sum j)

theorem read_totals_sample :
    read ['x'] "2x + 3x = 10" = .ok (#v[5.0], 10.0) ∧ (10.0 : Float).isFinite = true ∧
      ∃ left right terms, "2x + 3x = 10".toList.filter (!isBlank ·) = left ++ '=' :: right ∧
        IsSum ['x'] left terms ∧
        ∀ j : Fin 1, Binary64.IsTotal (addends ['x'] terms j) ((#v[5.0] : Vector Float 1).get j) :=
  have sample : read ['x'] "2x + 3x = 10" = .ok (#v[5.0], 10.0) := by decide +kernel
  ⟨sample, read_totals sample⟩

/-- Twice the same term, with a coefficient close to the largest number. -/
def steep : Equation Float :=
  ⟨[(1e308, 'x'), (1e308, 'x')], 1.0⟩

theorem read_steep : read ['x'] steep.text = .ok (#v[1e308 + 1e308], 1.0) := by
  have entries (j : Fin 1) : (#v[1e308 + 1e308] : Vector Float 1).get j =
      addUp ['x'] (written true (shown steep.terms)) j 0.0 := by
    rw [addUp_written]
    revert j
    decide +kernel
  have constant : plusZero 1.0 = 1.0 := by decide +kernel
  have run : read ['x'] steep.text = .ok (#v[1e308 + 1e308], plusZero 1.0) :=
    read_text_of_addUp (by decide) (by decide) (by decide +kernel) (by decide +kernel)
      ⟨(1e308, 'x'), List.mem_cons_self, by decide +kernel⟩ entries
  rwa [constant] at run

/-- **A coefficient can be infinite**, though all that is written is finite. -/
theorem read_overflow :
    ¬ ∀ (unknowns : List Char) (text : String) (row : Vector Float unknowns.length)
        (constant : Float), read unknowns text = .ok (row, constant) →
          (∀ j : Fin unknowns.length, (row.get j).isFinite = true) ∧ constant.isFinite = true := by
  intro finite
  have entry : (1e308 + 1e308 : Float).isFinite = true := (finite _ _ _ _ read_steep).1 0
  have infinite : (1e308 + 1e308 : Float).isFinite = false := by decide +kernel
  exact Bool.false_ne_true (infinite.symm.trans entry)

end Equation

end Chalkboard
