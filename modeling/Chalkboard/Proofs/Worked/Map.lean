import Chalkboard.Proofs.Grid.Matrix
import Chalkboard.Method.Gauss
import Chalkboard.Settings
import Chalkboard.System.Basic
import Chalkboard.Worked.Outcome

/-!
# Other numbers in the same places

A system, its settings, a record of row operations and a worked solution hold numbers. Their `map`
puts other numbers in the same places and changes nothing else: no label, no row, no name. What
depends on places only, such as the exchange of rows or the choice of a column, commutes with it.
-/

namespace Chalkboard

universe u v

variable {α : Type u} {β : Type v} {m n k : Nat}

namespace RowOp

/-- The operation with another factor. -/
def map (f : α → β) : RowOp α → RowOp β
  | .swap first second => .swap first second
  | .scale row factor => .scale row (f factor)
  | .addScaled target source factor => .addScaled target source (f factor)

end RowOp

namespace CofactorTerm

/-- The term with other numbers. -/
def map (f : α → β) (t : CofactorTerm α) : CofactorTerm β :=
  { column := t.column, sign := f t.sign, entry := f t.entry, minorDet := f t.minorDet }

end CofactorTerm

namespace Equation

/-- The equation with other numbers. -/
def map (f : α → β) (e : Equation α) : Equation β :=
  { terms := e.terms.map fun t => (f t.1, t.2), constant := f e.constant }

end Equation

namespace Step

/-- The step with other numbers. -/
def map (f : α → β) : Step α → Step β
  | .system equations => .system (equations.map (Equation.map f))
  | .matrix label rows => .matrix label (rows.map (List.map f))
  | .augmented caption rows => .augmented caption (rows.map (List.map f))
  | .vector label values => .vector label (values.map f)
  | .determinant label value => .determinant label (f value)
  | .cofactorExpansion label terms value =>
    .cofactorExpansion label (terms.map (CofactorTerm.map f)) (f value)
  | .rowOperation op rows => .rowOperation (op.map f) (rows.map (List.map f))
  | .quotient name numerator denominator value =>
    .quotient name (f numerator) (f denominator) (f value)
  | .backSubstitution name row constant subtracted pivot value =>
    .backSubstitution name row (f constant) (f subtracted) (f pivot) (f value)
  | .solution assignments => .solution (assignments.map fun p => (p.1, f p.2))
  | .failure reason => .failure reason
  | .note message => .note message

end Step

namespace Singularity

/-- The reason with another number. -/
def map (f : α → β) : Singularity α → Singularity β
  | .zeroDeterminant determinant => .zeroDeterminant (f determinant)
  | .zeroPivot column pivot stage => .zeroPivot column (f pivot) stage

/-- The wording names no number. -/
theorem text_map (f : α → β) (reason : Singularity α) : (reason.map f).text = reason.text := by
  cases reason <;> rfl

end Singularity

namespace Outcome

/-- The ending with other numbers. -/
def map (f : α → β) : Outcome n α → Outcome n β
  | .solved solution steps =>
    .solved ⟨solution.unknowns, solution.values.map f⟩ (steps.map (Step.map f))
  | .stopped reason steps => .stopped (reason.map f) (steps.map (Step.map f))

theorem map_stop (f : α → β) (reason : Singularity α) (steps : List (Step α)) :
    (stop reason steps : Outcome n α).map f = stop (reason.map f) (steps.map (Step.map f)) := by
  simp only [stop, map, List.map_append, List.map_cons, List.map_nil, Step.map,
    Singularity.text_map]

theorem map_close (f : α → β) (unknowns : Vector Char n) (values : Vector α n)
    (steps : List (Step α)) :
    (close unknowns values steps).map f =
      close unknowns (values.map f) (steps.map (Step.map f)) := by
  simp only [close, map, List.map_append, List.map_cons, List.map_nil, Step.map,
    Solution.assignments, Vector.toList_map, List.zip_map_right]
  rfl

end Outcome

/-- The settings with another tolerance. -/
def Settings.map (f : α → β) (settings : Settings α) : Settings β :=
  { epsilon := f settings.epsilon, maxSize := settings.maxSize, precision := settings.precision,
    expandCofactors := settings.expandCofactors }

/-! ## Grids -/

theorem get_map (f : α → β) (x : Vector α n) (i : Fin n) : (x.map f).get i = f (x.get i) :=
  Vector.getElem_map f i.isLt

theorem setAt_map (f : α → β) (x : Vector α n) (i : Fin n) (v : α) :
    setAt (x.map f) i (f v) = (setAt x i v).map f := by
  apply ext_get
  intro j
  rw [get_setAt, get_map, get_map, get_setAt]
  split_ifs <;> rfl

namespace Grid

theorem map_swapRows (f : α → β) (g : Grid m n α) (i i' : Fin m) :
    (g.map f).swapRows i i' = (g.swapRows i i').map f := by
  apply ext_entry
  intro r j
  simp only [entry_swapRows, entry_map]
  split_ifs <;> rfl

theorem map_setEntry (f : α → β) (g : Grid m n α) (i : Fin m) (j : Fin n) (v : α) :
    (g.map f).setEntry i j (f v) = (g.setEntry i j v).map f := by
  apply ext_entry
  intro r c
  simp only [entry_setEntry, entry_map]
  split_ifs <;> rfl

theorem map_leftBlock (f : α → β) (g : Grid m (n + k) α) :
    (g.map f).leftBlock = g.leftBlock.map f := by
  apply ext_entry
  intro i j
  simp only [entry_leftBlock, entry_map]

theorem map_lastColumn (f : α → β) (g : Grid m (n + 1) α) :
    (g.map f).lastColumn = g.lastColumn.map f := by
  apply Vector.ext
  intro i hi
  rw [Vector.getElem_map, getElem_lastColumn, getElem_lastColumn, entry_map]

theorem toRows_map (f : α → β) (g : Grid m n α) : (g.map f).toRows = g.toRows.map (List.map f) := by
  simp [toRows, map, Vector.toList_map, Function.comp_def]

theorem row_map (f : α → β) (g : Grid m n α) (i : Fin m) : (g.map f).row i = (g.row i).map f := by
  apply Vector.ext
  intro j hj
  rw [Vector.getElem_map, getElem_row, getElem_row, entry_map]

end Grid

/-! ## Systems -/

namespace LinearSystem

/-- The system with other numbers. -/
def map (f : α → β) (s : LinearSystem n α) : LinearSystem n β :=
  { unknowns := s.unknowns, a := s.a.map f, b := s.b.map f }

theorem augmented_map (f : α → β) (s : LinearSystem n α) :
    (s.map f).augmented = s.augmented.map f := by
  apply Grid.ext_entry
  intro i j
  rw [Grid.entry_map]
  refine Fin.lastCases ?_ (fun j => ?_) j
  · simp [augmented, map]
  · simp [augmented, map]

theorem equations_map (f : α → β) (s : LinearSystem n α) :
    (s.map f).equations = s.equations.map (Equation.map f) := by
  rw [equations, equations, List.map_map]
  refine List.map_congr_left fun i _ => ?_
  have hrow : ((s.a.map f).row i).toList = (s.a.row i).toList.map f := by
    rw [Grid.row_map, Vector.toList_map]
  simp only [equation, map, Function.comp_apply, Equation.map, hrow, get_map, List.zip_map_left]
  rfl

theorem eliminationOpening_map (f : α → β) (s : LinearSystem n α) :
    (s.map f).eliminationOpening = s.eliminationOpening.map (Step.map f) := by
  simp only [eliminationOpening, equations_map, augmented_map, Grid.toRows_map, List.map_cons,
    List.map_nil, Step.map]

end LinearSystem

/-! ## Boards and logs -/

namespace Board

/-- The board with other numbers. -/
def map (f : α → β) (b : Board m n α) : Board m n β :=
  { grid := b.grid.map f, log := b.log.map fun entry => (entry.1.map f, entry.2.map f) }

theorem map_record (f : α → β) (b : Board m n α) (op : RowOp α) (g : Grid m n α) :
    (b.map f).record (op.map f) (g.map f) = (b.record op g).map f := by
  simp only [record, map, List.map_append, List.map_cons, List.map_nil]

theorem steps_map (f : α → β) (b : Board m n α) : (b.map f).steps = b.steps.map (Step.map f) := by
  simp only [steps, map, List.map_map]
  refine List.map_congr_left fun entry _ => ?_
  simp only [Function.comp_apply, Step.map, Grid.toRows_map]

end Board

/-- The halt with other numbers. -/
def Halt.map (f : α → β) (h : Halt m n α) : Halt m n β :=
  { column := h.column, pivot := f h.pivot, board := h.board.map f }

/-- The row of a back substitution with other numbers. -/
def Substitution.map (f : α → β) (r : Substitution n α) : Substitution n β :=
  { row := r.row, constant := f r.constant, subtracted := f r.subtracted, pivot := f r.pivot,
    value := f r.value }

theorem LinearSystem.substitutionSteps_map (f : α → β) (s : LinearSystem n α)
    (log : List (Substitution n α)) :
    (log.map (Substitution.map f)).map (s.map f).substitutionStep =
      (log.map s.substitutionStep).map (Step.map f) := by
  rw [List.map_map, List.map_map]
  rfl

/-- The halt with other numbers. -/
def SubstitutionHalt.map (f : α → β) (h : SubstitutionHalt n α) : SubstitutionHalt n β :=
  { row := h.row, pivot := f h.pivot, log := h.log.map (Substitution.map f) }

end Chalkboard
