import Chalkboard.Proofs.Worked.Map
import Chalkboard.Worked.Text

/-!
# The data of a step

A step holds its equations as coefficients and its augmented matrices with a caption, for its line
needs both. What it tells beside the line is less: the equations as texts, and the numbers of the
matrix. `StepData` is what is told, with numbers of any type.
-/

namespace Chalkboard

universe u

/-- What a step tells beside its line. -/
inductive StepData (β : Type u) where
  | system (equations : List String)
  | matrix (label : String) (rows : List (List β))
  /-- A matrix whose last column is the right side. -/
  | augmented (rows : List (List β))
  | vector (label : String) (values : List β)
  | determinant (label : String) (value : β)
  | cofactorExpansion (label : String) (terms : List (CofactorTerm β)) (value : β)
  /-- A row operation and the augmented matrix that it leaves. -/
  | rowOperation (op : RowOp β) (rows : List (List β))
  | quotient (name : Char) (numerator denominator value : β)
  | backSubstitution (name : Char) (row : Nat) (constant subtracted pivot value : β)
  | solution (assignments : List (Char × β))
  | failure (reason : String)
  | note (message : String)

/-- What a step tells, with its numbers told by `f`. -/
def Step.data {β : Type u} (f : Float → β) : Step Float → StepData β
  | .system equations => .system (equations.map Equation.text)
  | .matrix label rows => .matrix label (rows.map (List.map f))
  | .augmented _ rows => .augmented (rows.map (List.map f))
  | .vector label values => .vector label (values.map f)
  | .determinant label value => .determinant label (f value)
  | .cofactorExpansion label terms value =>
    .cofactorExpansion label (terms.map (CofactorTerm.map f)) (f value)
  | .rowOperation op rows => .rowOperation (op.map f) (rows.map (List.map f))
  | .quotient name numerator denominator value =>
    .quotient name (f numerator) (f denominator) (f value)
  | .backSubstitution name row constant subtracted pivot value =>
    .backSubstitution name row (f constant) (f subtracted) (f pivot) (f value)
  | .solution assignments => .solution (assignments.map fun p => (p.1, f p.2))
  | .failure reason => .failure reason
  | .note message => .note message

end Chalkboard
