import Chalkboard.Equation.Basic
import Chalkboard.Grid.Determinant
import Chalkboard.Grid.RowOp

/-!
# The steps of a worked solution

A method writes down what it does, one `Step` after another, each with all its numbers. How a step
reads on a board is not part of it: see `Step.text`.
-/

namespace Chalkboard

universe u

/-- One statement of a worked solution. -/
inductive Step (α : Type u) where
  | system (equations : List (Equation α))
  | matrix (label : String) (rows : List (List α))
  /-- A matrix whose last column is the right side. -/
  | augmented (caption : String) (rows : List (List α))
  | vector (label : String) (values : List α)
  | determinant (label : String) (value : α)
  | cofactorExpansion (label : String) (terms : List (CofactorTerm α)) (value : α)
  /-- A row operation and the augmented matrix that it leaves. -/
  | rowOperation (op : RowOp α) (rows : List (List α))
  | quotient (name : Char) (numerator denominator value : α)
  /-- An unknown from a row of a triangular system: `value = (constant - subtracted) / pivot`. -/
  | backSubstitution (name : Char) (row : Nat) (constant subtracted pivot value : α)
  | solution (assignments : List (Char × α))
  | failure (reason : String)
  | note (message : String)

namespace Step

/-- The row operation of a step. -/
def rowOp? {α : Type u} : Step α → Option (RowOp α)
  | .rowOperation op _ => some op
  | _ => none

/-- A determinant as a step: with its expansion from size three on, if that is wanted. -/
def ofDet {α : Type u} [Scalar α] {n : Nat} (expand : Bool) (label : String) (g : Grid n n α) :
    Step α :=
  if expand && 3 ≤ n then .cofactorExpansion label g.cofactors g.det else .determinant label g.det

end Step

end Chalkboard
