import Chalkboard.Grid.Basic

/-!
# Back substitution

The unknowns of an upper triangular system, from the last row up: each row gives its unknown from
those below it. Every row tests its pivot again before it divides by it.
-/

namespace Chalkboard

universe u

/-- One row of a back substitution: `value = (constant - subtracted) / pivot`. -/
structure Substitution (n : Nat) (α : Type u) where
  /-- The row, and the column of its unknown. -/
  row : Fin n
  constant : α
  /-- What the unknowns below contribute. -/
  subtracted : α
  pivot : α
  value : α

/-- A back substitution that met a negligible pivot. -/
structure SubstitutionHalt (n : Nat) (α : Type u) where
  row : Fin n
  pivot : α
  /-- The rows done before it. -/
  log : List (Substitution n α)

namespace Grid

variable {n : Nat} {α : Type u} [Scalar α]

/-- What the unknowns behind column `i` contribute to row `i`. -/
def tailSum (u : Grid n n α) (x : Vector α n) (i : Fin n) : α :=
  Scalar.sum (((List.finRange n).filter (i < ·)).map fun j => u.entry i j * x.get j)

/-- One row of a back substitution. -/
def substituteRow (epsilon : α) (u : Grid n n α) (b : Vector α n)
    (state : Vector α n × List (Substitution n α)) (i : Fin n) :
    Except (SubstitutionHalt n α) (Vector α n × List (Substitution n α)) :=
  let (x, log) := state
  let pivot := u.entry i i
  if Scalar.negligible epsilon pivot then
    .error ⟨i, pivot, log⟩
  else
    let subtracted := u.tailSum x i
    let value := (b.get i - subtracted) / pivot
    .ok (setAt x i value, log ++ [⟨i, b.get i, subtracted, pivot, value⟩])

/-- The solution of the upper triangular system `u · x = b`, and the rows in the order in which they
were done. -/
def backSubstitute (epsilon : α) (u : Grid n n α) (b : Vector α n) :
    Except (SubstitutionHalt n α) (Vector α n × List (Substitution n α)) :=
  (List.finRange n).reverse.foldlM (substituteRow epsilon u b) (Vector.replicate n 0, [])

end Grid

end Chalkboard
