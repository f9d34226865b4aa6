import Chalkboard.Grid.Basic

/-!
# Determinants by cofactor expansion

A determinant is expanded along its top row, as on a board: sizes up to two by their formulas, and
from size three on by the terms `± entry · det(minor)`, added from left to right.

`Grid.cofactors` lists those terms for one level of the expansion, at every size from one on.
-/

namespace Chalkboard

universe u

/-- The `i`-th index that is not `p`. -/
def skip {n : Nat} (p : Fin (n + 1)) (i : Fin n) : Fin (n + 1) :=
  if i.castSucc < p then i.castSucc else i.succ

namespace Grid

variable {m n : Nat} {α : Type u}

/-- `g` without row `i` and without column `j`. -/
def minor (g : Grid (m + 1) (n + 1) α) (i : Fin (m + 1)) (j : Fin (n + 1)) : Grid m n α :=
  ofFn fun i' j' => g.entry (skip i i') (skip j j')

@[simp] theorem entry_minor (g : Grid (m + 1) (n + 1) α) (i : Fin (m + 1)) (j : Fin (n + 1))
    (i' : Fin m) (j' : Fin n) : (g.minor i j).entry i' j' = g.entry (skip i i') (skip j j') := by
  simp [minor]

variable [Scalar α]

/-- The sign of column `j` in an expansion along the top row. -/
def cofactorSign (j : Nat) : α :=
  if j % 2 = 0 then 1 else -1

/-- The determinant, by expansion along the top row. -/
def det : {n : Nat} → Grid n n α → α
  | 0, _ => 1
  | 1, g => g.entry 0 0
  | 2, g => g.entry 0 0 * g.entry 1 1 - g.entry 0 1 * g.entry 1 0
  | n + 3, g =>
    Scalar.sum ((List.finRange (n + 3)).map fun (j : Fin (n + 3)) =>
      cofactorSign j * g.entry 0 j * det (g.minor 0 j))

end Grid

/-- One term of an expansion along the top row. -/
structure CofactorTerm (α : Type u) where
  /-- Column of the expanded entry. -/
  column : Nat
  /-- `1` or `-1`. -/
  sign : α
  entry : α
  /-- Determinant of the minor left by the entry's row and column. -/
  minorDet : α
deriving DecidableEq

/-- What a term contributes to the determinant. -/
def CofactorTerm.value {α : Type u} [Mul α] (t : CofactorTerm α) : α :=
  t.sign * t.entry * t.minorDet

namespace Grid

variable {n : Nat} {α : Type u} [Scalar α]

/-- The terms of the expansion along the top row, from the left. -/
def cofactors : {n : Nat} → Grid n n α → List (CofactorTerm α)
  | 0, _ => []
  | n + 1, g => (List.finRange (n + 1)).map fun (j : Fin (n + 1)) =>
      { column := j, sign := cofactorSign j, entry := g.entry 0 j, minorDet := (g.minor 0 j).det }

/-- From size three on, the terms add up to the determinant, in their order. -/
theorem det_eq_sum_cofactors (g : Grid (n + 3) (n + 3) α) :
    g.det = Scalar.sum (g.cofactors.map CofactorTerm.value) := by
  simp only [det, cofactors, List.map_map]
  rfl

end Grid

end Chalkboard
