import Chalkboard.Grid.Basic

/-!
# Row operations and the pivot search

The three elementary operations as data. A `RowOp` names rows by plain numbers, counted from the
top and from zero, so a record can be kept and read apart from the grid that it acted on;
`RowOp.apply` carries it out. A record that names a row which the grid does not have changes
nothing.

`Grid.pivotBelow` scans a column downwards for the entry of largest magnitude; of equal ones it
keeps the first.
-/

namespace Chalkboard

universe u

/-- One elementary row operation. -/
inductive RowOp (α : Type u) where
  | swap (first second : Nat)
  | scale (row : Nat) (factor : α)
  /-- Add a multiple of the row `source` to the row `target`. -/
  | addScaled (target source : Nat) (factor : α)
deriving DecidableEq

namespace RowOp

variable {m n : Nat} {α : Type u}

/-- The grid after the operation. -/
def apply [Add α] [Mul α] (op : RowOp α) (g : Grid m n α) : Grid m n α :=
  match op with
  | .swap first second =>
    if h : first < m ∧ second < m then g.swapRows ⟨first, h.1⟩ ⟨second, h.2⟩ else g
  | .scale row factor =>
    if h : row < m then g.scaleRow ⟨row, h⟩ factor else g
  | .addScaled target source factor =>
    if h : target < m ∧ source < m then g.addScaledRow ⟨target, h.1⟩ ⟨source, h.2⟩ factor else g

@[simp] theorem apply_swap [Add α] [Mul α] (g : Grid m n α) (i j : Fin m) :
    (RowOp.swap i j : RowOp α).apply g = g.swapRows i j := by
  simp [apply]

@[simp] theorem apply_scale [Add α] [Mul α] (g : Grid m n α) (i : Fin m) (factor : α) :
    (RowOp.scale i factor).apply g = g.scaleRow i factor := by
  simp [apply]

@[simp] theorem apply_addScaled [Add α] [Mul α] (g : Grid m n α) (i j : Fin m) (factor : α) :
    (RowOp.addScaled i j factor).apply g = g.addScaledRow i j factor := by
  simp [apply]

end RowOp

namespace Grid

variable {m n : Nat} {α : Type u} [Scalar α]

/-- The row at or below `top` whose entry in column `col` has the largest magnitude, the first of
them if several have it, together with that magnitude. -/
def pivotBelow (g : Grid m n α) (col : Fin n) (top : Fin m) : Fin m × α :=
  ((List.finRange m).filter (top < ·)).foldl
    (fun best i =>
      let magnitude := Scalar.abs (g.entry i col)
      if Scalar.lt best.2 magnitude then (i, magnitude) else best)
    (top, Scalar.abs (g.entry top col))

end Grid

end Chalkboard
