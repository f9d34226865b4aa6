import Chalkboard.Grid.RowOp

/-!
# The inverse of a grid

Elimination on the grid with the identity beside it. Column by column the entry of largest
magnitude is brought up, its row divided by it, and the column cleared in every other row; the
right half of the final grid is the inverse. There is none as soon as the best pivot of a column is
negligible.
-/

namespace Chalkboard

universe u

namespace Grid

variable {n k : Nat} {α : Type u} [Scalar α]

/-- Turns column `i` of the left half into a unit column, unless its pivot is negligible. -/
def reduceColumn? (epsilon : α) (g : Grid n (n + k) α) (i : Fin n) : Option (Grid n (n + k) α) :=
  let column := i.castAdd k
  let (pivotRow, magnitude) := g.pivotBelow column i
  if Scalar.negligible epsilon magnitude then
    none
  else
    let g := g.swapRows i pivotRow
    let g := g.scaleRow i (1 / g.entry i column)
    some <| ((List.finRange n).filter (· ≠ i)).foldl
      (fun g r =>
        let factor := g.entry r column
        if Scalar.eq factor 0 then g else g.addScaledRow r i (-factor))
      g

/-- The inverse of `g`, if no pivot is negligible. -/
def inverse? (epsilon : α) (g : Grid n n α) : Option (Grid n n α) :=
  ((List.finRange n).foldlM (reduceColumn? epsilon) (g.beside (identity n))).map rightBlock

end Grid

end Chalkboard
