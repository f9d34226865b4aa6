import Chalkboard.Worked.Outcome

/-!
# Elimination on a board

Elimination runs through the columns of a grid of `n` rows and `n + k` columns. In each column it
brings the entry of largest magnitude up to the diagonal, then clears the column below the diagonal
(`Board.triangularize`) or everywhere else (`Board.diagonalize`). A `Board` is the grid as it stands
and the log of the operations that led there, each with the grid it left.

An operation is logged only if it changes something: rows that are in place are not exchanged, a row
whose pivot is `1` is not divided, and a row with a zero in the column is left alone. Entries whose
value is known beforehand (`0` in a cleared place, `1` at a divided pivot) are written exactly
before the grid is logged, so no rounding residue is left there.

Elimination halts at the first column whose best pivot is negligible.
-/

namespace Chalkboard

universe u

/-- A grid and how it came about. -/
structure Board (n w : Nat) (α : Type u) where
  grid : Grid n w α
  /-- The operations so far, each with the grid it left. -/
  log : List (RowOp α × Grid n w α)

/-- An elimination that met a negligible pivot. -/
structure Halt (n w : Nat) (α : Type u) where
  column : Fin n
  /-- The best pivot in it. -/
  pivot : α
  board : Board n w α

namespace Board

variable {n w k : Nat} {α : Type u}

/-- The board after an operation that leaves the grid `g`. -/
def record (b : Board n w α) (op : RowOp α) (g : Grid n w α) : Board n w α :=
  ⟨g, b.log ++ [(op, g)]⟩

/-- The logged operations as steps. -/
def steps (b : Board n w α) : List (Step α) :=
  b.log.map fun entry => .rowOperation entry.1 entry.2.toRows

variable [Scalar α]

/-- Brings the best pivot of column `i` up to row `i`. -/
def bringUp (epsilon : α) (b : Board n (n + k) α) (i : Fin n) :
    Except (Halt n (n + k) α) (Board n (n + k) α) :=
  let column := i.castAdd k
  let (row, magnitude) := b.grid.pivotBelow column i
  if Scalar.negligible epsilon magnitude then
    .error ⟨i, b.grid.entry row column, b⟩
  else if row = i then
    .ok b
  else
    .ok (b.record (.swap i row) (b.grid.swapRows i row))

/-- Subtracts `factor` times row `i` from row `r`, which clears column `i` there, unless `factor` is
zero. -/
def clear (b : Board n (n + k) α) (i r : Fin n) (factor : α) : Board n (n + k) α :=
  if Scalar.eq factor 0 then
    b
  else
    b.record (.addScaled r i (-factor))
      ((b.grid.addScaledRow r i (-factor)).setEntry r (i.castAdd k) 0)

/-- Clears column `i` below row `i`. -/
def clearBelow (b : Board n (n + k) α) (i : Fin n) : Board n (n + k) α :=
  let column := i.castAdd k
  let pivot := b.grid.entry i column
  ((List.finRange n).filter (i < ·)).foldl
    (fun b r => b.clear i r (b.grid.entry r column / pivot)) b

/-- Divides row `i` by its pivot, unless the pivot is `1`. -/
def normalize (b : Board n (n + k) α) (i : Fin n) : Board n (n + k) α :=
  let column := i.castAdd k
  let pivot := b.grid.entry i column
  if Scalar.eq pivot 1 then
    b
  else
    b.record (.scale i (1 / pivot)) ((b.grid.scaleRow i (1 / pivot)).setEntry i column 1)

/-- Clears column `i` in all rows but row `i`. -/
def clearOthers (b : Board n (n + k) α) (i : Fin n) : Board n (n + k) α :=
  ((List.finRange n).filter (· ≠ i)).foldl
    (fun b r => b.clear i r (b.grid.entry r (i.castAdd k))) b

/-- Brings the left block to upper triangular form. -/
def triangularize (epsilon : α) (b : Board n (n + k) α) :
    Except (Halt n (n + k) α) (Board n (n + k) α) :=
  (List.finRange n).foldlM (fun b i => (b.bringUp epsilon i).map (·.clearBelow i)) b

/-- Turns the left block into the identity. -/
def diagonalize (epsilon : α) (b : Board n (n + k) α) :
    Except (Halt n (n + k) α) (Board n (n + k) α) :=
  (List.finRange n).foldlM
    (fun b i => (b.bringUp epsilon i).map fun b => (b.normalize i).clearOthers i) b

end Board

end Chalkboard
