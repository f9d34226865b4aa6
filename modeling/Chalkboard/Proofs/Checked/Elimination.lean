import Chalkboard.Method.Elimination
import Chalkboard.Proofs.Checked.Substitution
import Chalkboard.Proofs.Method.Frame

/-!
# Elimination with checked access

The two eliminations on a table of any shape, with the number of unknowns beside it: the pivot
search, the exchange, the division of a row and the clearing of a column. On the board of a system
every entry is there, and each step does what its counterpart does.

* `Slate` — a table and the steps so far.
* `Board.triangularize?_slate`, `Board.diagonalize?_slate` — the eliminations.
-/

namespace Chalkboard

universe u

variable {m n w k : Nat} {α : Type u}

/-- A table as it stands, and the steps that led there. -/
structure Slate (α : Type u) where
  table : Table α
  steps : List (Step α)

/-- The slate after an operation that leaves the table `t`. -/
def Slate.record (b : Slate α) (op : RowOp α) (t : Table α) : Slate α :=
  ⟨t, b.steps ++ [.rowOperation op t.toRows]⟩

/-- A board as a slate. -/
def Board.slate (b : Board n w α) : Slate α :=
  ⟨b.grid.table, b.steps⟩

/-- What a method returns that is left with a halt of its elimination. -/
def Halt.refusal (halt : Halt n w α) : Refusal α :=
  (.zeroPivot halt.column halt.pivot .elimination, halt.board.steps)

@[simp] theorem Board.slate_record (b : Board n w α) (op : RowOp α) (g : Grid n w α) :
    (b.record op g).slate = b.slate.record op g.table := by
  rw [slate, steps_record]
  rfl

variable [Scalar α]

/-! ## One column -/

/-- The row from `top` on whose entry in column `col` has the largest magnitude. -/
def Table.findPivot? (t : Table α) (col top : Nat) : Option (Nat × α) := do
  let first ← t.entry? top col
  (List.range' (top + 1) (t.height - (top + 1))).foldlM
    (fun best i => do
      let magnitude := Scalar.abs (← t.entry? i col)
      return if Scalar.lt best.2 magnitude then (i, magnitude) else best)
    (top, Scalar.abs first)

theorem Grid.findPivot?_table (g : Grid m n α) (col : Fin n) (top : Fin m) :
    g.table.findPivot? col top =
      some (((g.pivotBelow col top).1 : Nat), (g.pivotBelow col top).2) := by
  rw [Table.findPivot?, entry?_table, height_table, above_eq_map, Option.bind_eq_bind,
    Option.bind_some]
  refine foldlM_map_val (fun p : Fin m × α => ((p.1 : Nat), p.2)) (fun best i => ?_) _
    (top, Scalar.abs (g.entry top col))
  rw [entry?_table, Option.bind_some]
  cases larger : Scalar.lt best.2 (Scalar.abs (g.entry i col)) with
  | true => simp only [larger, if_true]; rfl
  | false => simp only [larger, Bool.false_eq_true, if_false]; rfl

namespace Slate

/-- Brings the best pivot of column `i` up to row `i`. -/
def bringUp? (epsilon : α) (b : Slate α) (i : Nat) : Option (Except (Refusal α) (Slate α)) := do
  let (row, magnitude) ← b.table.findPivot? i i
  if Scalar.negligible epsilon magnitude then
    return .error (.zeroPivot i (← b.table.entry? row i) .elimination, b.steps)
  else if row = i then
    return .ok b
  else
    return .ok (b.record (.swap i row) (← b.table.swapRows? i row))

/-- Clears column `i` in row `r`, unless `factor` is zero. -/
def clear? (b : Slate α) (i r : Nat) (factor : α) : Option (Slate α) :=
  if Scalar.eq factor 0 then
    some b
  else do
    let t ← b.table.addScaledRow? r i (-factor)
    return b.record (.addScaled r i (-factor)) (← t.setEntry? r i 0)

/-- Clears column `i` below row `i`. -/
def clearBelow? (n : Nat) (b : Slate α) (i : Nat) : Option (Slate α) := do
  let pivot ← b.table.entry? i i
  (List.range' (i + 1) (n - (i + 1))).foldlM
    (fun b r => do b.clear? i r ((← b.table.entry? r i) / pivot)) b

/-- Divides row `i` by its pivot, unless the pivot is `1`. -/
def normalize? (b : Slate α) (i : Nat) : Option (Slate α) := do
  let pivot ← b.table.entry? i i
  if Scalar.eq pivot 1 then
    return b
  else
    let t ← b.table.scaleRow? i (1 / pivot)
    return b.record (.scale i (1 / pivot)) (← t.setEntry? i i 1)

/-- Clears column `i` in all rows but row `i`. -/
def clearOthers? (n : Nat) (b : Slate α) (i : Nat) : Option (Slate α) :=
  (List.range n).foldlM
    (fun b r => do
      let factor ← b.table.entry? r i
      if r = i then return b else b.clear? i r factor) b

/-- Brings the first `n` columns to upper triangular form. -/
def triangularize? (n : Nat) (epsilon : α) (b : Slate α) : Option (Except (Refusal α) (Slate α)) :=
  loop? (fun b i => proceed? (b.bringUp? epsilon i) fun b => b.clearBelow? n i) (List.range n) b

/-- Turns the first `n` columns into the identity. -/
def diagonalize? (n : Nat) (epsilon : α) (b : Slate α) : Option (Except (Refusal α) (Slate α)) :=
  loop? (fun b i => proceed? (b.bringUp? epsilon i) fun b => do (← b.normalize? i).clearOthers? n i)
    (List.range n) b

end Slate

/-! ## On boards -/

namespace Board

variable (b : Board n (n + k) α) (i : Fin n)

omit [Scalar α] in
theorem entry?_slate (r : Fin n) :
    b.slate.table.entry? r i = some (b.grid.entry r (i.castAdd k)) :=
  b.grid.entry?_table r (i.castAdd k)

theorem bringUp?_slate (epsilon : α) :
    b.slate.bringUp? epsilon i = some (mapEndings Halt.refusal slate (b.bringUp epsilon i)) := by
  have find : b.slate.table.findPivot? i i = some
      (((b.grid.pivotBelow (i.castAdd k) i).1 : Nat), (b.grid.pivotBelow (i.castAdd k) i).2) :=
    b.grid.findPivot?_table (i.castAdd k) i
  simp only [Slate.bringUp?, find, bringUp, Option.bind_eq_bind, Option.bind_some]
  generalize b.grid.pivotBelow (i.castAdd k) i = best
  cases refused : Scalar.negligible epsilon best.2 with
  | true =>
    simp only [if_true, b.entry?_slate i best.1, Option.bind_some]
    rfl
  | false =>
    simp only [Bool.false_eq_true, if_false, Fin.val_inj]
    by_cases inPlace : best.1 = i
    · rw [if_pos inPlace, if_pos inPlace]
      rfl
    · have swap : b.slate.table.swapRows? i best.1 = some (b.grid.swapRows i best.1).table :=
        b.grid.swapRows?_table i best.1
      rw [if_neg inPlace, if_neg inPlace, swap, Option.bind_some, ← slate_record]
      rfl

theorem clear?_slate (r : Fin n) (factor : α) :
    b.slate.clear? i r factor = some (b.clear i r factor).slate := by
  rw [Slate.clear?, clear]
  cases zero : Scalar.eq factor 0 with
  | true => rfl
  | false =>
    have add : b.slate.table.addScaledRow? r i (-factor) =
        some (b.grid.addScaledRow r i (-factor)).table := b.grid.addScaledRow?_table r i (-factor)
    have set := (b.grid.addScaledRow r i (-factor)).setEntry?_table r (i.castAdd k) 0
    rw [Fin.val_castAdd] at set
    simp only [Bool.false_eq_true, if_false, add, set, Option.bind_eq_bind, Option.bind_some,
      slate_record]
    rfl

theorem clearBelow?_slate : b.slate.clearBelow? n i = some (b.clearBelow i).slate := by
  rw [Slate.clearBelow?, b.entry?_slate i i, above_eq_map]
  refine foldlM_map_val slate (fun b r => ?_) _ b
  rw [b.entry?_slate i r]
  exact b.clear?_slate i r _

theorem normalize?_slate : b.slate.normalize? i = some (b.normalize i).slate := by
  simp only [Slate.normalize?, b.entry?_slate i i, normalize, Option.bind_eq_bind, Option.bind_some]
  generalize b.grid.entry i (i.castAdd k) = pivot
  cases one : Scalar.eq pivot 1 with
  | true => rfl
  | false =>
    have scale : b.slate.table.scaleRow? i (1 / pivot) = some (b.grid.scaleRow i (1 / pivot)).table :=
      b.grid.scaleRow?_table i (1 / pivot)
    have set := (b.grid.scaleRow i (1 / pivot)).setEntry?_table i (i.castAdd k) 1
    rw [Fin.val_castAdd] at set
    simp only [Bool.false_eq_true, if_false, scale, set, Option.bind_some, slate_record]
    rfl

theorem clearOthers?_slate : b.slate.clearOthers? n i = some (b.clearOthers i).slate := by
  rw [Slate.clearOthers?, range_eq_map, clearOthers, List.foldl_filter]
  refine foldlM_map_val slate (fun b r => ?_) _ b
  rw [b.entry?_slate i r, Option.bind_eq_bind, Option.bind_some]
  by_cases own : r = i
  · rw [if_pos (congrArg Fin.val own), if_neg (by simpa using own)]
    rfl
  · rw [if_neg (fun e => own (Fin.ext e)), if_pos (by simpa using own)]
    exact b.clear?_slate i r _

/-- **The way to a triangular form** takes no entry that is not there. -/
theorem triangularize?_slate (epsilon : α) :
    b.slate.triangularize? n epsilon =
      some (mapEndings Halt.refusal slate (b.triangularize epsilon)) := by
  rw [Slate.triangularize?, range_eq_map]
  exact loop?_map_val Halt.refusal slate
    (fun b i => proceed?_eq (b.bringUp?_slate i epsilon) fun b => b.clearBelow?_slate i) _ b

/-- **The way to the identity** takes no entry that is not there. -/
theorem diagonalize?_slate (epsilon : α) :
    b.slate.diagonalize? n epsilon =
      some (mapEndings Halt.refusal slate (b.diagonalize epsilon)) := by
  rw [Slate.diagonalize?, range_eq_map]
  refine loop?_map_val Halt.refusal slate
    (fun b i => proceed?_eq (b.bringUp?_slate i epsilon) fun b => ?_) _ b
  rw [b.normalize?_slate i, Option.bind_eq_bind, Option.bind_some]
  exact (b.normalize i).clearOthers?_slate i

end Board

end Chalkboard
