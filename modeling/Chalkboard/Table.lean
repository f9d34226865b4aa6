import Chalkboard.Grid.Determinant
import Chalkboard.Grid.Inverse

/-!
# Tables of any shape

Input and calculator work with rows whose shape is known only when they are read. A `Table` is a
grid together with its two sizes. Operations that need a certain shape answer `none` on any other.
-/

namespace Chalkboard

universe u

/-- A grid together with its sizes. -/
structure Table (α : Type u) where
  height : Nat
  width : Nat
  grid : Grid height width α

namespace Table

variable {α : Type u}

/-- The table with the given rows, if they are equally long. Without rows there are no columns. -/
def ofRows? (rows : List (List α)) : Option (Table α) :=
  let width := (rows.head?.map List.length).getD 0
  (Grid.ofRows width rows).toOption.map fun g => ⟨rows.length, width, g⟩

/-- The rows from the top, each from the left. -/
def toRows (t : Table α) : List (List α) :=
  t.grid.toRows

/-- The table without row `i`; a row that is not there is not missed. -/
def eraseRow (t : Table α) (i : Nat) : Table α :=
  if h : i < t.height then
    { height := t.height - 1, width := t.width
      grid := .ofFn fun r c => t.grid.entry
        ((skip ⟨i, by omega⟩ r).cast (Nat.sub_add_cancel (Nat.one_le_of_lt h))) c }
  else
    t

/-- The table without column `j`; a column that is not there is not missed. -/
def eraseColumn (t : Table α) (j : Nat) : Table α :=
  if h : j < t.width then
    { height := t.height, width := t.width - 1
      grid := .ofFn fun r c => t.grid.entry r
        ((skip ⟨j, by omega⟩ c).cast (Nat.sub_add_cancel (Nat.one_le_of_lt h))) }
  else
    t

/-- The table without row `i` and without column `j`. -/
def minor (t : Table α) (i j : Nat) : Table α :=
  (t.eraseRow i).eraseColumn j

/-- A column of the given height: as many numbers, or a single one that stands in every row. -/
def columnOf? (height : Nat) (b : List α) : Option (Vector α height) :=
  if h : b.length = height then some ⟨b.toArray, by simpa using h⟩
  else match b with
    | [v] => some (Vector.replicate height v)
    | _ => none

@[simp] theorem columnOf?_toList {height : Nat} (b : Vector α height) :
    columnOf? height b.toList = some b := by
  unfold columnOf?
  rw [dif_pos b.length_toList]
  rfl

/-- The table with a column appended on the right, if `b` makes one. -/
def augment? (t : Table α) (b : List α) : Option (Table α) :=
  (columnOf? t.height b).map fun b => ⟨t.height, t.width + 1, t.grid.augment b⟩

/-- The table with column `j` replaced, if it has one and `b` makes the new one. -/
def replaceColumn? (t : Table α) (j : Nat) (b : List α) : Option (Table α) :=
  if h : j < t.width then
    (columnOf? t.height b).map fun b => { t with grid := t.grid.replaceColumn ⟨j, h⟩ b }
  else
    none

variable [Scalar α]

/-- The table after a row operation. -/
def applyOp (t : Table α) (op : RowOp α) : Table α :=
  { t with grid := op.apply t.grid }

/-- The pivot search in column `col` from row `top` on, if the table has both. -/
def pivotBelow? (t : Table α) (col top : Nat) : Option (Nat × α) :=
  if h : col < t.width ∧ top < t.height then
    let (row, magnitude) := t.grid.pivotBelow ⟨col, h.1⟩ ⟨top, h.2⟩
    some (row, magnitude)
  else
    none

/-- The table as a square grid, if it is square. -/
def square? (t : Table α) : Option (Grid t.height t.height α) :=
  if h : t.height = t.width then some (.ofFn fun i j => t.grid.entry i (j.cast h)) else none

/-- The table as a square grid, where a single column stands for as many as there are rows. -/
def spreadSquare? (t : Table α) : Option (Grid t.height t.height α) :=
  if h : t.width = 1 then some (.ofFn fun i _ => t.grid.entry i ⟨0, by omega⟩) else t.square?

end Table

end Chalkboard
