import Chalkboard.Scalar

/-!
# Grids of scalars

`Grid m n α` is a table of `m` rows and `n` columns; both sizes are part of the type, so every
access carries its bounds. A grid is known by its entries: `Grid.ext_entry` is the only way in
which two grids are shown equal, and each operation comes with the lemma that gives the entries
of its result.
-/

namespace Chalkboard

universe u v

/-- `x` with `v` in place `i`. -/
def setAt {n : Nat} {α : Type u} (x : Vector α n) (i : Fin n) (v : α) : Vector α n :=
  x.set i v

@[simp] theorem getElem_setAt {n : Nat} {α : Type u} (x : Vector α n) (i : Fin n) (v : α) (j : Nat)
    (h : j < n) : (setAt x i v)[j] = if i = j then v else x[j] := by
  simp [setAt, Vector.getElem_set]

/-- A table of `m` rows and `n` columns. -/
structure Grid (m n : Nat) (α : Type u) where
  rows : Vector (Vector α n) m
deriving DecidableEq

namespace Grid

variable {m n k : Nat} {α : Type u} {β : Type v}

/-! ## Entries -/

/-- The entry in row `i` and column `j`. -/
def entry (g : Grid m n α) (i : Fin m) (j : Fin n) : α :=
  g.rows[i][j]

/-- The grid with the given entries. -/
def ofFn (f : Fin m → Fin n → α) : Grid m n α :=
  ⟨Vector.ofFn fun i => Vector.ofFn (f i)⟩

@[simp] theorem entry_ofFn (f : Fin m → Fin n → α) (i : Fin m) (j : Fin n) :
    (ofFn f).entry i j = f i j := by
  simp [entry, ofFn]

/-- Grids with equal entries are equal. -/
theorem ext_entry {g h : Grid m n α} (eq : ∀ i j, g.entry i j = h.entry i j) : g = h := by
  cases g with
  | mk rows =>
    cases h with
    | mk rows' =>
      congr 1
      apply Vector.ext
      intro i hi
      apply Vector.ext
      intro j hj
      exact eq ⟨i, hi⟩ ⟨j, hj⟩

@[simp] theorem ofFn_entry (g : Grid m n α) : (ofFn fun i j => g.entry i j) = g :=
  ext_entry fun i j => entry_ofFn _ i j

/-- Row `i`, from the left. -/
def row (g : Grid m n α) (i : Fin m) : Vector α n :=
  g.rows[i]

/-- Column `j`, from the top. -/
def column (g : Grid m n α) (j : Fin n) : Vector α m :=
  Vector.ofFn fun i => g.entry i j

@[simp] theorem getElem_row (g : Grid m n α) (i : Fin m) (j : Nat) (h : j < n) :
    (g.row i)[j] = g.entry i ⟨j, h⟩ :=
  rfl

@[simp] theorem getElem_column (g : Grid m n α) (j : Fin n) (i : Nat) (h : i < m) :
    (g.column j)[i] = g.entry ⟨i, h⟩ j := by
  simp [column]

/-- The grid of the images of all entries. -/
def map (f : α → β) (g : Grid m n α) : Grid m n β :=
  ⟨g.rows.map (Vector.map f)⟩

@[simp] theorem entry_map (f : α → β) (g : Grid m n α) (i : Fin m) (j : Fin n) :
    (g.map f).entry i j = f (g.entry i j) := by
  simp [entry, map]

/-! ## Changing rows and entries -/

/-- `g` with row `i` replaced by `r`. -/
def setRow (g : Grid m n α) (i : Fin m) (r : Vector α n) : Grid m n α :=
  ⟨g.rows.set i r⟩

@[simp] theorem entry_setRow (g : Grid m n α) (i i' : Fin m) (r : Vector α n) (j : Fin n) :
    (g.setRow i r).entry i' j = if i = i' then r[j] else g.entry i' j := by
  by_cases h : i = i'
  · subst h; simp [entry, setRow]
  · have : (i : Nat) ≠ i' := fun e => h (Fin.ext e)
    simp [entry, setRow, h, this]

/-- `g` with the entry in row `i` and column `j` replaced by `v`. -/
def setEntry (g : Grid m n α) (i : Fin m) (j : Fin n) (v : α) : Grid m n α :=
  g.setRow i ((g.row i).set j v)

@[simp] theorem entry_setEntry (g : Grid m n α) (i i' : Fin m) (j j' : Fin n) (v : α) :
    (g.setEntry i j v).entry i' j' = if i = i' ∧ j = j' then v else g.entry i' j' := by
  by_cases hi : i = i'
  · subst hi
    by_cases hj : j = j'
    · subst hj; simp [setEntry]
    · have : (j : Nat) ≠ j' := fun e => hj (Fin.ext e)
      simp [setEntry, hj, this]
  · simp [setEntry, hi]

/-- `g` with rows `i` and `i'` exchanged. -/
def swapRows (g : Grid m n α) (i i' : Fin m) : Grid m n α :=
  ⟨g.rows.swap i i'⟩

@[simp] theorem entry_swapRows (g : Grid m n α) (i i' r : Fin m) (j : Fin n) :
    (g.swapRows i i').entry r j =
      if r = i then g.entry i' j else if r = i' then g.entry i j else g.entry r j := by
  by_cases h : r = i
  · subst h; simp [entry, swapRows]
  · by_cases h' : r = i'
    · subst h'; simp [entry, swapRows, h]
    · have hn : (r : Nat) ≠ i := fun e => h (Fin.ext e)
      have hn' : (r : Nat) ≠ i' := fun e => h' (Fin.ext e)
      simp [entry, swapRows, h, h', hn, hn']

/-- `g` with row `i` multiplied by `factor`. -/
def scaleRow [Mul α] (g : Grid m n α) (i : Fin m) (factor : α) : Grid m n α :=
  g.setRow i ((g.row i).map (· * factor))

@[simp] theorem entry_scaleRow [Mul α] (g : Grid m n α) (i i' : Fin m) (factor : α) (j : Fin n) :
    (g.scaleRow i factor).entry i' j =
      if i = i' then g.entry i j * factor else g.entry i' j := by
  simp [scaleRow]

/-- `g` with `factor` times row `source` added to row `target`. -/
def addScaledRow [Add α] [Mul α] (g : Grid m n α) (target source : Fin m) (factor : α) :
    Grid m n α :=
  g.setRow target (Vector.zipWith (fun t s => t + factor * s) (g.row target) (g.row source))

@[simp] theorem entry_addScaledRow [Add α] [Mul α] (g : Grid m n α) (target source i : Fin m)
    (factor : α) (j : Fin n) :
    (g.addScaledRow target source factor).entry i j =
      if target = i then g.entry target j + factor * g.entry source j else g.entry i j := by
  simp [addScaledRow]

/-! ## Joining and cutting columns -/

/-- `g` with the column `b` appended on the right. -/
def augment (g : Grid m n α) (b : Vector α m) : Grid m (n + 1) α :=
  ⟨Vector.zipWith Vector.push g.rows b⟩

/-- `g` with the columns of `h` appended on the right. -/
def beside (g : Grid m n α) (h : Grid m k α) : Grid m (n + k) α :=
  ⟨Vector.zipWith (· ++ ·) g.rows h.rows⟩

/-- The first `n` columns. -/
def leftBlock (g : Grid m (n + k) α) : Grid m n α :=
  ofFn fun i j => g.entry i (j.castAdd k)

/-- The last `k` columns. -/
def rightBlock (g : Grid m (n + k) α) : Grid m k α :=
  ofFn fun i j => g.entry i (j.natAdd n)

/-- The column farthest to the right. -/
def lastColumn (g : Grid m (n + 1) α) : Vector α m :=
  g.column (Fin.last n)

/-- `g` with column `j` replaced by `b`. -/
def replaceColumn (g : Grid m n α) (j : Fin n) (b : Vector α m) : Grid m n α :=
  ofFn fun i j' => if j' = j then b[i] else g.entry i j'

@[simp] theorem entry_augment_castSucc (g : Grid m n α) (b : Vector α m) (i : Fin m) (j : Fin n) :
    (g.augment b).entry i j.castSucc = g.entry i j := by
  simp [augment, entry]

@[simp] theorem entry_augment_last (g : Grid m n α) (b : Vector α m) (i : Fin m) :
    (g.augment b).entry i (Fin.last n) = b[i] := by
  simp [augment, entry]

@[simp] theorem entry_beside_castAdd (g : Grid m n α) (h : Grid m k α) (i : Fin m) (j : Fin n) :
    (g.beside h).entry i (j.castAdd k) = g.entry i j := by
  simp [beside, entry]

@[simp] theorem entry_beside_natAdd (g : Grid m n α) (h : Grid m k α) (i : Fin m) (j : Fin k) :
    (g.beside h).entry i (j.natAdd n) = h.entry i j := by
  simp [beside, entry]

@[simp] theorem entry_leftBlock (g : Grid m (n + k) α) (i : Fin m) (j : Fin n) :
    g.leftBlock.entry i j = g.entry i (j.castAdd k) := by
  simp [leftBlock]

@[simp] theorem entry_rightBlock (g : Grid m (n + k) α) (i : Fin m) (j : Fin k) :
    g.rightBlock.entry i j = g.entry i (j.natAdd n) := by
  simp [rightBlock]

@[simp] theorem leftBlock_beside (g : Grid m n α) (h : Grid m k α) :
    (g.beside h).leftBlock = g :=
  ext_entry fun i j => by simp

@[simp] theorem rightBlock_beside (g : Grid m n α) (h : Grid m k α) :
    (g.beside h).rightBlock = h :=
  ext_entry fun i j => by simp

@[simp] theorem getElem_lastColumn (g : Grid m (n + 1) α) (i : Nat) (h : i < m) :
    g.lastColumn[i] = g.entry ⟨i, h⟩ (Fin.last n) := by
  simp [lastColumn]

@[simp] theorem entry_replaceColumn (g : Grid m n α) (j j' : Fin n) (b : Vector α m) (i : Fin m) :
    (g.replaceColumn j b).entry i j' = if j' = j then b[i] else g.entry i j' := by
  simp [replaceColumn]

/-! ## Rows as lists -/

/-- The rows as lists, from the top and from the left. -/
def toRows (g : Grid m n α) : List (List α) :=
  g.rows.toList.map Vector.toList

/-- The grid with the given rows, or else the length of the first row without `n` entries. -/
def ofRows (n : Nat) (rows : List (List α)) : Except Nat (Grid rows.length n α) :=
  match uneven : rows.find? (·.length ≠ n) with
  | some bad => .error bad.length
  | none => .ok ⟨Vector.ofFn fun i => ⟨rows[i].toArray, by
      have := List.find?_eq_none.1 uneven rows[i] (List.getElem_mem _)
      simpa using this⟩⟩

/-! ## Arithmetic -/

variable [Scalar α]

/-- The grid with ones on the diagonal and zeros elsewhere. -/
def identity (n : Nat) : Grid n n α :=
  ofFn fun i j => if i = j then 1 else 0

/-- The product with a column of numbers. -/
def mulVec (g : Grid m n α) (x : Vector α n) : Vector α m :=
  Vector.ofFn fun i => Scalar.dot ((g.row i).toList.zip x.toList)

/-- The product of two grids. -/
def mul (g : Grid m n α) (h : Grid n k α) : Grid m k α :=
  ofFn fun i j => Scalar.dot ((g.row i).toList.zip (h.column j).toList)

/-- The sum of two grids, entry by entry. -/
def add (g h : Grid m n α) : Grid m n α :=
  ofFn fun i j => g.entry i j + h.entry i j

end Grid

end Chalkboard
