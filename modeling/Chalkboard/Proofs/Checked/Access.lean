import Chalkboard.Proofs.Loop
import Chalkboard.Table
import Mathlib.Data.Fin.Basic
import Mathlib.Data.List.FinRange

/-!
# Access that is checked

The size of a grid is part of its type, so an index that is out of range cannot even be written
down. Here indices are plain numbers, and what they point into has the size that it happens to have:
an access out of range has no result, and neither has anything that needs it.

* `Table.entry?`, `Table.setEntry?`, `setAt?` — access to one entry.
* `Table.swapRows?`, `Table.scaleRow?`, `Table.addScaledRow?` — access to rows.
* `Table.build?` — a table whose entries are all to be there.
* `loop?`, `proceed?` — a loop that may be left early, and what comes behind it.

Beside each stands the lemma that it has the result of its counterpart on grids, if it is used on a
grid.
-/

namespace Chalkboard

universe u v w u' v'

variable {m n : Nat} {α : Type u} {β : Type v}

/-- A grid as a table. -/
def Grid.table (g : Grid m n α) : Table α :=
  ⟨m, n, g⟩

@[simp] theorem Grid.height_table (g : Grid m n α) : g.table.height = m :=
  rfl

@[simp] theorem Grid.width_table (g : Grid m n α) : g.table.width = n :=
  rfl

/-! ## Entries -/

namespace Table

/-- The entry in row `i` and column `j`. -/
def entry? (t : Table α) (i j : Nat) : Option α :=
  if h : i < t.height ∧ j < t.width then some (t.grid.entry ⟨i, h.1⟩ ⟨j, h.2⟩) else none

/-- `t` with `v` in row `i` and column `j`. -/
def setEntry? (t : Table α) (i j : Nat) (v : α) : Option (Table α) :=
  if h : i < t.height ∧ j < t.width then some (t.grid.setEntry ⟨i, h.1⟩ ⟨j, h.2⟩ v).table else none

/-- The table of `m` rows and `n` columns with the entries `f`. -/
def build? (m n : Nat) (f : Nat → Nat → Option α) : Option (Table α) :=
  if h : ∀ (i : Fin m) (j : Fin n), (f i j).isSome then
    some (Grid.ofFn fun i j => (f i j).get (h i j)).table
  else
    none

/-! ## Rows -/

/-- `t` with rows `i` and `j` exchanged. -/
def swapRows? (t : Table α) (i j : Nat) : Option (Table α) :=
  if h : i < t.height ∧ j < t.height then some (t.grid.swapRows ⟨i, h.1⟩ ⟨j, h.2⟩).table else none

/-- `t` with row `i` multiplied by `factor`. -/
def scaleRow? [Mul α] (t : Table α) (i : Nat) (factor : α) : Option (Table α) :=
  if h : i < t.height then some (t.grid.scaleRow ⟨i, h⟩ factor).table else none

/-- `t` with `factor` times row `source` added to row `target`. -/
def addScaledRow? [Add α] [Mul α] (t : Table α) (target source : Nat) (factor : α) :
    Option (Table α) :=
  if h : target < t.height ∧ source < t.height then
    some (t.grid.addScaledRow ⟨target, h.1⟩ ⟨source, h.2⟩ factor).table
  else
    none

/-- Column `j`, from the top. -/
def column? (t : Table α) (j : Nat) : Option (List α) :=
  if h : j < t.width then some (t.grid.column ⟨j, h⟩).toList else none

end Table

namespace Grid

variable (g : Grid m n α)

@[simp] theorem entry?_table (i : Fin m) (j : Fin n) : g.table.entry? i j = some (g.entry i j) :=
  dif_pos ⟨i.isLt, j.isLt⟩

@[simp] theorem setEntry?_table (i : Fin m) (j : Fin n) (v : α) :
    g.table.setEntry? i j v = some (g.setEntry i j v).table :=
  dif_pos ⟨i.isLt, j.isLt⟩

@[simp] theorem swapRows?_table (i i' : Fin m) :
    g.table.swapRows? i i' = some (g.swapRows i i').table :=
  dif_pos ⟨i.isLt, i'.isLt⟩

@[simp] theorem scaleRow?_table [Mul α] (i : Fin m) (factor : α) :
    g.table.scaleRow? i factor = some (g.scaleRow i factor).table :=
  dif_pos i.isLt

@[simp] theorem addScaledRow?_table [Add α] [Mul α] (i i' : Fin m) (factor : α) :
    g.table.addScaledRow? i i' factor = some (g.addScaledRow i i' factor).table :=
  dif_pos ⟨i.isLt, i'.isLt⟩

@[simp] theorem column?_table (j : Fin n) : g.table.column? j = some (g.column j).toList :=
  dif_pos j.isLt

end Grid

theorem Table.build?_eq_some {f : Nat → Nat → Option α} {g : Fin m → Fin n → α}
    (h : ∀ (i : Fin m) (j : Fin n), f i j = some (g i j)) :
    Table.build? m n f = some (Grid.ofFn g).table := by
  have all : ∀ (i : Fin m) (j : Fin n), (f i j).isSome := fun i j => by
    rw [h i j]
    rfl
  rw [build?, dif_pos all]
  congr 3
  funext i j
  exact Option.get_of_eq_some _ (h i j)

/-! ## Lists -/

/-- `xs` with `v` in place `i`. -/
def setAt? (xs : List α) (i : Nat) (v : α) : Option (List α) :=
  if i < xs.length then some (xs.set i v) else none

@[simp] theorem getElem?_toList (x : Vector α n) (i : Fin n) :
    x.toList[(i : Nat)]? = some (x.get i) := by
  have hi : (i : Nat) < x.toList.length := by rw [Vector.length_toList]; exact i.isLt
  rw [List.getElem?_eq_getElem hi, Vector.getElem_toList]
  rfl

/-- What has been written is there. -/
@[simp] theorem getElem?_setAt (x : Vector α n) (i : Fin n) (v : α) :
    (setAt x i v).toList[(i : Nat)]? = some v := by
  rw [getElem?_toList]
  show some (setAt x i v)[(i : Nat)] = some v
  rw [getElem_setAt, if_pos rfl]

@[simp] theorem setAt?_toList (x : Vector α n) (i : Fin n) (v : α) :
    setAt? x.toList i v = some (setAt x i v).toList := by
  have hi : (i : Nat) < x.toList.length := by rw [Vector.length_toList]; exact i.isLt
  rw [setAt?, if_pos hi, setAt, Vector.toList_set]

/-! ## Ranges -/

theorem filter_le_range (a n : Nat) : (List.range n).filter (a ≤ ·) = List.range' a (n - a) := by
  induction n with
  | zero => rw [Nat.zero_sub]; rfl
  | succ n ih =>
    rw [List.range_succ, List.filter_append, ih]
    by_cases h : a ≤ n
    · rw [List.filter_cons_of_pos (by simpa using h), Nat.succ_sub h, List.range'_1_concat,
        Nat.add_sub_cancel' h]
      rfl
    · rw [List.filter_cons_of_neg (by simpa using h), Nat.sub_eq_zero_of_le (by omega),
        Nat.sub_eq_zero_of_le (by omega)]
      rfl

theorem filter_lt_range {a n : Nat} (h : a ≤ n) : (List.range n).filter (· < a) = List.range a := by
  induction n with
  | zero => rw [Nat.le_zero.mp h]; rfl
  | succ n ih =>
    rcases Nat.le_succ_iff.mp h with le | rfl
    · rw [List.range_succ, List.filter_append, ih le, List.filter_cons_of_neg (by simpa using le)]
      exact List.append_nil _
    · exact List.filter_eq_self.mpr fun k hk => decide_eq_true (List.mem_range.mp hk)

theorem range_eq_map (n : Nat) : List.range n = (List.finRange n).map Fin.val :=
  List.map_coe_finRange_eq_range.symm

theorem map_filter_finRange (p : Nat → Bool) :
    ((List.finRange n).filter (p ∘ Fin.val)).map Fin.val = (List.range n).filter p := by
  rw [range_eq_map, List.filter_map]

theorem from_eq_map (i : Fin n) :
    List.range' i (n - i) = ((List.finRange n).filter (i ≤ ·)).map Fin.val := by
  rw [← filter_le_range, ← map_filter_finRange]
  rfl

theorem above_eq_map (i : Fin n) :
    List.range' (i + 1) (n - (i + 1)) = ((List.finRange n).filter (i < ·)).map Fin.val := by
  rw [← filter_le_range, ← map_filter_finRange]
  rfl

theorem below_eq_map (i : Fin n) :
    List.range i = ((List.finRange n).filter (· < i)).map Fin.val := by
  rw [← filter_lt_range (Nat.le_of_lt i.isLt), ← map_filter_finRange]
  rfl

/-! ## Loops -/

/-- What all indices give. -/
theorem mapM_map_val {f? : Nat → Option β} {f : Fin n → β} (h : ∀ i : Fin n, f? i = some (f i))
    (l : List (Fin n)) : (l.map Fin.val).mapM f? = some (l.map f) := by
  induction l with
  | nil => rfl
  | cons i l ih =>
    rw [List.map_cons, List.mapM_cons, h, ih]
    rfl

/-- All of it is there only if each part is. -/
theorem exists_of_mapM_eq_some {γ : Type w} {f? : γ → Option β} {l : List γ} :
    ∀ {results : List β}, l.mapM f? = some results → ∀ {c : γ}, c ∈ l → ∃ b, f? c = some b := by
  induction l with
  | nil => exact fun _ c hc => absurd hc List.not_mem_nil
  | cons d l ih =>
    intro results h c hc
    rw [List.mapM_cons] at h
    obtain ⟨b, first, rest⟩ := Option.bind_eq_some_iff.mp h
    obtain ⟨bs, others, -⟩ := Option.bind_eq_some_iff.mp rest
    rcases List.mem_cons.mp hc with rfl | hc
    · exact ⟨b, first⟩
    · exact ih others hc

/-- **A loop through indices** has a result if each of its steps has one. -/
theorem foldlM_map_val {σ : Type v} {τ : Type w} (g : σ → τ) {step? : τ → Nat → Option τ}
    {step : σ → Fin n → σ} (h : ∀ s (i : Fin n), step? (g s) i = some (g (step s i)))
    (l : List (Fin n)) : ∀ s, (l.map Fin.val).foldlM step? (g s) = some (g (l.foldl step s)) := by
  induction l with
  | nil => exact fun s => rfl
  | cons i l ih =>
    intro s
    rw [List.map_cons, List.foldlM_cons, h]
    exact ih (step s i)

/-- A loop that is left early with an error. -/
def loop? {ε : Type u} {σ : Type v} (step : σ → Nat → Option (Except ε σ)) :
    List Nat → σ → Option (Except ε σ)
  | [], s => some (.ok s)
  | i :: l, s => do
    match ← step s i with
    | .error e => return .error e
    | .ok s => loop? step l s

/-- **A loop that may be left early** has a result if each of its steps has one. -/
theorem loop?_map_val {ε : Type u} {σ : Type v} {ε' : Type u'} {σ' : Type v'} (f : ε → ε')
    (g : σ → σ') {step? : σ' → Nat → Option (Except ε' σ')} {step : σ → Fin n → Except ε σ}
    (h : ∀ s (i : Fin n), step? (g s) i = some (mapEndings f g (step s i)))
    (l : List (Fin n)) :
    ∀ s, loop? step? (l.map Fin.val) (g s) = some (mapEndings f g (l.foldlM step s)) := by
  induction l with
  | nil => exact fun s => rfl
  | cons i l ih =>
    intro s
    rw [List.map_cons, List.foldlM_cons, loop?, h]
    cases step s i with
    | error e => rfl
    | ok s => exact ih s

/-- A part that cannot refuse, after one that can. -/
def proceed? {ε σ : Type u} (x : Option (Except ε σ)) (f : σ → Option σ) :
    Option (Except ε σ) := do
  match ← x with
  | .error e => return .error e
  | .ok s => return .ok (← f s)

theorem proceed?_eq {ε ε' σ σ' : Type u} {f : ε → ε'} {g : σ → σ'} {x? : Option (Except ε' σ')}
    {x : Except ε σ} {step? : σ' → Option σ'} {step : σ → σ} (first : x? = some (mapEndings f g x))
    (next : ∀ s, step? (g s) = some (g (step s))) :
    proceed? x? step? = some (mapEndings f g (x.map step)) := by
  rw [first]
  cases x with
  | error e => rfl
  | ok s =>
    simp only [proceed?, mapEndings, Option.bind_eq_bind, Option.bind_some, next]
    rfl

end Chalkboard
