import Chalkboard.Proofs.Checked.Access

/-!
# Determinants with checked access

An expansion along the top row takes entries and minors out of a table of any shape, and a minor
takes its entries out of the table in turn. On a square table all of them are there, down to the
smallest minor.

* `Table.minor?`, `Table.det?`, `Table.cofactors?` — each with the lemma that it has the result of
  its counterpart on grids.
-/

namespace Chalkboard

universe u

variable {m n : Nat} {α : Type u}

namespace Table

/-- The table without row `i` and column `j`, from the entries of all other rows and columns. -/
def minor? (t : Table α) (i j : Nat) : Option (Table α) :=
  let rows := (List.range t.height).filter (· != i)
  let columns := (List.range t.width).filter (· != j)
  build? rows.length columns.length fun r c =>
    rows[r]?.bind fun i => columns[c]?.bind fun j => t.entry? i j

variable [Scalar α]

/-- The determinant of a table, whose width is not looked at. -/
def det? (t : Table α) : Option α :=
  match t.height with
  | 0 => some 1
  | 1 => t.entry? 0 0
  | 2 => do
    return (← t.entry? 0 0) * (← t.entry? 1 1) - (← t.entry? 0 1) * (← t.entry? 1 0)
  | n + 3 => do
    let terms ← (List.range (n + 3)).mapM fun j => do
      let minor ← t.minor? 0 j
      let det ← if minor.height < t.height then minor.det? else none
      return Grid.cofactorSign j * (← t.entry? 0 j) * det
    return Scalar.sum terms
termination_by t.height

/-- The terms of the expansion along the top row. -/
def cofactors? (t : Table α) : Option (List (CofactorTerm α)) :=
  (List.range t.width).mapM fun j => do
    return { column := j, sign := Grid.cofactorSign j, entry := ← t.entry? 0 j
             minorDet := ← (← t.minor? 0 j).det? }

end Table

/-! ## On grids -/

/-- The indices other than `p`. -/
theorem filter_ne_range (p : Fin (n + 1)) :
    (List.range (n + 1)).filter (· != (p : Nat)) = (List.finRange n).map fun i => (skip p i : Nat) := by
  have erased : (List.range (n + 1)).filter (· != (p : Nat)) = (List.range (n + 1)).erase p := by
    rw [List.nodup_range.erase_eq_filter]
  have le : (p : Nat) ≤ n := Nat.lt_succ_iff.mp p.isLt
  rw [erased, List.erase_range, Nat.min_eq_right (by omega)]
  apply List.ext_getElem
  · simp
    omega
  · intro k hk hk'
    rw [List.getElem_map, List.getElem_finRange, skip]
    rw [List.length_map, List.length_finRange] at hk'
    by_cases before : k < p
    · rw [List.getElem_append_left (by simpa using before), List.getElem_range,
        if_pos (by simpa [Fin.lt_def] using before)]
      rfl
    · rw [List.getElem_append_right (by simpa using before), List.getElem_range',
        if_neg (by simpa [Fin.lt_def] using before), List.length_range, Fin.val_succ]
      simp
      omega

namespace Grid

@[simp] theorem minor?_table (g : Grid (m + 1) (n + 1) α) (i : Fin (m + 1)) (j : Fin (n + 1)) :
    g.table.minor? i j = some (g.minor i j).table := by
  have select {k : Nat} (p : Fin (k + 1)) (i : Fin k) :
      ((List.finRange k).map fun i => (skip p i : Nat))[(i : Nat)]? = some (skip p i : Nat) := by
    rw [List.getElem?_map, List.getElem?_eq_getElem (by simp), List.getElem_finRange]
    rfl
  simp only [Table.minor?, height_table, width_table, filter_ne_range, List.length_map,
    List.length_finRange]
  refine Table.build?_eq_some fun r c => ?_
  rw [select i r, select j c]
  exact entry?_table g _ _

variable [Scalar α]

/-- **The determinant of a grid takes no entry that is not there.** -/
@[simp] theorem det?_table : ∀ {n : Nat} (g : Grid n n α), g.table.det? = some g.det
  | 0, g => by
    rw [Table.det?]
    rfl
  | 1, g => by
    rw [Table.det?]
    exact entry?_table g 0 0
  | 2, g => by
    rw [Table.det?]
    show (do return (← g.table.entry? (0 : Fin 2) (0 : Fin 2)) *
      (← g.table.entry? (1 : Fin 2) (1 : Fin 2)) - (← g.table.entry? (0 : Fin 2) (1 : Fin 2)) *
      (← g.table.entry? (1 : Fin 2) (0 : Fin 2))) = some g.det
    simp only [entry?_table]
    rfl
  | n + 3, g => by
    rw [Table.det?]
    simp only [height_table]
    rw [range_eq_map, mapM_map_val (f := fun j : Fin (n + 3) =>
      cofactorSign j * g.entry 0 j * (g.minor 0 j).det)]
    · rfl
    · intro j
      have minor := minor?_table g 0 j
      have entry := entry?_table g 0 j
      rw [Fin.val_zero] at minor entry
      have smaller : (g.minor 0 j).table.height < n + 3 := Nat.lt_succ_self (n + 2)
      rw [minor, entry, Option.bind_eq_bind, Option.bind_some]
      refine (if_pos smaller).trans ?_
      rw [det?_table (g.minor 0 j)]
      rfl

/-- **The terms of an expansion** take no entry that is not there. -/
@[simp] theorem cofactors?_table : ∀ {n : Nat} (g : Grid n n α),
    g.table.cofactors? = some g.cofactors
  | 0, g => rfl
  | n + 1, g => by
    rw [Table.cofactors?, width_table, range_eq_map]
    refine mapM_map_val (fun j => ?_) _
    have minor := minor?_table g 0 j
    have entry := entry?_table g 0 j
    rw [Fin.val_zero] at minor entry
    rw [minor, entry, Option.bind_eq_bind, Option.bind_some, Option.bind_eq_bind, Option.bind_some,
      det?_table]
    rfl

end Grid

end Chalkboard
