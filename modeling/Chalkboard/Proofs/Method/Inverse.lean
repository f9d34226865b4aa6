import Chalkboard.Proofs.Decimal.One
import Chalkboard.Proofs.Method.RightSide
import Chalkboard.Proofs.System.Solution
import Chalkboard.Grid.Inverse

/-!
# The inverse is found by Gauss-Jordan elimination

The search for an inverse is an elimination of the coefficients with the identity beside them. It
keeps no record, it divides also by a pivot that is `1`, and it writes no exact values into the
column that it clears. So its grid and the board of Gauss-Jordan elimination can differ in columns
that are done, which no later step reads; in the columns from `i` on they are the same.

Of arithmetic this needs three facts about `1` and nothing else.

* `Scalar.LawfulOne` — these facts.
* `Grid.SameFrom` — two grids that are the same from some column on.
* `Grid.together_inverse` — there is an inverse exactly if the elimination does not halt, and the
  inverse is what then stands beside the identity.
* `LinearSystem.diagonalize_ok_iff_inverse?` — the same with any constants beside the coefficients.
* `Grid.inverse?_eq_some_iff_gaussJordan` — the columns of the inverse are the values for the unit
  vectors.
* `Scalar.lawfulOne_exact`, `Scalar.lawfulOne_float` — the facts about `1`, exact and rounded.
-/

namespace Chalkboard

universe u

variable {n k : Nat} {α : Type u} [Scalar α]

/-- **`Scalar.LawfulOne α`** — dividing one by one and multiplying by one change nothing, and the
equality test knows one. -/
structure Scalar.LawfulOne (α : Type u) [Scalar α] : Prop where
  one_div_one : (1 : α) / 1 = 1
  mul_one : ∀ v : α, v * 1 = v
  eq_one : ∀ v : α, Scalar.eq v 1 = true → v = 1

/-- Over an ordered field the laws of one are laws of arithmetic. -/
theorem Scalar.lawfulOne_exact {K : Type u} [Field K] [LinearOrder K] : LawfulOne K where
  one_div_one := div_one 1
  mul_one := mul_one
  eq_one := fun _ h => Scalar.eq_iff.mp h

namespace Grid

/-! ## The same columns from some place on -/

/-- **`g.SameFrom h i`** — the grids `g` and `h` have the same columns from `i` on. -/
def SameFrom (g h : Grid n (n + k) α) (i : Nat) : Prop :=
  ∀ r (j : Fin (n + k)), i ≤ (j : Nat) → g.entry r j = h.entry r j

/-- **`g.SameBehind h i rows`** — the grids `g` and `h` have the same columns behind `i`, and in
column `i` they have the same entries in `rows`. -/
structure SameBehind (g h : Grid n (n + k) α) (i : Fin n) (rows : List (Fin n)) : Prop where
  behind : ∀ r (j : Fin (n + k)), (i : Nat) < j → g.entry r j = h.entry r j
  column : ∀ r ∈ rows, g.entry r (i.castAdd k) = h.entry r (i.castAdd k)

/-- The grid of an inverse search after clearing one place. -/
def clearPlace (i : Fin n) (g : Grid n (n + k) α) (r : Fin n) : Grid n (n + k) α :=
  let factor := g.entry r (i.castAdd k)
  if Scalar.eq factor 0 then g else g.addScaledRow r i (-factor)

/-- One column of an inverse search, written out. -/
theorem reduceColumn?_eq (epsilon : α) (g : Grid n (n + k) α) {i r : Fin n}
    (hr : (g.pivotBelow (i.castAdd k) i).1 = r) :
    g.reduceColumn? epsilon i =
      if Scalar.negligible epsilon (Scalar.abs (g.entry r (i.castAdd k))) then none
      else some (((List.finRange n).filter (· ≠ i)).foldl (clearPlace i)
        ((g.swapRows i r).scaleRow i (1 / (g.swapRows i r).entry i (i.castAdd k)))) := by
  have hmag := (g.found_pivotBelow (i.castAdd k) i).2
  rw [hr] at hmag
  simp only [reduceColumn?, hr, hmag]
  rfl

/-! ## One column in both -/

omit [Scalar α] in
theorem SameFrom.swapRows {g h : Grid n (n + k) α} {c : Nat} (same : g.SameFrom h c)
    (i r : Fin n) : (g.swapRows i r).SameFrom (h.swapRows i r) c := by
  intro r' j hj
  rw [entry_swapRows, entry_swapRows, same i j hj, same r j hj, same r' j hj]

/-- Dividing the pivot row: the pivot itself is the one place in which the two may now differ. -/
theorem SameFrom.normalize (one : Scalar.LawfulOne α) {g : Grid n (n + k) α}
    {b : Board n (n + k) α} {i : Fin n} (same : g.SameFrom b.grid i) :
    (g.scaleRow i (1 / g.entry i (i.castAdd k))).SameBehind (b.normalize i).grid i
      ((List.finRange n).filter (· ≠ i)) := by
  have hpivot : g.entry i (i.castAdd k) = b.grid.entry i (i.castAdd k) := same i _ le_rfl
  -- all entries but the pivot itself
  have entries (r : Fin n) (j : Fin (n + k)) (hj : (i : Nat) ≤ j)
      (other : r ≠ i ∨ j ≠ i.castAdd k) :
      (g.scaleRow i (1 / g.entry i (i.castAdd k))).entry r j =
        (b.normalize i).grid.entry r j := by
    rw [entry_scaleRow, hpivot]
    simp only [Board.normalize]
    cases hone : Scalar.eq (b.grid.entry i (i.castAdd k)) 1 with
    | true =>
      rw [if_pos rfl, one.eq_one _ hone, one.one_div_one]
      split_ifs with hir
      · rw [one.mul_one, same i j hj, hir]
      · exact same r j hj
    | false =>
      rw [if_neg Bool.false_ne_true]
      show _ = ((b.grid.scaleRow i (1 / b.grid.entry i (i.castAdd k))).setEntry i
        (i.castAdd k) 1).entry r j
      have elsewhere : ¬ (i = r ∧ i.castAdd k = j) := by
        rintro ⟨rfl, rfl⟩
        rcases other with hr | hj'
        · exact hr rfl
        · exact hj' rfl
      rw [entry_setEntry, if_neg elsewhere, entry_scaleRow, same i j hj, same r j hj]
  constructor
  · intro r j hj
    refine entries r j hj.le (.inr ?_)
    rintro rfl
    exact absurd hj (lt_irrefl _)
  · intro r hr
    have hri : r ≠ i := by simpa using (List.mem_filter.mp hr).2
    exact entries r (i.castAdd k) le_rfl (.inl hri)

/-- Clearing one place, with the exact zero or without it. -/
theorem SameBehind.clear {g : Grid n (n + k) α} {b : Board n (n + k) α} {i r : Fin n}
    {rows : List (Fin n)} (same : g.SameBehind b.grid i (r :: rows)) (hr : r ∉ rows) :
    (clearPlace i g r).SameBehind
      (b.clear i r (b.grid.entry r (i.castAdd k))).grid i rows := by
  have hfactor := same.column r List.mem_cons_self
  simp only [clearPlace, Board.clear, hfactor]
  cases hzero : Scalar.eq (b.grid.entry r (i.castAdd k)) 0 with
  | true =>
    rw [if_pos rfl, if_pos rfl]
    exact ⟨same.behind, fun r' hr' => same.column r' (List.mem_cons_of_mem r hr')⟩
  | false =>
    rw [if_neg Bool.false_ne_true, if_neg Bool.false_ne_true]
    constructor
    · intro r' j hj
      have hcol : i.castAdd k ≠ j := by
        rintro rfl
        exact absurd hj (lt_irrefl _)
      show _ = Grid.entry (setEntry _ r (i.castAdd k) 0) r' j
      rw [entry_setEntry, if_neg fun e => hcol e.2, entry_addScaledRow, entry_addScaledRow,
        same.behind r j hj, same.behind i j hj, same.behind r' j hj]
    · intro r' hr'
      -- a row that is still to be cleared is not the one that was
      have hne : r ≠ r' := fun e => hr (e ▸ hr')
      show _ = Grid.entry (setEntry _ r (i.castAdd k) 0) r' (i.castAdd k)
      rw [entry_setEntry, if_neg fun e => hne e.1, entry_addScaledRow, entry_addScaledRow,
        if_neg hne, if_neg hne]
      exact same.column r' (List.mem_cons_of_mem r hr')

/-- Clearing places in several rows. -/
theorem SameBehind.foldl_clear {i : Fin n} (rows : List (Fin n)) :
    ∀ (g : Grid n (n + k) α) (b : Board n (n + k) α), rows.Nodup → g.SameBehind b.grid i rows →
      (rows.foldl (clearPlace i) g).SameBehind
        (rows.foldl (fun b r => b.clear i r (b.grid.entry r (i.castAdd k))) b).grid i [] := by
  induction rows with
  | nil =>
    intro g b _ same
    exact same
  | cons r rows ih =>
    intro g b nodup same
    obtain ⟨hr, nodup'⟩ := List.nodup_cons.mp nodup
    rw [List.foldl_cons, List.foldl_cons]
    exact ih _ _ nodup' (same.clear hr)

/-- **One column of both.** They refuse the same pivots, and behind the column they have the same
entries again. -/
theorem SameFrom.together_column (one : Scalar.LawfulOne α) (epsilon : α)
    {g : Grid n (n + k) α} {b : Board n (n + k) α} {i : Fin n} (same : g.SameFrom b.grid i) :
    Together (fun _ _ => True) (fun g' b' => g'.SameFrom b'.grid (i + 1))
      (orHalt (g.reduceColumn? epsilon i))
      ((b.bringUp epsilon i).map fun b => (b.normalize i).clearOthers i) := by
  have search : b.grid.pivotBelow (i.castAdd k) i = g.pivotBelow (i.castAdd k) i :=
    pivotBelow_congr fun r _ => (same r _ le_rfl).symm
  have raised := b.ends_bringUp_found epsilon (congrArg Prod.fst search)
  rw [g.reduceColumn?_eq epsilon rfl]
  generalize (g.pivotBelow (i.castAdd k) i).1 = r at raised
  rw [← same r _ le_rfl] at raised
  cases run : b.bringUp epsilon i with
  | error halt =>
    obtain ⟨hneg, -⟩ := raised.of_error run
    rw [hneg]
    exact trivial
  | ok b' =>
    obtain ⟨hneg, hgrid, -⟩ := raised.of_ok run
    rw [hneg]
    have same' : (g.swapRows i r).SameFrom b'.grid i := hgrid ▸ same.swapRows i r
    have cleared := SameBehind.foldl_clear _ _ (b'.normalize i)
      ((List.nodup_finRange n).filter _) (same'.normalize one)
    exact fun r' j hj => cleared.behind r' j hj

/-! ## Whole runs -/

/-- **There is an inverse exactly if the elimination does not halt**, and the inverse is what stands
beside the identity then. -/
theorem together_inverse (one : Scalar.LawfulOne α) (epsilon : α) (a : Grid n n α) :
    Together (fun _ _ => True) (fun m board => m = Grid.rightBlock (n := n) board.grid)
      (orHalt (a.inverse? epsilon))
      (Board.diagonalize epsilon ⟨a.beside (identity n), []⟩) := by
  have run : Together (fun _ _ => True) (fun g (board : Board n (n + n) α) =>
        g.SameFrom board.grid n)
      ((List.finRange n).foldlM (fun g i => orHalt (reduceColumn? epsilon g i))
        (a.beside (identity n)))
      (Board.diagonalize epsilon ⟨a.beside (identity n), []⟩) :=
    together_foldlM_finRange
      (fun i (g : Grid n (n + n) α) (board : Board n (n + n) α) => g.SameFrom board.grid i)
      (fun _ _ _ => rfl) fun i g board same => same.together_column one epsilon
  rw [← foldlM_orHalt] at run
  -- what is read off the grid at the end is not changed by the elimination
  unfold inverse?
  generalize (List.finRange n).foldlM (reduceColumn? epsilon) (a.beside (identity n)) = found at run
  cases found with
  | none =>
    obtain ⟨e, halt, -, halted, -⟩ | ⟨g, board, none, -⟩ := run.endings
    · rw [halted]
      exact trivial
    · nomatch none
  | some g =>
    obtain ⟨board, done, same⟩ := run.of_ok rfl
    rw [done]
    show g.rightBlock = Grid.rightBlock (n := n) board.grid
    apply ext_entry
    intro r j
    rw [entry_rightBlock, entry_rightBlock]
    exact same r (j.natAdd n) (Nat.le_add_right n j)

end Grid

/-! ## Other right sides -/

namespace Board

/-- Whether an elimination halts is decided in the left block. -/
theorem diagonalize_ok_iff_of_leftBlock {l : Nat} {g : Grid n (n + k) α}
    {h : Grid n (n + l) α} (same : g.leftBlock = h.leftBlock) (epsilon : α) :
    (∃ b, Board.diagonalize epsilon ⟨g, []⟩ = .ok b) ↔
      ∃ b', Board.diagonalize epsilon ⟨h, []⟩ = .ok b' := by
  -- with no right side chosen, the two boards are one
  have board : Board.chooseRight (Fin.elim0 : Fin 0 → Fin k) ⟨g, []⟩ =
      Board.chooseRight (Fin.elim0 : Fin 0 → Fin l) ⟨h, []⟩ := by
    refine congrArg (Board.mk · []) (Grid.ext_entry fun r j => ?_)
    refine Fin.addCases (fun c => ?_) (fun c => c.elim0) j
    rw [Grid.entry_chooseRight, Grid.entry_chooseRight, ← Grid.entry_leftBlock, same,
      Grid.entry_leftBlock]
  have run := (diagonalize_chooseRight Fin.elim0 ⟨g, []⟩ epsilon).symm.trans
    ((congrArg (Board.diagonalize epsilon) board).trans
      (diagonalize_chooseRight Fin.elim0 ⟨h, []⟩ epsilon))
  exact (Together.of_mapEndings run).ok_iff

end Board

namespace LinearSystem

/-- Coefficients with an inverse are those that Gauss-Jordan elimination accepts. -/
theorem diagonalize_ok_iff_inverse? (one : Scalar.LawfulOne α) (epsilon : α)
    (s : LinearSystem n α) :
    (∃ board, Board.diagonalize (k := 1) epsilon ⟨s.augmented, []⟩ = .ok board) ↔
      ∃ m, s.a.inverse? epsilon = some m := by
  have left : (s.a.beside (Grid.identity n)).leftBlock =
      Grid.leftBlock (k := 1) s.augmented := by
    rw [leftBlock_augmented, Grid.leftBlock_beside]
  rw [← Board.diagonalize_ok_iff_of_leftBlock (l := 1) left epsilon,
    ← (Grid.together_inverse one epsilon s.a).ok_iff]
  cases s.a.inverse? epsilon with
  | none => exact ⟨nofun, nofun⟩
  | some m => exact ⟨fun _ => ⟨m, rfl⟩, fun _ => ⟨m, rfl⟩⟩

/-- **Gauss-Jordan elimination stops** exactly if the coefficients have no inverse, whatever the
constants are. -/
theorem gaussJordan_stopped_iff_inverse? (one : Scalar.LawfulOne α) (settings : Settings α)
    (s : LinearSystem n α) :
    (∃ reason steps, s.gaussJordan settings = .stopped reason steps) ↔
      s.a.inverse? settings.epsilon = none := by
  have accepted := s.diagonalize_ok_iff_inverse? one settings.epsilon
  rcases s.gaussJordan_cases settings with ⟨halt, halted, run⟩ | ⟨board, done, run⟩
  · refine iff_of_true ⟨_, _, run⟩ ?_
    by_contra found
    obtain ⟨board, done⟩ := accepted.mpr (Option.ne_none_iff_exists'.mp found)
    nomatch halted.symm.trans done
  · obtain ⟨m, found⟩ := accepted.mp ⟨board, done⟩
    refine iff_of_false ?_ ?_
    · rintro ⟨reason, steps, stopped⟩
      nomatch run.symm.trans stopped
    · rw [found]
      exact nofun

/-- The constants of a unit vector are a column of the identity. -/
theorem augmented_unit (unknowns : Vector Char n) (a : Grid n n α) (j : Fin n) :
    augmented ⟨unknowns, a, Vector.ofFn fun i => if i = j then 1 else 0⟩ =
      (a.beside (Grid.identity n)).chooseRight fun _ : Fin 1 => j := by
  have unit : (Grid.identity n).column j =
      Vector.ofFn fun i => if i = j then (1 : α) else 0 := by
    simp only [Grid.column, Grid.identity, Grid.entry_ofFn]
  rw [Grid.beside_chooseRight, unit, augmented]

/-- **A column of the inverse** is what Gauss-Jordan elimination finds for a unit vector. -/
theorem gaussJordan_unit (one : Scalar.LawfulOne α) (settings : Settings α)
    (unknowns : Vector Char n) {a m : Grid n n α} (found : a.inverse? settings.epsilon = some m)
    (j : Fin n) :
    ∃ steps, gaussJordan settings ⟨unknowns, a, Vector.ofFn fun i => if i = j then 1 else 0⟩ =
      .solved ⟨unknowns, m.column j⟩ steps := by
  have result : orHalt (a.inverse? settings.epsilon) = .ok m := congrArg orHalt found
  obtain ⟨board, done, rfl⟩ := (Grid.together_inverse one settings.epsilon a).of_ok result
  -- of the identity beside the coefficients, the system has one column
  have run := Board.diagonalize_chooseRight (fun _ : Fin 1 => j)
    ⟨a.beside (Grid.identity n), []⟩ settings.epsilon
  rw [done] at run
  have chosen : (⟨a.beside (Grid.identity n), []⟩ : Board n (n + n) α).chooseRight
      (fun _ : Fin 1 => j) =
        ⟨augmented ⟨unknowns, a, Vector.ofFn fun i => if i = j then 1 else 0⟩, []⟩ :=
    congrArg (Board.mk · []) (augmented_unit unknowns a j).symm
  rw [chosen] at run
  rcases gaussJordan_cases settings
      ⟨unknowns, a, Vector.ofFn fun i => if i = j then 1 else 0⟩ with
    ⟨halt, halted, -⟩ | ⟨board', done', ending⟩
  · nomatch halted.symm.trans run
  · have same : board' = board.chooseRight fun _ : Fin 1 => j :=
      Except.ok.inj (done'.symm.trans run)
    have values : board'.grid.lastColumn = (Grid.rightBlock (n := n) board.grid).column j := by
      rw [same]
      exact Grid.lastColumn_chooseRight board.grid j
    exact ⟨_, values ▸ ending⟩

end LinearSystem

namespace Grid

/-- Without columns there is an inverse: nothing can be refused. -/
theorem inverse?_ne_none_of_isEmpty (epsilon : α) (a : Grid 0 0 α) : a.inverse? epsilon ≠ none := by
  unfold inverse?
  rw [List.finRange_zero]
  exact nofun

/-- Grids with the same columns are the same. -/
theorem ext_column {β : Type u} {g h : Grid n k β} (same : ∀ j, g.column j = h.column j) :
    g = h := by
  apply ext_entry
  intro i j
  have at_i := congrArg (·[i]) (same j)
  simpa using at_i

/-- **An inverse is found exactly if its columns are** the values of Gauss-Jordan elimination for the
unit vectors. -/
theorem inverse?_eq_some_iff_gaussJordan (one : Scalar.LawfulOne α) (settings : Settings α)
    (a m : Grid n n α) :
    a.inverse? settings.epsilon = some m ↔
      ∀ unknowns j, ∃ steps,
        LinearSystem.gaussJordan settings
            ⟨unknowns, a, Vector.ofFn fun i => if i = j then 1 else 0⟩ =
          .solved ⟨unknowns, m.column j⟩ steps := by
  constructor
  · intro found unknowns j
    exact LinearSystem.gaussJordan_unit one settings unknowns found j
  · intro columns
    obtain ⟨unknowns⟩ : Nonempty (Vector Char n) := ⟨Vector.replicate n 'x'⟩
    cases found : a.inverse? settings.epsilon with
    | none =>
      cases n with
      | zero => exact absurd found (a.inverse?_ne_none_of_isEmpty settings.epsilon)
      | succ n =>
        obtain ⟨steps, solved⟩ := columns unknowns 0
        obtain ⟨reason, steps', stopped⟩ :=
          (LinearSystem.gaussJordan_stopped_iff_inverse? one settings
            ⟨unknowns, a, Vector.ofFn fun i => if i = 0 then 1 else 0⟩).mpr found
        nomatch solved.symm.trans stopped
    | some m' =>
      refine congrArg some (ext_column fun j => ?_)
      obtain ⟨steps, solved⟩ := columns unknowns j
      obtain ⟨steps', solved'⟩ := LinearSystem.gaussJordan_unit one settings unknowns found j
      obtain ⟨same, -⟩ := Outcome.solved.inj (solved'.symm.trans solved)
      exact congrArg Solution.values same

end Grid

/-! ## Rounded numbers -/

/-- Binary64 numbers know one, infinite numbers and what is not a number included. -/
theorem Scalar.lawfulOne_float : LawfulOne Float where
  one_div_one := Binary64.float_one_div_one
  mul_one := Binary64.float_mul_one
  eq_one := fun _ h => Binary64.eq_one_of_beq h

/-- **The inverse is that of Gauss-Jordan elimination**, rounding and all. There is none exactly if
the elimination stops for every column of constants; and a grid is the inverse exactly if its columns
are the values that the elimination finds for the unit vectors, to the last bit. -/
theorem Grid.inverse?_by_gaussJordan (settings : Settings Float) (a : Grid n n Float) :
    (a.inverse? settings.epsilon = none ↔
      ∀ unknowns b, ∃ reason steps,
        LinearSystem.gaussJordan settings ⟨unknowns, a, b⟩ = .stopped reason steps) ∧
    ∀ m, a.inverse? settings.epsilon = some m ↔
      ∀ unknowns j, ∃ steps,
        LinearSystem.gaussJordan settings
            ⟨unknowns, a, Vector.ofFn fun i => if i = j then 1 else 0⟩ =
          .solved ⟨unknowns, m.column j⟩ steps := by
  have stopped (unknowns : Vector Char n) (b : Vector Float n) :=
    LinearSystem.gaussJordan_stopped_iff_inverse? Scalar.lawfulOne_float settings ⟨unknowns, a, b⟩
  constructor
  · constructor
    · intro none unknowns b
      exact (stopped unknowns b).mpr none
    · intro all
      exact (stopped (Vector.replicate n 'x') (Vector.replicate n 0)).mp (all _ _)
  · intro m
    exact inverse?_eq_some_iff_gaussJordan Scalar.lawfulOne_float settings a m

end Chalkboard
