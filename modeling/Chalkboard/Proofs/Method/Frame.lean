import Chalkboard.Proofs.Grid.Pivot
import Chalkboard.Proofs.Grid.RowOp
import Chalkboard.Proofs.Loop
import Chalkboard.Method.GaussJordan

/-!
# What an elimination leaves alone

Facts about boards that need no law of arithmetic, so they hold of rounded numbers as well: which
rows a step can change, what it puts on record, and what bringing a pivot up can do. A row is final
once its column is done on the way to triangular form, so the pivots that were accepted are those
that back substitution tests again. If a magnitude is its own magnitude, the second test repeats the
first, and back substitution never halts.

* `Board.Performs` — the operations that lead from one board to another, all of them on record. What
  a clearing performs is read off the board before it (`RowOp.clearing`), so whatever a function of
  single operations reads off a record can be read off that board.
* `Board.ends_bringUp_found` — bringing the pivot up, whatever the numbers are.
* `LinearSystem.gauss_cases`, `LinearSystem.gaussJordan_cases` — the two endings of an elimination.
-/

namespace Chalkboard

universe u v

variable {n k : Nat} {α : Type u} {β : Type v}

/-! ## Records -/

/-- The grid that a record ends with, if it begins with `g`. -/
def Grid.after (g : Grid n k α) (entries : List (RowOp α × Grid n k α)) : Grid n k α :=
  entries.foldl (fun _ entry => entry.2) g

theorem Grid.after_append (g : Grid n k α) (entries entries' : List (RowOp α × Grid n k α)) :
    g.after (entries ++ entries') = (g.after entries).after entries' :=
  List.foldl_append

namespace RowOp

variable [Scalar α]

/-- The operations that clear `rows`, each by its factor. Where the factor is zero there is none. -/
def clearing (i : Fin n) (factor : Fin n → α) (rows : List (Fin n)) : List (RowOp α) :=
  (rows.filter fun r => !Scalar.eq (factor r) 0).map fun r : Fin n => .addScaled r i (-factor r)

theorem clearing_cons (i : Fin n) (factor : Fin n → α) (r : Fin n) (rows : List (Fin n)) :
    clearing i factor (r :: rows) =
      (if Scalar.eq (factor r) 0 then [] else [.addScaled r i (-factor r)]) ++
        clearing i factor rows := by
  unfold clearing
  cases hf : Scalar.eq (factor r) 0 with
  | true => rw [List.filter_cons_of_neg (by simp [hf]), if_pos rfl, List.nil_append]
  | false =>
    rw [List.filter_cons_of_pos (by simp [hf]), if_neg Bool.false_ne_true]
    rfl

theorem clearing_congr {i : Fin n} {factor factor' : Fin n → α} {rows : List (Fin n)}
    (same : ∀ r ∈ rows, factor r = factor' r) :
    clearing i factor rows = clearing i factor' rows := by
  induction rows with
  | nil => rfl
  | cons r rows ih =>
    rw [clearing_cons, clearing_cons, same r List.mem_cons_self,
      ih fun r' hr' => same r' (List.mem_cons_of_mem r hr')]

/-- A clearing is nothing to what is not read off such operations. -/
theorem read_clearing {f : RowOp α → Option β}
    (skips : ∀ target source factor, f (.addScaled target source factor) = none) {i : Fin n}
    {factor : Fin n → α} {rows : List (Fin n)} :
    (clearing i factor rows).filterMap f = [] := by
  rw [clearing, List.filterMap_map]
  exact List.filterMap_eq_nil_iff.mpr fun r _ => skips _ _ _

end RowOp

namespace Board

theorem steps_record (b : Board n k α) (op : RowOp α) (g : Grid n k α) :
    (b.record op g).steps = b.steps ++ [.rowOperation op g.toRows] := by
  simp only [steps, record, List.map_append, List.map_cons, List.map_nil]

/-- The operations on record, in their order. -/
def ops (b : Board n k α) : List (RowOp α) :=
  b.log.map Prod.fst

theorem rowOps_steps (b : Board n k α) : b.steps.filterMap Step.rowOp? = b.ops := by
  rw [steps, ops, List.filterMap_map, ← List.filterMap_eq_map]
  rfl

/-- **`b.Performs ops b'`** — beyond `b` the board `b'` has the operations `ops` on record, and its
grid is the one that they end with. -/
def Performs (b : Board n k α) (ops : List (RowOp α)) (b' : Board n k α) : Prop :=
  ∃ entries, b'.log = b.log ++ entries ∧ b'.grid = b.grid.after entries ∧
    entries.map Prod.fst = ops

variable {b b' b'' : Board n k α} {ops ops' : List (RowOp α)}

theorem Performs.refl (b : Board n k α) : b.Performs [] b :=
  ⟨[], (List.append_nil b.log).symm, rfl, rfl⟩

theorem Performs.trans (first : b.Performs ops b') (rest : b'.Performs ops' b'') :
    b.Performs (ops ++ ops') b'' := by
  obtain ⟨entries, hlog, hgrid, rfl⟩ := first
  obtain ⟨entries', hlog', hgrid', rfl⟩ := rest
  refine ⟨entries ++ entries', ?_, ?_, List.map_append⟩
  · rw [hlog', hlog, List.append_assoc]
  · rw [hgrid', hgrid, Grid.after_append]

theorem performs_record (b : Board n k α) (op : RowOp α) (g : Grid n k α) :
    b.Performs [op] (b.record op g) :=
  ⟨[(op, g)], rfl, rfl, rfl⟩

theorem Performs.ops_eq (h : b.Performs ops b') : b'.ops = b.ops ++ ops := by
  obtain ⟨entries, hlog, -, rfl⟩ := h
  rw [Board.ops, hlog, List.map_append]
  rfl

variable [Scalar α]

/-! ## Rows that a step does not change -/

theorem entry_clear_of_ne (b : Board n (n + k) α) {i r r' : Fin n} (factor : α) (h : r' ≠ r) :
    (b.clear i r factor).grid.entry r' = b.grid.entry r' := by
  unfold clear
  split_ifs
  · rfl
  · funext j
    simp only [record, Grid.entry_setEntry, Grid.entry_addScaledRow, h.symm, false_and, if_false]

/-- **What clearing does to its row**: nothing if the factor is zero. Otherwise it overwrites the
pivot's column by zero and subtracts a multiple of the pivot row from the rest. -/
theorem entry_clear_self (b : Board n (n + k) α) (i r : Fin n) (factor : α) (c : Fin (n + k)) :
    (b.clear i r factor).grid.entry r c =
      if Scalar.eq factor 0 then b.grid.entry r c
      else if c = i.castAdd k then 0 else b.grid.entry r c + -factor * b.grid.entry i c := by
  unfold clear
  split_ifs with skipped pivot
  · rfl
  · simp only [record, Grid.entry_setEntry, pivot, and_self, if_true]
  · simp only [record, Grid.entry_setEntry, Grid.entry_addScaledRow, if_true, true_and,
      if_neg (Ne.symm pivot)]

/-- **Clearing in several rows** leaves the others, and clears each as it stood: neither the pivot
row nor the rows to come are changed on the way. -/
theorem rows_foldl_clear {i : Fin n} (factor : α → α) (rows : List (Fin n)) :
    ∀ b : Board n (n + k) α, rows.Nodup → i ∉ rows →
      let b' := rows.foldl (fun b r => b.clear i r (factor (b.grid.entry r (i.castAdd k)))) b
      (∀ r ∉ rows, b'.grid.entry r = b.grid.entry r) ∧
        ∀ r ∈ rows, b'.grid.entry r =
          (b.clear i r (factor (b.grid.entry r (i.castAdd k)))).grid.entry r := by
  induction rows with
  | nil =>
    intro b _ _
    exact ⟨fun _ _ => rfl, fun r hr => absurd hr List.not_mem_nil⟩
  | cons r₀ rows ih =>
    intro b nodup hi
    obtain ⟨hr₀, nodup'⟩ := List.nodup_cons.mp nodup
    have hi₀ : i ≠ r₀ := fun h => hi (h ▸ List.mem_cons_self)
    obtain ⟨others, cleared⟩ := ih (b.clear i r₀ (factor (b.grid.entry r₀ (i.castAdd k)))) nodup'
      fun h => hi (List.mem_cons_of_mem _ h)
    have keep {r : Fin n} (h : r ≠ r₀) :=
      b.entry_clear_of_ne (i := i) (factor (b.grid.entry r₀ (i.castAdd k))) h
    refine ⟨fun r hr => ?_, fun r hr => ?_⟩
    · have hne : r ≠ r₀ := fun h => hr (h ▸ List.mem_cons_self)
      exact (others r fun h => hr (List.mem_cons_of_mem _ h)).trans (keep hne)
    · rcases List.mem_cons.mp hr with rfl | hr
      · exact others r hr₀
      · have hne : r ≠ r₀ := fun h => hr₀ (h ▸ hr)
        refine (cleared r hr).trans ?_
        funext c
        rw [entry_clear_self, entry_clear_self, keep hne, keep hi₀]

/-- **Clearing below a pivot**, row by row. -/
theorem row_clearBelow (b : Board n (n + k) α) {i r : Fin n} (h : i < r) :
    (b.clearBelow i).grid.entry r =
      (b.clear i r (b.grid.entry r (i.castAdd k) / b.grid.entry i (i.castAdd k))).grid.entry r :=
  (rows_foldl_clear (k := k) (i := i) (fun x => x / b.grid.entry i (i.castAdd k))
    ((List.finRange n).filter (i < ·)) b ((List.nodup_finRange n).filter _) (by simp)).2 r
    (by simpa using h)

/-- Clearing below a row leaves it and the rows above it. -/
theorem entry_clearBelow_of_le (b : Board n (n + k) α) {i r : Fin n} (h : r ≤ i) :
    (b.clearBelow i).grid.entry r = b.grid.entry r := by
  refine List.foldlRecOn (motive := fun b' : Board n (n + k) α =>
    b'.grid.entry r = b.grid.entry r) _ _ rfl fun b' same r' hr' => ?_
  have hir' : i < r' := by simpa using hr'
  rw [entry_clear_of_ne b' _ (h.trans_lt hir').ne, same]

/-! ## What a step puts on record -/

theorem performs_clear (b : Board n (n + k) α) (i r : Fin n) (factor : α) :
    b.Performs (if Scalar.eq factor 0 then [] else [.addScaled r i (-factor)])
      (b.clear i r factor) := by
  unfold clear
  split_ifs
  · exact .refl b
  · exact b.performs_record _ _

/-- **Clearing in several rows** puts on record what clears each as it stood: the rows to come are
not changed on the way. -/
theorem performs_foldl_clear (i : Fin n) (factor : α → α) (rows : List (Fin n)) :
    ∀ b : Board n (n + k) α, rows.Nodup →
      b.Performs (RowOp.clearing i (fun r => factor (b.grid.entry r (i.castAdd k))) rows)
        (rows.foldl (fun b r => b.clear i r (factor (b.grid.entry r (i.castAdd k)))) b) := by
  induction rows with
  | nil =>
    intro b _
    exact .refl b
  | cons r rows ih =>
    intro b nodup
    obtain ⟨hr, nodup'⟩ := List.nodup_cons.mp nodup
    have rest := ih (b.clear i r (factor (b.grid.entry r (i.castAdd k)))) nodup'
    have same : ∀ r' ∈ rows,
        factor ((b.clear i r (factor (b.grid.entry r (i.castAdd k)))).grid.entry r'
          (i.castAdd k)) = factor (b.grid.entry r' (i.castAdd k)) := by
      intro r' hr'
      have hne : r' ≠ r := fun h => hr (h ▸ hr')
      rw [entry_clear_of_ne b _ hne]
    rw [RowOp.clearing_congr same] at rest
    rw [RowOp.clearing_cons]
    exact (b.performs_clear i r _).trans rest

theorem performs_clearBelow (b : Board n (n + k) α) (i : Fin n) :
    b.Performs (RowOp.clearing i
      (fun r => b.grid.entry r (i.castAdd k) / b.grid.entry i (i.castAdd k))
      ((List.finRange n).filter (i < ·))) (b.clearBelow i) :=
  performs_foldl_clear i (· / b.grid.entry i (i.castAdd k)) _ b ((List.nodup_finRange n).filter _)

theorem performs_clearOthers (b : Board n (n + k) α) (i : Fin n) :
    b.Performs (RowOp.clearing i (fun r => b.grid.entry r (i.castAdd k))
      ((List.finRange n).filter (· ≠ i))) (b.clearOthers i) :=
  performs_foldl_clear i id _ b ((List.nodup_finRange n).filter _)

theorem performs_normalize (b : Board n (n + k) α) (i : Fin n) :
    b.Performs (if Scalar.eq (b.grid.entry i (i.castAdd k)) 1 then []
      else [.scale i (1 / b.grid.entry i (i.castAdd k))]) (b.normalize i) := by
  simp only [normalize]
  split_ifs
  · exact .refl b
  · exact b.performs_record _ _

section Reading

variable {f : RowOp α → Option β}
  (skips : ∀ target source factor, f (.addScaled target source factor) = none)
include skips

/-- Clearing adds nothing to what is not read off such operations. -/
theorem read_clearBelow (b : Board n (n + k) α) (i : Fin n) :
    (b.clearBelow i).ops.filterMap f = b.ops.filterMap f := by
  rw [(b.performs_clearBelow i).ops_eq, List.filterMap_append, RowOp.read_clearing skips,
    List.append_nil]

theorem read_clearOthers (b : Board n (n + k) α) (i : Fin n) :
    (b.clearOthers i).ops.filterMap f = b.ops.filterMap f := by
  rw [(b.performs_clearOthers i).ops_eq, List.filterMap_append, RowOp.read_clearing skips,
    List.append_nil]

end Reading

/-! ## Bringing the pivot up -/

/-- **Bringing the pivot up**, whatever the numbers are. With `r` the row that the search finds, it
halts exactly if the magnitude there is negligible, with the board as it stands. Otherwise rows `i`
and `r` are exchanged, on record only if they differ. -/
theorem ends_bringUp_found (epsilon : α) (b : Board n (n + k) α) {i r : Fin n}
    (hr : (b.grid.pivotBelow (i.castAdd k) i).1 = r) :
    Ends
      (fun halt =>
        Scalar.negligible epsilon (Scalar.abs (b.grid.entry r (i.castAdd k))) = true ∧
        halt = ⟨i, b.grid.entry r (i.castAdd k), b⟩)
      (fun b' =>
        Scalar.negligible epsilon (Scalar.abs (b.grid.entry r (i.castAdd k))) = false ∧
        b'.grid = b.grid.swapRows i r ∧
        b'.log = b.log ++ if r = i then [] else [(.swap i r, b.grid.swapRows i r)])
      (b.bringUp epsilon i) := by
  have hmag := (b.grid.found_pivotBelow (i.castAdd k) i).2
  simp only [bringUp]
  rw [hmag, hr]
  cases Scalar.negligible epsilon (Scalar.abs (b.grid.entry r (i.castAdd k))) with
  | true => exact ⟨rfl, rfl⟩
  | false =>
    rw [if_neg Bool.false_ne_true]
    by_cases hri : r = i
    · subst hri
      rw [if_pos rfl, if_pos rfl]
      exact ⟨rfl, (Grid.swapRows_self b.grid r).symm, (List.append_nil b.log).symm⟩
    · rw [if_neg hri, if_neg hri]
      exact ⟨rfl, rfl, rfl⟩

omit [Scalar α] in
/-- A board on which rows `i` and `r` were exchanged, on record only if they differ, is the old one
or has this exchange on record. -/
theorem eq_or_eq_record_swap {b b' : Board n k α} {i r : Fin n}
    (hgrid : b'.grid = b.grid.swapRows i r)
    (hlog : b'.log = b.log ++ if r = i then [] else [(.swap i r, b.grid.swapRows i r)]) :
    b' = b ∨ r ≠ i ∧ b' = b.record (.swap i r) (b.grid.swapRows i r) := by
  obtain ⟨grid', log'⟩ := b'
  subst hgrid hlog
  by_cases hr : r = i
  · left
    rw [if_pos hr, hr, Grid.swapRows_self, List.append_nil]
  · right
    rw [if_neg hr]
    exact ⟨hr, rfl⟩

/-! ## Accepted pivots -/

/-- **`b.Accepted epsilon i`** — the first `i` entries on the diagonal are not negligible. -/
def Accepted (epsilon : α) (b : Board n (n + k) α) (i : Nat) : Prop :=
  ∀ c : Fin n, (c : Nat) < i →
    Scalar.negligible epsilon (b.grid.entry c (c.castAdd k)) = false

/-- One column on the way to triangular form accepts one more pivot. -/
theorem ends_column_accepted (idem : ∀ x : α, Scalar.abs (Scalar.abs x) = Scalar.abs x)
    {epsilon : α} {b : Board n (n + k) α} {i : Fin n} (h : b.Accepted epsilon i) :
    Ends (fun _ => True) (·.Accepted epsilon (i + 1))
      ((b.bringUp epsilon i).map (·.clearBelow i)) := by
  have hir := (b.grid.found_pivotBelow (i.castAdd k) i).1
  have raised : Ends (fun _ => True) (·.Accepted epsilon (i + 1)) (b.bringUp epsilon i) := by
    refine (ends_bringUp_found epsilon b rfl).imp (fun _ _ => trivial) ?_
    rintro b' ⟨hneg, hgrid, -⟩ c hc
    rw [hgrid]
    rcases Nat.lt_succ_iff_lt_or_eq.mp hc with hlt | heq
    · -- the exchange is between later rows
      have hci : c < i := hlt
      rw [Grid.row_swapRows, if_neg hci.ne, if_neg (hci.trans_le hir).ne]
      exact h c hlt
    · obtain rfl : c = i := Fin.ext heq
      rw [Grid.row_swapRows, if_pos rfl]
      simpa only [Scalar.negligible, idem] using hneg
  refine raised.map fun b' h' c hc => ?_
  rw [entry_clearBelow_of_le b' (Nat.le_of_lt_succ hc)]
  exact h' c hc

/-- A triangular form has no negligible pivot. -/
theorem ends_triangularize_accepted (idem : ∀ x : α, Scalar.abs (Scalar.abs x) = Scalar.abs x)
    (epsilon : α) (b : Board n (n + k) α) :
    Ends (fun _ => True) (·.Accepted epsilon n) (b.triangularize epsilon) :=
  ends_foldlM_finRange (fun i (b' : Board n (n + k) α) => b'.Accepted epsilon i)
    (fun c hc => absurd hc (Nat.not_lt_zero c)) fun _ _ h => ends_column_accepted idem h

end Board

/-! ## The two methods -/

namespace LinearSystem

/-- Behind a triangular form no row operation is written down. -/
theorem rowOp?_of_mem_closing (s : LinearSystem n α) {caption : String} {rows : List (List α)}
    {log : List (Substitution n α)} {assignments : List (Char × α)} :
    ∀ step ∈ .augmented caption rows :: (log.map s.substitutionStep ++ [.solution assignments]),
      step.rowOp? = none := by
  intro step h
  rcases List.mem_cons.mp h with rfl | h
  · rfl
  · rcases List.mem_append.mp h with h | h
    · obtain ⟨r, -, rfl⟩ := List.mem_map.mp h
      rfl
    · rw [List.mem_singleton.mp h]
      rfl

/-- The row operations of an elimination are those of its board: none is written down around them.
-/
theorem rowOps_elimination (s : LinearSystem n α) (b : Board n (n + 1) α) {rest : List (Step α)}
    (h : ∀ step ∈ rest, step.rowOp? = none) :
    (s.eliminationOpening ++ b.steps ++ rest).filterMap Step.rowOp? = b.ops := by
  have opening : s.eliminationOpening.filterMap Step.rowOp? = [] := rfl
  rw [List.filterMap_append, List.filterMap_append, opening, List.filterMap_eq_nil_iff.mpr h,
    List.append_nil, List.nil_append, b.rowOps_steps]

end LinearSystem

variable [Scalar α]

/-- A back substitution halts only before a negligible pivot. -/
theorem Grid.ends_backSubstitute_refused (epsilon : α) (u : Grid n n α) (b : Vector α n) :
    Ends (fun halt => Scalar.negligible epsilon (u.entry halt.row halt.row) = true)
      (fun _ => True) (u.backSubstitute epsilon b) := by
  refine ends_foldlM_finRange_reverse (fun _ _ => True) trivial fun i state _ => ?_
  simp only [substituteRow]
  cases hneg : Scalar.negligible epsilon (u.entry i i) with
  | true => exact hneg
  | false => exact trivial

/-- A back substitution before which all pivots were accepted reaches the first row. -/
theorem Grid.backSubstitute_of_accepted {epsilon : α} {u : Grid n n α}
    (accepted : ∀ i, Scalar.negligible epsilon (u.entry i i) = false) (b : Vector α n) :
    ∃ x log, u.backSubstitute epsilon b = .ok (x, log) := by
  have refused := u.ends_backSubstitute_refused epsilon b
  cases run : u.backSubstitute epsilon b with
  | error halt =>
    have hneg := refused.of_error run
    rw [accepted] at hneg
    exact absurd hneg Bool.false_ne_true
  | ok result => exact ⟨result.1, result.2, rfl⟩

namespace LinearSystem

/-- **What a solution by Gaussian elimination comes from**: both of its parts ended with a result,
and the steps are those of the first with those of the second behind them. This needs no knowledge
of how the two belong together. -/
theorem exists_of_gauss {settings : Settings α} {s : LinearSystem n α} {solution : Solution n α}
    {steps : List (Step α)} (run : s.gauss settings = .solved solution steps) :
    ∃ board x, ∃ log : List (Substitution n α),
      Board.triangularize (k := 1) settings.epsilon ⟨s.augmented, []⟩ = .ok board ∧
      (Grid.leftBlock (k := 1) board.grid).backSubstitute settings.epsilon
        board.grid.lastColumn = .ok (x, log) ∧
      solution = ⟨s.unknowns, x⟩ ∧
      steps = s.eliminationOpening ++ board.steps ++
        .augmented "Upper triangular form" board.grid.toRows :: (log.map s.substitutionStep ++
          [.solution (Solution.assignments ⟨s.unknowns, x⟩)]) := by
  unfold gauss at run
  cases hb : Board.triangularize (k := 1) settings.epsilon ⟨s.augmented, []⟩ with
  | error halt =>
    rw [hb] at run
    nomatch run
  | ok board =>
    rw [hb] at run
    simp only at run
    cases hx : (Grid.leftBlock (k := 1) board.grid).backSubstitute settings.epsilon
        board.grid.lastColumn with
    | error halt =>
      rw [hx] at run
      nomatch run
    | ok result =>
      rw [hx] at run
      cases run
      refine ⟨board, result.1, result.2, rfl, hx, rfl, ?_⟩
      simp only [List.append_assoc, List.cons_append, List.nil_append]

/-- Behind a triangular form Gaussian elimination gives all values: back substitution meets only
pivots that were accepted before. -/
theorem gauss_of_triangularize (idem : ∀ x : α, Scalar.abs (Scalar.abs x) = Scalar.abs x)
    (settings : Settings α) {s : LinearSystem n α} {board : Board n (n + 1) α}
    (run : Board.triangularize (k := 1) settings.epsilon ⟨s.augmented, []⟩ = .ok board) :
    (∀ i, Scalar.negligible settings.epsilon
      ((Grid.leftBlock (k := 1) board.grid).entry i i) = false) ∧
    ∃ x, ∃ log : List (Substitution n α),
      (Grid.leftBlock (k := 1) board.grid).backSubstitute settings.epsilon
        board.grid.lastColumn = .ok (x, log) ∧
      s.gauss settings = .solved ⟨s.unknowns, x⟩ (s.eliminationOpening ++ board.steps ++
        .augmented "Upper triangular form" board.grid.toRows :: (log.map s.substitutionStep ++
          [.solution (Solution.assignments ⟨s.unknowns, x⟩)])) := by
  have pivots (i : Fin n) : Scalar.negligible settings.epsilon
      ((Grid.leftBlock (k := 1) board.grid).entry i i) = false := by
    rw [Grid.entry_leftBlock]
    exact (Board.ends_triangularize_accepted idem settings.epsilon _).of_ok run i i.isLt
  obtain ⟨x, log, values⟩ := Grid.backSubstitute_of_accepted pivots board.grid.lastColumn
  refine ⟨pivots, x, log, values, ?_⟩
  unfold gauss
  simp only [run, values, Outcome.close, List.append_assoc, List.cons_append, List.nil_append]

/-- **How Gaussian elimination ends.** Forward elimination halts, or else back substitution gives
all values: it meets only pivots that were accepted before. -/
theorem gauss_cases (idem : ∀ x : α, Scalar.abs (Scalar.abs x) = Scalar.abs x)
    (settings : Settings α) (s : LinearSystem n α) :
    (∃ halt, Board.triangularize (k := 1) settings.epsilon ⟨s.augmented, []⟩ = .error halt ∧
      s.gauss settings = .stopped (.zeroPivot halt.column halt.pivot .elimination)
        (s.eliminationOpening ++ halt.board.steps ++
          [.failure (Singularity.zeroPivot halt.column halt.pivot .elimination).text])) ∨
    ∃ board x, ∃ log : List (Substitution n α),
      Board.triangularize (k := 1) settings.epsilon ⟨s.augmented, []⟩ = .ok board ∧
      s.gauss settings = .solved ⟨s.unknowns, x⟩ (s.eliminationOpening ++ board.steps ++
        .augmented "Upper triangular form" board.grid.toRows :: (log.map s.substitutionStep ++
          [.solution (Solution.assignments ⟨s.unknowns, x⟩)])) := by
  cases hboard : Board.triangularize (k := 1) settings.epsilon ⟨s.augmented, []⟩ with
  | error halt =>
    refine .inl ⟨halt, rfl, ?_⟩
    unfold gauss
    rw [hboard]
    rfl
  | ok board =>
    obtain ⟨-, x, log, -, hgauss⟩ := gauss_of_triangularize idem settings hboard
    exact .inr ⟨board, x, log, rfl, hgauss⟩

/-- **How Gauss-Jordan elimination ends.** -/
theorem gaussJordan_cases (settings : Settings α) (s : LinearSystem n α) :
    (∃ halt, Board.diagonalize (k := 1) settings.epsilon ⟨s.augmented, []⟩ = .error halt ∧
      s.gaussJordan settings = .stopped (.zeroPivot halt.column halt.pivot .elimination)
        (s.eliminationOpening ++ halt.board.steps ++
          [.failure (Singularity.zeroPivot halt.column halt.pivot .elimination).text])) ∨
    ∃ board, Board.diagonalize (k := 1) settings.epsilon ⟨s.augmented, []⟩ = .ok board ∧
      s.gaussJordan settings = .solved ⟨s.unknowns, board.grid.lastColumn⟩
        (s.eliminationOpening ++ board.steps ++
          [.augmented "Reduced row echelon form" board.grid.toRows,
            .solution (Solution.assignments ⟨s.unknowns, board.grid.lastColumn⟩)]) := by
  unfold gaussJordan
  cases hboard : Board.diagonalize (k := 1) settings.epsilon ⟨s.augmented, []⟩ with
  | error halt => exact .inl ⟨halt, rfl, rfl⟩
  | ok board =>
    refine .inr ⟨board, rfl, ?_⟩
    simp only [Outcome.close, List.append_assoc, List.cons_append, List.nil_append]

end LinearSystem

end Chalkboard
