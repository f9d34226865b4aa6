import Mathlib
import Chalkboard.Method.Basic
import Chalkboard.Proofs.Grid.Largest
import Chalkboard.Proofs.Method.Elimination
import Chalkboard.Proofs.Worked.Outcome
import Chalkboard.Proofs.Worked.Replay

/-!
# The steps of an elimination can be replayed

What an elimination writes down is what it did: nothing happens to its grid between two steps, and
each step shows the grid that its operation leaves. That holds of rounded numbers, with the exact
numbers written over; over an ordered field these change nothing, and the operations alone give
every matrix. Where an elimination halts, the last matrix shows why.

* `Board.Replayed` — one board leads to another by recorded operations alone.
* `Board.ends_sweep` — the rule of an elimination: its columns need to be replayable one by one.
* `Halt.Refused` — the pivot of a halt is the one that the search finds, and it is negligible.
-/

namespace Chalkboard

universe u

variable {n k : Nat} {α : Type u}

/-! ## Boards -/

namespace Board

/-- **`Replayed act b b'`** — what `b'` has on record beyond `b` leads from the grid of `b` to that
of `b'`. -/
def Replayed (act : RowOp α → Grid n k α → Grid n k α) (b b' : Board n k α) : Prop :=
  ∃ steps, b'.steps = b.steps ++ steps ∧ Replays act b.grid steps b'.grid

theorem Replayed.refl (act : RowOp α → Grid n k α → Grid n k α) (b : Board n k α) :
    Replayed act b b :=
  ⟨[], (List.append_nil b.steps).symm, .done b.grid⟩

theorem Replayed.trans {act : RowOp α → Grid n k α → Grid n k α} {b b' b'' : Board n k α}
    (first : Replayed act b b') (rest : Replayed act b' b'') : Replayed act b b'' := by
  obtain ⟨steps, hsteps, replays⟩ := first
  obtain ⟨steps', hsteps', replays'⟩ := rest
  refine ⟨steps ++ steps', ?_, replays.trans replays'⟩
  rw [hsteps', hsteps, List.append_assoc]

theorem replayed_record {act : RowOp α → Grid n k α → Grid n k α} (b : Board n k α)
    {op : RowOp α} {g : Grid n k α} (h : act op b.grid = g) :
    Replayed act b (b.record op g) := by
  subst h
  exact ⟨_, b.steps_record op _, .step op (.done _)⟩

end Board

variable [Scalar α]

/-- **`halt.Refused epsilon`** — the pivot of the halt is the entry that the search finds, and it is
negligible. -/
def Halt.Refused (epsilon : α) (halt : Halt n (n + k) α) : Prop :=
  halt.pivot = halt.board.grid.entry
      (halt.board.grid.pivotBelow (halt.column.castAdd k) halt.column).1 (halt.column.castAdd k) ∧
    Scalar.negligible epsilon (Scalar.abs halt.pivot) = true

namespace Board

variable {act : RowOp α → Grid n (n + k) α → Grid n (n + k) α} {epsilon : α}

/-- An operation that leaves the exact numbers by itself needs no overwriting. -/
theorem replayed_clear (b : Board n (n + k) α) {i r : Fin n} {factor : α}
    (h : act (.addScaled r i (-factor)) b.grid =
      (RowOp.addScaled r i (-factor)).replay b.grid) :
    Replayed act b (b.clear i r factor) := by
  unfold clear
  split_ifs
  · exact .refl act b
  · exact b.replayed_record (h.trans (RowOp.replay_addScaled b.grid r i (-factor)))

/-- Clearing places in several rows; the row that is subtracted stays as it is. -/
theorem replayed_foldl_clear (i : Fin n) (factor : Board n (n + k) α → Fin n → α)
    (rows : List (Fin n)) (b : Board n (n + k) α) (hi : i ∉ rows)
    (agree : ∀ b' : Board n (n + k) α, b'.grid.entry i = b.grid.entry i → ∀ r : Fin n,
      act (.addScaled r i (-factor b' r)) b'.grid =
        (RowOp.addScaled r i (-factor b' r)).replay b'.grid) :
    Replayed act b (rows.foldl (fun b r => b.clear i r (factor b r)) b) := by
  have kept := List.foldlRecOn
    (motive := fun b' : Board n (n + k) α => b'.grid.entry i = b.grid.entry i ∧ Replayed act b b')
    rows (fun b r => b.clear i r (factor b r)) ⟨rfl, .refl act b⟩ ?step
  case step =>
    rintro b' ⟨same, replayed⟩ r hr
    have hir : i ≠ r := fun h => hi (h ▸ hr)
    exact ⟨(entry_clear_of_ne b' _ hir).trans same,
      replayed.trans (b'.replayed_clear (agree b' same r))⟩
  exact kept.2

theorem replayed_clearBelow (b : Board n (n + k) α) (i : Fin n)
    (agree : ∀ b' : Board n (n + k) α, b'.grid.entry i = b.grid.entry i → ∀ r : Fin n,
      let factor := b'.grid.entry r (i.castAdd k) / b.grid.entry i (i.castAdd k)
      act (.addScaled r i (-factor)) b'.grid = (RowOp.addScaled r i (-factor)).replay b'.grid) :
    Replayed act b (b.clearBelow i) :=
  replayed_foldl_clear i
    (fun b' r => b'.grid.entry r (i.castAdd k) / b.grid.entry i (i.castAdd k)) _ b (by simp) agree

theorem replayed_clearOthers (b : Board n (n + k) α) (i : Fin n)
    (agree : ∀ b' : Board n (n + k) α, b'.grid.entry i = b.grid.entry i → ∀ r : Fin n,
      let factor := b'.grid.entry r (i.castAdd k)
      act (.addScaled r i (-factor)) b'.grid = (RowOp.addScaled r i (-factor)).replay b'.grid) :
    Replayed act b (b.clearOthers i) :=
  replayed_foldl_clear i (fun b' r => b'.grid.entry r (i.castAdd k)) _ b (by simp) agree

theorem replayed_normalize (b : Board n (n + k) α) (i : Fin n)
    (h : act (.scale i (1 / b.grid.entry i (i.castAdd k))) b.grid =
      (RowOp.scale i (1 / b.grid.entry i (i.castAdd k))).replay b.grid) :
    Replayed act b (b.normalize i) := by
  simp only [normalize]
  split_ifs
  · exact .refl act b
  · exact b.replayed_record (h.trans (RowOp.replay_scale b.grid i _))

/-! ## Eliminations -/

/-- Bringing the pivot up is an exchange on record, or nothing. -/
theorem ends_bringUp_replayed
    (swap : ∀ (g : Grid n (n + k) α) (i r : Fin n), act (.swap i r) g = g.swapRows i r)
    (b : Board n (n + k) α) (i : Fin n) :
    Ends (fun halt => Replayed act b halt.board ∧ halt.Refused epsilon)
      (fun b' => Replayed act b b' ∧
        Scalar.negligible epsilon (Scalar.abs (b'.grid.entry i (i.castAdd k))) = false)
      (b.bringUp epsilon i) := by
  refine (ends_bringUp_found epsilon b rfl).imp ?_ ?_
  · rintro _ ⟨hneg, rfl⟩
    exact ⟨.refl act b, rfl, hneg⟩
  · rintro b' ⟨hneg, hgrid, hlog⟩
    refine ⟨?_, ?_⟩
    · rcases eq_or_eq_record_swap hgrid hlog with rfl | ⟨-, rfl⟩
      · exact .refl act b'
      · exact b.replayed_record (swap b.grid i _)
    · rw [hgrid, Grid.row_swapRows, if_pos rfl]
      exact hneg

/-- **The rule of an elimination.** It can be replayed if what it does behind each accepted pivot
can; and where it halts, the pivot was refused. -/
theorem ends_sweep
    (swap : ∀ (g : Grid n (n + k) α) (i r : Fin n), act (.swap i r) g = g.swapRows i r)
    {reduce : Board n (n + k) α → Fin n → Board n (n + k) α}
    (column : ∀ (b : Board n (n + k) α) (i : Fin n),
      Scalar.negligible epsilon (Scalar.abs (b.grid.entry i (i.castAdd k))) = false →
      Replayed act b (reduce b i)) (b : Board n (n + k) α) :
    Ends (fun halt => Replayed act b halt.board ∧ halt.Refused epsilon) (Replayed act b)
      ((List.finRange n).foldlM
        (fun b i => (b.bringUp epsilon i).map fun b => reduce b i) b) := by
  refine ends_foldlM_finRange (fun _ b' => Replayed act b b') (.refl act b) fun i b' h => ?_
  have raised : Ends (fun halt => Replayed act b halt.board ∧ halt.Refused epsilon)
      (fun b'' => Replayed act b b'' ∧
        Scalar.negligible epsilon (Scalar.abs (b''.grid.entry i (i.castAdd k))) = false)
      (b'.bringUp epsilon i) := by
    refine (ends_bringUp_replayed swap b' i).imp ?_ ?_
    · exact fun _ ⟨up, refused⟩ => ⟨h.trans up, refused⟩
    · exact fun _ ⟨up, hneg⟩ => ⟨h.trans up, hneg⟩
  exact raised.map fun b'' ⟨up, hneg⟩ => up.trans (column b'' i hneg)

/-- **Eliminations can be replayed** with the exact numbers written over. -/
theorem ends_eliminations_replay (epsilon : α) (b : Board n (n + k) α) :
    Ends (fun halt => Replayed RowOp.replay b halt.board ∧ halt.Refused epsilon)
        (Replayed RowOp.replay b) (b.triangularize epsilon) ∧
      Ends (fun halt => Replayed RowOp.replay b halt.board ∧ halt.Refused epsilon)
        (Replayed RowOp.replay b) (b.diagonalize epsilon) := by
  constructor
  · exact ends_sweep RowOp.replay_swap
      (fun b i _ => b.replayed_clearBelow i fun _ _ _ => rfl) b
  · exact ends_sweep RowOp.replay_swap
      (fun b i _ => (b.replayed_normalize i rfl).trans
        ((b.normalize i).replayed_clearOthers i fun _ _ _ => rfl)) b

end Board

/-! ## Over an ordered field -/

section Field

variable {K : Type u} [Field K] [LinearOrder K]

/-- A subtraction that clears an entry by itself. -/
theorem RowOp.apply_addScaled_eq_replay {g : Grid n (n + k) K} {r i : Fin n} {factor : K}
    (h : factor * g.entry i (i.castAdd k) = g.entry r (i.castAdd k)) :
    (RowOp.addScaled r i (-factor)).apply g = (RowOp.addScaled r i (-factor)).replay g := by
  rw [replay_addScaled, apply_addScaled, Grid.setEntry_eq_self]
  rw [Grid.entry_addScaledRow, if_pos rfl, neg_mul, h, add_neg_cancel]

namespace Board

variable [IsStrictOrderedRing K]

/-- **Over an ordered field the operations are enough**: a pivot becomes one and an entry zero by
themselves. -/
theorem ends_eliminations_apply {epsilon : K} (pos : 0 < epsilon) (b : Board n (n + k) K) :
    Ends (fun halt => Replayed RowOp.apply b halt.board ∧ halt.Refused epsilon)
        (Replayed RowOp.apply b) (b.triangularize epsilon) ∧
      Ends (fun halt => Replayed RowOp.apply b halt.board ∧ halt.Refused epsilon)
        (Replayed RowOp.apply b) (b.diagonalize epsilon) := by
  constructor
  · -- the factor is the entry over the pivot, so times the pivot it is the entry
    refine ends_sweep RowOp.apply_swap (fun b i hneg => ?_) b
    have hp := abs_ne_zero.mp (Scalar.ne_zero_of_not_negligible pos hneg)
    refine b.replayed_clearBelow i fun b' same r => RowOp.apply_addScaled_eq_replay ?_
    rw [same, div_mul_cancel₀ _ hp]
  · refine ends_sweep RowOp.apply_swap (fun b i hneg => ?_) b
    have hp := abs_ne_zero.mp (Scalar.ne_zero_of_not_negligible pos hneg)
    have hone : (b.normalize i).grid.entry i (i.castAdd k) = 1 := by
      rw [b.grid_normalize i hp, Grid.entry_scaleRow, if_pos rfl, mul_one_div_cancel hp]
    have divided : Replayed RowOp.apply b (b.normalize i) := by
      refine b.replayed_normalize i ?_
      rw [RowOp.replay_scale, RowOp.apply_scale, Grid.setEntry_eq_self]
      rw [Grid.entry_scaleRow, if_pos rfl, mul_one_div_cancel hp]
    refine divided.trans ((b.normalize i).replayed_clearOthers i fun b' same r => ?_)
    refine RowOp.apply_addScaled_eq_replay ?_
    rw [same, hone, mul_one]

end Board

end Field

/-! ## Worked solutions -/

namespace LinearSystem

/-- **`s.Accounted act epsilon outcome`** — an ending is traced, and if there is no solution then
the pivot that its reason names was refused on the last matrix. -/
def Accounted (s : LinearSystem n α) (act : RowOp α → Grid n (n + 1) α → Grid n (n + 1) α)
    (epsilon : α) (outcome : Outcome n α) : Prop :=
  ∃ last, s.Traced act outcome last ∧
    ∀ reason steps, outcome = .stopped reason steps →
      ∃ halt : Halt n (n + 1) α, halt.board.grid = last ∧ Halt.Refused (k := 1) epsilon halt ∧
        reason = .zeroPivot halt.column halt.pivot .elimination

variable {act : RowOp α → Grid n (n + 1) α → Grid n (n + 1) α} {epsilon : α}

/-- A halt is accounted for by its board. -/
theorem accounted_stopped {s : LinearSystem n α} {halt : Halt n (n + 1) α}
    (replayed : Board.Replayed act ⟨s.augmented, []⟩ halt.board)
    (refused : Halt.Refused (k := 1) epsilon halt) (text : String) :
    s.Accounted act epsilon (.stopped (.zeroPivot halt.column halt.pivot .elimination)
      (s.eliminationOpening ++ halt.board.steps ++ [.failure text])) := by
  obtain ⟨operations, hsteps, replays⟩ := replayed
  refine ⟨halt.board.grid, ⟨"", operations, [.failure text], ?_, replays, ?_⟩, ?_⟩
  · rw [hsteps]
    simp only [Outcome.steps, Outcome.isSolved, eliminationOpening, Board.steps, List.map_nil,
      List.nil_append, List.cons_append, List.append_assoc, Bool.false_eq_true, if_false]
  · simp [Step.snapshot?]
  · rintro reason steps run
    cases run
    exact ⟨halt, rfl, refused, rfl⟩

/-- A solution is accounted for by the board it was read from. -/
theorem accounted_solved {s : LinearSystem n α} {board : Board n (n + 1) α}
    (replayed : Board.Replayed act ⟨s.augmented, []⟩ board) (solution : Solution n α)
    (closing : String) {remarks : List (Step α)}
    (silent : ∀ step ∈ remarks, step.snapshot? = none) :
    s.Accounted act epsilon (.solved solution (s.eliminationOpening ++ board.steps ++
      .augmented closing board.grid.toRows :: remarks)) := by
  obtain ⟨operations, hsteps, replays⟩ := replayed
  refine ⟨board.grid, ⟨closing, operations, remarks, ?_, replays, silent⟩, ?_⟩
  · rw [hsteps]
    simp only [Outcome.steps, Outcome.isSolved, eliminationOpening, Board.steps, List.map_nil,
      List.nil_append, List.cons_append, List.append_assoc, if_true]
  · rintro reason steps run
    cases run

theorem accounted_gauss (idem : ∀ x : α, Scalar.abs (Scalar.abs x) = Scalar.abs x)
    (settings : Settings α) (s : LinearSystem n α)
    (run : Ends
      (fun halt => Board.Replayed act ⟨s.augmented, []⟩ halt.board ∧
        Halt.Refused (k := 1) settings.epsilon halt)
      (Board.Replayed act ⟨s.augmented, []⟩)
      (Board.triangularize (k := 1) settings.epsilon ⟨s.augmented, []⟩)) :
    s.Accounted act settings.epsilon (s.gauss settings) := by
  rcases s.gauss_cases idem settings with ⟨halt, hb, hgauss⟩ | ⟨board, x, log, hb, hgauss⟩ <;>
    rw [hgauss]
  · obtain ⟨replayed, refused⟩ := run.of_error hb
    exact accounted_stopped replayed refused _
  · refine accounted_solved (run.of_ok hb) _ _ fun step hstep => ?_
    rcases List.mem_append.mp hstep with hstep | hstep
    · obtain ⟨r, -, rfl⟩ := List.mem_map.mp hstep
      rfl
    · rw [List.mem_singleton.mp hstep]
      rfl

theorem accounted_gaussJordan (settings : Settings α) (s : LinearSystem n α)
    (run : Ends
      (fun halt => Board.Replayed act ⟨s.augmented, []⟩ halt.board ∧
        Halt.Refused (k := 1) settings.epsilon halt)
      (Board.Replayed act ⟨s.augmented, []⟩)
      (Board.diagonalize (k := 1) settings.epsilon ⟨s.augmented, []⟩)) :
    s.Accounted act settings.epsilon (s.gaussJordan settings) := by
  rcases s.gaussJordan_cases settings with ⟨halt, hb, hjordan⟩ | ⟨board, hb, hjordan⟩ <;>
    rw [hjordan]
  · obtain ⟨replayed, refused⟩ := run.of_error hb
    exact accounted_stopped replayed refused _
  · refine accounted_solved (run.of_ok hb) _ _ ?_
    simp [Step.snapshot?]

end LinearSystem

/-- **`g.NoPivot epsilon c p`** — in column `c`, from row `c` on, all magnitudes are below
`epsilon`, and `p` is the first of the entries with the largest one. -/
def Grid.NoPivot (epsilon : Float) (g : Grid n (n + 1) Float) (c : Fin n) (p : Float) : Prop :=
  (∀ i, c ≤ i → (g.entry i c.castSucc).abs < epsilon) ∧
    ∃ r, c ≤ r ∧ p = g.entry r c.castSucc ∧
      (∀ i, c ≤ i → (g.entry i c.castSucc).abs ≤ p.abs) ∧
      ∀ i, c ≤ i → i < r → (g.entry i c.castSucc).abs < p.abs

/-- **A refused pivot leaves no other**: it has the largest magnitude, and that is negligible. -/
theorem Halt.Refused.noPivot {epsilon : Float} {halt : Halt n (n + 1) Float}
    (h : Halt.Refused (k := 1) epsilon halt)
    (numbers : ∀ i j, (halt.board.grid.entry i j).isNaN = false) :
    halt.board.grid.NoPivot epsilon halt.column halt.pivot := by
  obtain ⟨column, pivot, board⟩ := halt
  obtain ⟨hp, hneg⟩ := h
  simp only at hp hneg numbers ⊢
  subst hp
  obtain ⟨-, found⟩ := board.grid.isFirstLargest_pivotBelow (column.castAdd 1) column
    fun i _ => numbers i column.castSucc
  generalize (board.grid.pivotBelow (column.castAdd 1) column).1 = r at *
  -- the test takes a magnitude of the magnitude, which is the same number
  have small : (board.grid.entry r column.castSucc).abs < epsilon := by
    have hlt := of_decide_eq_true hneg
    rwa [show Scalar.abs (Scalar.abs _) = _ from Binary64.abs_abs _] at hlt
  refine ⟨fun i hi => ?_, r, found.below, rfl, found.largest, found.first⟩
  exact Binary64.lt_of_le_of_lt (found.largest i hi) small

namespace Method

/-- **Eliminations can be replayed.** In the numbers as they are, each operation on record gives the
next matrix once the exact number is written over its entry; and if no pivot is left where an
elimination stops, the last matrix shows it. Over an ordered field the operations give the matrices
by themselves. -/
theorem eliminations_replayable {m : Method} (h : m = .gaussElimination ∨ m = .gaussJordan) :
    (∀ (settings : Settings Float) (s : LinearSystem n Float), ∃ last,
      s.Traced RowOp.replay (m.run settings s) last ∧
        ∀ reason steps, m.run settings s = .stopped reason steps →
          ∃ (column : Fin n) (pivot : Float), reason = .zeroPivot column pivot .elimination ∧
            ((∀ i j, (last.entry i j).isNaN = false) →
              last.NoPivot settings.epsilon column pivot)) ∧
    ∀ {K : Type u} [Field K] [LinearOrder K] [IsStrictOrderedRing K] (settings : Settings K)
      (s : LinearSystem n K), 0 < settings.epsilon →
        ∃ last, s.Traced RowOp.apply (m.run settings s) last := by
  refine ⟨fun settings s => ?_, fun settings s pos => ?_⟩
  · obtain ⟨triangular, diagonal⟩ :=
      Board.ends_eliminations_replay (k := 1) settings.epsilon ⟨s.augmented, []⟩
    have accounted : s.Accounted RowOp.replay settings.epsilon (m.run settings s) := by
      rcases h with rfl | rfl
      · exact s.accounted_gauss Binary64.abs_abs settings triangular
      · exact s.accounted_gaussJordan settings diagonal
    obtain ⟨last, traced, stop⟩ := accounted
    refine ⟨last, traced, fun reason steps run => ?_⟩
    obtain ⟨halt, rfl, refused, hreason⟩ := stop reason steps run
    exact ⟨halt.column, halt.pivot, hreason, refused.noPivot⟩
  · obtain ⟨triangular, diagonal⟩ :=
      Board.ends_eliminations_apply (k := 1) pos ⟨s.augmented, []⟩
    have accounted : s.Accounted RowOp.apply settings.epsilon (m.run settings s) := by
      rcases h with rfl | rfl
      · exact s.accounted_gauss abs_abs settings triangular
      · exact s.accounted_gaussJordan settings diagonal
    obtain ⟨last, traced, -⟩ := accounted
    exact ⟨last, traced⟩

/-- A system whose third equation has the left sides of the two others together. -/
def rankTwo : LinearSystem 3 Float :=
  { unknowns := .ofFn !['x', 'y', 'z']
    a := .ofFn ![![1.0, 2.0, 3.0], ![2.0, 4.0, 7.0], ![3.0, 6.0, 10.0]]
    b := .ofFn ![6.0, 13.0, 19.0] }

theorem eliminations_replayable_sample :
    (∃ last, LinearSystem.sample.Traced RowOp.apply
        (gaussElimination.run .sample LinearSystem.sample) last ∧
      0 < Settings.sample.epsilon) ∧
    ∃ last, rankTwo.Traced RowOp.replay (gaussJordan.run .standard rankTwo) last ∧
      (∀ i j, (last.entry i j).isNaN = false) ∧
      last.NoPivot Settings.standard.epsilon 1 0.0 := by
  constructor
  · obtain ⟨last, traced⟩ := (eliminations_replayable.{0} (.inl rfl)).2 _ LinearSystem.sample
      Settings.sample_epsilon_pos
    exact ⟨last, traced, Settings.sample_epsilon_pos⟩
  · obtain ⟨last, traced, stop⟩ :=
      (eliminations_replayable.{0} (.inr rfl)).1 Settings.standard rankTwo
    have reason : (gaussJordan.run .standard rankTwo).reason? =
        some (.zeroPivot 1 0.0 .elimination) := by
      decide +kernel
    obtain ⟨steps, run⟩ := Outcome.reason?_eq_some_iff.mp reason
    have numbers : ∀ i j, (last.entry i j).isNaN = false := by
      rw [traced.last_eq]
      decide +kernel
    obtain ⟨column, pivot, hreason, noPivot⟩ := stop _ steps run
    injection hreason with hcolumn hpivot
    obtain rfl : (1 : Fin 3) = column := Fin.ext hcolumn
    exact ⟨last, traced, numbers, hpivot ▸ noPivot numbers⟩

end Method

end Chalkboard
