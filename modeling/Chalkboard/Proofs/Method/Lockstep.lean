import Chalkboard.Proofs.Method.Gauss
import Chalkboard.Proofs.Method.GaussJordan

/-!
# The two eliminations run in lockstep

Gaussian and Gauss-Jordan elimination keep different grids: one leaves the rows above the diagonal
alone, the other divides every pivot row and clears above it as well. They agree on the rows that
have not been pivot rows yet, and these are all that the choice of a pivot reads. So both exchange
the same rows, both refuse the same pivot, and if neither does, both end with the one solution.

* `Board.Aligned` — two boards with the same rows still to be used and the same exchanges on record.
* `Board.together_eliminations` — the boards stay aligned from the first column to the last.
-/

namespace Chalkboard

universe u

variable {n k : Nat} {α : Type u}

/-! ## The exchanges on record -/

/-- The two rows of an exchange. -/
def RowOp.swap? : RowOp α → Option (Nat × Nat)
  | .swap first second => some (first, second)
  | _ => none

/-- The exchanges among steps, in their order. -/
def Step.swaps (steps : List (Step α)) : List (Nat × Nat) :=
  (steps.filterMap Step.rowOp?).filterMap RowOp.swap?

namespace Board

/-- The exchanges on record. -/
def swaps (b : Board n k α) : List (Nat × Nat) :=
  Step.swaps b.steps

theorem swaps_eq (b : Board n k α) : b.swaps = b.ops.filterMap RowOp.swap? := by
  rw [swaps, Step.swaps, rowOps_steps]

theorem swaps_of_log {b b' : Board n k α} {entries : List (RowOp α × Grid n k α)}
    (h : b'.log = b.log ++ entries) : b'.swaps = b.swaps ++ entries.filterMap (·.1.swap?) := by
  simp only [swaps_eq, ops, h, List.map_append, List.filterMap_append, List.filterMap_map]
  rfl

theorem swaps_clearBelow [Scalar α] (b : Board n (n + k) α) (i : Fin n) :
    (b.clearBelow i).swaps = b.swaps := by
  rw [swaps_eq, swaps_eq, read_clearBelow fun _ _ _ => rfl]

theorem swaps_clearOthers [Scalar α] (b : Board n (n + k) α) (i : Fin n) :
    (b.clearOthers i).swaps = b.swaps := by
  rw [swaps_eq, swaps_eq, read_clearOthers fun _ _ _ => rfl]

/-- Dividing a row is no exchange. -/
theorem swaps_normalize [Scalar α] (b : Board n (n + k) α) (i : Fin n) :
    (b.normalize i).swaps = b.swaps := by
  rw [swaps_eq, swaps_eq, (b.performs_normalize i).ops_eq, List.filterMap_append]
  split_ifs
  · exact List.append_nil _
  · exact List.append_nil _

end Board

/-! ## Aligned boards -/

/-- **`Halt.Matches h h'`** — the halts `h` and `h'` refuse the same pivot in the same column, after
the same exchanges. -/
structure Halt.Matches (h h' : Halt n k α) : Prop where
  column : h.column = h'.column
  pivot : h.pivot = h'.pivot
  swaps : h.board.swaps = h'.board.swaps

namespace Board

/-- **`b.Aligned c i`** — the boards `b` and `c` have the same rows from `i` on, and the same
exchanges on record. -/
structure Aligned (b c : Board n (n + k) α) (i : Nat) : Prop where
  rows : ∀ r : Fin n, i ≤ (r : Nat) → b.grid.entry r = c.grid.entry r
  swaps : b.swaps = c.swaps

/-- Later rows of aligned boards stay the same when two of them are exchanged in both. -/
theorem Aligned.entry_swapRows {b c : Board n (n + k) α} {i r : Fin n} (h : b.Aligned c i)
    (hr : i ≤ r) {r' : Fin n} (hr' : i ≤ r') :
    (b.grid.swapRows i r).entry r' = (c.grid.swapRows i r).entry r' := by
  rw [Grid.row_swapRows, Grid.row_swapRows, h.rows i le_rfl, h.rows r hr, h.rows r' hr']

variable [Scalar α]

/-- **Aligned boards bring the same pivot up**, or both refuse it. -/
theorem Aligned.together_bringUp {b c : Board n (n + k) α} {i : Fin n} (h : b.Aligned c i)
    (epsilon : α) :
    Together Halt.Matches
      (fun b' c' => b'.Aligned c' i ∧
        Scalar.negligible epsilon (Scalar.abs (b'.grid.entry i (i.castAdd k))) = false)
      (b.bringUp epsilon i) (c.bringUp epsilon i) := by
  -- the search reads rows from `i` on, so it finds the same row in both
  have same : c.grid.pivotBelow (i.castAdd k) i = b.grid.pivotBelow (i.castAdd k) i :=
    Grid.pivotBelow_congr fun r hr => (congrFun (h.rows r hr) _).symm
  have hir := (b.grid.found_pivotBelow (i.castAdd k) i).1
  have hb := ends_bringUp_found epsilon b (i := i) rfl
  have hc := ends_bringUp_found epsilon c (congrArg Prod.fst same)
  generalize (b.grid.pivotBelow (i.castAdd k) i).1 = r at hir hb hc
  rw [← h.rows r hir] at hc
  refine (Together.of_ends hb hc ?_ ?_).imp ?_ ?_
  · rintro e c' ⟨hneg, -⟩ ⟨hneg', -⟩
    exact Bool.false_ne_true (hneg'.symm.trans hneg)
  · rintro b' e ⟨hneg, -⟩ ⟨hneg', -⟩
    exact Bool.false_ne_true (hneg.symm.trans hneg')
  · rintro e e' ⟨⟨-, rfl⟩, -, rfl⟩
    exact ⟨rfl, rfl, h.swaps⟩
  · rintro b' c' ⟨⟨hneg, hgrid, hlog⟩, -, hgrid', hlog'⟩
    refine ⟨⟨fun r' hr' => ?_, ?_⟩, ?_⟩
    · rw [hgrid, hgrid']
      exact h.entry_swapRows hir hr'
    · rw [swaps_of_log hlog, swaps_of_log hlog', h.swaps]
      split_ifs <;> rfl
    · rw [hgrid, Grid.row_swapRows, if_pos rfl]
      exact hneg

end Board

/-! ## Columns -/

namespace Board

variable {K : Type u} [Field K] [LinearOrder K] [IsStrictOrderedRing K]

/-- **One column of both eliminations.** Below the pivot row the same multiple is subtracted: the
entry times the divided row, or the divided entry times the row. -/
theorem Aligned.together_column {epsilon : K} (pos : 0 < epsilon) {b c : Board n (n + k) K}
    {i : Fin n} (h : b.Aligned c i) :
    Together Halt.Matches (fun b' c' => b'.Aligned c' (i + 1))
      ((b.bringUp epsilon i).map (·.clearBelow i))
      ((c.bringUp epsilon i).map fun c => (c.normalize i).clearOthers i) := by
  refine (h.together_bringUp epsilon).map ?_
  rintro b' c' ⟨h', hneg⟩
  have hp : b'.grid.entry i (i.castAdd k) ≠ 0 :=
    abs_ne_zero.mp (Scalar.ne_zero_of_not_negligible pos hneg)
  have hp' : c'.grid.entry i (i.castAdd k) ≠ 0 := h'.rows i le_rfl ▸ hp
  have hscale := c'.grid_normalize i hp'
  have hone : (c'.normalize i).grid.entry i (i.castAdd k) = 1 := by
    rw [hscale, Grid.entry_scaleRow, if_pos rfl, mul_one_div_cancel hp']
  refine ⟨fun r hr => ?_, ?_⟩
  · -- rows up to `i` can differ from here on: no later step reads them to choose a pivot
    have hir : i < r := hr
    funext j
    rw [b'.grid_clearBelow i hp, (c'.normalize i).grid_clearOthers i hone,
      Grid.entry_subtractRows, Grid.entry_subtractRows, if_pos hir, if_pos hir.ne', hscale]
    simp only [Grid.entry_scaleRow, if_neg hir.ne, if_true]
    rw [h'.rows r hir.le, h'.rows i le_rfl]
    ring
  · rw [swaps_clearBelow, swaps_clearOthers, swaps_normalize]
    exact h'.swaps

/-- **Both eliminations**, on one board. -/
theorem together_eliminations {epsilon : K} (pos : 0 < epsilon) (b : Board n (n + k) K) :
    Together Halt.Matches (fun b' c' => b'.Aligned c' n)
      (b.triangularize epsilon) (b.diagonalize epsilon) :=
  together_foldlM_finRange (fun i (b' c' : Board n (n + k) K) => b'.Aligned c' i)
    ⟨fun _ _ => rfl, rfl⟩ fun _ _ _ h => h.together_column pos

end Board

/-! ## Worked solutions -/

namespace LinearSystem

/-- Around the row operations of an elimination no exchange is written down. -/
theorem swaps_elimination (s : LinearSystem n α) (b : Board n (n + 1) α) {rest : List (Step α)}
    (h : ∀ step ∈ rest, step.rowOp? = none) :
    Step.swaps (s.eliminationOpening ++ b.steps ++ rest) = b.swaps := by
  rw [Step.swaps, s.rowOps_elimination b h, b.swaps_eq]

variable {K : Type u} [Field K] [LinearOrder K] [IsStrictOrderedRing K]

/-- A grid that is reduced to the identity states the only solution. -/
theorem hasUniqueSolution_of_diagonalize {epsilon : K} (pos : 0 < epsilon) {s : LinearSystem n K}
    {board : Board n (n + 1) K}
    (run : Board.diagonalize (k := 1) epsilon ⟨s.augmented, []⟩ = .ok board) :
    s.HasUniqueSolution board.grid.lastColumn := by
  obtain ⟨columns, same⟩ := (Board.ends_diagonalize (k := 1) pos ⟨s.augmented, []⟩).of_ok run
  have hleft : Grid.leftBlock (k := 1) board.grid = Grid.identity n := columns.leftBlock
  apply hasUniqueSolution_of_sameSolutions same
  · rw [hleft]
    exact Grid.identity_not_singular
  · rw [hleft]
    exact Grid.mulVec_identity _

/-- **The two eliminations run in lockstep.** They write down the same exchanges, and either both
end with the same values or both refuse the same pivot in the same column. -/
theorem gauss_gaussJordan_lockstep {settings : Settings K} (pos : 0 < settings.epsilon)
    (s : LinearSystem n K) :
    Step.swaps (s.gauss settings).steps = Step.swaps (s.gaussJordan settings).steps ∧
      ((∃ solution steps steps', s.gauss settings = .solved solution steps ∧
          s.gaussJordan settings = .solved solution steps') ∨
        ∃ column pivot steps steps',
          s.gauss settings = .stopped (.zeroPivot column pivot .elimination) steps ∧
          s.gaussJordan settings = .stopped (.zeroPivot column pivot .elimination) steps') := by
  have together := Board.together_eliminations (k := 1) pos ⟨s.augmented, []⟩
  rcases s.gauss_cases abs_abs settings with ⟨halt, hb, hgauss⟩ | ⟨board, x, log, hb, hgauss⟩ <;>
    rcases s.gaussJordan_cases settings with ⟨halt', hc, hjordan⟩ | ⟨board', hc, hjordan⟩ <;>
    rw [hb, hc] at together
  · -- both halt, before the same pivot
    rw [hgauss, hjordan, together.column, together.pivot]
    refine ⟨?_, .inr ⟨_, _, _, _, rfl, rfl⟩⟩
    simp only [Outcome.steps]
    rw [swaps_elimination s halt.board (by simp [Step.rowOp?]),
      swaps_elimination s halt'.board (by simp [Step.rowOp?]), together.swaps]
  · exact together.elim
  · exact together.elim
  · -- both reach the end, and there is one solution only
    have hx := hasUniqueSolution_of_gauss pos hgauss
    have hx' := hasUniqueSolution_of_diagonalize pos hc
    have hvalues : x = board'.grid.lastColumn := hx'.unique x hx.solves
    rw [hgauss, hjordan, hvalues]
    refine ⟨?_, .inl ⟨_, _, _, rfl, rfl⟩⟩
    simp only [Outcome.steps]
    rw [swaps_elimination s board s.rowOp?_of_mem_closing,
      swaps_elimination s board' (by simp [Step.rowOp?]), together.swaps]

theorem gauss_gaussJordan_lockstep_sample :
    0 < Settings.sample.epsilon ∧
      Step.swaps (sample.gauss .sample).steps = [(0, 1), (1, 2)] ∧
      Step.swaps (sample.gaussJordan .sample).steps = [(0, 1), (1, 2)] ∧
      ((∃ solution steps steps', sample.gauss .sample = .solved solution steps ∧
          sample.gaussJordan .sample = .solved solution steps') ∨
        ∃ column pivot steps steps',
          sample.gauss .sample = .stopped (.zeroPivot column pivot .elimination) steps ∧
          sample.gaussJordan .sample =
            .stopped (.zeroPivot column pivot .elimination) steps') := by
  have swaps : Step.swaps (sample.gauss .sample).steps = [(0, 1), (1, 2)] := by decide +kernel
  obtain ⟨same, ending⟩ := gauss_gaussJordan_lockstep Settings.sample_epsilon_pos sample
  exact ⟨Settings.sample_epsilon_pos, swaps, same ▸ swaps, ending⟩

end LinearSystem

end Chalkboard
