import Chalkboard.Proofs.Decimal.Pattern
import Chalkboard.Proofs.Grid.Columns
import Chalkboard.Proofs.Method.Ending

/-!
# The verdict depends on the coefficients only

The constants stand beside the coefficients on the board, but no test and no factor reads them. So
an elimination of coefficients with any right sides, restricted to a choice of these, is the
elimination of the coefficients with that choice; with none of them it is that of the coefficients
alone, which is the same for all constants. The other two methods test numbers that are computed
from the coefficients.

Nothing here needs a law of arithmetic.

* `Board.chooseRight` — a board with a choice of the right sides.
* `Board.triangularize_chooseRight`, `Board.diagonalize_chooseRight` — the choice may be made before
  an elimination or after it.
* `Outcome.SameVerdict` — two endings that differ in values and right sides at most.
-/

namespace Chalkboard

universe u v w

variable {n k k' : Nat} {α : Type u}

/-! ## Verdicts -/

/-- **`o.SameVerdict o'`** — both endings have values, or both stopped for the same reason. -/
def Outcome.SameVerdict (o o' : Outcome n α) : Prop :=
  (∃ solution steps solution' steps', o = .solved solution steps ∧ o' = .solved solution' steps') ∨
    ∃ reason steps steps', o = .stopped reason steps ∧ o' = .stopped reason steps'

/-- Endings that report runs which halt together, for the same reason. -/
theorem Outcome.sameVerdict_of_reports {ε : Type v} {σ : Type w} {reason : ε → Singularity α}
    {x y : Except ε σ} {o o' : Outcome n α} (hx : o.Reports reason x) (hy : o'.Reports reason y)
    (h : Together (fun e e' => reason e = reason e') (fun _ _ => True) x y) : o.SameVerdict o' := by
  obtain ⟨e, e', rfl, rfl, same⟩ | ⟨t, t', rfl, rfl, -⟩ := h.endings
  · obtain ⟨steps, run⟩ := hx
    obtain ⟨steps', run'⟩ := hy
    exact .inr ⟨reason e, steps, steps', run, same ▸ run'⟩
  · obtain ⟨solution, steps, run⟩ := hx
    obtain ⟨solution', steps', run'⟩ := hy
    exact .inl ⟨solution, steps, solution', steps', run, run'⟩

/-! ## Boards with a choice of the right sides -/

namespace Board

/-- The board with those right sides that `p` names. -/
def chooseRight (p : Fin k' → Fin k) (b : Board n (n + k) α) : Board n (n + k') α :=
  ⟨b.grid.chooseRight p, b.log.map fun entry => (entry.1, entry.2.chooseRight p)⟩

theorem ops_chooseRight (p : Fin k' → Fin k) (b : Board n (n + k) α) :
    (b.chooseRight p).ops = b.ops := by
  rw [ops, chooseRight, List.map_map]
  rfl

theorem record_chooseRight (p : Fin k' → Fin k) (b : Board n (n + k) α) (op : RowOp α)
    (g : Grid n (n + k) α) :
    (b.chooseRight p).record op (g.chooseRight p) = (b.record op g).chooseRight p := by
  simp only [record, chooseRight, List.map_append, List.map_cons, List.map_nil]

end Board

/-- The halt with those right sides that `p` names. -/
def Halt.chooseRight (p : Fin k' → Fin k) (h : Halt n (n + k) α) : Halt n (n + k') α :=
  ⟨h.column, h.pivot, h.board.chooseRight p⟩

namespace LinearSystem

/-- With no right side chosen, the board of a system shows its coefficients only. -/
theorem chooseRight_augmented {s s' : LinearSystem n α} (h : s.a = s'.a) :
    (⟨s.augmented, []⟩ : Board n (n + 1) α).chooseRight (k := 1) Fin.elim0 =
      (⟨s'.augmented, []⟩ : Board n (n + 1) α).chooseRight (k := 1) Fin.elim0 := by
  have grid : Grid.chooseRight (n := n) (k := 1) Fin.elim0 s.augmented =
      Grid.chooseRight (n := n) (k := 1) Fin.elim0 s'.augmented := by
    apply Grid.ext_entry
    intro i j
    refine Fin.addCases (fun c => ?_) (fun c => c.elim0) j
    rw [Grid.entry_chooseRight, Grid.entry_chooseRight]
    show s.augmented.entry i c.castSucc = s'.augmented.entry i c.castSucc
    rw [augmented, augmented, Grid.entry_augment_castSucc, Grid.entry_augment_castSucc, h]
  exact congrArg (Board.mk · []) grid

end LinearSystem

namespace Board

variable [Scalar α] (p : Fin k' → Fin k) (b : Board n (n + k) α)

theorem bringUp_chooseRight (epsilon : α) (i : Fin n) :
    (b.chooseRight p).bringUp epsilon i =
      mapEndings (Halt.chooseRight p) (chooseRight p) (b.bringUp epsilon i) := by
  have search : (b.chooseRight p).grid.pivotBelow (i.castAdd k') i =
      b.grid.pivotBelow (i.castAdd k) i := b.grid.pivotBelow_chooseRight p i i
  have entry (r : Fin n) : (b.chooseRight p).grid.entry r (i.castAdd k') =
      b.grid.entry r (i.castAdd k) := b.grid.entry_chooseRight p r i
  have swap (r : Fin n) : (b.chooseRight p).grid.swapRows i r =
      (b.grid.swapRows i r).chooseRight p := b.grid.swapRows_columns _ i r
  simp only [bringUp, search, entry, swap]
  split_ifs
  · rfl
  · rfl
  · exact congrArg Except.ok (b.record_chooseRight p (.swap i _) _)

theorem clear_chooseRight (i r : Fin n) (factor : α) :
    (b.chooseRight p).clear i r factor = (b.clear i r factor).chooseRight p := by
  have grid : ((b.chooseRight p).grid.addScaledRow r i (-factor)).setEntry r (i.castAdd k') 0 =
      ((b.grid.addScaledRow r i (-factor)).setEntry r (i.castAdd k) 0).chooseRight p := by
    rw [← Grid.setEntry_chooseRight]
    exact congrArg (·.setEntry r (i.castAdd k') 0) (b.grid.addScaledRow_columns _ r i (-factor))
  unfold clear
  rw [grid]
  split_ifs
  · rfl
  · exact b.record_chooseRight p (.addScaled r i (-factor)) _

theorem clearBelow_chooseRight (i : Fin n) :
    (b.chooseRight p).clearBelow i = (b.clearBelow i).chooseRight p := by
  refine List.foldl_hom (chooseRight p) fun b' r => ?_
  show (b'.chooseRight p).clear i r ((b'.grid.chooseRight p).entry r (i.castAdd k') /
    (b.grid.chooseRight p).entry i (i.castAdd k')) = _
  rw [Grid.entry_chooseRight, Grid.entry_chooseRight, clear_chooseRight]

theorem clearOthers_chooseRight (i : Fin n) :
    (b.chooseRight p).clearOthers i = (b.clearOthers i).chooseRight p := by
  refine List.foldl_hom (chooseRight p) fun b' r => ?_
  show (b'.chooseRight p).clear i r ((b'.grid.chooseRight p).entry r (i.castAdd k')) = _
  rw [Grid.entry_chooseRight, clear_chooseRight]

theorem normalize_chooseRight (i : Fin n) :
    (b.chooseRight p).normalize i = (b.normalize i).chooseRight p := by
  have pivot : (b.chooseRight p).grid.entry i (i.castAdd k') = b.grid.entry i (i.castAdd k) :=
    b.grid.entry_chooseRight p i i
  have grid (factor : α) :
      ((b.chooseRight p).grid.scaleRow i factor).setEntry i (i.castAdd k') 1 =
        ((b.grid.scaleRow i factor).setEntry i (i.castAdd k) 1).chooseRight p := by
    rw [← Grid.setEntry_chooseRight]
    exact congrArg (·.setEntry i (i.castAdd k') 1) (b.grid.scaleRow_columns _ i factor)
  simp only [normalize, pivot, grid]
  split_ifs
  · rfl
  · exact b.record_chooseRight p (.scale i _) _

/-- **Choosing right sides commutes with elimination**, whatever it does behind an accepted pivot,
if that commutes. -/
theorem sweep_chooseRight (epsilon : α) (reduce : Board n (n + k) α → Fin n → Board n (n + k) α)
    (reduce' : Board n (n + k') α → Fin n → Board n (n + k') α)
    (commutes : ∀ b i, reduce' (chooseRight p b) i = (reduce b i).chooseRight p) :
    (List.finRange n).foldlM (fun b i => (b.bringUp epsilon i).map (reduce' · i))
        (b.chooseRight p) =
      mapEndings (Halt.chooseRight p) (chooseRight p)
        ((List.finRange n).foldlM (fun b i => (b.bringUp epsilon i).map (reduce · i)) b) := by
  refine foldlM_mapEndings (Halt.chooseRight p) (chooseRight p) (fun b i => ?_) _ b
  rw [bringUp_chooseRight]
  cases b.bringUp epsilon i with
  | error halt => rfl
  | ok b' => exact congrArg Except.ok (commutes b' i)

theorem triangularize_chooseRight (epsilon : α) :
    (b.chooseRight p).triangularize epsilon =
      mapEndings (Halt.chooseRight p) (chooseRight p) (b.triangularize epsilon) :=
  b.sweep_chooseRight p epsilon clearBelow clearBelow (clearBelow_chooseRight p)

theorem diagonalize_chooseRight (epsilon : α) :
    (b.chooseRight p).diagonalize epsilon =
      mapEndings (Halt.chooseRight p) (chooseRight p) (b.diagonalize epsilon) := by
  refine b.sweep_chooseRight p epsilon (fun b i => (b.normalize i).clearOthers i)
    (fun b i => (b.normalize i).clearOthers i) fun b i => ?_
  rw [normalize_chooseRight, clearOthers_chooseRight]

end Board

/-! ## Two right sides -/

namespace LinearSystem

variable {s s' : LinearSystem n α}

/-- **An elimination of two systems with the same coefficients.** The runs halt together, before the
same pivot, and record the same operations. -/
theorem together_elimination
    {run : Board n (n + 1) α → Except (Halt n (n + 1) α) (Board n (n + 1) α)}
    {run₀ : Board n (n + 0) α → Except (Halt n (n + 0) α) (Board n (n + 0) α)}
    (commutes : ∀ b, run₀ (b.chooseRight (k := 1) Fin.elim0) =
      mapEndings (Halt.chooseRight (k := 1) Fin.elim0)
        (Board.chooseRight (k := 1) Fin.elim0) (run b))
    (h : s.a = s'.a) :
    Together (fun halt halt' => halt.column = halt'.column ∧ halt.pivot = halt'.pivot ∧
        halt.board.ops = halt'.board.ops)
      (fun board board' => board.ops = board'.ops)
      (run ⟨s.augmented, []⟩) (run ⟨s'.augmented, []⟩) := by
  -- with no right side chosen, the two runs are one
  have same := (commutes ⟨s.augmented, []⟩).symm.trans
    ((congrArg run₀ (chooseRight_augmented h)).trans (commutes ⟨s'.augmented, []⟩))
  have ops {b b' : Board n (n + 1) α} (heq : b.chooseRight (k := 1) Fin.elim0 =
      b'.chooseRight (k := 1) Fin.elim0) : b.ops = b'.ops := by
    have := congrArg Board.ops heq
    rwa [Board.ops_chooseRight, Board.ops_chooseRight] at this
  refine (Together.of_mapEndings same).imp (fun halt halt' heq => ?_) fun _ _ heq => ops heq
  have column := congrArg Halt.column heq
  have pivot := congrArg Halt.pivot heq
  have board := congrArg Halt.board heq
  exact ⟨column, pivot, ops board⟩

end LinearSystem

/-- Endings of two eliminations that halt together and record the same operations. -/
theorem Outcome.sameVerdict_of_elimination {o o' : Outcome n α} {stage : Stage}
    {x y : Except (Halt n (n + 1) α) (Board n (n + 1) α)}
    (hx : o.Reports (fun halt => .zeroPivot halt.column halt.pivot stage) x)
    (hy : o'.Reports (fun halt => .zeroPivot halt.column halt.pivot stage) y)
    (ops : Ends (fun halt => o.steps.filterMap Step.rowOp? = halt.board.ops)
      (fun board => o.steps.filterMap Step.rowOp? = board.ops) x)
    (ops' : Ends (fun halt => o'.steps.filterMap Step.rowOp? = halt.board.ops)
      (fun board => o'.steps.filterMap Step.rowOp? = board.ops) y)
    (h : Together (fun halt halt' => halt.column = halt'.column ∧ halt.pivot = halt'.pivot ∧
        halt.board.ops = halt'.board.ops) (fun board board' => board.ops = board'.ops) x y) :
    o.SameVerdict o' ∧ o.steps.filterMap Step.rowOp? = o'.steps.filterMap Step.rowOp? := by
  constructor
  · refine Outcome.sameVerdict_of_reports hx hy (h.imp ?_ fun _ _ _ => trivial)
    rintro halt halt' ⟨column, pivot, -⟩
    rw [column, pivot]
  · exact (h.imp (fun _ _ same => same.2.2) fun _ _ same => same).eq_of_ends ops ops'

/-! ## The methods -/

namespace Method

variable [Scalar α]

/-- The other two methods write down no row operation. -/
theorem rowOps_eq_nil (settings : Settings α) (s : LinearSystem n α) {m : Method}
    (h : m = .cramersRule ∨ m = .luDecomposition) :
    (m.run settings s).steps.filterMap Step.rowOp? = [] := by
  rcases h with rfl | rfl
  · have expansion : (Step.ofDet settings.expandCofactors "det(A)" s.a).rowOp? = none := by
      unfold Step.ofDet
      split_ifs <;> rfl
    have opening : [.system s.equations, .matrix "A" s.a.toRows, .vector "b" s.b.toList,
        .ofDet settings.expandCofactors "det(A)" s.a].filterMap Step.rowOp? = [] := by
      show [.ofDet settings.expandCofactors "det(A)" s.a].filterMap Step.rowOp? = []
      exact List.filterMap_cons_none expansion
    have quotients : ((List.finRange n).flatMap s.cramerSteps).filterMap Step.rowOp? = [] := by
      rw [List.filterMap_flatMap, List.flatMap_eq_nil_iff]
      exact fun _ _ => rfl
    show (s.cramer settings).steps.filterMap Step.rowOp? = []
    rcases s.cramer_cases settings with ⟨-, run⟩ | ⟨-, run⟩
    · rw [run, Outcome.steps]
      show ([_, _, _, _] ++ [_]).filterMap Step.rowOp? = []
      rw [List.filterMap_append, opening]
      rfl
    · rw [run, Outcome.steps, List.filterMap_append, List.filterMap_append, opening, quotients]
      rfl
  · rcases s.lu_cases settings with ⟨halt, -, run⟩ | ⟨f, x, log, -, -, run⟩ <;>
      simp [Method.run, run, Outcome.steps, Step.rowOp?]

/-- **Systems with the same coefficients.** A method gives the same verdict on both, and writes down
the same row operations. -/
theorem sameVerdict_run (idem : ∀ x : α, Scalar.abs (Scalar.abs x) = Scalar.abs x)
    (settings : Settings α) {s s' : LinearSystem n α} (h : s.a = s'.a) (m : Method) :
    (m.run settings s).SameVerdict (m.run settings s') ∧
      (m.run settings s).steps.filterMap Step.rowOp? =
        (m.run settings s').steps.filterMap Step.rowOp? := by
  cases m with
  | cramersRule =>
    refine ⟨?_, (rowOps_eq_nil settings s (.inl rfl)).trans
      (rowOps_eq_nil settings s' (.inl rfl)).symm⟩
    rcases s.cramer_cases settings with ⟨hneg, run⟩ | ⟨hneg, run⟩ <;>
      rcases s'.cramer_cases settings with ⟨hneg', run'⟩ | ⟨hneg', run'⟩
    · exact .inr ⟨_, _, _, run, h ▸ run'⟩
    · rw [h, hneg'] at hneg
      nomatch hneg
    · rw [h, hneg'] at hneg
      nomatch hneg
    · exact .inl ⟨_, _, _, _, run, run'⟩
  | gaussElimination =>
    exact Outcome.sameVerdict_of_elimination (s.gauss_reports settings idem)
      (s'.gauss_reports settings idem) (s.rowOps_gauss settings idem)
      (s'.rowOps_gauss settings idem)
      (LinearSystem.together_elimination
        (fun b => b.triangularize_chooseRight (k := 1) Fin.elim0 settings.epsilon) h)
  | gaussJordan =>
    exact Outcome.sameVerdict_of_elimination (s.gaussJordan_reports settings)
      (s'.gaussJordan_reports settings) (s.rowOps_gaussJordan settings)
      (s'.rowOps_gaussJordan settings)
      (LinearSystem.together_elimination
        (fun b => b.diagonalize_chooseRight (k := 1) Fin.elim0 settings.epsilon) h)
  | luDecomposition =>
    refine ⟨?_, (rowOps_eq_nil settings s (.inr rfl)).trans
      (rowOps_eq_nil settings s' (.inr rfl)).symm⟩
    have reports := s'.lu_reports settings
    rw [← h] at reports
    refine Outcome.sameVerdict_of_reports (s.lu_reports settings) reports ?_
    cases Factors.of settings.epsilon s.a <;> trivial

/-- **The verdict depends on the coefficients only.** Whatever the constants are, a method either
gives values for both columns of them, or stops for the same reason; and it writes down the same row
operations, with the same factors. -/
theorem verdict_of_coefficients (settings : Settings Float) (m : Method)
    (unknowns unknowns' : Vector Char n) (a : Grid n n Float) (b b' : Vector Float n) :
    ((∃ solution steps solution' steps',
        m.run settings ⟨unknowns, a, b⟩ = .solved solution steps ∧
        m.run settings ⟨unknowns', a, b'⟩ = .solved solution' steps') ∨
      ∃ reason steps steps',
        m.run settings ⟨unknowns, a, b⟩ = .stopped reason steps ∧
        m.run settings ⟨unknowns', a, b'⟩ = .stopped reason steps') ∧
    (m.run settings ⟨unknowns, a, b⟩).steps.filterMap Step.rowOp? =
      (m.run settings ⟨unknowns', a, b'⟩).steps.filterMap Step.rowOp? := by
  have coefficients : (LinearSystem.mk unknowns a b).a = (LinearSystem.mk unknowns' a b').a := rfl
  exact sameVerdict_run Binary64.abs_abs settings coefficients m

end Method

end Chalkboard
