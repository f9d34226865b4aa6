import Chalkboard.Proofs.Decimal.Pattern
import Chalkboard.Proofs.Method.Ending
import Chalkboard.Proofs.Worked.Outcome

/-!
# Raising the tolerance never changes an answer

The tolerance is read in tests only. So two runs under different tolerances have the same numbers
and the same record up to the first test that comes out differently, and there the run with the
larger tolerance stops. If it does not stop, no test came out differently, and the two endings are
the same, step by step.

* `Scalar.Laxer` — a tolerance under which more is negligible; larger doubles are laxer.
* `Outcome.StopsFirst` — the two endings are the same, or the first stops, in an earlier column.
-/

namespace Chalkboard

universe u v w

variable {n k : Nat} {α : Type u}

/-! ## Tolerances -/

/-- **`Scalar.Laxer lax strict`** — what is negligible under `strict` is negligible under `lax`. -/
def Scalar.Laxer [Scalar α] (lax strict : α) : Prop :=
  ∀ v : α, negligible strict v = true → negligible lax v = true

/-- What a lax tolerance accepts, a strict one accepts. -/
theorem Scalar.Laxer.accepts [Scalar α] {lax strict v : α} (h : Laxer lax strict)
    (hv : negligible lax v = false) : negligible strict v = false := by
  cases hs : negligible strict v with
  | false => rfl
  | true => exact (h v hs).symm.trans hv

/-- A larger double is laxer. -/
theorem Scalar.laxer_of_le {strict lax : Float} (h : strict ≤ lax) : Laxer lax strict :=
  fun _ hv => decide_eq_true (Binary64.lt_of_lt_of_le (of_decide_eq_true hv) h)

/-! ## Endings -/

/-- **`reason.Before reason'`** — the first reason refuses a pivot in an earlier column than the
second. -/
def Singularity.Before : Singularity α → Singularity α → Prop
  | .zeroPivot column _ _, .zeroPivot column' _ _ => column < column'
  | _, _ => False

/-- **`o.StopsFirst o'`** — the endings are the same, or the first stopped, and the second did not,
or in a later column. -/
def Outcome.StopsFirst (o o' : Outcome n α) : Prop :=
  o = o' ∨ ∃ reason steps, o = .stopped reason steps ∧
    ∀ reason' steps', o' = .stopped reason' steps' → reason.Before reason'

/-- Endings that report runs one of which stops first. -/
theorem Outcome.stopsFirst_of_reports {ε : Type v} {σ : Type w} {place : ε → Nat} {pivot : ε → α}
    {stage : Stage} {x y : Except ε σ} {o o' : Outcome n α}
    (hx : o.Reports (fun e => .zeroPivot (place e) (pivot e) stage) x)
    (hy : o'.Reports (fun e => .zeroPivot (place e) (pivot e) stage) y)
    (h : Chalkboard.StopsFirst place x y) (same : x = y → o = o') : o.StopsFirst o' := by
  rcases h with heq | ⟨e, he, later⟩
  · exact .inl (same heq)
  · obtain ⟨steps, hrun⟩ := hx.stopped_iff.mpr ⟨e, he, rfl⟩
    refine .inr ⟨_, steps, hrun, fun reason' steps' hrun' => ?_⟩
    obtain ⟨e', he', rfl⟩ := hy.stopped_iff.mp ⟨steps', hrun'⟩
    exact later.of_error he'

variable [Scalar α] {lax strict : α}

/-! ## Boards -/

namespace Board

/-- Bringing a pivot up halts in the column of the pivot. -/
theorem ends_bringUp_column (epsilon : α) (b : Board n (n + k) α) (i : Fin n) :
    Ends (fun halt => (halt.column : Nat) = i) (fun _ => True) (b.bringUp epsilon i) := by
  refine (ends_bringUp_found epsilon b rfl).imp ?_ fun _ _ => trivial
  rintro _ ⟨-, rfl⟩
  rfl

/-- The only test of a column that reads the tolerance. -/
theorem stopsFirst_bringUp (h : Scalar.Laxer lax strict) (b : Board n (n + k) α) (i : Fin n) :
    StopsFirst (fun halt : Halt n (n + k) α => halt.column) (b.bringUp lax i)
      (b.bringUp strict i) := by
  simp only [bringUp]
  cases hl : Scalar.negligible lax (b.grid.pivotBelow (i.castAdd k) i).2 with
  | false =>
    rw [h.accepts hl]
    exact .inl rfl
  | true =>
    cases hs : Scalar.negligible strict (b.grid.pivotBelow (i.castAdd k) i).2 with
    | true => exact .inl rfl
    | false =>
      refine .inr ⟨_, rfl, ?_⟩
      rw [if_neg Bool.false_ne_true]
      split_ifs <;> trivial

/-- **An elimination under two tolerances**, whatever it does behind an accepted pivot. -/
theorem stopsFirst_sweep (h : Scalar.Laxer lax strict)
    (reduce : Board n (n + k) α → Fin n → Board n (n + k) α) (b : Board n (n + k) α) :
    StopsFirst (fun halt : Halt n (n + k) α => halt.column)
      ((List.finRange n).foldlM (fun b i => (b.bringUp lax i).map (reduce · i)) b)
      ((List.finRange n).foldlM (fun b i => (b.bringUp strict i).map (reduce · i)) b) := by
  have own (epsilon : α) (b : Board n (n + k) α) (i : Fin n) :
      Ends (fun halt => (halt.column : Nat) = i) (fun _ => True)
        ((b.bringUp epsilon i).map (reduce · i)) :=
    (b.ends_bringUp_column epsilon i).map fun _ _ => trivial
  exact stopsFirst_foldlM_finRange (own lax) (own strict)
    (fun b i => (b.stopsFirst_bringUp h i).map (reduce · i)) b

end Board

/-! ## Factors -/

namespace Factors

theorem ends_extend_column (epsilon : α) (a : Grid n n α) (f : Factors n α) (i : Fin n) :
    Ends (fun halt => (halt.column : Nat) = i) (fun _ => True) (f.extend epsilon a i) := by
  simp only [extend]
  split_ifs <;> trivial

theorem stopsFirst_extend (h : Scalar.Laxer lax strict) (a : Grid n n α) (f : Factors n α)
    (i : Fin n) :
    StopsFirst (fun halt : FactorHalt n α => halt.column) (f.extend lax a i)
      (f.extend strict a i) := by
  simp only [extend]
  cases hl : Scalar.negligible lax ((f.fillRow a i).upper.entry i i) with
  | false =>
    rw [h.accepts hl]
    exact .inl rfl
  | true =>
    cases hs : Scalar.negligible strict ((f.fillRow a i).upper.entry i i) with
    | true => exact .inl rfl
    | false => exact .inr ⟨_, rfl, trivial⟩

/-- **A factorisation under two tolerances.** -/
theorem stopsFirst_of (h : Scalar.Laxer lax strict) (a : Grid n n α) :
    StopsFirst (fun halt : FactorHalt n α => halt.column) (Factors.of lax a)
      (Factors.of strict a) :=
  stopsFirst_foldlM_finRange (ends_extend_column lax a) (ends_extend_column strict a)
    (fun f i => stopsFirst_extend h a f i) zero

end Factors

/-! ## Back substitution -/

/-- A back substitution reads the tolerance on the diagonal only. -/
theorem Grid.backSubstitute_congr {u : Grid n n α}
    (same : ∀ i, Scalar.negligible lax (u.entry i i) = Scalar.negligible strict (u.entry i i))
    (b : Vector α n) : u.backSubstitute lax b = u.backSubstitute strict b := by
  have rows : u.substituteRow lax b = u.substituteRow strict b := by
    funext state i
    simp only [substituteRow, same]
  rw [backSubstitute, backSubstitute, rows]

/-- Behind pivots that the lax tolerance accepts, both tolerances give the same values. -/
theorem Grid.backSubstitute_of_laxer (h : Scalar.Laxer lax strict) {u : Grid n n α}
    (accepted : ∀ i, Scalar.negligible lax (u.entry i i) = false) (b : Vector α n) :
    u.backSubstitute lax b = u.backSubstitute strict b :=
  backSubstitute_congr (fun i => (accepted i).trans (h.accepts (accepted i)).symm) b

/-! ## The methods -/

namespace LinearSystem

variable (settings : Settings α) (s : LinearSystem n α)

theorem stopsFirst_gauss (idem : ∀ x : α, Scalar.abs (Scalar.abs x) = Scalar.abs x)
    (h : Scalar.Laxer lax strict) :
    (s.gauss { settings with epsilon := lax }).StopsFirst
      (s.gauss { settings with epsilon := strict }) := by
  refine Outcome.stopsFirst_of_reports (s.gauss_reports { settings with epsilon := lax } idem)
    (s.gauss_reports { settings with epsilon := strict } idem)
    (Board.stopsFirst_sweep (k := 1) h Board.clearBelow ⟨s.augmented, []⟩) fun same => ?_
  have same' : Board.triangularize (k := 1) lax ⟨s.augmented, []⟩ =
      Board.triangularize (k := 1) strict ⟨s.augmented, []⟩ := same
  unfold gauss
  rw [same']
  cases hb : Board.triangularize (k := 1) strict ⟨s.augmented, []⟩ with
  | error halt => rfl
  | ok board =>
    obtain ⟨accepted, -⟩ := gauss_of_triangularize idem { settings with epsilon := lax }
      (same'.trans hb)
    simp only [Grid.backSubstitute_of_laxer h accepted]

theorem stopsFirst_gaussJordan (h : Scalar.Laxer lax strict) :
    (s.gaussJordan { settings with epsilon := lax }).StopsFirst
      (s.gaussJordan { settings with epsilon := strict }) := by
  refine Outcome.stopsFirst_of_reports (s.gaussJordan_reports { settings with epsilon := lax })
    (s.gaussJordan_reports { settings with epsilon := strict })
    (Board.stopsFirst_sweep (k := 1) h (fun b i => (b.normalize i).clearOthers i)
      ⟨s.augmented, []⟩) fun same => ?_
  have same' : Board.diagonalize (k := 1) lax ⟨s.augmented, []⟩ =
      Board.diagonalize (k := 1) strict ⟨s.augmented, []⟩ := same
  unfold gaussJordan
  rw [same']

theorem stopsFirst_lu (h : Scalar.Laxer lax strict) :
    (s.lu { settings with epsilon := lax }).StopsFirst
      (s.lu { settings with epsilon := strict }) := by
  refine Outcome.stopsFirst_of_reports (s.lu_reports { settings with epsilon := lax })
    (s.lu_reports { settings with epsilon := strict }) (Factors.stopsFirst_of h s.a) fun same => ?_
  unfold lu
  rw [same]
  cases hf : Factors.of strict s.a with
  | error halt => rfl
  | ok f =>
    have accepted := (Factors.ends_of_accepted lax s.a).of_ok (same.trans hf)
    simp only [Grid.backSubstitute_of_laxer h fun i => accepted i i.isLt]

/-- Cramer's Rule has one test. -/
theorem stopsFirst_cramer (h : Scalar.Laxer lax strict) :
    (s.cramer { settings with epsilon := lax }).StopsFirst
      (s.cramer { settings with epsilon := strict }) := by
  simp only [cramer]
  cases hl : Scalar.negligible lax s.a.det with
  | false =>
    rw [h.accepts hl]
    exact .inl rfl
  | true =>
    cases hs : Scalar.negligible strict s.a.det with
    | true => exact .inl rfl
    | false =>
      refine .inr ⟨_, _, rfl, ?_⟩
      intro reason steps run
      cases run

end LinearSystem

namespace Method

/-- **One method under two tolerances.** The endings are the same, or the lax one stops first. -/
theorem stopsFirst_run (idem : ∀ x : α, Scalar.abs (Scalar.abs x) = Scalar.abs x)
    (h : Scalar.Laxer lax strict) (settings : Settings α) (s : LinearSystem n α) (m : Method) :
    (m.run { settings with epsilon := lax } s).StopsFirst
      (m.run { settings with epsilon := strict } s) := by
  cases m with
  | cramersRule => exact s.stopsFirst_cramer settings h
  | gaussElimination => exact s.stopsFirst_gauss settings idem h
  | gaussJordan => exact s.stopsFirst_gaussJordan settings h
  | luDecomposition => exact s.stopsFirst_lu settings h

/-- **Raising the tolerance never changes an answer.** If a method finds values under the larger
tolerance, then it ends in the same way under the smaller one, to the last step. If it stops under
the smaller, it stops under the larger: Cramer's Rule with the same determinant, and any other
method in a column that is no later. -/
theorem raising_tolerance_keeps_answers {e₁ e₂ : Float} (le : e₁ ≤ e₂) (settings : Settings Float)
    (s : LinearSystem n Float) (m : Method) :
    (∀ solution steps, m.run { settings with epsilon := e₂ } s = .solved solution steps →
      m.run { settings with epsilon := e₁ } s = .solved solution steps) ∧
    ∀ reason steps, m.run { settings with epsilon := e₁ } s = .stopped reason steps →
      ∃ reason' steps', m.run { settings with epsilon := e₂ } s = .stopped reason' steps' ∧
        ((m = .cramersRule ∧ ∃ d, reason = .zeroDeterminant d ∧ reason' = .zeroDeterminant d) ∨
          m ≠ .cramersRule ∧ ∃ column column' pivot pivot' stage stage',
            reason = .zeroPivot column pivot stage ∧ reason' = .zeroPivot column' pivot' stage' ∧
            column' ≤ column) := by
  rcases stopsFirst_run Binary64.abs_abs (Scalar.laxer_of_le le) settings s m with
    same | ⟨reason', steps', hlax, before⟩
  · refine ⟨fun solution steps run => same ▸ run, fun reason steps run =>
      ⟨reason, steps, same.trans run, ?_⟩⟩
    rcases stopped_cases Binary64.abs_abs run with ⟨hm, rfl⟩ | ⟨hm, column, pivot, stage, -, rfl⟩
    · exact .inl ⟨hm, s.a.det, rfl, rfl⟩
    · exact .inr ⟨hm, column, column, pivot, pivot, stage, stage, rfl, rfl, le_rfl⟩
  · refine ⟨fun solution steps run => (nomatch hlax.symm.trans run), fun reason steps run =>
      ⟨reason', steps', hlax, ?_⟩⟩
    have earlier := before reason steps run
    rcases stopped_cases Binary64.abs_abs run with ⟨-, rfl⟩ | ⟨hm, column, pivot, stage, -, rfl⟩
    · -- with one test only, nothing stops after the first stop
      cases reason' <;> exact earlier.elim
    · rcases stopped_cases Binary64.abs_abs hlax with
        ⟨hm', -⟩ | ⟨-, column', pivot', stage', -, rfl⟩
      · exact absurd hm' hm
      · exact .inr ⟨hm, column, column', pivot, pivot', stage, stage', rfl, rfl, earlier.le⟩

/-- Two equations with nearly the same left side. -/
def nearlyParallel : LinearSystem 2 Float :=
  { unknowns := .ofFn !['x', 'y']
    a := .ofFn ![![1.0, 1.0], ![1.0, 1.25]]
    b := .ofFn ![1.0, 2.0] }

theorem raising_tolerance_keeps_answers_sample :
    ((0.1 : Float) ≤ 0.2 ∧ ∃ solution steps,
      gaussElimination.run { Settings.standard with epsilon := 0.2 } nearlyParallel =
        .solved solution steps ∧
      gaussElimination.run { Settings.standard with epsilon := 0.1 } nearlyParallel =
        .solved solution steps) ∧
    (0.5 : Float) ≤ 2.0 ∧ ∃ steps column' pivot' stage' steps',
      luDecomposition.run { Settings.standard with epsilon := 0.5 } nearlyParallel =
        .stopped (.zeroPivot 1 0.25 .decomposition) steps ∧
      luDecomposition.run { Settings.standard with epsilon := 2.0 } nearlyParallel =
        .stopped (.zeroPivot column' pivot' stage') steps' ∧ column' ≤ 1 := by
  have small : (0.1 : Float) ≤ 0.2 := by decide +kernel
  have large : (0.5 : Float) ≤ 2.0 := by decide +kernel
  have values : (gaussElimination.run { Settings.standard with epsilon := 0.2 }
      nearlyParallel).solution? = some ⟨nearlyParallel.unknowns, .ofFn ![-3.0, 4.0]⟩ := by
    decide +kernel
  have reason : (luDecomposition.run { Settings.standard with epsilon := 0.5 }
      nearlyParallel).reason? = some (.zeroPivot 1 0.25 .decomposition) := by
    decide +kernel
  obtain ⟨steps, run⟩ := Outcome.solution?_eq_some_iff.mp values
  obtain ⟨steps', run'⟩ := Outcome.reason?_eq_some_iff.mp reason
  obtain ⟨reason', steps'', hrun,
      ⟨hm, -⟩ | ⟨-, column, column', _, pivot', _, stage', heq, rfl, h⟩⟩ :=
    (raising_tolerance_keeps_answers large .standard nearlyParallel .luDecomposition).2 _ _ run'
  · nomatch hm
  · cases heq
    exact ⟨⟨small, _, steps, run, (raising_tolerance_keeps_answers small .standard nearlyParallel
      .gaussElimination).1 _ _ run⟩, large, steps', column', pivot', stage', steps'', run', hrun, h⟩

end Method

end Chalkboard
