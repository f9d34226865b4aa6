import Chalkboard.Method.Basic
import Chalkboard.Proofs.Worked.Data
import Chalkboard.Proofs.Worked.Outcome

/-!
# Every worked solution is closed

A worked solution begins with its equations and ends with a step that tells the ending, and no step
between tells one. This needs no law of arithmetic and no knowledge of which endings can occur: the
exits of the four methods are gone through as they stand, those of back substitution included.

* `Step.isEnding` — the steps that tell an ending.
* `Outcome.Closed` — steps that begin and end as they should.
* `Method.closed_run` — the endings of all methods are closed.
-/

namespace Chalkboard

universe u

variable {n k : Nat} {α : Type u}

/-- Whether a step tells how a method ended. -/
def Step.isEnding : Step α → Bool
  | .solution _ => true
  | .failure _ => true
  | _ => false

/-- **`o.Closed first`** — the steps of `o` begin with `first`, their last is the only one that
tells an ending, and it tells that of `o`. -/
def Outcome.Closed (first : Step α) : Outcome n α → Prop
  | .solved solution steps => ∃ middle, (∀ step ∈ middle, step.isEnding = false) ∧
      steps = first :: (middle ++ [.solution solution.assignments])
  | .stopped reason steps => ∃ middle, (∀ step ∈ middle, step.isEnding = false) ∧
      steps = first :: (middle ++ [.failure reason.text])

namespace Outcome

variable {first : Step α} {middle : List (Step α)}

theorem closed_close (unknowns : Vector Char n) (values : Vector α n)
    (h : ∀ step ∈ middle, step.isEnding = false) :
    (close unknowns values (first :: middle)).Closed first :=
  ⟨middle, h, rfl⟩

theorem closed_stop (reason : Singularity α) (h : ∀ step ∈ middle, step.isEnding = false) :
    (stop reason (first :: middle) : Outcome n α).Closed first :=
  ⟨middle, h, rfl⟩

end Outcome

/-! ## What is written down on the way -/

theorem Board.isEnding_of_mem_steps (b : Board n k α) :
    ∀ step ∈ b.steps, step.isEnding = false := by
  intro step h
  obtain ⟨entry, -, rfl⟩ := List.mem_map.mp h
  rfl

namespace LinearSystem

theorem isEnding_of_mem_substitutionSteps (s : LinearSystem n α) (log : List (Substitution n α)) :
    ∀ step ∈ log.map s.substitutionStep, step.isEnding = false := by
  intro step h
  obtain ⟨row, -, rfl⟩ := List.mem_map.mp h
  rfl

variable [Scalar α]

theorem isEnding_of_mem_cramerSteps (s : LinearSystem n α) (i : Fin n) :
    ∀ step ∈ s.cramerSteps i, step.isEnding = false := by
  simp [cramerSteps, Step.isEnding]

/-! ## The methods -/

theorem closed_cramer (settings : Settings α) (s : LinearSystem n α) :
    (s.cramer settings).Closed (.system s.equations) := by
  have opening : ∀ step ∈ [Step.matrix "A" s.a.toRows, .vector "b" s.b.toList,
      .ofDet settings.expandCofactors "det(A)" s.a], step.isEnding = false := by
    have det : (Step.ofDet settings.expandCofactors "det(A)" s.a).isEnding = false := by
      unfold Step.ofDet
      split_ifs <;> rfl
    exact List.forall_mem_cons.mpr
      ⟨rfl, List.forall_mem_cons.mpr ⟨rfl, List.forall_mem_singleton.mpr det⟩⟩
  have quotients : ∀ step ∈ (List.finRange n).flatMap s.cramerSteps, step.isEnding = false := by
    intro step h
    obtain ⟨i, -, hi⟩ := List.mem_flatMap.mp h
    exact s.isEnding_of_mem_cramerSteps i step hi
  unfold cramer
  simp only
  split_ifs
  · exact Outcome.closed_stop _ opening
  · exact Outcome.closed_close _ _ (List.forall_mem_append.mpr ⟨opening, quotients⟩)

theorem closed_gauss (settings : Settings α) (s : LinearSystem n α) :
    (s.gauss settings).Closed (.system s.equations) := by
  have opening : ∀ step ∈ [Step.augmented "Augmented matrix [A | b]" s.augmented.toRows],
      step.isEnding = false := by
    simp [Step.isEnding]
  have forward (b : Board n (n + 1) α) : ∀ step ∈ [Step.augmented "Augmented matrix [A | b]"
      s.augmented.toRows] ++ b.steps ++ [.augmented "Upper triangular form" b.grid.toRows],
      step.isEnding = false := by
    refine List.forall_mem_append.mpr
      ⟨List.forall_mem_append.mpr ⟨opening, b.isEnding_of_mem_steps⟩, ?_⟩
    simp [Step.isEnding]
  unfold gauss
  simp only
  split
  · next halt _ =>
    exact Outcome.closed_stop _
      (List.forall_mem_append.mpr ⟨opening, halt.board.isEnding_of_mem_steps⟩)
  · next board _ =>
    split
    · next halt _ =>
      exact Outcome.closed_stop _ (List.forall_mem_append.mpr
        ⟨forward board, s.isEnding_of_mem_substitutionSteps halt.log⟩)
    · next x log _ =>
      exact Outcome.closed_close _ _ (List.forall_mem_append.mpr
        ⟨forward board, s.isEnding_of_mem_substitutionSteps log⟩)

theorem closed_gaussJordan (settings : Settings α) (s : LinearSystem n α) :
    (s.gaussJordan settings).Closed (.system s.equations) := by
  have recorded (b : Board n (n + 1) α) : ∀ step ∈ [Step.augmented "Augmented matrix [A | b]"
      s.augmented.toRows] ++ b.steps, step.isEnding = false := by
    refine List.forall_mem_append.mpr ⟨?_, b.isEnding_of_mem_steps⟩
    simp [Step.isEnding]
  unfold gaussJordan
  simp only
  split
  · next halt _ => exact Outcome.closed_stop _ (recorded halt.board)
  · next board _ =>
    refine Outcome.closed_close _ _ (List.forall_mem_append.mpr ⟨recorded board, ?_⟩)
    simp [Step.isEnding]

theorem closed_lu (settings : Settings α) (s : LinearSystem n α) :
    (s.lu settings).Closed (.system s.equations) := by
  unfold lu
  simp only
  split
  · refine Outcome.closed_stop _ ?_
    simp [Step.isEnding]
  · split
    · refine Outcome.closed_stop _ ?_
      simp [Step.isEnding]
    · refine Outcome.closed_close _ _ ?_
      simp [Step.isEnding]

end LinearSystem

/-- **Every ending is closed**, whatever method, system and settings. -/
theorem Method.closed_run [Scalar α] (settings : Settings α) (s : LinearSystem n α) (m : Method) :
    (m.run settings s).Closed (.system s.equations) := by
  cases m with
  | cramersRule => exact s.closed_cramer settings
  | gaussElimination => exact s.closed_gauss settings
  | gaussJordan => exact s.closed_gaussJordan settings
  | luDecomposition => exact s.closed_lu settings

/-- **A worked solution is closed consistently with its result.** It begins with the equations as
they are written, and its last step is the only one that tells an ending: it assigns the values to
the unknowns exactly if the result is a solution with these unknowns and values, and it gives a
reason exactly if the result is a stop for it. -/
theorem LinearSystem.run_tells_its_ending (settings : Settings Float) (s : LinearSystem n Float)
    (m : Method) :
    ∃ first middle last, (m.run settings s).steps = first :: (middle ++ [last]) ∧
      first.data id = .system s.equationTexts ∧
      (∀ step ∈ first :: middle, step.isEnding = false) ∧
      (∀ assignments, last = .solution assignments ↔
        ∃ solution, (m.run settings s).solution? = some solution ∧
          assignments = solution.unknowns.toList.zip solution.values.toList) ∧
      (∀ text, last = .failure text ↔
        ∃ reason, (m.run settings s).reason? = some reason ∧ text = reason.text) := by
  have closed := m.closed_run settings s
  cases run : m.run settings s with
  | solved solution steps =>
    rw [run] at closed
    obtain ⟨middle, ordinary, rfl⟩ := closed
    refine ⟨_, middle, _, rfl, rfl, List.forall_mem_cons.mpr ⟨rfl, ordinary⟩, ?_, ?_⟩
    · simp [Outcome.solution?, Solution.assignments, eq_comm]
    · simp [Outcome.reason?]
  | stopped reason steps =>
    rw [run] at closed
    obtain ⟨middle, ordinary, rfl⟩ := closed
    refine ⟨_, middle, _, rfl, rfl, List.forall_mem_cons.mpr ⟨rfl, ordinary⟩, ?_, ?_⟩
    · simp [Outcome.solution?]
    · simp [Outcome.reason?, eq_comm]

end Chalkboard
