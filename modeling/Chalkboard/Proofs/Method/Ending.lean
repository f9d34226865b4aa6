import Chalkboard.Proofs.Decimal.Pattern
import Chalkboard.Proofs.Method.Frame
import Chalkboard.Method.Basic

/-!
# How the methods end

Facts about factors that need no law of arithmetic: what filling a row and a column writes, and that
a pivot, once it is accepted, is never written again. So back substitution, which tests the pivots a
second time, does not halt, neither behind a factorisation nor behind an elimination. A method that
stops has therefore refused the determinant, or a pivot on the way down.

* `LinearSystem.lu_cases`, `LinearSystem.cramer_cases` — beside `gauss_cases` and
  `gaussJordan_cases`, the two endings of each method with all their steps.
* `Outcome.Reports` — an ending that tells how the first part of a method ended, which is the part
  that can halt.
* `Method.stopped_cases` — the reasons for which a method stops.
* `Method.backSubstitution_never_stops` — back substitution is not among them, whatever the numbers.
-/

namespace Chalkboard

universe u v w

variable {n : Nat} {α : Type u}

/-! ## Endings and runs -/

/-- **`o.Reports reason x`** — the ending `o` tells how the run `x` ended: with a halt `e` it
stopped for `reason e`, and with a result it has a solution. -/
def Outcome.Reports {ε : Type v} {σ : Type w} (o : Outcome n α) (reason : ε → Singularity α)
    (x : Except ε σ) : Prop :=
  Ends (fun e => ∃ steps, o = .stopped (reason e) steps)
    (fun _ => ∃ solution steps, o = .solved solution steps) x

namespace Outcome.Reports

variable {ε : Type v} {σ : Type w} {o : Outcome n α} {reason : ε → Singularity α} {x : Except ε σ}

theorem stopped_iff (h : o.Reports reason x) {r : Singularity α} :
    (∃ steps, o = .stopped r steps) ↔ ∃ e, x = .error e ∧ r = reason e := by
  cases hx : x with
  | error e =>
    obtain ⟨steps, rfl⟩ := h.of_error hx
    constructor
    · rintro ⟨steps', run⟩
      cases run
      exact ⟨e, rfl, rfl⟩
    · rintro ⟨e', he, rfl⟩
      cases he
      exact ⟨steps, rfl⟩
  | ok t =>
    obtain ⟨solution, steps, rfl⟩ := h.of_ok hx
    constructor
    · rintro ⟨steps', run⟩
      nomatch run
    · rintro ⟨e, he, -⟩
      nomatch he

theorem solved_iff (h : o.Reports reason x) :
    (∃ solution steps, o = .solved solution steps) ↔ ∃ t, x = .ok t := by
  cases hx : x with
  | error e =>
    obtain ⟨steps, rfl⟩ := h.of_error hx
    constructor
    · rintro ⟨solution, steps', run⟩
      nomatch run
    · rintro ⟨t, ht⟩
      nomatch ht
  | ok t => exact ⟨fun _ => ⟨t, rfl⟩, fun _ => h.of_ok hx⟩

end Outcome.Reports

variable [Scalar α]

/-! ## Factors -/

namespace Factors

theorem lower_fillRow (a : Grid n n α) (f : Factors n α) (i r c : Fin n) :
    (f.fillRow a i).lower.entry r c = if i = r ∧ i = c then 1 else f.lower.entry r c :=
  Grid.entry_setEntry f.lower i r i c 1

theorem upper_fillRow (a : Grid n n α) (f : Factors n α) (i r c : Fin n) :
    (f.fillRow a i).upper.entry r c =
      if r = i ∧ i ≤ c then a.entry i c - f.partialProduct i i c else f.upper.entry r c :=
  Grid.entry_ofFn _ r c

theorem lower_fillColumn (a : Grid n n α) (f : Factors n α) (i r c : Fin n) :
    (f.fillColumn a i).lower.entry r c =
      if c = i ∧ i < r then (a.entry r i - f.partialProduct i r i) / f.upper.entry i i
      else f.lower.entry r c :=
  Grid.entry_ofFn _ r c

theorem upper_fillColumn (a : Grid n n α) (f : Factors n α) (i : Fin n) :
    (f.fillColumn a i).upper = f.upper :=
  rfl

/-- **`f.Accepted epsilon i`** — the first `i` pivots are not negligible. -/
def Accepted (epsilon : α) (f : Factors n α) (i : Nat) : Prop :=
  ∀ c : Fin n, (c : Nat) < i → Scalar.negligible epsilon (f.upper.entry c c) = false

end Factors

/-- **`halt.Refused epsilon`** — the pivot of the halt is that of the upper factor in its column,
and it is negligible. -/
def FactorHalt.Refused (epsilon : α) (halt : FactorHalt n α) : Prop :=
  halt.pivot = halt.factors.upper.entry halt.column halt.column ∧
    Scalar.negligible epsilon halt.pivot = true

namespace Factors

variable {epsilon : α} {a : Grid n n α}

/-- **One row and one column** accept one pivot more, or refuse it. -/
theorem ends_extend_accepted {f : Factors n α} {i : Fin n} (h : f.Accepted epsilon i) :
    Ends (fun halt => halt.column = i ∧ halt.Refused epsilon) (·.Accepted epsilon (i + 1))
      (f.extend epsilon a i) := by
  simp only [extend]
  cases hp : Scalar.negligible epsilon ((f.fillRow a i).upper.entry i i) with
  | true => exact ⟨rfl, rfl, hp⟩
  | false =>
    intro c hc
    rw [upper_fillColumn]
    rcases Nat.lt_succ_iff_lt_or_eq.mp hc with hlt | heq
    · -- the row that is filled is behind the accepted ones
      have hci : c ≠ i := fun e => hlt.ne (congrArg Fin.val e)
      rw [upper_fillRow, if_neg fun e => hci e.1]
      exact h c hlt
    · rw [Fin.ext heq]
      exact hp

/-- A factorisation accepts all pivots, or it halts before one that it refuses. -/
theorem ends_of_accepted (epsilon : α) (a : Grid n n α) :
    Ends (·.Refused epsilon) (·.Accepted epsilon n) (Factors.of epsilon a) := by
  refine ends_foldlM_finRange (fun i (f : Factors n α) => f.Accepted epsilon i)
    (fun c hc => absurd hc (Nat.not_lt_zero c)) fun i f h => ?_
  exact (ends_extend_accepted h).imp (fun _ halted => halted.2) fun _ accepted => accepted

end Factors

/-! ## The methods -/

namespace LinearSystem

/-- **How LU decomposition ends.** The factorisation halts, or else the second substitution gives
all values. -/
theorem lu_cases (settings : Settings α) (s : LinearSystem n α) :
    (∃ halt, Factors.of settings.epsilon s.a = .error halt ∧
      s.lu settings = .stopped (.zeroPivot halt.column halt.pivot .decomposition)
        [.system s.equations, .matrix "A" s.a.toRows, .vector "b" s.b.toList,
          .matrix "L (partial)" halt.factors.lower.toRows,
          .matrix "U (partial)" halt.factors.upper.toRows,
          .failure (Singularity.zeroPivot halt.column halt.pivot .decomposition).text]) ∨
    ∃ f x, ∃ log : List (Substitution n α), Factors.of settings.epsilon s.a = .ok f ∧
      f.upper.backSubstitute settings.epsilon (f.lower.forwardSubstitute s.b) = .ok (x, log) ∧
      s.lu settings = .solved ⟨s.unknowns, x⟩
        [.system s.equations, .matrix "A" s.a.toRows, .vector "b" s.b.toList,
          .matrix "L" f.lower.toRows, .matrix "U" f.upper.toRows,
          .vector "y" (f.lower.forwardSubstitute s.b).toList, .vector "x" x.toList,
          .solution (Solution.assignments ⟨s.unknowns, x⟩)] := by
  have accepted := Factors.ends_of_accepted settings.epsilon s.a
  unfold lu
  cases hf : Factors.of settings.epsilon s.a with
  | error halt => exact .inl ⟨halt, rfl, rfl⟩
  | ok f =>
    obtain ⟨x, log, run⟩ := Grid.backSubstitute_of_accepted
      (fun i => accepted.of_ok hf i i.isLt) (f.lower.forwardSubstitute s.b)
    refine .inr ⟨f, x, log, rfl, run, ?_⟩
    simp only [run]
    rfl

/-- **How Cramer's Rule ends.** The determinant is refused, or else every unknown is a quotient. -/
theorem cramer_cases (settings : Settings α) (s : LinearSystem n α) :
    (Scalar.negligible settings.epsilon s.a.det = true ∧
      s.cramer settings = .stopped (.zeroDeterminant s.a.det)
        [.system s.equations, .matrix "A" s.a.toRows, .vector "b" s.b.toList,
          .ofDet settings.expandCofactors "det(A)" s.a,
          .failure (Singularity.zeroDeterminant s.a.det).text]) ∨
    Scalar.negligible settings.epsilon s.a.det = false ∧
      s.cramer settings = .solved ⟨s.unknowns, Vector.ofFn s.cramerValue⟩
        ([.system s.equations, .matrix "A" s.a.toRows, .vector "b" s.b.toList,
          .ofDet settings.expandCofactors "det(A)" s.a] ++
          (List.finRange n).flatMap s.cramerSteps ++
            [.solution (Solution.assignments ⟨s.unknowns, Vector.ofFn s.cramerValue⟩)]) := by
  simp only [cramer]
  cases hneg : Scalar.negligible settings.epsilon s.a.det with
  | true => exact .inl ⟨rfl, rfl⟩
  | false => exact .inr ⟨rfl, rfl⟩

variable (settings : Settings α) (s : LinearSystem n α)

theorem gauss_reports (idem : ∀ x : α, Scalar.abs (Scalar.abs x) = Scalar.abs x) :
    (s.gauss settings).Reports (fun halt => .zeroPivot halt.column halt.pivot .elimination)
      (Board.triangularize (k := 1) settings.epsilon ⟨s.augmented, []⟩) := by
  rcases s.gauss_cases idem settings with ⟨halt, hb, run⟩ | ⟨board, x, log, hb, run⟩ <;>
    rw [hb, run]
  · exact ⟨_, rfl⟩
  · exact ⟨_, _, rfl⟩

theorem gaussJordan_reports :
    (s.gaussJordan settings).Reports (fun halt => .zeroPivot halt.column halt.pivot .elimination)
      (Board.diagonalize (k := 1) settings.epsilon ⟨s.augmented, []⟩) := by
  rcases s.gaussJordan_cases settings with ⟨halt, hb, run⟩ | ⟨board, hb, run⟩ <;> rw [hb, run]
  · exact ⟨_, rfl⟩
  · exact ⟨_, _, rfl⟩

theorem lu_reports :
    (s.lu settings).Reports (fun halt => .zeroPivot halt.column halt.pivot .decomposition)
      (Factors.of settings.epsilon s.a) := by
  rcases s.lu_cases settings with ⟨halt, hf, run⟩ | ⟨f, x, log, hf, -, run⟩ <;> rw [hf, run]
  · exact ⟨_, rfl⟩
  · exact ⟨_, _, rfl⟩

/-! ## Row operations -/

/-- What Gaussian elimination writes down as row operations is the record of its board. -/
theorem rowOps_gauss (idem : ∀ x : α, Scalar.abs (Scalar.abs x) = Scalar.abs x) :
    Ends (fun halt => (s.gauss settings).steps.filterMap Step.rowOp? = halt.board.ops)
      (fun board => (s.gauss settings).steps.filterMap Step.rowOp? = board.ops)
      (Board.triangularize (k := 1) settings.epsilon ⟨s.augmented, []⟩) := by
  rcases s.gauss_cases idem settings with ⟨halt, hb, run⟩ | ⟨board, x, log, hb, run⟩ <;>
    rw [hb, run]
  · exact s.rowOps_elimination halt.board (by simp [Step.rowOp?])
  · exact s.rowOps_elimination board s.rowOp?_of_mem_closing

theorem rowOps_gaussJordan :
    Ends (fun halt => (s.gaussJordan settings).steps.filterMap Step.rowOp? = halt.board.ops)
      (fun board => (s.gaussJordan settings).steps.filterMap Step.rowOp? = board.ops)
      (Board.diagonalize (k := 1) settings.epsilon ⟨s.augmented, []⟩) := by
  rcases s.gaussJordan_cases settings with ⟨halt, hb, run⟩ | ⟨board, hb, run⟩ <;> rw [hb, run]
  · exact s.rowOps_elimination halt.board (by simp [Step.rowOp?])
  · exact s.rowOps_elimination board (by simp [Step.rowOp?])

end LinearSystem

namespace Method

/-- **Why a method stops.** Cramer's Rule refuses the determinant; any other method refuses a pivot,
and that before back substitution. -/
theorem stopped_cases (idem : ∀ x : α, Scalar.abs (Scalar.abs x) = Scalar.abs x)
    {settings : Settings α} {s : LinearSystem n α} {m : Method} {reason : Singularity α}
    {steps : List (Step α)} (run : m.run settings s = .stopped reason steps) :
    m = .cramersRule ∧ reason = .zeroDeterminant s.a.det ∨
      m ≠ .cramersRule ∧ ∃ (column : Fin n) (pivot : α) (stage : Stage),
        stage ≠ .backSubstitution ∧ reason = .zeroPivot column pivot stage := by
  cases m with
  | cramersRule =>
    rcases s.cramer_cases settings with ⟨-, hrun⟩ | ⟨-, hrun⟩ <;> cases hrun.symm.trans run
    exact .inl ⟨rfl, rfl⟩
  | gaussElimination =>
    obtain ⟨halt, -, rfl⟩ := (s.gauss_reports settings idem).stopped_iff.mp ⟨steps, run⟩
    exact .inr ⟨nofun, halt.column, halt.pivot, .elimination, nofun, rfl⟩
  | gaussJordan =>
    obtain ⟨halt, -, rfl⟩ := (s.gaussJordan_reports settings).stopped_iff.mp ⟨steps, run⟩
    exact .inr ⟨nofun, halt.column, halt.pivot, .elimination, nofun, rfl⟩
  | luDecomposition =>
    obtain ⟨halt, -, rfl⟩ := (s.lu_reports settings).stopped_iff.mp ⟨steps, run⟩
    exact .inr ⟨nofun, halt.column, halt.pivot, .decomposition, nofun, rfl⟩

/-- A solution names the unknowns of its system. -/
theorem unknowns_of_run (idem : ∀ x : α, Scalar.abs (Scalar.abs x) = Scalar.abs x)
    {settings : Settings α} {s : LinearSystem n α} {m : Method} {solution : Solution n α}
    {steps : List (Step α)} (run : m.run settings s = .solved solution steps) :
    solution.unknowns = s.unknowns := by
  cases m with
  | cramersRule =>
    rcases s.cramer_cases settings with ⟨-, ending⟩ | ⟨-, ending⟩ <;>
      cases ending.symm.trans run
    rfl
  | gaussElimination =>
    rcases s.gauss_cases idem settings with ⟨halt, -, ending⟩ | ⟨board, x, log, -, ending⟩ <;>
      cases ending.symm.trans run
    rfl
  | gaussJordan =>
    rcases s.gaussJordan_cases settings with ⟨halt, -, ending⟩ | ⟨board, -, ending⟩ <;>
      cases ending.symm.trans run
    rfl
  | luDecomposition =>
    rcases s.lu_cases settings with ⟨halt, -, ending⟩ | ⟨f, x, log, -, -, ending⟩ <;>
      cases ending.symm.trans run
    rfl

/-- **Back substitution stops no method**, whatever the system and its settings, infinities and
not-a-number included. An accepted pivot is not written again. An elimination tested the magnitude
of that pivot's magnitude and back substitution tests the pivot's, which is the same number. -/
theorem backSubstitution_never_stops (settings : Settings Float) (s : LinearSystem n Float)
    (m : Method) (column : Nat) (pivot : Float) (steps : List (Step Float)) :
    m.run settings s ≠ .stopped (.zeroPivot column pivot .backSubstitution) steps ∧
      m.solve settings s ≠ .ok (.stopped (.zeroPivot column pivot .backSubstitution) steps) := by
  have never : m.run settings s ≠ .stopped (.zeroPivot column pivot .backSubstitution) steps := by
    intro run
    rcases stopped_cases Binary64.abs_abs run with ⟨-, reason⟩ | ⟨-, c, p, stage, other, reason⟩
    · nomatch reason
    · cases reason
      exact other rfl
  refine ⟨never, fun solved => ?_⟩
  rw [solve] at solved
  split at solved
  · nomatch solved
  · exact never (Except.ok.inj solved)

end Method

end Chalkboard
