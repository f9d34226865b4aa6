import Mathlib.Algebra.Order.Field.Pi
import Chalkboard.Proofs.Grid.Determinant
import Chalkboard.Proofs.Method.Cramer
import Chalkboard.Proofs.Method.Lockstep
import Chalkboard.Proofs.Method.RightSide

/-!
# Regular coefficients are solved under a small tolerance

Without a tolerance an elimination of a grid whose left block is not singular never halts: a column
in which the best pivot is zero would have nothing left from its row on. The pivots that it meets
are finitely many numbers other than zero, and any tolerance that accepts them all makes the same
run. With the determinant they give a tolerance under which every method with exchanges succeeds,
whatever the constants are.

* `Board.triangularize_of_accepted` — a run is the run under any tolerance that accepts its pivots.
* `Board.triangularize_regular` — without a tolerance, no column is refused.
* `Method.regular_solved` — the two together, for Cramer's Rule and the two eliminations.
-/

namespace Chalkboard

universe u

variable {n k : Nat}

namespace Board

/-! ## Other tolerances -/

section Accepted

variable {α : Type u} [Scalar α] {epsilon epsilon' : α}

/-- A pivot that was brought up is brought up under any tolerance that accepts it. -/
theorem bringUp_of_accepted (idem : ∀ x : α, Scalar.abs (Scalar.abs x) = Scalar.abs x)
    {b b' : Board n (n + k) α} {i : Fin n} (run : b.bringUp epsilon i = .ok b')
    (accepted : Scalar.negligible epsilon' (b'.grid.entry i (i.castAdd k)) = false) :
    b.bringUp epsilon' i = .ok b' := by
  obtain ⟨hneg, hgrid, -⟩ := (ends_bringUp_found epsilon b rfl).of_ok run
  have hmag := (b.grid.found_pivotBelow (i.castAdd k) i).2
  -- the magnitude that is tested is that of the pivot
  have hneg' : Scalar.negligible epsilon' (b.grid.pivotBelow (i.castAdd k) i).2 = false := by
    rw [hgrid, Grid.row_swapRows, if_pos rfl] at accepted
    rw [hmag, Scalar.negligible, idem]
    exact accepted
  rw [← hmag] at hneg
  simp only [bringUp] at run ⊢
  rw [if_neg (ne_true_of_eq_false hneg)] at run
  rw [if_neg (ne_true_of_eq_false hneg')]
  exact run

/-- What is accepted after one column was accepted before it, and so is the pivot of the column. -/
theorem Accepted.of_column {b b' : Board n (n + k) α} {i : Fin n}
    (run : b.bringUp epsilon i = .ok b')
    (accepted : (b'.clearBelow i).Accepted epsilon' (i + 1)) :
    b.Accepted epsilon' i ∧
      Scalar.negligible epsilon' (b'.grid.entry i (i.castAdd k)) = false := by
  obtain ⟨-, hgrid, -⟩ := (ends_bringUp_found epsilon b rfl).of_ok run
  have hir := (b.grid.found_pivotBelow (i.castAdd k) i).1
  constructor
  · intro c hc
    -- rows before `i` are neither exchanged nor cleared
    have hci : c < i := hc
    have h := accepted c (hc.trans (Nat.lt_succ_self i))
    rw [entry_clearBelow_of_le b' hci.le, hgrid, Grid.row_swapRows, if_neg hci.ne,
      if_neg (hci.trans_le hir).ne] at h
    exact h
  · have h := accepted i (Nat.lt_succ_self i)
    rwa [entry_clearBelow_of_le b' le_rfl] at h

/-- **Another tolerance.** A run to triangular form is the run under any tolerance that accepts all
its pivots. -/
theorem triangularize_of_accepted (idem : ∀ x : α, Scalar.abs (Scalar.abs x) = Scalar.abs x)
    {b b' : Board n (n + k) α} (run : b.triangularize epsilon = .ok b')
    (accepted : b'.Accepted epsilon' n) : b.triangularize epsilon' = .ok b' := by
  -- the other run has come as far as this one, if all pivots so far are accepted
  have along : Ends (fun _ => True)
      (fun t => t.Accepted epsilon' n →
        ((List.finRange n).take n).foldlM
          (fun b i => (b.bringUp epsilon' i).map (·.clearBelow i)) b = .ok t)
      (b.triangularize epsilon) := by
    refine ends_foldlM_finRange (fun i t => t.Accepted epsilon' i →
      ((List.finRange n).take i).foldlM
        (fun b i => (b.bringUp epsilon' i).map (·.clearBelow i)) b = .ok t)
      (fun _ => rfl) fun i t h => ?_
    cases ht : t.bringUp epsilon i with
    | error halt => exact trivial
    | ok t' =>
      intro accepted'
      obtain ⟨before, pivot⟩ := Accepted.of_column ht accepted'
      rw [foldlM_take_succ i (h before), bringUp_of_accepted idem ht pivot]
      rfl
  have whole := along.of_ok run accepted
  rwa [List.take_of_length_le (Nat.le_of_eq List.length_finRange)] at whole

end Accepted

/-! ## No tolerance -/

variable {K : Type u} [Field K] [LinearOrder K] [IsStrictOrderedRing K]

/-- Without a tolerance, one column of a regular grid is finished. -/
theorem ends_triangularColumn_regular {g : Grid n (n + k) K} (regular : ¬ g.leftBlock.Singular)
    (b : Board n (n + k) K) (i : Fin n) (h : b.grid.Triangular i ∧ b.grid.SameSolutions g) :
    Ends (fun _ => False) (fun b' => b'.grid.Triangular (i + 1) ∧ b'.grid.SameSolutions g)
      ((b.bringUp 0 i).map (·.clearBelow i)) := by
  obtain ⟨triangular, same⟩ := h
  have raised : Ends (fun _ => False)
      (fun b' => b'.grid.Triangular i ∧ b'.grid.SameSolutions g ∧
        b'.grid.entry i (i.castAdd k) ≠ 0) (b.bringUp 0 i) := by
    refine (ends_bringUp 0 b i).imp ?_ ?_
    · rintro halt ⟨-, -, r, -, -, hlt⟩
      exact absurd hlt (abs_nonneg halt.pivot).not_gt
    · rintro b' ⟨r, hpivot, -, hgrid, -⟩
      rw [hgrid]
      refine ⟨triangular.swapRows hpivot.below,
        (b.grid.sameSolutions_swapRows i r).trans same, fun hzero => regular ?_⟩
      -- if the largest entry of the column is zero, all of them are
      rw [Grid.entry_swapRows, if_pos rfl] at hzero
      rw [← same.singular_iff]
      refine triangular.singular_of_column_zero fun r' hr' => abs_eq_zero.mp ?_
      have hle := hpivot.largest r' hr'
      simp only [hzero, abs_zero] at hle
      exact le_antisymm hle (abs_nonneg _)
  refine raised.map ?_
  rintro b' ⟨htri, hsame, hp⟩
  obtain ⟨htri', hsame'⟩ := triangular_clearBelow htri hp
  exact ⟨htri', hsame'.trans hsame⟩

/-- **No column of a regular grid is refused** without a tolerance, and all its pivots are other
than zero. -/
theorem triangularize_regular (b : Board n (n + k) K) (regular : ¬ b.grid.leftBlock.Singular) :
    ∃ b', b.triangularize 0 = .ok b' ∧ b'.grid.Triangular n := by
  have run : Ends (fun _ => False) (fun b' => b'.grid.Triangular n ∧ b'.grid.SameSolutions b.grid)
      (b.triangularize 0) :=
    ends_foldlM_finRange (fun i b' => b'.grid.Triangular i ∧ b'.grid.SameSolutions b.grid)
      ⟨b.grid.triangular_zero, .refl b.grid⟩
      fun i b' h => ends_triangularColumn_regular regular b' i h
  cases hb : b.triangularize 0 with
  | error halt => exact (run.of_error hb).elim
  | ok b' => exact ⟨b', rfl, (run.of_ok hb).1⟩

/-- **A tolerance for a regular grid**: under it and under all smaller ones, elimination reaches
triangular form. -/
theorem exists_tolerance (b : Board n (n + k) K) (regular : ¬ b.grid.leftBlock.Singular) :
    ∃ e₀ : K, 0 < e₀ ∧ ∀ epsilon, epsilon ≤ e₀ → ∃ b', b.triangularize epsilon = .ok b' := by
  obtain ⟨b', run, triangular⟩ := b.triangularize_regular regular
  -- the pivots are finitely many
  have pivots (i : Fin n) : 0 < |b'.grid.entry i (i.castAdd k)| :=
    abs_pos.mpr (triangular.pivot i i.isLt)
  obtain ⟨e₀, pos, below⟩ := Pi.exists_forall_pos_add_lt pivots
  refine ⟨e₀, pos, fun epsilon hle => ⟨b', triangularize_of_accepted abs_abs run fun i _ => ?_⟩⟩
  have hlt := below i
  rw [zero_add] at hlt
  exact Scalar.not_negligible_iff.mpr (hle.trans hlt.le)

end Board

/-! ## The methods -/

namespace LinearSystem

variable {K : Type u} [Field K] [LinearOrder K] [IsStrictOrderedRing K]

/-- Both eliminations end with values as soon as one board reaches triangular form. -/
theorem eliminations_solved_of_triangularize {settings : Settings K} (pos : 0 < settings.epsilon)
    {s : LinearSystem n K} {board : Board n (n + 1) K}
    (run : Board.triangularize (k := 1) settings.epsilon ⟨s.augmented, []⟩ = .ok board) :
    (∃ solution steps, s.gauss settings = .solved solution steps) ∧
      ∃ solution steps, s.gaussJordan settings = .solved solution steps := by
  have together := Board.together_eliminations (k := 1) pos ⟨s.augmented, []⟩
  exact ⟨(s.gauss_reports settings abs_abs).solved_iff.mpr ⟨board, run⟩,
    (s.gaussJordan_reports settings).solved_iff.mpr (together.ok_iff.mp ⟨board, run⟩)⟩

omit [IsStrictOrderedRing K] in
/-- Cramer's Rule ends with values as soon as the determinant reaches the tolerance. -/
theorem cramer_solved_of_le {settings : Settings K} {s : LinearSystem n K}
    (h : settings.epsilon ≤ |s.a.leibniz|) :
    ∃ solution steps, s.cramer settings = .solved solution steps := by
  rw [← Grid.det_eq_leibniz] at h
  exact ⟨_, cramer_of_not_negligible (Scalar.not_negligible_iff.mpr h)⟩

end LinearSystem

namespace Method

variable {K : Type u} [Field K] [LinearOrder K] [IsStrictOrderedRing K]

/-- **Regular coefficients are solved.** If the coefficients are not singular, there is a tolerance
under which, and under every smaller one, Cramer's Rule and both eliminations end with values,
whatever the constants are. -/
theorem regular_solved {a : Grid n n K} (regular : ¬ a.Singular) :
    ∃ e₀ : K, 0 < e₀ ∧ ∀ (unknowns : Vector Char n) (b : Vector K n) (settings : Settings K),
      0 < settings.epsilon → settings.epsilon ≤ e₀ →
      ∀ m ∈ [cramersRule, gaussElimination, gaussJordan],
        ∃ solution steps, m.run settings ⟨unknowns, a, b⟩ = .solved solution steps := by
  -- the tolerance of the board is found with zeros for the constants
  let zeros : LinearSystem n K := ⟨Vector.replicate n 'x', a, Vector.replicate n 0⟩
  have hzeros : ¬ (Grid.leftBlock (k := 1) zeros.augmented).Singular := by
    rw [zeros.leftBlock_augmented]
    exact regular
  obtain ⟨e₁, pos₁, board⟩ := Board.exists_tolerance (k := 1) ⟨zeros.augmented, []⟩ hzeros
  refine ⟨min e₁ |a.leibniz|, lt_min pos₁ (abs_pos.mpr regular), ?_⟩
  intro unknowns b settings pos hle
  let s : LinearSystem n K := ⟨unknowns, a, b⟩
  have hcramer : settings.epsilon ≤ |s.a.leibniz| := hle.trans (min_le_right _ _)
  -- the constants decide nothing
  have same : zeros.a = s.a := rfl
  have together := LinearSystem.together_elimination
    (fun b => b.triangularize_chooseRight (k := 1) Fin.elim0 settings.epsilon) same
  obtain ⟨triangular, run⟩ :=
    together.ok_iff.mp (board settings.epsilon (hle.trans (min_le_left _ _)))
  obtain ⟨hgauss, hjordan⟩ := LinearSystem.eliminations_solved_of_triangularize pos run
  intro m hm
  rcases List.mem_cons.mp hm with rfl | hm
  · exact LinearSystem.cramer_solved_of_le hcramer
  · rcases List.mem_cons.mp hm with rfl | hm
    · exact hgauss
    · rw [List.mem_singleton.mp hm]
      exact hjordan

theorem regular_solved_sample :
    ¬ LinearSystem.sample.a.Singular ∧
      ∃ settings : Settings ℚ, 0 < settings.epsilon ∧
        ∀ m ∈ [cramersRule, gaussElimination, gaussJordan],
          ∃ solution steps, m.run settings LinearSystem.sample = .solved solution steps := by
  have regular : ¬ LinearSystem.sample.a.Singular := by
    rw [Grid.Singular, ← Grid.det_eq_leibniz]
    decide +kernel
  obtain ⟨e₀, pos, solved⟩ := regular_solved regular
  refine ⟨regular, { Settings.sample with epsilon := e₀ }, pos, ?_⟩
  exact solved LinearSystem.sample.unknowns LinearSystem.sample.b _ pos le_rfl

end Method

end Chalkboard
