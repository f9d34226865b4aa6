import Chalkboard.Proofs.Method.Elimination
import Chalkboard.Proofs.Worked.Outcome
import Chalkboard.Method.GaussJordan

/-!
# Gauss-Jordan elimination solves the system

With all columns done the left block of the augmented grid is the identity, so the grid states the
solution: its last column. It still has the solutions that it began with.
-/

namespace Chalkboard

universe u

namespace Board

variable {m n : Nat} {α : Type u}

/-- What a board records are row operations. -/
theorem augmented_notMem_steps (b : Board m n α) (caption : String) (rows : List (List α)) :
    .augmented caption rows ∉ b.steps := by
  intro h
  obtain ⟨entry, -, heq⟩ := List.mem_map.mp h
  nomatch heq

end Board

variable {n : Nat} {K : Type u} [Field K] [LinearOrder K]

namespace Grid

theorem mulVec_identity (x : Vector K n) : (identity n).mulVec x = x := by
  rw [mulVec_eq_iff_matrix, toMatrix_identity, Matrix.one_mulVec]

theorem identity_not_singular : ¬ (identity n : Grid n n K).Singular := by
  rw [Singular, leibniz_identity]
  exact one_ne_zero

end Grid

namespace LinearSystem

variable [IsStrictOrderedRing K]

/-- **Gauss-Jordan elimination is sound.** If it ends with values, it has written down one reduced
row echelon form: the identity, and beside it the values, which are the only solution. -/
theorem gaussJordan_sound {settings : Settings K} (pos : 0 < settings.epsilon)
    (s : LinearSystem n K) (solution : Solution n K) (steps : List (Step K))
    (run : s.gaussJordan settings = .solved solution steps) :
    ∃ g : Grid n (n + 1) K,
      Records (Step.augmented "Reduced row echelon form") g.toRows steps ∧
      Grid.leftBlock (k := 1) g = Grid.identity n ∧ g.lastColumn = solution.values ∧
      s.HasUniqueSolution solution.values := by
  have reduction := Board.ends_diagonalize (k := 1) pos ⟨s.augmented, []⟩
  unfold gaussJordan at run
  cases hboard : Board.diagonalize (k := 1) settings.epsilon ⟨s.augmented, []⟩ with
  | error halt =>
    rw [hboard] at run
    nomatch run
  | ok board =>
    -- the identity takes the last column to itself
    obtain ⟨columns, same⟩ := reduction.of_ok hboard
    rw [hboard] at run
    cases run
    have hleft : Grid.leftBlock (k := 1) board.grid = Grid.identity n := columns.leftBlock
    refine ⟨board.grid, ?_, hleft, rfl, ?_⟩
    · simp [Records, eliminationOpening, Board.augmented_notMem_steps]
    · apply hasUniqueSolution_of_sameSolutions same
      · rw [hleft]
        exact Grid.identity_not_singular
      · rw [hleft]
        exact Grid.mulVec_identity _

theorem gaussJordan_sound_sample :
    0 < Settings.sample.epsilon ∧
      ∃ steps, sample.gaussJordan .sample = .solved ⟨sample.unknowns, #v[2, 3, -1]⟩ steps ∧
        ∃ g : Grid 3 (3 + 1) ℚ,
          Records (Step.augmented "Reduced row echelon form") g.toRows steps ∧
          Grid.leftBlock (k := 1) g = Grid.identity 3 ∧ g.lastColumn = #v[2, 3, -1] ∧
          sample.HasUniqueSolution #v[2, 3, -1] := by
  have values :
      (sample.gaussJordan .sample).solution? = some ⟨sample.unknowns, #v[2, 3, -1]⟩ := by
    decide +kernel
  obtain ⟨steps, run⟩ := Outcome.solution?_eq_some_iff.mp values
  exact ⟨Settings.sample_epsilon_pos, steps, run,
    gaussJordan_sound Settings.sample_epsilon_pos sample _ steps run⟩

end LinearSystem

end Chalkboard
