import Chalkboard.Proofs.Method.Elimination
import Chalkboard.Proofs.Method.Guarded
import Chalkboard.Proofs.Method.Substitution
import Chalkboard.Proofs.Worked.Outcome
import Chalkboard.Method.Gauss

/-!
# Gaussian elimination solves the system

Forward elimination leaves an augmented grid with the same solutions and an upper triangular left
block that is not singular; back substitution makes every row of that block hold. So values that the
method returns are the only solution, and a system with singular coefficients, which has no such
values, makes it stop.
-/

namespace Chalkboard

universe u

variable {n : Nat} {K : Type u} [Field K] [LinearOrder K] [IsStrictOrderedRing K]

namespace LinearSystem

/-- Values that the method returns are the only solution. -/
theorem hasUniqueSolution_of_gauss {settings : Settings K} (pos : 0 < settings.epsilon)
    {s : LinearSystem n K} {solution : Solution n K} {steps : List (Step K)}
    (run : s.gauss settings = .solved solution steps) : s.HasUniqueSolution solution.values := by
  obtain ⟨board, x, log, hboard, values, rfl, -⟩ := exists_of_gauss run
  -- the board has the solutions of the system, and pivots that are not zero
  obtain ⟨triangular, same⟩ :=
    (Board.ends_triangularize (k := 1) pos ⟨s.augmented, []⟩).of_ok hboard
  apply hasUniqueSolution_of_sameSolutions same
  · exact triangular.upper.not_singular triangular.diagonal
  · exact ((Grid.ends_backSubstitute pos _ _).of_ok values).mulVec triangular.upper

/-- **Gaussian elimination is sound.** Values that it returns satisfy the system, and nothing else
does. With guarded numbers it writes down the same worked solution, so it never divides by zero. And
if the coefficients are singular it stops, whatever the right side and the tolerance. -/
theorem gauss_sound {settings : Settings K} (pos : 0 < settings.epsilon) (s : LinearSystem n K) :
    (∀ solution steps, s.gauss settings = .solved solution steps →
      s.HasUniqueSolution solution.values) ∧
    (s.map Guarded.num).gauss (settings.map Guarded.num) = (s.gauss settings).map Guarded.num ∧
    (s.a.Singular → ∃ reason steps, s.gauss settings = .stopped reason steps) := by
  refine ⟨fun solution steps run => ?_, gauss_num pos s, fun singular => ?_⟩
  · exact hasUniqueSolution_of_gauss pos run
  · cases run : s.gauss settings with
    | solved solution steps =>
      -- a unique solution is what singular coefficients cannot have
      exact absurd singular (hasUniqueSolution_of_gauss pos run).not_singular
    | stopped reason steps => exact ⟨reason, steps, rfl⟩

theorem gauss_sound_sample :
    0 < Settings.sample.epsilon ∧
      (∃ steps, sample.gauss .sample = .solved ⟨sample.unknowns, #v[2, 3, -1]⟩ steps) ∧
      sample.HasUniqueSolution #v[2, 3, -1] ∧
      ∃ reason steps, singularSample.gauss .sample = .stopped reason steps := by
  have values : (sample.gauss .sample).solution? = some ⟨sample.unknowns, #v[2, 3, -1]⟩ := by
    decide +kernel
  obtain ⟨steps, run⟩ := Outcome.solution?_eq_some_iff.mp values
  have singular : singularSample.a.Singular := by
    rw [Grid.Singular, ← Grid.det_eq_leibniz]
    decide +kernel
  exact ⟨Settings.sample_epsilon_pos, ⟨steps, run⟩,
    (gauss_sound Settings.sample_epsilon_pos sample).1 _ _ run,
    (gauss_sound Settings.sample_epsilon_pos singularSample).2.2 singular⟩

end LinearSystem

end Chalkboard
