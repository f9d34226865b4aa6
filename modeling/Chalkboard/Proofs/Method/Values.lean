import Chalkboard.Proofs.Method.Cramer
import Chalkboard.Proofs.Method.Factorization
import Chalkboard.Proofs.Method.Lockstep

/-!
# The values of every method are the one solution

Over an ordered field the four methods are right whenever they end with values, so there is nothing
to choose between them: whichever of them end with values end with the same.
-/

namespace Chalkboard

universe u

variable {n : Nat} {K : Type u} [Field K] [LinearOrder K] [IsStrictOrderedRing K]

namespace Method

/-- **Values of any method** are the only solution of its system. -/
theorem hasUniqueSolution_of_run {settings : Settings K} (pos : 0 < settings.epsilon)
    {s : LinearSystem n K} {m : Method} {solution : Solution n K} {steps : List (Step K)}
    (run : m.run settings s = .solved solution steps) :
    s.HasUniqueSolution solution.values := by
  cases m with
  | cramersRule =>
    rcases s.cramer_cases settings with ⟨-, ending⟩ | ⟨hneg, ending⟩ <;>
      cases ending.symm.trans run
    have regular : ¬ s.a.Singular := by
      rw [Grid.Singular, ← Grid.det_eq_leibniz]
      exact Scalar.ne_zero_of_not_negligible pos hneg
    exact LinearSystem.hasUniqueSolution_of_not_singular regular
      (LinearSystem.mulVec_cramerValue regular)
  | gaussElimination => exact LinearSystem.hasUniqueSolution_of_gauss pos run
  | gaussJordan =>
    rcases s.gaussJordan_cases settings with ⟨halt, -, ending⟩ | ⟨board, hboard, ending⟩ <;>
      cases ending.symm.trans run
    exact LinearSystem.hasUniqueSolution_of_diagonalize pos hboard
  | luDecomposition =>
    rcases s.lu_cases settings with ⟨halt, -, ending⟩ | ⟨f, x, log, hf, values, ending⟩ <;>
      cases ending.symm.trans run
    have covers := (Factors.ends_of pos s.a).of_ok hf
    obtain ⟨x', log', values', -, unique⟩ := LinearSystem.backSubstitute_of_covers pos covers
    cases values'.symm.trans values
    exact unique

/-- A method that ends with values ends with any values that satisfy the equations. -/
theorem eq_solution_of_run {settings : Settings K} (pos : 0 < settings.epsilon)
    {s : LinearSystem n K} {m : Method} {solution : Solution n K} {steps : List (Step K)}
    (run : m.run settings s = .solved solution steps) {x : Vector K n} (hx : s.a.mulVec x = s.b) :
    solution = ⟨s.unknowns, x⟩ := by
  have unknowns := unknowns_of_run abs_abs run
  have values := (hasUniqueSolution_of_run pos run).unique x hx
  cases solution with
  | mk unknowns' values' => exact congrArg₂ Solution.mk unknowns values.symm

end Method

end Chalkboard
