import Mathlib.LinearAlgebra.Matrix.Adjugate
import Chalkboard.Proofs.System.Solution
import Chalkboard.Proofs.Worked.Outcome
import Chalkboard.Method.Cramer

/-!
# Cramer's Rule

Cofactor expansion is the determinant, so the quotients that the method forms are those of Cramer's
theorem. The method is decided by one test, of the determinant against the tolerance.
-/

namespace Chalkboard

universe u

open scoped Matrix

variable {n : Nat} {K : Type u} [Field K] [LinearOrder K]

namespace LinearSystem

/-- A numerator is an entry of the Cramer map of the coefficients at the right side. -/
theorem det_replaced (s : LinearSystem n K) (k : Fin n) :
    (s.replaced k).det = s.a.toMatrix.cramer s.b.get k := by
  rw [Grid.det_eq_leibniz, Grid.leibniz_eq_det, replaced, Grid.toMatrix_replaceColumn,
    Matrix.cramer_apply]

/-- **Cramer's theorem.** If the determinant is not zero, the quotients solve the system. -/
theorem mulVec_cramerValue {s : LinearSystem n K} (h : ¬ s.a.Singular) :
    s.a.mulVec (Vector.ofFn s.cramerValue) = s.b := by
  have hdet : s.a.toMatrix.det ≠ 0 := by
    rw [← Grid.leibniz_eq_det]
    exact h
  -- the quotients are the Cramer map divided by the determinant
  have hvalues : (Vector.ofFn s.cramerValue).get =
      (s.a.toMatrix.det)⁻¹ • s.a.toMatrix.cramer s.b.get := by
    funext k
    rw [get_ofFn, cramerValue, det_replaced, Grid.det_eq_leibniz, Grid.leibniz_eq_det,
      div_eq_inv_mul]
    rfl
  rw [Grid.mulVec_eq_iff_matrix, hvalues, Matrix.mulVec_smul, Matrix.mulVec_cramer,
    inv_smul_smul₀ hdet]

/-- Under the tolerance the method stops at the determinant. -/
theorem cramer_of_negligible {settings : Settings K} {s : LinearSystem n K}
    (h : Scalar.negligible settings.epsilon s.a.det = true) :
    ∃ steps, s.cramer settings = .stopped (.zeroDeterminant s.a.det) steps := by
  simp only [cramer, if_pos h]
  exact ⟨_, rfl⟩

/-- Otherwise it ends with the quotients. -/
theorem cramer_of_not_negligible {settings : Settings K} {s : LinearSystem n K}
    (h : Scalar.negligible settings.epsilon s.a.det = false) :
    ∃ steps, s.cramer settings = .solved ⟨s.unknowns, Vector.ofFn s.cramerValue⟩ steps := by
  simp only [cramer, if_neg (ne_true_of_eq_false h)]
  exact ⟨_, rfl⟩

variable [IsStrictOrderedRing K]

/-- **Cramer's Rule decides by the determinant.** It ends with values exactly if the magnitude of
the Leibniz determinant reaches the tolerance; then the values are the only solution. Otherwise it
stops and gives that determinant as the reason. -/
theorem cramer_decides {settings : Settings K} (pos : 0 < settings.epsilon)
    (s : LinearSystem n K) :
    ((∃ solution steps, s.cramer settings = .solved solution steps) ↔
      settings.epsilon ≤ |s.a.leibniz|) ∧
    (∀ solution steps, s.cramer settings = .solved solution steps →
      s.HasUniqueSolution solution.values) ∧
    (|s.a.leibniz| < settings.epsilon →
      ∃ steps, s.cramer settings = .stopped (.zeroDeterminant s.a.leibniz) steps) := by
  rw [← Grid.det_eq_leibniz]
  cases hneg : Scalar.negligible settings.epsilon s.a.det with
  | true =>
    have hlt := Scalar.negligible_iff.mp hneg
    obtain ⟨steps, run⟩ := cramer_of_negligible hneg
    simp only [run]
    refine ⟨⟨?_, fun hge => absurd hlt hge.not_gt⟩, ?_, fun _ => ⟨steps, rfl⟩⟩
    · rintro ⟨solution, steps', h⟩
      nomatch h
    · intro solution steps' h
      nomatch h
  | false =>
    have hge := Scalar.not_negligible_iff.mp hneg
    obtain ⟨steps, run⟩ := cramer_of_not_negligible hneg
    simp only [run]
    refine ⟨⟨fun _ => hge, fun _ => ⟨_, steps, rfl⟩⟩, ?_, fun hlt => absurd hlt hge.not_gt⟩
    intro solution steps' h
    cases h
    have regular : ¬ s.a.Singular := by
      rw [Grid.Singular, ← Grid.det_eq_leibniz]
      exact Scalar.ne_zero_of_not_negligible pos hneg
    exact hasUniqueSolution_of_not_singular regular (mulVec_cramerValue regular)

theorem cramer_decides_sample :
    0 < Settings.sample.epsilon ∧
      Settings.sample.epsilon ≤ |sample.a.leibniz| ∧ sample.HasUniqueSolution #v[2, 3, -1] ∧
      ∃ steps, singularSample.cramer .sample = .stopped (.zeroDeterminant 0) steps := by
  have values : (sample.cramer .sample).solution? = some ⟨sample.unknowns, #v[2, 3, -1]⟩ := by
    decide +kernel
  obtain ⟨steps, run⟩ := Outcome.solution?_eq_some_iff.mp values
  obtain ⟨solved_iff, unique, -⟩ := cramer_decides Settings.sample_epsilon_pos sample
  have hdet : singularSample.a.leibniz = 0 := by
    rw [← Grid.det_eq_leibniz]
    decide +kernel
  have hsmall : |singularSample.a.leibniz| < Settings.sample.epsilon := by
    rw [hdet, abs_zero]
    exact Settings.sample_epsilon_pos
  have stopped := (cramer_decides Settings.sample_epsilon_pos singularSample).2.2 hsmall
  rw [hdet] at stopped
  exact ⟨Settings.sample_epsilon_pos, solved_iff.mp ⟨_, steps, run⟩, unique _ _ run, stopped⟩

end LinearSystem

end Chalkboard
