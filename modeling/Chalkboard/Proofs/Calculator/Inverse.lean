import Chalkboard.Proofs.Method.Elimination
import Chalkboard.Proofs.Method.Inverse
import Chalkboard.Calculator

/-!
# The inverse of the calculator

Elimination of the coefficients with the identity beside them makes sure of one side only: the
product of a table with its inverse is the identity. That the product in the other order is the
identity too, and that the determinants are inverse to each other, is linear algebra. Here the three
operations of the calculator are held to each other: what the inverse gives is multiplied and
expanded by the code for products and determinants.

* `Grid.mul_inverse?`, `Grid.inverse?_mul` — both products of a grid with its inverse.
* `Operation.Gives` — a calculation that is not refused, and its result.
* `Operation.inverse_gives_iff` — when there is an inverse, and which; beside it what products and
  determinants of square tables are.
-/

namespace Chalkboard

universe u

open scoped Matrix

variable {n : Nat}

/-! ## Both sides -/

namespace Grid

variable {K : Type u} [Field K] [LinearOrder K] [IsStrictOrderedRing K]

/-- **A grid times its inverse.** The elimination keeps the columns that the grid with the identity
beside it takes to zero, and at the end the identity stands on the left. -/
theorem mul_inverse? {epsilon : K} (pos : 0 < epsilon) {g h : Grid n n K}
    (found : g.inverse? epsilon = some h) : g.mul h = identity n := by
  have result : orHalt (g.inverse? epsilon) = .ok h := congrArg orHalt found
  obtain ⟨board, done, rfl⟩ := (together_inverse Scalar.lawfulOne_exact epsilon g).of_ok result
  obtain ⟨columns, same⟩ := (Board.ends_diagonalize pos ⟨g.beside (identity n), []⟩).of_ok done
  have left : leftBlock (n := n) board.grid = identity n := columns.leftBlock
  apply toMatrix_injective
  rw [toMatrix_mul, toMatrix_identity]
  -- each column of the right block comes to stand where the grid takes it to a unit vector
  refine Matrix.ext_of_mulVec_single fun j => ?_
  have final : Annihilates (n := n + n) board.grid
      (Fin.append ((rightBlock (n := n) board.grid).toMatrix *ᵥ Pi.single j 1)
        (-Pi.single j 1)) := by
    rw [annihilates_append_iff, left, toMatrix_identity, Matrix.one_mulVec]
  rw [same, annihilates_append_iff, leftBlock_beside, rightBlock_beside, toMatrix_identity] at final
  rw [← Matrix.mulVec_mulVec]
  exact final

/-- **The inverse times the grid.** -/
theorem inverse?_mul {epsilon : K} (pos : 0 < epsilon) {g h : Grid n n K}
    (found : g.inverse? epsilon = some h) : h.mul g = identity n := by
  have side := congrArg toMatrix (mul_inverse? pos found)
  rw [toMatrix_mul, toMatrix_identity] at side
  apply toMatrix_injective
  rw [toMatrix_mul, toMatrix_identity]
  exact mul_eq_one_comm.mp side

/-- The determinants of a grid and its inverse. -/
theorem det_mul_inverse? {epsilon : K} (pos : 0 < epsilon) {g h : Grid n n K}
    (found : g.inverse? epsilon = some h) : g.det * h.det = 1 := by
  rw [det_eq_leibniz, det_eq_leibniz, ← leibniz_mul, mul_inverse? pos found, leibniz_identity]

end Grid

/-! ## Operations on square tables -/

section Operations

variable {α : Type u}

namespace Table

theorem square?_mk (g : Grid n n α) : square? ⟨n, n, g⟩ = some g := by
  rw [square?, dif_pos rfl]
  exact congrArg some g.ofFn_entry

/-- A square table is refused for its size only. -/
theorem squareWithin_mk (maxSize : Nat) (g : Grid n n α) :
    squareWithin maxSize ⟨n, n, g⟩ =
      if maxSize < n then .error (.tooLarge n maxSize) else .ok g := by
  rw [squareWithin, square?_mk]

/-- Square tables of the same size can be multiplied. -/
theorem mul_mk [Scalar α] (g h : Grid n n α) : mul ⟨n, n, g⟩ ⟨n, n, h⟩ = .ok ⟨n, n, g.mul h⟩ := by
  rw [mul, dif_pos rfl]
  exact congrArg (fun h' : Grid n n α => Except.ok (⟨n, n, g.mul h'⟩ : Table α)) h.ofFn_entry

end Table

namespace Operation

variable [Scalar α] {settings : Settings α} {g : Grid n n α}

/-- **`op.Gives settings a b v`** — the operation is not refused, and its result is `v`. -/
def Gives (op : Operation) (settings : Settings α) (a : Table α) (b : Option (Table α))
    (v : CalculationValue α) : Prop :=
  ∃ steps, op.compute settings a b = .ok ⟨op, v, steps⟩

/-- With a table that is not empty, an operation gives what it evaluates to. -/
theorem gives_iff {op : Operation} {a : Table α} {b : Option (Table α)} {v : CalculationValue α}
    (filled : ¬ (a.height = 0 ∨ a.width = 0)) :
    op.Gives settings a b v ↔ ∃ steps, op.evaluate settings a b = .ok (v, steps) := by
  unfold Gives compute
  rw [if_neg filled]
  cases op.evaluate settings a b with
  | error e => exact ⟨nofun, nofun⟩
  | ok r =>
    constructor
    · rintro ⟨steps, h⟩
      cases h
      exact ⟨_, rfl⟩
    · rintro ⟨steps, h⟩
      cases h
      exact ⟨_, rfl⟩

/-- The determinant of a square table. -/
theorem determinant_gives (filled : n ≠ 0) (small : n ≤ settings.maxSize) (b : Option (Table α)) :
    determinant.Gives settings ⟨n, n, g⟩ b (.scalar g.det) := by
  rw [gives_iff (by simpa using filled)]
  refine ⟨[.ofDet settings.expandCofactors "det(A)" g], ?_⟩
  simp only [evaluate, Table.squareWithin_mk, if_neg small.not_gt]
  rfl

/-- The product of two square tables. -/
theorem multiplication_gives (filled : n ≠ 0) (g h : Grid n n α) :
    multiplication.Gives settings ⟨n, n, g⟩ (some ⟨n, n, h⟩) (.table ⟨n, n, g.mul h⟩) := by
  rw [gives_iff (by simpa using filled)]
  refine ⟨[.matrix "B" h.toRows, .matrix "A × B" (g.mul h).toRows], ?_⟩
  show (Table.mul ⟨n, n, g⟩ ⟨n, n, h⟩ >>= fun product =>
    Except.ok (CalculationValue.table product,
      [Step.matrix "B" h.toRows, .matrix "A × B" product.toRows])) = _
  rw [Table.mul_mk]
  rfl

/-- The inverse of a square table, with its checks in order. -/
theorem evaluate_inverse (b : Option (Table α)) :
    inverse.evaluate settings ⟨n, n, g⟩ b =
      if settings.maxSize < n then .error (.tooLarge n settings.maxSize)
      else if Scalar.negligible settings.epsilon g.det then .error .singular
      else match g.inverse? settings.epsilon with
        | none => .error .singular
        | some h => .ok (.table ⟨n, n, h⟩,
            [.determinant "det(A)" g.det, .matrix "A^-1" h.toRows]) := by
  simp only [evaluate, Table.squareWithin_mk]
  split_ifs with large hneg
  · rfl
  · exact if_pos hneg
  · refine (if_neg hneg).trans ?_
    cases g.inverse? settings.epsilon <;> rfl

/-- **When there is an inverse** of a square table: if the table is not empty and not too large, its
determinant is not negligible, and neither is any pivot. -/
theorem inverse_gives_iff {b : Option (Table α)} {v : CalculationValue α} :
    inverse.Gives settings ⟨n, n, g⟩ b v ↔
      (n ≠ 0 ∧ n ≤ settings.maxSize ∧ Scalar.negligible settings.epsilon g.det = false) ∧
        ∃ h, g.inverse? settings.epsilon = some h ∧ v = .table ⟨n, n, h⟩ := by
  by_cases filled : n = 0
  · refine iff_of_false ?_ fun h => h.1.1 filled
    rintro ⟨steps, run⟩
    rw [compute, if_pos (.inl filled)] at run
    nomatch run
  rw [gives_iff (by simpa using filled), evaluate_inverse]
  split_ifs with large hneg
  · refine iff_of_false ?_ fun h => absurd h.1.2.1 large.not_ge
    rintro ⟨steps, run⟩
    nomatch run
  · refine iff_of_false ?_ fun h => Bool.false_ne_true (h.1.2.2.symm.trans hneg)
    rintro ⟨steps, run⟩
    nomatch run
  · have checks : n ≠ 0 ∧ n ≤ settings.maxSize ∧
        Scalar.negligible settings.epsilon g.det = false :=
      ⟨filled, not_lt.mp large, Bool.eq_false_iff.mpr hneg⟩
    rw [and_iff_right checks]
    cases g.inverse? settings.epsilon with
    | none =>
      constructor
      · rintro ⟨steps, run⟩
        nomatch run
      · rintro ⟨h, none, -⟩
        nomatch none
    | some h =>
      constructor
      · rintro ⟨steps, run⟩
        cases run
        exact ⟨h, rfl, rfl⟩
      · rintro ⟨h', same, rfl⟩
        cases same
        exact ⟨_, rfl⟩

/-- A negligible determinant is refused. -/
theorem inverse_refuses (filled : n ≠ 0) (small : n ≤ settings.maxSize)
    (hneg : Scalar.negligible settings.epsilon g.det = true) (b : Option (Table α)) :
    inverse.compute settings ⟨n, n, g⟩ b = .error .singular := by
  have nonempty : ¬ (n = 0 ∨ n = 0) := by simpa using filled
  rw [compute, if_neg nonempty, evaluate_inverse, if_neg small.not_gt, if_pos hneg]
  rfl

end Operation

end Operations

/-! ## The calculator -/

namespace Operation

variable {K : Type u} [Field K] [LinearOrder K] [IsStrictOrderedRing K]

/-- **The calculator's inverse is one from both sides.** If it gives one, then the calculator's
products with it, in either order, are the identity, and its determinant is inverse to that of the
table. And a singular table is refused as such. -/
theorem inverse_two_sided {settings : Settings K} (pos : 0 < settings.epsilon) (g : Grid n n K) :
    (∀ b m, inverse.Gives settings ⟨n, n, g⟩ b (.table m) →
      multiplication.Gives settings ⟨n, n, g⟩ (some m) (.table ⟨n, n, .identity n⟩) ∧
      multiplication.Gives settings m (some ⟨n, n, g⟩) (.table ⟨n, n, .identity n⟩) ∧
      ∃ d e, (∀ b', determinant.Gives settings ⟨n, n, g⟩ b' (.scalar d)) ∧
        (∀ b', determinant.Gives settings m b' (.scalar e)) ∧ d * e = 1) ∧
    (n ≠ 0 → n ≤ settings.maxSize → g.Singular →
      ∀ b, inverse.compute settings ⟨n, n, g⟩ b = .error .singular) := by
  constructor
  · intro b m gives
    obtain ⟨⟨filled, small, -⟩, h, found, same⟩ := inverse_gives_iff.mp gives
    cases same
    refine ⟨?_, ?_, g.det, h.det, determinant_gives filled small, determinant_gives filled small,
      Grid.det_mul_inverse? pos found⟩
    · rw [← Grid.mul_inverse? pos found]
      exact multiplication_gives filled g h
    · rw [← Grid.inverse?_mul pos found]
      exact multiplication_gives filled h g
  · intro filled small singular b
    have zero : g.det = 0 := g.det_eq_leibniz.trans singular
    refine inverse_refuses filled small (Scalar.negligible_iff.mpr ?_) b
    rw [zero, abs_zero]
    exact pos

open LinearSystem (sample singularSample) in
theorem inverse_two_sided_sample :
    let m : Table ℚ := ⟨3, 3, ⟨#v[#v[4, 3, -1], #v[-2, -2, 1], #v[5, 4, -1]]⟩⟩
    0 < Settings.sample.epsilon ∧
      inverse.Gives .sample ⟨3, 3, sample.a⟩ none (.table m) ∧
      (multiplication.Gives .sample ⟨3, 3, sample.a⟩ (some m) (.table ⟨3, 3, .identity 3⟩) ∧
        multiplication.Gives .sample m (some ⟨3, 3, sample.a⟩) (.table ⟨3, 3, .identity 3⟩) ∧
        ∃ d e, (∀ b', determinant.Gives .sample ⟨3, 3, sample.a⟩ b' (.scalar d)) ∧
          (∀ b', determinant.Gives .sample m b' (.scalar e)) ∧ d * e = 1) ∧
      singularSample.a.Singular ∧
      inverse.compute .sample ⟨3, 3, singularSample.a⟩ none = .error .singular := by
  intro m
  have found : sample.a.inverse? Settings.sample.epsilon =
      some ⟨#v[#v[4, 3, -1], #v[-2, -2, 1], #v[5, 4, -1]]⟩ := by
    decide +kernel
  have gives : inverse.Gives .sample ⟨3, 3, sample.a⟩ none (.table m) :=
    inverse_gives_iff.mpr ⟨by decide +kernel, _, found, rfl⟩
  have singular : singularSample.a.Singular :=
    (Grid.det_eq_leibniz _).symm.trans (by decide +kernel)
  exact ⟨Settings.sample_epsilon_pos, gives,
    (inverse_two_sided Settings.sample_epsilon_pos sample.a).1 none m gives, singular,
    (inverse_two_sided Settings.sample_epsilon_pos singularSample.a).2 (by decide) (by decide)
      singular none⟩

end Operation

end Chalkboard
