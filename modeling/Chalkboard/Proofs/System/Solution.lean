import Mathlib.Algebra.Order.Field.Rat
import Mathlib.LinearAlgebra.Matrix.ToLinearEquiv
import Chalkboard.Proofs.Grid.RowOp
import Chalkboard.Settings
import Chalkboard.System.Basic

/-!
# Solutions of a system

What the methods are asked for. `LinearSystem.HasUniqueSolution` says that a column of numbers
satisfies all equations and that no other one does; the coefficients of such a system are not
singular. The augmented grid of a system has the same solutions as the system, and a system over the
same unknowns with the same annihilated columns has them too.
-/

namespace Chalkboard

universe u

open scoped BigOperators Matrix

namespace Grid

variable {n k : Nat} {K : Type u} [Field K]

/-- **`g.Singular`** — the determinant of `g` is zero. -/
def Singular (g : Grid n n K) : Prop :=
  g.leibniz = 0

/-- A grid is singular exactly if it takes some column other than zero to zero. -/
theorem singular_iff {g : Grid n n K} : g.Singular ↔ ∃ v, v ≠ 0 ∧ g.toMatrix *ᵥ v = 0 := by
  rw [Singular, leibniz_eq_det, ← Matrix.exists_mulVec_eq_zero_iff]

theorem eq_zero_of_not_singular {g : Grid n n K} (h : ¬ g.Singular) {v : Fin n → K}
    (hv : g.toMatrix *ᵥ v = 0) : v = 0 := by
  by_contra hne
  exact h (singular_iff.mpr ⟨v, hne, hv⟩)

/-- Grids with the same solutions have singular left blocks together. -/
theorem SameSolutions.singular_iff {g h : Grid n (n + k) K} (same : g.SameSolutions h) :
    g.leftBlock.Singular ↔ h.leftBlock.Singular := by
  rw [Grid.singular_iff, Grid.singular_iff]
  refine exists_congr fun v => and_congr_right fun _ => ?_
  rw [← annihilates_append_zero_iff, ← annihilates_append_zero_iff]
  exact same _

end Grid

namespace LinearSystem

variable {n : Nat} {α : Type u}

/-! ## The augmented grid -/

theorem leftBlock_augmented (s : LinearSystem n α) :
    Grid.leftBlock (k := 1) s.augmented = s.a := by
  apply Grid.ext_entry
  intro i j
  rw [Grid.entry_leftBlock]
  exact Grid.entry_augment_castSucc s.a s.b i j

theorem lastColumn_augmented (s : LinearSystem n α) : s.augmented.lastColumn = s.b := by
  apply ext_get
  intro i
  rw [Grid.get_lastColumn]
  exact Grid.entry_augment_last s.a s.b i

variable {K : Type u} [Field K] [LinearOrder K]

/-! ## Unique solutions -/

/-- **`s.HasUniqueSolution x`** — `x` satisfies every equation of `s`, and nothing else does. -/
structure HasUniqueSolution (s : LinearSystem n K) (x : Vector K n) : Prop where
  solves : s.a.mulVec x = s.b
  unique : ∀ y, s.a.mulVec y = s.b → y = x

/-- A solution of a system with coefficients that are not singular is its only one. -/
theorem hasUniqueSolution_of_not_singular {s : LinearSystem n K} {x : Vector K n}
    (h : ¬ s.a.Singular) (hx : s.a.mulVec x = s.b) : s.HasUniqueSolution x := by
  refine ⟨hx, fun y hy => ?_⟩
  rw [Grid.mulVec_eq_iff_matrix] at hx hy
  have hzero : y.get - x.get = 0 := by
    apply Grid.eq_zero_of_not_singular h
    rw [Matrix.mulVec_sub, hy, hx, sub_self]
  exact ext_get fun i => congrFun (sub_eq_zero.mp hzero) i

/-- A system with one solution has no singular coefficients: else a column that they take to zero
could be added to the solution. -/
theorem HasUniqueSolution.not_singular {s : LinearSystem n K} {x : Vector K n}
    (h : s.HasUniqueSolution x) : ¬ s.a.Singular := by
  intro hs
  obtain ⟨v, hne, hv⟩ := Grid.singular_iff.mp hs
  -- what the coefficients take to zero makes a second solution of the first
  have hsum : s.a.mulVec (Vector.ofFn (x.get + v)) = s.b := by
    have hx := Grid.mulVec_eq_iff_matrix.mp h.solves
    rw [Grid.mulVec_eq_iff_matrix]
    have hget : (Vector.ofFn (x.get + v)).get = x.get + v := funext fun i => get_ofFn _ i
    rw [hget, Matrix.mulVec_add, hv, hx, add_zero]
  have heq : x.get + v = x.get := by
    funext i
    rw [← get_ofFn (x.get + v) i, h.unique _ hsum]
  exact hne (add_eq_left.mp heq)

/-! ## Solutions of an augmented grid -/

/-- A column that an augmented grid takes to zero, with `-1` for the right side, is a solution. -/
theorem annihilates_append_neg_one_iff (g : Grid n (n + 1) K) (x : Vector K n) :
    Grid.Annihilates (n := n + 1) g (Fin.append x.get (-1)) ↔
      (Grid.leftBlock (k := 1) g).mulVec x = g.lastColumn := by
  rw [Grid.annihilates_append_iff_mem_solutions, Grid.mulVec_eq_iff]
  refine forall_congr' fun i => ?_
  rw [Grid.get_lastColumn]
  simp only [Grid.entry_leftBlock]
  rfl

/-- **Elimination solves the system.** A grid that annihilates the same columns as the augmented
grid of `s`, and whose coefficients are not singular, leaves `s` the same only solution. -/
theorem hasUniqueSolution_of_sameSolutions {s : LinearSystem n K} {g : Grid n (n + 1) K}
    {x : Vector K n} (same : g.SameSolutions s.augmented)
    (regular : ¬ (Grid.leftBlock (k := 1) g).Singular)
    (hx : (Grid.leftBlock (k := 1) g).mulVec x = g.lastColumn) : s.HasUniqueSolution x := by
  have hs : ¬ s.a.Singular := by
    rwa [← leftBlock_augmented, ← Grid.SameSolutions.singular_iff (k := 1) same]
  apply hasUniqueSolution_of_not_singular hs
  rw [← annihilates_append_neg_one_iff, same, annihilates_append_neg_one_iff,
    leftBlock_augmented, lastColumn_augmented] at hx
  exact hx

/-! ## Systems to try the methods on -/

/-- A system with the solution `2, 3, -1`. The best pivot of its first column is not in the first
row. -/
def sample : LinearSystem 3 ℚ :=
  { unknowns := #v['x', 'y', 'z']
    a := ⟨#v[#v[2, 1, -1], #v[-3, -1, 2], #v[-2, 1, 2]]⟩
    b := #v[8, -11, -3] }

/-- A system whose second equation has twice the left side of the first. -/
def singularSample : LinearSystem 3 ℚ :=
  { unknowns := #v['x', 'y', 'z']
    a := ⟨#v[#v[1, 2, 3], #v[2, 4, 6], #v[1, 1, 1]]⟩
    b := #v[1, 1, 1] }

end LinearSystem

/-- Settings with a small tolerance. -/
def Settings.sample : Settings ℚ :=
  { epsilon := 1 / 1000, maxSize := 8, precision := 6, expandCofactors := true }

theorem Settings.sample_epsilon_pos : 0 < Settings.sample.epsilon := by
  decide +kernel

end Chalkboard
