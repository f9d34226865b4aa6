import Mathlib.Data.Int.Cast.Lemmas
import Mathlib.GroupTheory.Perm.Sign
import Chalkboard.Proofs.Grid.Triangular

/-!
# Determinants and row operations

How the determinant of a left block changes under what an elimination does to its rows, and what the
determinant says about a column in which no pivot is left.

* `Grid.leibniz_swapRows`, `Grid.leibniz_scaleRow`, `Grid.leibniz_subtractRows` — an exchange of two
  rows turns the sign, a factor of a row is one of the determinant, and multiples of a row that are
  subtracted from the others change nothing.
* `Grid.Triangular.singular_of_column_zero` — where column `i` has nothing left from row `i` on, the
  left block is singular. So partial pivoting finds a pivot in every column of a grid that is not.
* `Grid.leibniz_map_cast` — the determinant of whole numbers is a whole number.
-/

namespace Chalkboard

universe u

open scoped BigOperators Matrix

namespace Grid

variable {m n k : Nat} {α : Type u}

/-! ## Left blocks -/

theorem leftBlock_swapRows (g : Grid m (n + k) α) (i i' : Fin m) :
    (g.swapRows i i').leftBlock = g.leftBlock.swapRows i i' := by
  apply ext_entry
  intro r j
  simp only [entry_leftBlock, entry_swapRows]

theorem leftBlock_scaleRow [Mul α] (g : Grid m (n + k) α) (i : Fin m) (factor : α) :
    (g.scaleRow i factor).leftBlock = g.leftBlock.scaleRow i factor := by
  apply ext_entry
  intro r j
  simp only [entry_leftBlock, entry_scaleRow]

variable {K : Type u} [Field K]

theorem leftBlock_subtractRows (g : Grid m (n + k) K) (i : Fin m) (c : Fin m → K) :
    (g.subtractRows i c).leftBlock = g.leftBlock.subtractRows i c := by
  apply ext_entry
  intro r j
  simp only [entry_leftBlock, entry_subtractRows]

/-! ## Row operations -/

/-- An exchange of two rows turns the sign. -/
theorem leibniz_swapRows (g : Grid n n K) {i i' : Fin n} (h : i ≠ i') :
    (g.swapRows i i').leibniz = -g.leibniz := by
  have hmatrix : (g.swapRows i i').toMatrix = g.toMatrix.submatrix (Equiv.swap i i') id := by
    ext r j
    show (g.swapRows i i').entry r j = g.entry (Equiv.swap i i' r) j
    rw [entry_swapRows, Equiv.swap_apply_def]
    split_ifs <;> rfl
  rw [leibniz_eq_det, leibniz_eq_det, hmatrix, Matrix.det_permute, Equiv.Perm.sign_swap h]
  simp

/-- A factor of one row is a factor of the determinant. -/
theorem leibniz_scaleRow (g : Grid n n K) (i : Fin n) (factor : K) :
    (g.scaleRow i factor).leibniz = g.leibniz * factor := by
  have hmatrix : (g.scaleRow i factor).toMatrix =
      g.toMatrix.updateRow i (factor • g.toMatrix i) := by
    ext r j
    rw [Matrix.updateRow_apply, toMatrix_apply, row_scaleRow]
    by_cases h : r = i
    · rw [if_pos h.symm, if_pos h]
      rfl
    · rw [if_neg (Ne.symm h), if_neg h, toMatrix_apply]
  rw [leibniz_eq_det, leibniz_eq_det, hmatrix, Matrix.det_updateRow_smul, Matrix.updateRow_eq_self,
    mul_comm]

/-- Multiples of one row, subtracted from the others, change nothing. -/
theorem leibniz_subtractRows (g : Grid n n K) {i : Fin n} {c : Fin n → K} (h : c i = 0) :
    (g.subtractRows i c).leibniz = g.leibniz := by
  rw [leibniz_eq_det, leibniz_eq_det]
  refine Matrix.det_eq_of_forall_row_eq_smul_add_const (fun r => -c r) i ?_ fun r j => ?_
  · rw [h, neg_zero]
  · show (g.subtractRows i c).entry r j = g.entry r j + -c r * g.entry i j
    rw [entry_subtractRows, neg_mul, sub_eq_add_neg]

/-! ## A column without a pivot -/

/-- **No pivot left.** If the first `i` columns are zero below the diagonal and column `i` is zero
from row `i` on, then the left block is singular. -/
theorem Triangular.singular_of_column_zero {g : Grid n (n + k) K} {i : Fin n} (h : g.Triangular i)
    (zero : ∀ r, i ≤ r → g.entry r (i.castAdd k) = 0) : g.leftBlock.Singular := by
  refine Finset.sum_eq_zero fun σ _ => ?_
  -- a permutation cannot take the columns up to `i` to rows above `i` only
  obtain ⟨c, hc, hrow⟩ : ∃ c, c ≤ i ∧ i ≤ σ c := by
    by_contra! hall
    have hcard := Finset.card_le_card_of_injOn σ
      (fun c hc => Finset.mem_coe.mpr (Finset.mem_Iio.mpr (hall c (Finset.mem_Iic.mp hc))))
      (σ.injective.injOn (s := (Finset.Iic i : Set (Fin n))))
    rw [Fin.card_Iic, Fin.card_Iio] at hcard
    omega
  have hentry : g.leftBlock.entry (σ c) c = 0 := by
    rw [entry_leftBlock]
    rcases hc.lt_or_eq with hlt | rfl
    · exact h.below (σ c) c hlt (hlt.trans_le hrow)
    · exact zero (σ c) hrow
  have hprod : ∏ i, g.leftBlock.entry (σ i) i = 0 :=
    Finset.prod_eq_zero (Finset.mem_univ c) hentry
  rw [hprod, mul_zero]

/-! ## Whole numbers -/

/-- The determinant of whole numbers is a whole number. -/
theorem leibniz_map_cast (g : Grid n n Int) :
    (g.map (Int.cast : Int → K)).leibniz = ((g.leibniz : Int) : K) := by
  unfold leibniz
  rw [Int.cast_sum]
  refine Finset.sum_congr rfl fun σ _ => ?_
  rw [Int.cast_mul, Int.cast_prod, Int.cast_id]
  simp only [entry_map]

end Grid

end Chalkboard
