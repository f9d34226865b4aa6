import Mathlib.LinearAlgebra.Matrix.Block
import Chalkboard.Proofs.System.Solution

/-!
# Triangular grids and unit columns

The shapes that elimination works towards. `Grid.Triangular g i` and `Grid.UnitColumns g i` speak of
the first `i` columns of a grid with right sides beside it, as they are when these columns are done;
each is kept by the exchange of rows still to be used and extended by one column when that column is
cleared. With all columns done the left block is upper triangular and not singular, or the identity.
-/

namespace Chalkboard

universe u

open scoped BigOperators Matrix

namespace Grid

variable {n k : Nat} {K : Type u} [Field K]

/-! ## Square grids -/

/-- **`g.Upper`** — all entries below the diagonal are zero. -/
def Upper (g : Grid n n K) : Prop :=
  ∀ r c, c < r → g.entry r c = 0

/-- **`g.UnitLower`** — ones on the diagonal and zeros above it. -/
structure UnitLower (g : Grid n n K) : Prop where
  diagonal : ∀ i, g.entry i i = 1
  above : ∀ r c, r < c → g.entry r c = 0

theorem Upper.leibniz {g : Grid n n K} (h : g.Upper) : g.leibniz = ∏ i, g.entry i i := by
  have hU : g.toMatrix.IsUpperTriangular := fun r c hrc => h r c hrc
  rw [leibniz_eq_det, Matrix.det_of_isUpperTriangular hU]
  rfl

theorem UnitLower.leibniz {g : Grid n n K} (h : g.UnitLower) : g.leibniz = 1 := by
  have hL : g.toMatrix.IsLowerTriangular := fun r c hrc => h.above r c hrc
  rw [leibniz_eq_det, Matrix.det_of_isLowerTriangular _ hL]
  exact Finset.prod_eq_one fun i _ => h.diagonal i

theorem Upper.not_singular {g : Grid n n K} (h : g.Upper) (diagonal : ∀ i, g.entry i i ≠ 0) :
    ¬ g.Singular := by
  rw [Singular, h.leibniz]
  exact Finset.prod_ne_zero_iff.mpr fun i _ => diagonal i

/-! ## Columns that are cleared below the diagonal -/

/-- **`g.Triangular i`** — the first `i` columns are zero below the diagonal and not on it. -/
structure Triangular (g : Grid n (n + k) K) (i : Nat) : Prop where
  below : ∀ r c : Fin n, (c : Nat) < i → c < r → g.entry r (c.castAdd k) = 0
  pivot : ∀ c : Fin n, (c : Nat) < i → g.entry c (c.castAdd k) ≠ 0

/-- Rows behind the finished columns may be exchanged. -/
theorem Triangular.swapRows {g : Grid n (n + k) K} {i r : Fin n} (h : g.Triangular i)
    (hr : i ≤ r) : (g.swapRows i r).Triangular i := by
  refine ⟨fun r' c hc hlt => ?_, fun c hc => ?_⟩
  · rw [entry_swapRows]
    split_ifs
    · exact h.below r c hc (lt_of_lt_of_le hc hr)
    · exact h.below i c hc hc
    · exact h.below r' c hc hlt
  · have hci : c < i := hc
    rw [entry_swapRows, if_neg hci.ne, if_neg (hci.trans_le hr).ne]
    exact h.pivot c hc

/-- The multiples of row `i` that clear column `i` below it. -/
def factorsBelow (g : Grid n (n + k) K) (i r : Fin n) : K :=
  if i < r then g.entry r (i.castAdd k) / g.entry i (i.castAdd k) else 0

theorem factorsBelow_of_le {g : Grid n (n + k) K} {i r : Fin n} (h : r ≤ i) :
    g.factorsBelow i r = 0 :=
  if_neg (not_lt.mpr h)

/-- Clearing column `i` finishes it and leaves those before it alone: row `i` is zero there. -/
theorem Triangular.subtractRows {g : Grid n (n + k) K} {i : Fin n} (h : g.Triangular i)
    (hp : g.entry i (i.castAdd k) ≠ 0) :
    (g.subtractRows i (g.factorsBelow i)).Triangular (i + 1) := by
  refine ⟨fun r c hc hlt => ?_, fun c hc => ?_⟩
  · rw [entry_subtractRows]
    -- an earlier column is zero in both rows; column `i` is what the factor is chosen for
    rcases Nat.lt_succ_iff_lt_or_eq.mp hc with hci | hci
    · rw [h.below r c hci hlt, h.below i c hci hci, mul_zero, sub_zero]
    · obtain rfl : c = i := Fin.ext hci
      rw [factorsBelow, if_pos hlt, div_mul_cancel₀ _ hp, sub_self]
  · have hci : c ≤ i := Nat.le_of_lt_succ hc
    rw [entry_subtractRows, factorsBelow_of_le hci, zero_mul, sub_zero]
    rcases hci.lt_or_eq with hlt | rfl
    · exact h.pivot c hlt
    · exact hp

theorem triangular_zero (g : Grid n (n + k) K) : g.Triangular 0 :=
  ⟨fun _ _ hc => absurd hc (Nat.not_lt_zero _), fun _ hc => absurd hc (Nat.not_lt_zero _)⟩

/-- With all columns done the left block is upper triangular. -/
theorem Triangular.upper {g : Grid n (n + k) K} (h : g.Triangular n) : g.leftBlock.Upper := by
  intro r c hrc
  rw [entry_leftBlock]
  exact h.below r c c.isLt hrc

theorem Triangular.diagonal {g : Grid n (n + k) K} (h : g.Triangular n) (i : Fin n) :
    g.leftBlock.entry i i ≠ 0 := by
  rw [entry_leftBlock]
  exact h.pivot i i.isLt

/-! ## Unit columns -/

/-- **`g.UnitColumns i`** — the first `i` columns are those of the identity. -/
def UnitColumns (g : Grid n (n + k) K) (i : Nat) : Prop :=
  ∀ r c : Fin n, (c : Nat) < i → g.entry r (c.castAdd k) = if r = c then 1 else 0

/-- Rows behind the finished columns may be exchanged: both are zero there. -/
theorem UnitColumns.swapRows {g : Grid n (n + k) K} {i r : Fin n} (h : g.UnitColumns i)
    (hr : i ≤ r) : (g.swapRows i r).UnitColumns i := by
  intro r' c hc
  have hci : c < i := hc
  have hi : g.entry i (c.castAdd k) = 0 := by rw [h i c hc, if_neg hci.ne']
  have hr' : g.entry r (c.castAdd k) = 0 := by rw [h r c hc, if_neg (hci.trans_le hr).ne']
  -- neither of the two rows has the one of a finished column
  rw [entry_swapRows]
  split_ifs with h1 h2 h3 h4 h5
  · exact absurd (h1.symm.trans h2) hci.ne'
  · exact hr'
  · exact absurd (h3.symm.trans h4) (hci.trans_le hr).ne'
  · exact hi
  · rw [h r' c hc, if_pos h5]
  · rw [h r' c hc, if_neg h5]

/-- Row `i` may be multiplied: it is zero in the finished columns. -/
theorem UnitColumns.scaleRow {g : Grid n (n + k) K} {i : Fin n} (h : g.UnitColumns i)
    (factor : K) : (g.scaleRow i factor).UnitColumns i := by
  intro r c hc
  have hci : c < i := hc
  rw [entry_scaleRow]
  split_ifs with h1 h2 h3
  · exact absurd (h1.trans h2) hci.ne'
  · rw [h i c hc, if_neg hci.ne', zero_mul]
  · rw [h r c hc, if_pos h3]
  · rw [h r c hc, if_neg h3]

/-- The multiples of row `i` that clear column `i` in the other rows, if the pivot is `1`. -/
def factorsBeside (g : Grid n (n + k) K) (i r : Fin n) : K :=
  if r ≠ i then g.entry r (i.castAdd k) else 0

theorem factorsBeside_self (g : Grid n (n + k) K) (i : Fin n) : g.factorsBeside i i = 0 :=
  if_neg (not_not.mpr rfl)

/-- Clearing column `i` finishes it and leaves those before it alone: row `i` is zero there. -/
theorem UnitColumns.subtractRows {g : Grid n (n + k) K} {i : Fin n} (h : g.UnitColumns i)
    (hp : g.entry i (i.castAdd k) = 1) :
    (g.subtractRows i (g.factorsBeside i)).UnitColumns (i + 1) := by
  intro r c hc
  rw [entry_subtractRows]
  rcases Nat.lt_succ_iff_lt_or_eq.mp hc with hci | hci
  · have hlt : c < i := hci
    rw [h i c hci, if_neg hlt.ne', mul_zero, sub_zero, h r c hci]
  · obtain rfl : c = i := Fin.ext hci
    by_cases hr : r = c
    · rw [hr, factorsBeside_self, zero_mul, sub_zero, hp, if_pos rfl]
    · rw [factorsBeside, if_pos hr, hp, mul_one, sub_self, if_neg hr]

theorem unitColumns_zero (g : Grid n (n + k) K) : g.UnitColumns 0 :=
  fun _ _ hc => absurd hc (Nat.not_lt_zero _)

/-- With all columns done the left block is the identity. -/
theorem UnitColumns.leftBlock [LinearOrder K] {g : Grid n (n + k) K} (h : g.UnitColumns n) :
    g.leftBlock = identity n := by
  apply ext_entry
  intro r c
  rw [entry_leftBlock, entry_identity, h r c c.isLt]

end Grid

end Chalkboard
