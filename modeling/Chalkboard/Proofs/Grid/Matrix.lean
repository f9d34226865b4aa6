import Mathlib.LinearAlgebra.Matrix.Determinant.Basic
import Mathlib.LinearAlgebra.Matrix.ToLinearEquiv
import Chalkboard.Proofs.Scalar.Exact
import Chalkboard.Grid.Determinant

/-!
# Grids as matrices

A grid over a field is a matrix in the sense of Mathlib, and the library's products and determinants
are the ones known there. `Grid.leibniz` is the determinant written out: a signed sum over all
permutations.

* `Grid.det_ofRing` — cofactor expansion gives the Leibniz determinant, at every size and over every
  commutative ring.
* `Grid.toMatrix_mul_ofRing` — over such a ring the product of two grids is that of their matrices.
* `Grid.mulVec_eq_iff` — a product of a grid and a column, equation by equation.
-/

namespace Chalkboard

universe u

open scoped BigOperators Matrix

/-! ## Columns of numbers -/

section Columns

variable {α : Type u} {n : Nat}

/-- Columns with equal entries are equal. -/
theorem ext_get {x y : Vector α n} (h : ∀ i, x.get i = y.get i) : x = y :=
  Vector.ext fun i hi => h ⟨i, hi⟩

@[simp] theorem get_ofFn (f : Fin n → α) (i : Fin n) : (Vector.ofFn f).get i = f i :=
  Vector.getElem_ofFn i.isLt

@[simp] theorem get_setAt (x : Vector α n) (i j : Fin n) (v : α) :
    (setAt x i v).get j = if i = j then v else x.get j := by
  show (setAt x i v)[(j : Nat)] = _
  rw [getElem_setAt]
  simp only [Fin.ext_iff]
  rfl

theorem map_get_finRange (x : Vector α n) : (List.finRange n).map x.get = x.toList := by
  rw [← List.ofFn_eq_map, ← Vector.toList_ofFn]
  exact congrArg Vector.toList Vector.ofFn_getElem

theorem Grid.toRows_eq_map_row {m : Nat} (g : Grid m n α) :
    g.toRows = (List.finRange m).map fun i => (g.row i).toList := by
  rw [Grid.toRows, ← map_get_finRange, List.map_map]
  rfl

theorem Grid.get_lastColumn {m : Nat} (g : Grid m (n + 1) α) (i : Fin m) :
    g.lastColumn.get i = g.entry i (Fin.last n) :=
  g.getElem_lastColumn i i.isLt

end Columns

/-- `-1` or `1`, by the parity of the column, is a power of `-1`. -/
theorem cofactorSign_ofRing {R : Type u} [CommRing R] (div : R → R → R) (abs : R → R)
    (lt eq : R → R → Bool) (ofInt : Int → R) (j : Nat) :
    @Grid.cofactorSign R (.ofRing div abs lt eq ofInt) j = (-1) ^ j := by
  show (if j % 2 = 0 then (1 : R) else -1) = (-1) ^ j
  rw [neg_one_pow_eq_pow_mod_two]
  rcases Nat.mod_two_eq_zero_or_one j with h | h
  · rw [if_pos h, h, pow_zero]
  · rw [if_neg (by omega), h, pow_one]

theorem skip_eq_succAbove {n : Nat} (p : Fin (n + 1)) (i : Fin n) : skip p i = p.succAbove i :=
  rfl

namespace Grid

variable {m n k : Nat} {α : Type u}

/-- The entries as a matrix. -/
def toMatrix (g : Grid m n α) : Matrix (Fin m) (Fin n) α :=
  Matrix.of g.entry

@[simp] theorem toMatrix_apply (g : Grid m n α) (i : Fin m) (j : Fin n) :
    g.toMatrix i j = g.entry i j :=
  rfl

/-- Grids are equal if they are as matrices. -/
theorem toMatrix_injective : Function.Injective (toMatrix : Grid m n α → Matrix _ _ α) :=
  fun _ _ h => ext_entry fun i j => congrFun (congrFun h i) j

theorem toMatrix_minor (g : Grid (m + 1) (n + 1) α) (i : Fin (m + 1)) (j : Fin (n + 1)) :
    (g.minor i j).toMatrix = g.toMatrix.submatrix i.succAbove j.succAbove := by
  ext i' j'
  rw [toMatrix_apply, entry_minor, skip_eq_succAbove, skip_eq_succAbove]
  rfl

theorem toMatrix_replaceColumn (g : Grid m n α) (j : Fin n) (b : Vector α m) :
    (g.replaceColumn j b).toMatrix = g.toMatrix.updateCol j b.get := by
  ext i j'
  rw [toMatrix_apply, entry_replaceColumn, Matrix.updateCol_apply]
  rfl

/-! ## Determinants -/

section Ring

variable {R : Type u} [CommRing R]

/-- **The determinant as Leibniz wrote it** — over all permutations of the rows, the products of
one entry from each column, with the sign of the permutation. -/
def leibniz (g : Grid n n R) : R :=
  ∑ σ : Equiv.Perm (Fin n), ((Equiv.Perm.sign σ : ℤ) : R) * ∏ i, g.entry (σ i) i

theorem leibniz_eq_det (g : Grid n n R) : g.leibniz = g.toMatrix.det :=
  (Matrix.det_apply' g.toMatrix).symm

/-- Expansion along the top row. -/
theorem leibniz_succ (g : Grid (n + 1) (n + 1) R) :
    g.leibniz = ∑ j : Fin (n + 1), (-1) ^ (j : Nat) * g.entry 0 j * (g.minor 0 j).leibniz := by
  rw [leibniz_eq_det, Matrix.det_succ_row_zero]
  refine Finset.sum_congr rfl fun j _ => ?_
  rw [leibniz_eq_det, toMatrix_minor, Fin.succAbove_zero, toMatrix_apply]

section OfRing

variable (div : R → R → R) (abs : R → R) (lt eq : R → R → Bool) (ofInt : Int → R)

/-- The terms of an expansion add up to the Leibniz determinant as soon as those of the next smaller
size do. -/
theorem sum_cofactors_ofRing (g : Grid (n + 1) (n + 1) R)
    (minors : ∀ h : Grid n n R, @det R (.ofRing div abs lt eq ofInt) n h = h.leibniz) :
    @Scalar.sum R (.ofRing div abs lt eq ofInt)
      ((@cofactors R (.ofRing div abs lt eq ofInt) (n + 1) g).map CofactorTerm.value) =
        g.leibniz := by
  let := Scalar.ofRing div abs lt eq ofInt
  have terms (j : Fin (n + 1)) : cofactorSign (j : Nat) * g.entry 0 j * det (g.minor 0 j) =
      (-1) ^ (j : Nat) * g.entry 0 j * (g.minor 0 j).leibniz := by
    rw [cofactorSign_ofRing, minors]
  calc Scalar.sum (g.cofactors.map CofactorTerm.value)
      = ((List.finRange (n + 1)).map fun (j : Fin (n + 1)) =>
          (-1) ^ (j : Nat) * g.entry 0 j * (g.minor 0 j).leibniz).sum := by
        rw [Scalar.sum_ofRing, cofactors, List.map_map]
        exact congrArg List.sum (List.map_congr_left fun j _ => terms j)
    _ = ∑ j : Fin (n + 1), (-1) ^ (j : Nat) * g.entry 0 j * (g.minor 0 j).leibniz :=
        (Fin.sum_univ_def _).symm
    _ = g.leibniz := g.leibniz_succ.symm

/-- **Cofactor expansion is the Leibniz determinant.** The formulas for the sizes up to two and the
expansion along the top row from size three on agree with it, whatever the size. -/
theorem det_ofRing : ∀ {n : Nat} (g : Grid n n R),
    @det R (.ofRing div abs lt eq ofInt) n g = g.leibniz
  | 0, g => by
    rw [leibniz_eq_det, Matrix.det_fin_zero]
    rfl
  | 1, g => by
    rw [leibniz_eq_det, Matrix.det_fin_one]
    rfl
  | 2, g => by
    rw [leibniz_eq_det, Matrix.det_fin_two]
    rfl
  | _ + 3, g => by
    let := Scalar.ofRing div abs lt eq ofInt
    rw [det_eq_sum_cofactors]
    exact sum_cofactors_ofRing div abs lt eq ofInt g fun h => det_ofRing h

theorem entry_mul_ofRing (g : Grid m n R) (h : Grid n k R) (i : Fin m) (j : Fin k) :
    (@mul m n k R (.ofRing div abs lt eq ofInt) g h).entry i j =
      ∑ l, g.entry i l * h.entry l j := by
  let := Scalar.ofRing div abs lt eq ofInt
  rw [mul, entry_ofFn, Scalar.dot_zip_ofRing]
  refine Finset.sum_congr rfl fun l _ => ?_
  congr 1
  exact getElem_column h j l l.isLt

/-- The product of two grids is the product of their matrices. -/
theorem toMatrix_mul_ofRing (g : Grid m n R) (h : Grid n k R) :
    (@mul m n k R (.ofRing div abs lt eq ofInt) g h).toMatrix = g.toMatrix * h.toMatrix := by
  ext i j
  rw [toMatrix_apply, entry_mul_ofRing, Matrix.mul_apply]
  rfl

/-- The determinant of a product of two grids. -/
theorem leibniz_mul_ofRing (g h : Grid n n R) :
    (@mul n n n R (.ofRing div abs lt eq ofInt) g h).leibniz = g.leibniz * h.leibniz := by
  rw [leibniz_eq_det, toMatrix_mul_ofRing, Matrix.det_mul, ← leibniz_eq_det, ← leibniz_eq_det]

end OfRing

end Ring

/-! ## Products -/

section Field

variable {K : Type u} [Field K] [LinearOrder K]

theorem det_eq_leibniz (g : Grid n n K) : g.det = g.leibniz :=
  det_ofRing _ _ _ _ _ g

theorem get_mulVec (g : Grid m n K) (x : Vector K n) (i : Fin m) :
    (g.mulVec x).get i = ∑ j, g.entry i j * x.get j := by
  rw [mulVec, get_ofFn, Scalar.dot_zip]
  rfl

/-- A product with a column of numbers, equation by equation. -/
theorem mulVec_eq_iff {g : Grid m n K} {x : Vector K n} {b : Vector K m} :
    g.mulVec x = b ↔ ∀ i, ∑ j, g.entry i j * x.get j = b.get i := by
  constructor
  · rintro rfl i
    rw [get_mulVec]
  · intro h
    apply ext_get
    intro i
    rw [get_mulVec, h i]

/-- The same as a product of matrices. -/
theorem mulVec_eq_iff_matrix {g : Grid m n K} {x : Vector K n} {b : Vector K m} :
    g.mulVec x = b ↔ g.toMatrix *ᵥ x.get = b.get := by
  rw [mulVec_eq_iff]
  exact ⟨fun h => funext h, fun h i => congrFun h i⟩

theorem entry_mul (g : Grid m n K) (h : Grid n k K) (i : Fin m) (j : Fin k) :
    (g.mul h).entry i j = ∑ l, g.entry i l * h.entry l j :=
  entry_mul_ofRing _ _ _ _ _ g h i j

theorem toMatrix_mul (g : Grid m n K) (h : Grid n k K) :
    (g.mul h).toMatrix = g.toMatrix * h.toMatrix :=
  toMatrix_mul_ofRing _ _ _ _ _ g h

theorem leibniz_mul (g h : Grid n n K) : (g.mul h).leibniz = g.leibniz * h.leibniz :=
  leibniz_mul_ofRing _ _ _ _ _ g h

/-- A product with two grids, one after the other. -/
theorem mul_mulVec (g : Grid m n K) (h : Grid n k K) (x : Vector K k) :
    (g.mul h).mulVec x = g.mulVec (h.mulVec x) := by
  have hinner : (h.mulVec x).get = h.toMatrix *ᵥ x.get := (mulVec_eq_iff_matrix.mp rfl).symm
  have houter : (g.mulVec (h.mulVec x)).get = g.toMatrix *ᵥ (h.mulVec x).get :=
    (mulVec_eq_iff_matrix.mp rfl).symm
  rw [mulVec_eq_iff_matrix, houter, hinner, toMatrix_mul, Matrix.mulVec_mulVec]

theorem entry_identity (i j : Fin n) :
    (identity n : Grid n n K).entry i j = if i = j then 1 else 0 := by
  rw [identity, entry_ofFn]

theorem toMatrix_identity : (identity n : Grid n n K).toMatrix = 1 := by
  ext i j
  rw [toMatrix_apply, entry_identity, Matrix.one_apply]

theorem leibniz_identity : (identity n : Grid n n K).leibniz = 1 := by
  rw [leibniz_eq_det, toMatrix_identity, Matrix.det_one]

end Field

end Grid

end Chalkboard
