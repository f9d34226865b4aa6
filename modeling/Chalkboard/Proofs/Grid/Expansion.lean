import Chalkboard.Proofs.Grid.Matrix

/-!
# Laws of the determinant

Cofactor expansion singles out the top row, and the sizes up to two have formulas of their own. Read
over a commutative ring the result shows neither: every size from one on is expanded by its top row,
two equal rows or columns make the determinant zero wherever they stand, and a product has the
product of the determinants.

* `Grid.leibniz_eq_zero_of_rows`, `Grid.leibniz_eq_zero_of_columns` — the alternating law, for rows
  that an expansion never touches as well.
* `Grid.expansion_is_leibniz` — all these laws, of the determinant as it is computed.
-/

namespace Chalkboard

universe u

namespace Grid

variable {n : Nat} {R : Type u} [CommRing R]

/-- Two equal rows make the determinant zero. -/
theorem leibniz_eq_zero_of_rows {g : Grid n n R} {i i' : Fin n} (ne : i ≠ i')
    (same : ∀ j, g.entry i j = g.entry i' j) : g.leibniz = 0 := by
  rw [leibniz_eq_det]
  exact Matrix.det_zero_of_row_eq ne (funext same)

/-- Two equal columns make the determinant zero. -/
theorem leibniz_eq_zero_of_columns {g : Grid n n R} {j j' : Fin n} (ne : j ≠ j')
    (same : ∀ i, g.entry i j = g.entry i j') : g.leibniz = 0 := by
  rw [leibniz_eq_det]
  exact Matrix.det_zero_of_column_eq ne same

section OfRing

variable (div : R → R → R) (abs : R → R) (lt eq : R → R → Bool) (ofInt : Int → R)

/-- **Cofactor expansion is the determinant.** Over every commutative ring and at every size it is
the signed sum over all permutations. From size one on it is the expansion along the top row, so the
formulas for sizes one and two agree with it. It is zero where two rows or two columns are equal, and
takes products to products. -/
theorem expansion_is_leibniz :
    (∀ g : Grid n n R, @det R (.ofRing div abs lt eq ofInt) n g = g.leibniz) ∧
      (∀ g : Grid (n + 1) (n + 1) R, @det R (.ofRing div abs lt eq ofInt) (n + 1) g =
        @Scalar.sum R (.ofRing div abs lt eq ofInt)
          ((@cofactors R (.ofRing div abs lt eq ofInt) (n + 1) g).map CofactorTerm.value)) ∧
      (∀ (g : Grid n n R) (i i' : Fin n), i ≠ i' →
        (∀ j, g.entry i j = g.entry i' j) ∨ (∀ j, g.entry j i = g.entry j i') →
          @det R (.ofRing div abs lt eq ofInt) n g = 0) ∧
      ∀ g h : Grid n n R,
        @det R (.ofRing div abs lt eq ofInt) n (@mul n n n R (.ofRing div abs lt eq ofInt) g h) =
          @det R (.ofRing div abs lt eq ofInt) n g * @det R (.ofRing div abs lt eq ofInt) n h := by
  have computed {k : Nat} (g : Grid k k R) :
      @det R (.ofRing div abs lt eq ofInt) k g = g.leibniz := det_ofRing div abs lt eq ofInt g
  refine ⟨fun g => computed g, fun g => ?_, fun g i i' ne same => ?_, fun g h => ?_⟩
  · rw [computed]
    exact (sum_cofactors_ofRing div abs lt eq ofInt g computed).symm
  · rw [computed]
    rcases same with rows | columns
    · exact leibniz_eq_zero_of_rows ne rows
    · exact leibniz_eq_zero_of_columns ne columns
  · rw [computed, computed, computed]
    exact leibniz_mul_ofRing div abs lt eq ofInt g h

end OfRing

/-- A grid whose second and last rows are equal; the first expansion is along neither of them. -/
def twoRowsEqual : Grid 4 4 ℤ :=
  ⟨#v[#v[3, 1, 4, 1], #v[5, 9, 2, 6], #v[5, 3, 5, 8], #v[5, 9, 2, 6]]⟩

theorem expansion_is_leibniz_sample :
    (1 : Fin 4) ≠ 3 ∧ (∀ j, twoRowsEqual.entry 1 j = twoRowsEqual.entry 3 j) ∧
      @det ℤ (.ofRing (· / ·) (fun x => |x|) (fun x y => decide (x < y))
        (fun x y => decide (x = y)) id) 4 twoRowsEqual = 0 := by
  have ne : (1 : Fin 4) ≠ 3 := by decide
  have same : ∀ j, twoRowsEqual.entry 1 j = twoRowsEqual.entry 3 j := by decide
  obtain ⟨-, -, equal, -⟩ := expansion_is_leibniz.{0} (n := 4) (R := ℤ) (· / ·) (fun x => |x|)
    (fun x y => decide (x < y)) (fun x y => decide (x = y)) id
  exact ⟨ne, same, equal twoRowsEqual 1 3 ne (.inl same)⟩

end Grid

end Chalkboard
