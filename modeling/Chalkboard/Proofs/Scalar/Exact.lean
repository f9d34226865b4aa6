import Mathlib.Algebra.BigOperators.Fin
import Mathlib.Algebra.Order.Field.Basic
import Mathlib.Algebra.Order.Group.Abs
import Chalkboard.Scalar

/-!
# Exact scalars

The methods run over any type with the operations of `Scalar`. Here these are the operations of a
ring or of an ordered field, so that sums may be reordered and quotients multiplied out.

* `Scalar.ofRing` — a commutative ring, beside any division, magnitude and tests. Determinants need
  no more than this.
* `Scalar.exact` — an ordered field. A quotient by zero is zero, as Mathlib has it; that no method
  divides by zero is a theorem of its own.
-/

namespace Chalkboard

universe u

open scoped BigOperators

namespace Scalar

/-- The operations of a commutative ring, beside any division, magnitude and tests. -/
@[reducible] def ofRing {R : Type u} [CommRing R] (div : R → R → R) (abs : R → R)
    (lt eq : R → R → Bool) (ofInt : Int → R) : Scalar R where
  div := div
  abs := abs
  lt := lt
  eq := eq
  ofInt := ofInt

/-- The operations of an ordered field. -/
instance exact {K : Type u} [Field K] [LinearOrder K] : Scalar K :=
  ofRing (fun x y => x / y) (fun x => |x|) (fun x y => decide (x < y)) (fun x y => decide (x = y))
    Int.cast

/-! ## Sums -/

section Ring

variable {R : Type u} [CommRing R] (div : R → R → R) (abs : R → R) (lt eq : R → R → Bool)
  (ofInt : Int → R)

/-- The negative zero that a sum starts from is no obstacle. -/
theorem sum_ofRing (xs : List R) : @sum R (ofRing div abs lt eq ofInt) xs = xs.sum := by
  rw [List.sum_eq_foldl]
  show xs.foldl (· + ·) (-0) = xs.foldl (· + ·) 0
  rw [neg_zero]

theorem dot_ofRing (ps : List (R × R)) :
    @dot R (ofRing div abs lt eq ofInt) ps = (ps.map fun p => p.1 * p.2).sum := by
  rw [List.sum_eq_foldl, List.foldl_map]
  rfl

/-- The product sum of two columns. -/
theorem dot_zip_ofRing {n : Nat} (x y : Vector R n) :
    @dot R (ofRing div abs lt eq ofInt) (x.toList.zip y.toList) = ∑ j, x.get j * y.get j := by
  rw [dot_ofRing, ← List.sum_ofFn]
  congr 1
  apply List.ext_getElem
  · simp
  · intro i _ _
    simp [Vector.get]

end Ring

variable {K : Type u} [Field K] [LinearOrder K] {n : Nat}

/-- **A sum over the indices with a property**, in the order of the indices. -/
theorem sum_finRange_filter (p : Fin n → Prop) [DecidablePred p] (f : Fin n → K) :
    sum (((List.finRange n).filter (p ·)).map f) = ∑ i with p i, f i := by
  have nodup : ((List.finRange n).filter (p ·)).Nodup := (List.nodup_finRange n).filter _
  rw [exact, sum_ofRing, ← List.sum_toFinset f nodup]
  congr 1
  ext i
  simp

theorem dot_zip (x y : Vector K n) : dot (x.toList.zip y.toList) = ∑ j, x.get j * y.get j :=
  dot_zip_ofRing _ _ _ _ _ x y

/-- A sum that begins at its `i`-th term. -/
theorem sum_eq_add_above {f : Fin n → K} (i : Fin n) (below : ∀ j, j < i → f j = 0) :
    ∑ j, f j = f i + ∑ j with i < j, f j := by
  rw [← Finset.sum_filter_add_sum_filter_not Finset.univ (i < ·) f, add_comm]
  congr 1
  rw [Finset.sum_eq_single i]
  · intro j hj hne
    have hle : j ≤ i := by simpa using hj
    exact below j (lt_of_le_of_ne hle hne)
  · intro h
    exact absurd (by simp) h

/-- A sum that ends with its `i`-th term. -/
theorem sum_eq_add_below {f : Fin n → K} (i : Fin n) (above : ∀ j, i < j → f j = 0) :
    ∑ j, f j = f i + ∑ j with j < i, f j := by
  rw [← Finset.sum_filter_add_sum_filter_not Finset.univ (· < i) f, add_comm]
  congr 1
  rw [Finset.sum_eq_single i]
  · intro j hj hne
    have hle : i ≤ j := by simpa using hj
    exact above j (lt_of_le_of_ne hle hne.symm)
  · intro h
    exact absurd (by simp) h

/-! ## Tests -/

theorem negligible_iff {epsilon v : K} : negligible epsilon v = true ↔ |v| < epsilon :=
  decide_eq_true_iff

theorem not_negligible_iff {epsilon v : K} : negligible epsilon v = false ↔ epsilon ≤ |v| := by
  rw [← Bool.not_eq_true, negligible_iff, not_lt]

theorem eq_iff {x y : K} : eq x y = true ↔ x = y :=
  decide_eq_true_iff

variable [IsStrictOrderedRing K]

/-- What is not negligible under a positive tolerance is not zero. -/
theorem ne_zero_of_not_negligible {epsilon v : K} (pos : 0 < epsilon)
    (h : negligible epsilon v = false) : v ≠ 0 :=
  abs_pos.mp (pos.trans_le (not_negligible_iff.mp h))

end Scalar

end Chalkboard
