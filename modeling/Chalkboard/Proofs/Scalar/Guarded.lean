import Chalkboard.Proofs.Scalar.Exact

/-!
# Guarded numbers

Over a field a quotient by zero is a number like any other, so a result does not show whether one
was formed. `Guarded K` shows it: there a quotient by zero is `failed`, and so is everything
computed from it. No test holds of a failure. In particular it is not equal to zero, so a row
operation whose factor failed is not left out, and the failure stands in the record.
-/

namespace Chalkboard

universe u

/-- A number, or what a division by zero leaves behind. -/
inductive Guarded (K : Type u) where
  | num (x : K)
  /-- The trace of a division by zero. -/
  | failed

namespace Guarded

variable {K : Type u}

/-- An operation on two numbers; a failure stays one. -/
def lift (op : K → K → K) : Guarded K → Guarded K → Guarded K
  | num x, num y => num (op x y)
  | _, _ => failed

/-- A test on two numbers, which no failure passes. -/
def test (p : K → K → Bool) : Guarded K → Guarded K → Bool
  | num x, num y => p x y
  | _, _ => false

/-- An operation on one number. -/
def map (op : K → K) : Guarded K → Guarded K
  | num x => num (op x)
  | failed => failed

variable [Field K] [LinearOrder K]

/-- The quotient of two numbers, if the second is not zero. -/
def divide : Guarded K → Guarded K → Guarded K
  | num x, num y => if y = 0 then failed else num (x / y)
  | _, _ => failed

instance : Scalar (Guarded K) where
  add := lift (· + ·)
  sub := lift (· - ·)
  mul := lift (· * ·)
  div := divide
  neg := map Neg.neg
  zero := num 0
  one := num 1
  abs := map Scalar.abs
  lt := test Scalar.lt
  eq := test Scalar.eq
  ofInt z := num (Scalar.ofInt z)

/-! ## Numbers among numbers -/

theorem num_sub (x y : K) : (num (x - y) : Guarded K) = num x - num y := rfl

/-- **A division by zero fails**, and any other is that of numbers. -/
theorem num_div {x y : K} (h : y ≠ 0) : (num (x / y) : Guarded K) = num x / num y :=
  (if_neg h).symm

theorem negligible_num (epsilon v : K) :
    Scalar.negligible (num epsilon : Guarded K) (num v) = Scalar.negligible epsilon v := rfl

theorem sum_num (xs : List K) : Scalar.sum (xs.map num) = (num (Scalar.sum xs) : Guarded K) := by
  show (xs.map num).foldl (· + ·) (num (-0)) = num (xs.foldl (· + ·) (-0))
  rw [List.foldl_map]
  exact List.foldl_hom num fun _ _ => rfl

end Guarded

end Chalkboard
