/-!
# Scalars

Elimination, expansion and substitution are written once, over any type with the four
operations, a magnitude and two tests. Nothing here is a law: the binary64 numbers that the
program computes with satisfy almost none, and an ordered field satisfies all of them.

* `Scalar α` — the operations.
* `Scalar.sum` — a sum from left to right, started from `-0`, the neutral element of binary64
  addition: an empty sum is `-0` and a sum of negative zeros stays negative.
* `Scalar.negligible` — the singularity test that every method shares.
-/

namespace Chalkboard

universe u

/-- Numbers that a method computes with. -/
class Scalar (α : Type u) extends Add α, Sub α, Mul α, Div α, Neg α, Zero α, One α where
  abs : α → α
  /-- Strict order test; false as soon as one side is not a number. -/
  lt : α → α → Bool
  /-- Numeric equality test; `0` and `-0` are equal, and what is not a number equals nothing. -/
  eq : α → α → Bool
  /-- A small whole number. -/
  ofInt : Int → α

instance : Scalar Float where
  zero := 0.0
  one := 1.0
  abs := Float.abs
  lt x y := decide (x < y)
  eq x y := x == y
  ofInt := Float.ofInt

namespace Scalar

variable {α : Type u} [Scalar α]

/-- The sum of a list from left to right. -/
def sum (xs : List α) : α :=
  xs.foldl (· + ·) (-0)

/-- The sum of products of a list of pairs from left to right, started from `0`. -/
def dot (ps : List (α × α)) : α :=
  ps.foldl (fun acc p => acc + p.1 * p.2) 0

/-- Whether `v` counts as zero under the tolerance `epsilon`. -/
def negligible (epsilon v : α) : Bool :=
  lt (abs v) epsilon

@[simp] theorem sum_nil : sum ([] : List α) = -0 := rfl

@[simp] theorem dot_nil : dot ([] : List (α × α)) = 0 := rfl

end Scalar

end Chalkboard
