/-!
# Binary64 numbers as whole numbers of a smallest unit

Every finite binary64 magnitude is a whole number of units of `2 ^ -1074`, the smallest positive
one. All reading and writing of decimal text goes through that whole number, in exact arithmetic:

* `Binary64.units` gives the number of units of a bit pattern without sign;
* `Binary64.nearest` goes back: it gives the pattern of the binary64 number nearest to a quotient
  of units, a half going to the even mantissa, and the pattern of infinity past the largest one.

`nearest_units` says that the two fit: a pattern is the nearest one to its own value.
-/

namespace Chalkboard

/-- Which neighbour a value takes that lies halfway between two. -/
inductive Tie where
  | up
  | even
deriving DecidableEq

/-- The whole number nearest to `num / den`. -/
def roundDiv (tie : Tie) (num den : Nat) : Nat :=
  let q := num / den
  let twice := 2 * (num % den)
  if twice < den then q
  else if den < twice then q + 1
  else match tie with
    | .up => q + 1
    | .even => q + q % 2

theorem roundDiv_one (tie : Tie) (num : Nat) : roundDiv tie num 1 = num := by
  simp [roundDiv, Nat.mod_one]

theorem roundDiv_mul_right (tie : Tie) (q : Nat) {den : Nat} (h : 0 < den) :
    roundDiv tie (q * den) den = q := by
  simp [roundDiv, Nat.mul_div_cancel _ h, h]

namespace Binary64

/-- The number of units that make `1`. -/
def one : Nat := Nat.pow 2 1074

/-- How many patterns share an exponent: two to the power of 52. -/
def binadeSize : Nat := 4503599627370496

/-- The pattern of the sign alone: two to the power of 63. -/
def signBit : Nat := 9223372036854775808

/-- The pattern of infinity; finite patterns without sign are the ones below it. -/
def infinity : Nat := 2047 * binadeSize

/-- The number of units of a finite pattern without sign. -/
def units (pattern : Nat) : Nat :=
  let exponent := pattern / binadeSize
  let fraction := pattern % binadeSize
  if exponent = 0 then fraction else (binadeSize + fraction) * Nat.pow 2 (exponent - 1)

/-- How far the last mantissa bit of a number of units lies above the unit: up to 53 bits are
kept. -/
def scale (units : Nat) : Nat :=
  units.log2 - 52

/-- The pattern without sign of the number nearest to `num / den` units. -/
def nearest (num den : Nat) : Nat :=
  let s := scale (num / den)
  min infinity (roundDiv .even num (den * Nat.pow 2 s) + s * binadeSize)

/-- What a binary64 number is, its sign apart from its magnitude. -/
inductive Value where
  | nan
  | infinite (negative : Bool)
  /-- A finite number of units. -/
  | finite (negative : Bool) (units : Nat)
deriving DecidableEq

/-- What `x` is. -/
def valueOf (x : Float) : Value :=
  let bits := x.toBits.toNat
  let negative := decide (signBit ≤ bits)
  let pattern := bits % signBit
  if pattern < infinity then .finite negative (units pattern)
  else if pattern = infinity then .infinite negative
  else .nan

/-- The number with the given sign and the given pattern. -/
def ofPattern (negative : Bool) (pattern : Nat) : Float :=
  Float.ofBits (UInt64.ofNat (pattern + if negative then signBit else 0))

/-! ## A pattern is nearest to its own value -/

private theorem log2_of_bounds {a k : Nat} (low : Nat.pow 2 k ≤ a) (high : a < Nat.pow 2 (k + 1)) :
    a.log2 = k := by
  have ne : a ≠ 0 := by
    have := Nat.two_pow_pos k
    simp only [Nat.pow_eq] at low
    omega
  have h1 : k ≤ a.log2 := (Nat.le_log2 ne).2 low
  have h2 : a.log2 < k + 1 := (Nat.log2_lt ne).2 high
  omega

theorem nearest_units {pattern : Nat} (h : pattern < infinity) :
    nearest (units pattern) 1 = pattern := by
  have span : binadeSize = Nat.pow 2 52 := by decide
  have small : pattern % binadeSize < binadeSize := Nat.mod_lt _ (by decide)
  have split := Nat.div_add_mod pattern binadeSize
  unfold infinity at h
  unfold nearest infinity units scale
  generalize binadeSize = b at *
  simp only [Nat.div_one, Nat.one_mul]
  cases exponent : pattern / b with
  | zero =>
    rw [exponent, Nat.mul_zero, Nat.zero_add] at split
    have low : pattern.log2 - 52 = 0 := by
      by_cases none : pattern = 0
      · subst none
        exact Nat.zero_sub 52
      · have := (Nat.log2_lt none).2 (show pattern < Nat.pow 2 52 by omega)
        omega
    rw [if_pos rfl, split, low, show Nat.pow 2 0 = 1 from rfl, roundDiv_one, Nat.zero_mul,
      Nat.add_zero]
    exact Nat.min_eq_right (Nat.le_of_lt h)
  | succ q =>
    rw [exponent] at split
    generalize pattern % b = fraction at *
    rw [if_neg (Nat.succ_ne_zero q), Nat.add_sub_cancel]
    have low : ((b + fraction) * Nat.pow 2 q).log2 = 52 + q := by
      apply log2_of_bounds
      · simp only [Nat.pow_eq] at span ⊢
        rw [Nat.pow_add, ← span]
        exact Nat.mul_le_mul_right _ (Nat.le_add_right _ _)
      · simp only [Nat.pow_eq] at span ⊢
        rw [Nat.add_right_comm, Nat.pow_add, Nat.pow_succ, ← span]
        exact Nat.mul_lt_mul_of_pos_right (by omega) (Nat.two_pow_pos q)
    rw [low, Nat.add_sub_cancel_left, roundDiv_mul_right .even (b + fraction)
      (show 0 < Nat.pow 2 q from Nat.two_pow_pos q)]
    have whole : b + fraction + q * b = pattern := by
      rw [← split, Nat.mul_succ, Nat.mul_comm b q]
      omega
    rw [whole]
    exact Nat.min_eq_right (Nat.le_of_lt h)

end Binary64

end Chalkboard
