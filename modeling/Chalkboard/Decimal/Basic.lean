/-!
# Decimal numbers and their digits

A `Decimal` is a whole number of powers of ten. `Decimal.places` gives its digits before and behind
the point, and `Decimal.positional` writes them out without an exponent. `digitsValue` reads digits
back.
-/

namespace Chalkboard

/-- The number `coefficient · 10 ^ exponent`. -/
structure Decimal where
  coefficient : Nat
  exponent : Int
deriving DecidableEq

/-- The decimal digits of a whole number, without leading zeros. -/
def digits (n : Nat) : List Char :=
  Nat.toDigits 10 n

/-- The value of decimal digits, from the left. -/
def digitsValue (cs : List Char) : Nat :=
  cs.foldl (fun acc c => 10 * acc + (c.toNat - '0'.toNat)) 0

namespace Decimal

/-- The digits before and behind the point: the last `-exponent` digits stand behind it, with at
least one before it; a positive exponent appends zeros. -/
def places (d : Decimal) : List Char × List Char :=
  let ds := digits d.coefficient
  if 0 ≤ d.exponent then
    (ds ++ List.replicate d.exponent.toNat '0', [])
  else
    let behind := (-d.exponent).toNat
    let padded := List.replicate (behind + 1 - ds.length) '0' ++ ds
    padded.splitAt (padded.length - behind)

/-- All digits in their places, with a point if there are digits behind it. -/
def positional (d : Decimal) : List Char :=
  match d.places with
  | (whole, []) => whole
  | (whole, fraction) => whole ++ '.' :: fraction

/-- The power of ten of the leading digit. -/
def leadingExponent (d : Decimal) : Int :=
  d.exponent + (digits d.coefficient).length - 1

/-- The decimal with the same digits, of which one stands before the point. -/
def mantissa (d : Decimal) : Decimal :=
  ⟨d.coefficient, 1 - ((digits d.coefficient).length : Int)⟩

end Decimal

end Chalkboard
