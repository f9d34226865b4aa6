import Chalkboard.Decimal.Basic
import Chalkboard.Decimal.Binary64

/-!
# Reading numbers

`Decimal.read?` reads an unsigned decimal literal: digits with at most one point among or around
them, then optionally `e` or `E`, a sign and digits. `readFloat?` adds a sign and the words `inf`,
`infinity` and `nan` in any mixture of cases. Only the ten digits `0` to `9` count.

The number read is the binary64 number nearest to the literal; past the largest one it is infinite.
-/

namespace Chalkboard

/-- Leading digits, and what follows them. -/
def spanDigits (cs : List Char) : List Char × List Char :=
  (cs.takeWhile Char.isDigit, cs.dropWhile Char.isDigit)

/-- An exponent, up to the end: an optional sign and at least one digit. -/
def readExponent? (cs : List Char) : Option Int :=
  let (negative, ds) := match cs with
    | '-' :: r => (true, r)
    | '+' :: r => (false, r)
    | r => (false, r)
  if ds ≠ [] ∧ ds.all Char.isDigit then
    some (if negative then -(digitsValue ds : Int) else digitsValue ds)
  else
    none

namespace Decimal

/-- The decimal that a literal without sign denotes. -/
def read? (cs : List Char) : Option Decimal :=
  let (whole, rest) := spanDigits cs
  let (fraction, rest) := match rest with
    | '.' :: r => spanDigits r
    | r => ([], r)
  let value (exponent : Int) : Decimal := ⟨digitsValue (whole ++ fraction), exponent - fraction.length⟩
  if whole = [] ∧ fraction = [] then
    none
  else match rest with
    | [] => some (value 0)
    | c :: r => if c = 'e' ∨ c = 'E' then (readExponent? r).map value else none

/-- The pattern without sign of the binary64 number nearest to `d`. Exponents far outside the range
of binary64 are settled first: `2 ^ 13 < 10 ^ 4` bounds the digits of the coefficient. -/
def toPattern (d : Decimal) : Nat :=
  if d.coefficient = 0 then 0
  else if 400 < d.exponent then Binary64.infinity
  else if d.exponent + ((d.coefficient.log2 + 1) * 4 / 13 + 1 : Nat) < -330 then 0
  else Binary64.nearest (d.coefficient * Nat.pow 10 d.exponent.toNat * Binary64.one)
    (Nat.pow 10 (-d.exponent).toNat)

/-- The binary64 number nearest to `d`, with a sign. -/
def toFloat (negative : Bool) (d : Decimal) : Float :=
  Binary64.ofPattern negative d.toPattern

end Decimal

/-- The number that a text denotes. -/
def readFloat? (text : String) : Option Float :=
  let (negative, cs) := match text.toList with
    | '-' :: r => (true, r)
    | '+' :: r => (false, r)
    | r => (false, r)
  let word := cs.map Char.toLower
  if word = "inf".toList ∨ word = "infinity".toList then
    some (Binary64.ofPattern negative Binary64.infinity)
  else if word = "nan".toList then
    some (0.0 / 0.0)
  else
    (Decimal.read? cs).map (Decimal.toFloat negative)

/-- The finite number that a text denotes. -/
def readFinite? (text : String) : Option Float :=
  (readFloat? text).filter Float.isFinite

end Chalkboard
