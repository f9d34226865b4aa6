import Chalkboard.Decimal.Literal
import Chalkboard.Decimal.Shortest

/-!
# JSON values

A `Json` value keeps what its text says. Numbers stay numerals, since what a numeral is worth
depends on who reads it: `Numeral.toNat?` for counts, `Numeral.toFloat?` for quantities. A string
whose escapes hold half of a surrogate pair is correct JSON but no text; it is kept as `none`, and
only a reader that wants its text refuses it. Members of an object keep their order, and their
repetitions.
-/

namespace Chalkboard

namespace Json

/-- A JSON number as it is written. -/
structure Numeral where
  negative : Bool
  whole : List Char
  /-- The digits behind the point; none if no point is written. -/
  fraction : List Char
  /-- The sign and the digits of the exponent, if one is written. -/
  exponent : Option (Bool × List Char)
deriving DecidableEq

end Json

/-- A JSON value. -/
inductive Json where
  | null
  | bool (value : Bool)
  | number (numeral : Json.Numeral)
  /-- A string; `none` if it is no text. -/
  | string (text : Option String)
  | array (items : List Json)
  | object (members : List (Option String × Json))

namespace Json

namespace Numeral

/-- Whether neither a point nor an exponent is written. -/
def isInteger (x : Numeral) : Bool :=
  x.fraction.isEmpty && x.exponent.isNone

/-- The numeral of a whole number. -/
def ofNat (n : Nat) : Numeral :=
  ⟨false, digits n, [], none⟩

/-- Powers of the leading digit that are written without an exponent. -/
def positionalPowers (p : Int) : Bool :=
  -5 ≤ p && p ≤ 15

/-- The numeral of a decimal: all digits in their places, at least one behind the point, or else
one digit before the point and an exponent with its sign. -/
def ofDecimal (negative : Bool) (d : Decimal) : Numeral :=
  let p := d.leadingExponent
  if positionalPowers p then
    match d.places with
    | (whole, []) => ⟨negative, whole, ['0'], none⟩
    | (whole, fraction) => ⟨negative, whole, fraction, none⟩
  else
    let (whole, fraction) := d.mantissa.places
    ⟨negative, whole, fraction, some (decide (p < 0), digits p.natAbs)⟩

/-- The numeral of a finite number: the shortest digits that read back, a tie going to the even
digit. -/
def ofFloat? (x : Float) : Option Numeral :=
  match Binary64.valueOf x with
  | .nan | .infinite _ => none
  | .finite negative 0 => some ⟨negative, ['0'], ['0'], none⟩
  | .finite negative units => some (ofDecimal negative (Decimal.shortest .even units))

/-- The count that a numeral denotes, if it fits in 64 bits: no sign, point or exponent. -/
def toNat? (x : Numeral) : Option Nat :=
  let n := digitsValue x.whole
  if !x.negative && x.isInteger && n < UInt64.size then some n else none

/-! ## Quantities

A quantity is formed from the digits that fit in 64 bits and one power of ten, each rounded, and
their product or quotient, rounded again. It may miss the nearest number by a unit in the last
place. Past the largest number it is refused. -/

/-- The leading digits of a whole part that fit in 64 bits, and the number of digits left out. -/
def leadingWhole (significand : Nat) : List Char → Nat × Nat
  | [] => (significand, 0)
  | c :: cs =>
    let next := 10 * significand + digitsValue [c]
    if UInt64.size ≤ next then (significand, cs.length + 1) else leadingWhole next cs

/-- The significand extended by the digits of a fraction that fit, and their number. -/
def leadingFraction (significand : Nat) : List Char → Nat × Nat
  | [] => (significand, 0)
  | c :: cs =>
    let next := 10 * significand + digitsValue [c]
    if UInt64.size ≤ next then (significand, 0)
    else
      let (significand, count) := leadingFraction next cs
      (significand, count + 1)

/-- Exponents that reach it count as without bound. -/
def exponentBound : Nat := 2147483648

/-- The number nearest to a power of ten. -/
def powerOfTen (k : Nat) : Float :=
  Decimal.toFloat false ⟨1, k⟩

/-- `f · 10 ^ e` in one rounding; below `10 ^ -308` in several. -/
def scale? (f : Float) (e : Int) : Option Float :=
  if 308 < e then
    if f == 0.0 then some f else none
  else if 0 ≤ e then
    let r := f * powerOfTen e.toNat
    if r.isInf then none else some r
  else if -308 ≤ e then
    some (f / powerOfTen (-e).toNat)
  else if f == 0.0 then
    some f
  else
    scale? (f / powerOfTen 308) (e + 308)
termination_by (-e).toNat
decreasing_by omega

/-- The quantity that a numeral denotes. A whole number that fits in 64 bits is read exactly. -/
def toFloat? (x : Numeral) : Option Float :=
  let (significand, dropped) := leadingWhole 0 x.whole
  let (significand, taken) := leadingFraction significand x.fraction
  let shift : Int := dropped - taken
  let magnitude? : Option Float := match x.exponent with
    | none => scale? (Decimal.toFloat false ⟨significand, 0⟩) shift
    | some (negative, ds) =>
      let e := digitsValue ds
      if exponentBound ≤ e then
        if significand ≠ 0 ∧ !negative then none else some 0.0
      else
        let e : Int := if negative then shift - e else shift + e
        scale? (Decimal.toFloat false ⟨significand, 0⟩) e
  magnitude?.map fun f => if x.negative then -f else f

end Numeral

/-! ## Building and taking apart -/

/-- The value of a finite number, and `null` for any other. -/
def ofFloat (x : Float) : Json :=
  match Numeral.ofFloat? x with
  | some n => .number n
  | none => .null

/-- A whole number. -/
def ofNat (n : Nat) : Json :=
  .number (.ofNat n)

/-- A text. -/
def ofString (s : String) : Json :=
  .string (some s)

/-- An array of texts. -/
def ofStrings (xs : List String) : Json :=
  .array (xs.map ofString)

/-- An array of numbers. -/
def ofFloats (xs : List Float) : Json :=
  .array (xs.map ofFloat)

/-- An object with the given names and values. -/
def ofFields (fields : List (String × Json)) : Json :=
  .object (fields.map fun p => (some p.1, p.2))

/-- The value of something that may be missing. -/
def ofOption {α : Type} (f : α → Json) : Option α → Json
  | some x => f x
  | none => .null

/-- The text of a string. -/
def text? : Json → Option String
  | .string s => s
  | _ => none

/-- The items of an array. -/
def items? : Json → Option (List Json)
  | .array items => some items
  | _ => none

/-- The members of an object with their names as texts. -/
def namedMembers? (members : List (Option String × Json)) : Option (List (String × Json)) :=
  members.mapM fun m => m.1.map fun name => (name, m.2)

/-- The value of the only member with the given name, if it is there; nothing if there are
several. -/
def uniqueMember? (members : List (String × Json)) (name : String) : Option (Option Json) :=
  match members.filter (·.1 = name) with
  | [] => some none
  | [m] => some (some m.2)
  | _ => none

end Json

end Chalkboard
