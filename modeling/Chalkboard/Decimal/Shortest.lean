import Chalkboard.Decimal.Basic
import Chalkboard.Decimal.Binary64

/-!
# The shortest decimal that reads back

A binary64 magnitude is nearest to all points of an interval around it, whose ends lie halfway to
its two neighbours and belong to it when its mantissa is even. `Decimal.shortest` looks for a
multiple of a power of ten in that interval, from large powers down. Only the two multiples next to
the value can be the first to lie inside; of two the nearer is taken, and `Tie` settles a tie.

Interval and multiples are compared in exact arithmetic, in quarters of the binary64 unit.
-/

namespace Chalkboard

namespace Binary64

/-- The lower end of the interval of a positive magnitude, in quarter units. Below a power of two
the neighbours are twice as dense. -/
def lowerEnd (units : Nat) : Nat :=
  let s := scale units
  4 * units - if 0 < s ∧ units = Nat.pow 2 (52 + s) then Nat.pow 2 s else 2 * Nat.pow 2 s

/-- The upper end of the interval, in quarter units. -/
def upperEnd (units : Nat) : Nat :=
  4 * units + 2 * Nat.pow 2 (scale units)

/-- Whether the ends belong to the interval. -/
def endsIncluded (units : Nat) : Bool :=
  units / Nat.pow 2 (scale units) % 2 == 0

end Binary64

namespace Decimal

open Binary64 (one lowerEnd upperEnd endsIncluded)

/-- The numerator of the quotient of a magnitude and `10 ^ p`. -/
def ratioNum (units : Nat) (p : Int) : Nat :=
  units * Nat.pow 10 (-p).toNat

/-- The denominator of the quotient of a magnitude and `10 ^ p`. -/
def ratioDen (p : Int) : Nat :=
  one * Nat.pow 10 p.toNat

/-- Whether `c · 10 ^ p` lies in the interval of a magnitude. -/
def inInterval (units c : Nat) (p : Int) : Bool :=
  let x := 4 * c * ratioDen p
  let low := ratioNum (lowerEnd units) p
  let high := ratioNum (upperEnd units) p
  if endsIncluded units then low ≤ x && x ≤ high else low < x && x < high

/-- The multiple of `10 ^ p` in the interval of a magnitude that is nearest to it, if one is
there. -/
def nearestMultiple? (tie : Tie) (units : Nat) (p : Int) : Option Nat :=
  let below := ratioNum units p / ratioDen p
  match inInterval units below p, inInterval units (below + 1) p with
  | true, true => some (roundDiv tie (ratioNum units p) (ratioDen p))
  | true, false => some below
  | false, true => some (below + 1)
  | false, false => none

/-- A power of ten that no magnitude of the given size exceeds: `2 ^ 13 < 10 ^ 4` and
`10 ^ 3 < 2 ^ 10`. -/
def topExponent (units : Nat) : Int :=
  let e : Int := units.log2 - 1073
  if 0 ≤ e then e * 4 / 13 + 1 else e * 3 / 10 + 1

/-- The first hit at the powers `p`, `p - 1`, …; the exact value if `fuel` of them give none. -/
def search (tie : Tie) (units : Nat) : (fuel : Nat) → (p : Int) → Decimal
  | 0, _ => ⟨units * Nat.pow 5 1074, -1074⟩
  | fuel + 1, p =>
    match nearestMultiple? tie units p with
    | some c => ⟨c, p⟩
    | none => search tie units fuel (p - 1)

/-- The decimal with the fewest digits that is nearest to no other binary64 magnitude, and of those
the nearest to this one. -/
def shortest (tie : Tie) (units : Nat) : Decimal :=
  search tie units ((topExponent units + 1074).toNat + 1) (topExponent units)

/-- The power of ten of the leading digit of a positive magnitude, looked for from `p` down. -/
def leadingPower (units : Nat) : (fuel : Nat) → (p : Int) → Int
  | 0, p => p
  | fuel + 1, p => if ratioDen p ≤ ratioNum units p then p else leadingPower units fuel (p - 1)

/-- The decimal nearest to a positive magnitude with the given number of digits behind the leading
one, a half going to the even neighbour. -/
def significant (places units : Nat) : Decimal :=
  let p := leadingPower units ((topExponent units + 1074).toNat + 1) (topExponent units) - places
  let c := roundDiv .even (ratioNum units p) (ratioDen p)
  if c = Nat.pow 10 (places + 1) then ⟨Nat.pow 10 places, p + 1⟩ else ⟨c, p⟩

/-- The multiple of `10 ^ -places` nearest to a magnitude, a half going to the even neighbour. -/
def fixed (places units : Nat) : Decimal :=
  ⟨roundDiv .even (units * Nat.pow 10 places) one, -places⟩

end Decimal

end Chalkboard
