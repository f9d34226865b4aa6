import Chalkboard.Decimal.Shortest

/-!
# The written forms of a number

* `plainText` — the shortest digits that read back, all in their places; of two equally near
  candidates the larger;
* `valueText` — the same, with one zero: entries of matrices and vectors, coefficients;
* `fixedText` — a fixed number of places, no minus on what is shown as zero: annotations;
* `scientificText` — one digit, a fixed number of places and a power of ten: deviations.
-/

namespace Chalkboard

open Binary64 (Value valueOf)

/-- A minus sign, if there is one to write. -/
def signText (negative : Bool) : String :=
  if negative then "-" else ""

/-- What is written for an infinity. -/
def infinityText (negative : Bool) : String :=
  signText negative ++ "inf"

/-- The shortest digits that read back, without an exponent. -/
def plainText (x : Float) : String :=
  match valueOf x with
  | .nan => "NaN"
  | .infinite negative => infinityText negative
  | .finite negative 0 => signText negative ++ "0"
  | .finite negative units =>
    signText negative ++ String.ofList (Decimal.shortest .up units).positional

/-- An entry as it stands in a matrix: as `plainText`, but zero has no sign. -/
def valueText (x : Float) : String :=
  if x == 0.0 then "0" else plainText x

/-- The exact value rounded to `places` decimals, a half going to the even digit. -/
def fixedText (places : Nat) (x : Float) : String :=
  match valueOf x with
  | .nan => "NaN"
  | .infinite negative => infinityText negative
  | .finite negative units =>
    let d := Decimal.fixed places units
    signText (negative && d.coefficient != 0) ++ String.ofList d.positional

/-- One digit, a point, `places` digits and the power of ten behind an `e`. -/
def scientificText (places : Nat) (x : Float) : String :=
  match valueOf x with
  | .nan => "NaN"
  | .infinite negative => infinityText negative
  | .finite negative 0 =>
    signText negative ++ String.ofList (Decimal.positional ⟨0, -places⟩) ++ "e0"
  | .finite negative units =>
    let d := Decimal.significant places units
    signText negative ++ String.ofList (Decimal.positional ⟨d.coefficient, -places⟩) ++ "e"
      ++ toString (d.exponent + places)

end Chalkboard
