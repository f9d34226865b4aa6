import Chalkboard.Decimal.Text

/-!
# Linear equations

An `Equation` holds a coefficient for each unknown of its system and a constant. Its text leaves
out what a board leaves out: unknowns with coefficient zero, and the number one in front of a
letter. A side without any term is written `0`.
-/

namespace Chalkboard

universe u

/-- The equation `Σ coefficient · variable = constant`. -/
structure Equation (α : Type u) where
  /-- Coefficients and their unknowns, in the order of the unknowns. -/
  terms : List (α × Char)
  constant : α
deriving DecidableEq

namespace Equation

/-- What stands between two terms, or before the first, for a coefficient. -/
def signText (first : Bool) (coefficient : Float) : String :=
  match first, decide (coefficient < 0.0) with
  | true, true => "-"
  | true, false => ""
  | false, true => " - "
  | false, false => " + "

/-- A term without its sign. -/
def unsignedText (coefficient : Float) (letter : Char) : String :=
  let magnitude := coefficient.abs
  (if magnitude == 1.0 then "" else valueText magnitude) ++ letter.toString

/-- Terms behind one another. -/
def termsText : (first : Bool) → List (Float × Char) → String
  | _, [] => ""
  | first, (c, v) :: terms => signText first c ++ unsignedText c v ++ termsText false terms

/-- The left side. -/
def leftText (terms : List (Float × Char)) : String :=
  match terms.filter fun t => !(t.1 == 0.0) with
  | [] => "0"
  | shown => termsText true shown

/-- The equation as a line of text. -/
def text (e : Equation Float) : String :=
  leftText e.terms ++ " = " ++ valueText e.constant

end Equation

end Chalkboard
