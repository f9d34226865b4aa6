import Chalkboard.Json.Basic
import Chalkboard.Worked.Text

/-!
# Worked solutions as data

The JSON form of steps and of the reasons for a failure. Every form is an object that begins with
its kind; a step ends with its line of text.
-/

namespace Chalkboard

open Json (ofFields ofFloat ofFloats ofNat ofString ofStrings)

/-- Rows of numbers. -/
def rowsJson (rows : List (List Float)) : Json :=
  .array (rows.map ofFloats)

/-- A row operation. -/
def RowOp.json : RowOp Float → Json
  | .swap first second =>
    ofFields [("op", ofString "swap"), ("first", ofNat first), ("second", ofNat second)]
  | .scale row factor =>
    ofFields [("op", ofString "scale"), ("row", ofNat row), ("factor", ofFloat factor)]
  | .addScaled target source factor =>
    ofFields [("op", ofString "add_scaled"), ("target", ofNat target), ("source", ofNat source),
      ("factor", ofFloat factor)]

/-- A term of an expansion. -/
def CofactorTerm.json (t : CofactorTerm Float) : Json :=
  ofFields [("column", ofNat t.column), ("sign", ofFloat t.sign), ("entry", ofFloat t.entry),
    ("minor_determinant", ofFloat t.minorDet)]

/-- An unknown and its value as a pair. -/
def assignmentJson (p : Char × Float) : Json :=
  .array [ofString p.1.toString, ofFloat p.2]

namespace Step

/-- The kind of a step and its numbers. -/
def fields : Step Float → List (String × Json)
  | .system equations =>
    [("kind", ofString "system"), ("equations", ofStrings (equations.map Equation.text))]
  | .matrix label rows =>
    [("kind", ofString "matrix"), ("label", ofString label), ("matrix", rowsJson rows)]
  | .augmented _ rows => [("kind", ofString "augmented"), ("matrix", rowsJson rows)]
  | .vector label values =>
    [("kind", ofString "vector"), ("label", ofString label), ("values", ofFloats values)]
  | .determinant label value =>
    [("kind", ofString "determinant"), ("label", ofString label), ("value", ofFloat value)]
  | .cofactorExpansion label terms value =>
    [("kind", ofString "cofactor_expansion"), ("label", ofString label),
     ("terms", .array (terms.map CofactorTerm.json)), ("value", ofFloat value)]
  | .rowOperation op rows =>
    [("kind", ofString "row_operation"), ("op", op.json), ("matrix", rowsJson rows)]
  | .quotient name numerator denominator value =>
    [("kind", ofString "quotient"), ("variable", ofString name.toString),
     ("numerator", ofFloat numerator), ("denominator", ofFloat denominator),
     ("value", ofFloat value)]
  | .backSubstitution name row constant subtracted pivot value =>
    [("kind", ofString "back_substitution"), ("variable", ofString name.toString),
     ("row", ofNat row), ("constant", ofFloat constant), ("subtracted", ofFloat subtracted),
     ("pivot", ofFloat pivot), ("value", ofFloat value)]
  | .solution assignments =>
    [("kind", ofString "solution"), ("assignments", .array (assignments.map assignmentJson))]
  | .failure reason => [("kind", ofString "failure"), ("reason", ofString reason)]
  | .note message => [("kind", ofString "note"), ("message", ofString message)]

/-- A step with its line of text. -/
def json (precision : Nat) (s : Step Float) : Json :=
  ofFields (s.fields ++ [("text", ofString (s.text precision))])

/-- Several steps with their lines. -/
def listJson (precision : Nat) (steps : List (Step Float)) : Json :=
  .array (steps.map (json precision))

/-- A whole worked solution, with the number of decimals in its lines. -/
def traceJson (precision : Nat) (steps : List (Step Float)) : Json :=
  ofFields [("precision", ofNat precision), ("steps", listJson precision steps)]

end Step

/-- The identifier of a phase. -/
def Stage.id : Stage → String
  | .elimination => "elimination"
  | .decomposition => "decomposition"
  | .backSubstitution => "back_substitution"

/-- The reason for a failure. -/
def Singularity.json : Singularity Float → Json
  | .zeroDeterminant determinant =>
    ofFields [("kind", ofString "zero_determinant"), ("determinant", ofFloat determinant)]
  | .zeroPivot column pivot stage =>
    ofFields [("kind", ofString "zero_pivot"), ("column", ofNat column), ("pivot", ofFloat pivot),
      ("stage", ofString stage.id)]

end Chalkboard
