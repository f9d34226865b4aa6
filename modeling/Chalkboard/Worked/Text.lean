import Chalkboard.Worked.Outcome

/-!
# How a worked solution reads

Matrices stand in brackets with every digit of their entries, so the text determines the numbers.
Numbers in annotations have a fixed number of decimals. `Step.text` gives the line of each step.
-/

namespace Chalkboard

/-- Numbers with separators between them. -/
def joinValues (separator : String) (values : List Float) : String :=
  separator.intercalate (values.map valueText)

/-- A row or a column of numbers in brackets. -/
def vectorText (values : List Float) : String :=
  "[" ++ joinValues ", " values ++ "]"

/-- Rows in brackets. -/
def matrixText (rows : List (List Float)) : String :=
  "[" ++ ", ".intercalate (rows.map vectorText) ++ "]"

/-- A row whose last entry stands behind a bar. -/
def augmentedRowText (row : List Float) : String :=
  "[" ++ joinValues ", " row.dropLast ++ " | " ++ (row.getLast?.map valueText).getD "" ++ "]"

/-- Rows in brackets, with a bar before the last column. -/
def augmentedText (rows : List (List Float)) : String :=
  "[" ++ ", ".intercalate (rows.map augmentedRowText) ++ "]"

/-- The lines of a typeset array. -/
def typesetRows (rows : List (List Float)) : String :=
  " \\\\ ".intercalate (rows.map (joinValues " & "))

/-- A matrix for typesetting. -/
def matrixLatex (rows : List (List Float)) : String :=
  "\\begin\x7bbmatrix\x7d " ++ typesetRows rows ++ " \\end\x7bbmatrix\x7d"

/-- An augmented matrix of `width` columns for typesetting, with a bar before the last one. -/
def augmentedLatex (width : Nat) (rows : List (List Float)) : String :=
  let columns := String.ofList (List.replicate (width - 1) 'c') ++ "|c"
  "\\left[\\begin\x7barray\x7d\x7b" ++ columns ++ "\x7d " ++ typesetRows rows
    ++ " \\end\x7barray\x7d\\right]"

/-- The label of a row: rows count from one, in 64 bits. -/
def rowLabel (row : Nat) : String :=
  "R" ++ toString ((row + 1) % UInt64.size)

/-- A row operation in board notation. -/
def RowOp.text (precision : Nat) : RowOp Float → String
  | .swap first second => rowLabel first ++ " <-> " ++ rowLabel second
  | .scale row factor =>
    let label := rowLabel row
    label ++ " <- " ++ fixedText precision factor ++ "·" ++ label
  | .addScaled target source factor =>
    let label := rowLabel target
    let negative := decide (factor < 0.0)
    label ++ " <- " ++ label ++ (if negative then " - " else " + ")
      ++ fixedText precision (if negative then -factor else factor) ++ "·" ++ rowLabel source

/-- The sign and the product of one term of an expansion. -/
def CofactorTerm.text (precision : Nat) (first : Bool) (t : CofactorTerm Float) : String :=
  let operator := match first, decide (t.sign < 0.0) with
    | true, false => ""
    | true, true => "-"
    | false, false => " + "
    | false, true => " - "
  let entry :=
    if t.entry < 0.0 then "(" ++ valueText t.entry ++ ")" else valueText t.entry
  operator ++ entry ++ "·(" ++ fixedText precision t.minorDet ++ ")"

/-- The terms of an expansion behind one another. -/
def cofactorsText (precision : Nat) (terms : List (CofactorTerm Float)) : String :=
  match terms with
  | [] => ""
  | t :: ts => t.text precision true ++ String.join (ts.map (·.text precision false))

/-- The line that states a step. -/
def Step.text (precision : Nat) : Step Float → String
  | .system equations => "Solve the system: " ++ ", ".intercalate (equations.map Equation.text)
  | .matrix label rows => label ++ " = " ++ matrixText rows
  | .augmented caption rows => caption ++ ": " ++ augmentedText rows
  | .vector label values => label ++ " = " ++ vectorText values
  | .determinant label value => label ++ " = " ++ fixedText precision value
  | .cofactorExpansion label terms value =>
    label ++ " = " ++ cofactorsText precision terms ++ " = " ++ fixedText precision value
  | .rowOperation op rows => op.text precision ++ ": " ++ augmentedText rows
  | .quotient name numerator denominator value =>
    name.toString ++ " = det(A_" ++ name.toString ++ ") / det(A) = " ++ fixedText precision numerator
      ++ " / " ++ fixedText precision denominator ++ " = " ++ fixedText precision value
  | .backSubstitution name _ constant subtracted pivot value =>
    name.toString ++ " = (" ++ fixedText precision constant ++ " - "
      ++ fixedText precision subtracted ++ ") / " ++ fixedText precision pivot ++ " = "
      ++ fixedText precision value
  | .solution assignments => "Solution: " ++ Solution.assignmentsText precision assignments
  | .failure reason => noSolutionText reason
  | .note message => message

end Chalkboard
