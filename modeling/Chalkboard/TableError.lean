/-!
# Why a table does not fit

Causes for which numeric input is refused, apart from their wording.
-/

namespace Chalkboard

/-- A cause for refusing numeric input. -/
inductive TableError where
  /-- A size is not the one that the rest of the input calls for. -/
  | sizeMismatch (expected got : Nat)
  | notSquare (rows cols : Nat)
  /-- The determinant or a pivot is negligible. -/
  | singular
  /-- The named operation needs a second table. -/
  | operandMissing (operation : String)
  | empty
  | tooLarge (size max : Nat)
deriving DecidableEq

namespace TableError

/-- The wording of a cause. -/
def message : TableError → String
  | .sizeMismatch expected got =>
    "Matrix dimensions mismatch: expected " ++ toString expected ++ ", got " ++ toString got
  | .notSquare rows cols =>
    "matrix must be square, got " ++ toString rows ++ "x" ++ toString cols
  | .singular => "Matrix is singular or nearly singular"
  | .operandMissing operation => "operation '" ++ operation ++ "' requires a second matrix"
  | .empty => "matrix is empty"
  | .tooLarge size max =>
    "matrix of size " ++ toString size ++ " exceeds the maximum supported size " ++ toString max

end TableError

end Chalkboard
