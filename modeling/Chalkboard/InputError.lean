/-!
# Why equations are refused

Causes for which a list of equations never reaches a method, apart from their wording. Two classes
matter to callers: the text of one equation is wrong (`InputError.isSyntax`), or equations and
variables do not make a square system of an admitted size (`InputError.isShape`). A letter that is
no variable belongs to neither.
-/

namespace Chalkboard

/-- What is wrong with a list of variables. -/
inductive VariableFault where
  | noVariables
  /-- A variable is not an ASCII letter. -/
  | notLetter (name : Char)
  | repeated (name : Char)
deriving DecidableEq

/-- A cause for refusing equations. -/
inductive InputError where
  /-- There is not exactly one `=`, or nothing before it. -/
  | invalidEquation (text : String)
  | unknownVariable (name : Char)
  /-- The right side is not a finite number. -/
  | invalidConstant (text : String)
  | invalidTerm (text : String)
  | equationCount (expected got : Nat)
  | invalidVariables (fault : VariableFault)
  | systemTooLarge (size max : Nat)
deriving DecidableEq

/-- The wording of a fault in a list of variables. -/
def VariableFault.message : VariableFault → String
  | .noVariables => "at least one variable is required"
  | .notLetter v => "'" ++ v.toString ++ "' is not a single letter"
  | .repeated v => "'" ++ v.toString ++ "' appears twice"

namespace InputError

/-- The wording of a cause. -/
def message : InputError → String
  | .invalidEquation text => "Invalid equation: " ++ text
  | .unknownVariable v => "Unknown variable: " ++ v.toString
  | .invalidConstant text => "Invalid constant: " ++ text
  | .invalidTerm text => "Invalid term: " ++ text
  | .equationCount expected got =>
    "expected " ++ toString expected ++ " equations (one per variable), got " ++ toString got
  | .invalidVariables fault => "invalid variable list: " ++ fault.message
  | .systemTooLarge size max =>
    "system of size " ++ toString size ++ " exceeds the maximum supported size " ++ toString max

/-- Whether the text of one equation is wrong. -/
def isSyntax : InputError → Bool
  | .invalidEquation _ | .invalidConstant _ | .invalidTerm _ => true
  | _ => false

/-- Whether equations and variables do not make an admitted system. -/
def isShape : InputError → Bool
  | .equationCount .. | .invalidVariables _ | .systemTooLarge .. => true
  | _ => false

end InputError

end Chalkboard
