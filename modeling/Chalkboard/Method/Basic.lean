import Chalkboard.Equation.Reader
import Chalkboard.Method.Cramer
import Chalkboard.Method.Factorization
import Chalkboard.Method.GaussJordan

/-!
# The four methods

A `Method` has an identifier, a title and a way to run. `Method.solve` runs it on a system that the
settings admit, `Method.solveTexts` on equations as they are written.
-/

namespace Chalkboard

universe u

/-- A way to solve a square system. -/
inductive Method where
  | cramersRule
  | gaussElimination
  | gaussJordan
  /-- Factorisation into triangular grids, without exchanges. -/
  | luDecomposition
deriving DecidableEq

namespace Method

/-- All methods, in the order of the lessons. -/
def all : List Method :=
  [.cramersRule, .gaussElimination, .gaussJordan, .luDecomposition]

/-- The identifier. -/
def id : Method → String
  | .cramersRule => "cramers-rule"
  | .gaussElimination => "gauss-elimination"
  | .gaussJordan => "gauss-jordan"
  | .luDecomposition => "lu-decomposition"

/-- The name in a heading. -/
def title : Method → String
  | .cramersRule => "Cramer's Rule"
  | .gaussElimination => "Gauss Elimination"
  | .gaussJordan => "Gauss-Jordan"
  | .luDecomposition => "LU Decomposition"

/-- Names under which a method is known. -/
def names : Method → List String
  | .cramersRule => ["cramers-rule", "cramers_rule", "cramer", "cramers"]
  | .gaussElimination => ["gauss-elimination", "gauss_elimination", "gauss"]
  | .gaussJordan => ["gauss-jordan", "gauss_jordan", "jordan"]
  | .luDecomposition => ["lu-decomposition", "lu_decomposition", "lu"]

/-- The method with the given identifier. -/
def ofId? (text : String) : Option Method :=
  all.find? (·.id = text)

/-- The method that a text names, blanks around the name and the case of its letters aside. No name
has a letter that a character outside ASCII turns into in lower case. -/
def ofName? (text : String) : Option Method :=
  let name := String.ofList ((trimBlanks text.toList).map Char.toLower)
  all.find? fun m => name ∈ m.names

/-- What is said of a text that names no method. -/
def unknownText (text : String) : String :=
  "unknown method: " ++ text

variable {n : Nat} {α : Type u} [Scalar α]

/-- Runs a method, whatever the size of the system. -/
def run (settings : Settings α) (s : LinearSystem n α) : Method → Outcome n α
  | .cramersRule => s.cramer settings
  | .gaussElimination => s.gauss settings
  | .gaussJordan => s.gaussJordan settings
  | .luDecomposition => s.lu settings

/-- Runs a method on a system that is not too large. -/
def solve (m : Method) (settings : Settings α) (s : LinearSystem n α) :
    Except InputError (Outcome n α) :=
  if settings.maxSize < n then .error (.systemTooLarge n settings.maxSize)
  else .ok (m.run settings s)

/-- Reads equations and runs a method on them. -/
def solveTexts (m : Method) (settings : Settings Float) (unknowns : List Char)
    (texts : List String) : Except InputError (Outcome unknowns.length Float) :=
  (LinearSystem.read unknowns texts).bind (m.solve settings)

end Method

end Chalkboard
