import Chalkboard.Settings
import Chalkboard.Table
import Chalkboard.TableError
import Chalkboard.Text.Blank
import Chalkboard.Worked.Step

/-!
# Calculating with matrices

Determinant, inverse, product and sum of tables, each with the steps that show it. The checks come
in a fixed order: an empty table is refused before anything else, then the shape, then the size.
-/

namespace Chalkboard

universe u

/-- An operation of the calculator. -/
inductive Operation where
  | determinant
  | inverse
  | multiplication
  | addition
deriving DecidableEq

namespace Operation

/-- All operations. -/
def all : List Operation :=
  [.determinant, .inverse, .multiplication, .addition]

/-- Whether a second table is needed. -/
def isBinary : Operation → Bool
  | .multiplication | .addition => true
  | .determinant | .inverse => false

/-- The name of an operation. -/
def name : Operation → String
  | .determinant => "determinant"
  | .inverse => "inverse"
  | .multiplication => "multiplication"
  | .addition => "addition"

/-- Names under which an operation is known. -/
def names : Operation → List String
  | .determinant => ["determinant", "det"]
  | .inverse => ["inverse", "inv"]
  | .multiplication => ["multiplication", "multiply", "mul"]
  | .addition => ["addition", "add"]

/-- The operation that a text names, blanks around the name and the case of its letters aside. -/
def ofName? (text : String) : Option Operation :=
  let name := String.ofList ((trimBlanks text.toList).map Char.toLower)
  all.find? fun o => name ∈ o.names

/-- What is said of a text that names no operation. -/
def unknownText (text : String) : String :=
  "unknown matrix operation: " ++ text

end Operation

/-- What a calculation results in. -/
inductive CalculationValue (α : Type u) where
  | scalar (value : α)
  | table (value : Table α)

/-- A finished calculation. -/
structure Calculation (α : Type u) where
  operation : Operation
  value : CalculationValue α
  steps : List (Step α)

namespace Table

variable {α : Type u}

/-- A table as a square grid of an admitted size. -/
def squareWithin (maxSize : Nat) (a : Table α) : Except TableError (Grid a.height a.height α) :=
  match a.square? with
  | none => .error (.notSquare a.height a.width)
  | some g => if maxSize < a.height then .error (.tooLarge a.height maxSize) else .ok g

variable [Scalar α]

/-- The product of two tables, if their sizes fit. -/
def mul (a b : Table α) : Except TableError (Table α) :=
  if h : a.width = b.height then
    .ok ⟨a.height, b.width, a.grid.mul (.ofFn fun i j => b.grid.entry (i.cast h) j)⟩
  else
    .error (.sizeMismatch a.width b.height)

/-- The sum of two tables of the same shape. -/
def add (a b : Table α) : Except TableError (Table α) :=
  if h : a.height = b.height then
    if w : a.width = b.width then
      .ok { a with grid := a.grid.add (.ofFn fun i j => b.grid.entry (i.cast h) (j.cast w)) }
    else
      .error (.sizeMismatch a.width b.width)
  else
    .error (.sizeMismatch a.height b.height)

end Table

namespace Operation

variable {α : Type u} [Scalar α]

/-- The second table, if there is one. -/
def operand (op : Operation) : Option (Table α) → Except TableError (Table α)
  | some b => .ok b
  | none => .error (.operandMissing op.name)

/-- Value and steps of an operation on tables that are not empty. -/
def evaluate (settings : Settings α) (a : Table α) (b : Option (Table α)) :
    Operation → Except TableError (CalculationValue α × List (Step α))
  | .determinant => do
    let g ← a.squareWithin settings.maxSize
    return (.scalar g.det, [.ofDet settings.expandCofactors "det(A)" g])
  | .inverse => do
    let g ← a.squareWithin settings.maxSize
    if Scalar.negligible settings.epsilon g.det then
      throw .singular
    match g.inverse? settings.epsilon with
    | none => throw .singular
    | some h =>
      return (.table ⟨a.height, a.height, h⟩, [.determinant "det(A)" g.det, .matrix "A^-1" h.toRows])
  | .multiplication => do
    let b ← operand .multiplication b
    let product ← a.mul b
    return (.table product, [.matrix "B" b.toRows, .matrix "A × B" product.toRows])
  | .addition => do
    let b ← operand .addition b
    let sum ← a.add b
    return (.table sum, [.matrix "B" b.toRows, .matrix "A + B" sum.toRows])

/-- Carries out an operation. -/
def compute (op : Operation) (settings : Settings α) (a : Table α) (b : Option (Table α)) :
    Except TableError (Calculation α) :=
  if a.height = 0 ∨ a.width = 0 then
    .error .empty
  else
    (op.evaluate settings a b).map fun r => ⟨op, r.1, .matrix "A" a.toRows :: r.2⟩

end Operation

end Chalkboard
