import Chalkboard.Equation.Term
import Chalkboard.InputError
import Chalkboard.System.Basic
import Chalkboard.Text.Blank

/-!
# Reading equations and systems

Blanks have no meaning. An equation is a non-empty sequence of terms, an `=` and a number; every
term but the first has a sign. Terms with the same letter add up, from left to right and from `0`.
The first problem from the left decides the error.

A system is read in a fixed order of checks: its unknowns, the number of its equations, and then
the equations one after another.
-/

namespace Chalkboard

/-- Coefficients, one for each unknown, and the constant of an equation. -/
abbrev CoefficientRow (unknowns : List Char) : Type :=
  Vector Float unknowns.length × Float

namespace Equation

variable (unknowns : List Char)

/-- Adds one term to the coefficients. Only the first term may lack a sign. -/
def addTerm (first : Bool) (row : Vector Float unknowns.length) (t : WrittenTerm) :
    Except InputError (Vector Float unknowns.length) :=
  if !first && t.sign.isEmpty then
    .error (.invalidTerm (String.ofList t.chars))
  else
    match unknowns.finIdxOf? t.letter with
    | none => .error (.unknownVariable t.letter)
    | some j =>
      match t.value? with
      | none => .error (.invalidTerm (String.ofList t.chars))
      | some v => .ok (setAt row j (row.get j + v))

/-- Adds terms in their order. -/
def addTerms (first : Bool) (row : Vector Float unknowns.length) :
    List WrittenTerm → Except InputError (Vector Float unknowns.length)
  | [] => .ok row
  | t :: ts => (addTerm unknowns first row t).bind fun row => addTerms false row ts

/-- The coefficients of a left side. -/
def readLeft (cs : List Char) : Except InputError (Vector Float unknowns.length) :=
  let (terms, rest) := splitTerms cs
  (addTerms unknowns true (Vector.replicate _ 0.0) terms).bind fun row =>
    if rest = [] then .ok row else .error (.invalidTerm (String.ofList (junk rest)))

/-- The number on a right side. -/
def readRight (cs : List Char) : Except InputError Float :=
  match readFinite? (String.ofList cs) with
  | some v => .ok v
  | none => .error (.invalidConstant (String.ofList cs))

/-- The two sides of a text with exactly one `=` and something before it. -/
def sides? (cs : List Char) : Option (List Char × List Char) :=
  match cs.takeWhile (· ≠ '='), cs.dropWhile (· ≠ '=') with
  | left, _ :: right => if left = [] ∨ '=' ∈ right then none else some (left, right)
  | _, [] => none

/-- Reads one equation. -/
def read (text : String) : Except InputError (CoefficientRow unknowns) :=
  match sides? (eraseBlanks text.toList) with
  | none => .error (.invalidEquation (String.ofList (trimBlanks text.toList)))
  | some (left, right) =>
    (readLeft unknowns left).bind fun row =>
      (readRight right).map fun constant => (row, constant)

/-- Reads equations up to the first that is refused. -/
def readAll : (texts : List String) →
    Except InputError { rows : List (CoefficientRow unknowns) // rows.length = texts.length }
  | [] => .ok ⟨[], rfl⟩
  | text :: texts =>
    (read unknowns text).bind fun row =>
      (readAll texts).map fun rows => ⟨row :: rows.1, by simp [rows.2]⟩

end Equation

namespace LinearSystem

/-- What is wrong with a list of unknowns, given those that came before it. -/
def variableFaultAfter (seen : List Char) : List Char → Option VariableFault
  | [] => none
  | v :: vs =>
    if !v.isAlpha then some (.notLetter v)
    else if v ∈ seen then some (.repeated v)
    else variableFaultAfter (v :: seen) vs

/-- What is wrong with a list of unknowns. -/
def variableFault? (unknowns : List Char) : Option VariableFault :=
  if unknowns = [] then some .noVariables else variableFaultAfter [] unknowns

/-- Reads a square system, one equation for each unknown. -/
def read (unknowns : List Char) (texts : List String) :
    Except InputError (LinearSystem unknowns.length Float) :=
  match variableFault? unknowns with
  | some fault => .error (.invalidVariables fault)
  | none =>
    if count : texts.length = unknowns.length then
      (Equation.readAll unknowns texts).map fun rows =>
        { unknowns := ⟨unknowns.toArray, List.size_toArray⟩
          a := ⟨⟨(rows.1.map Prod.fst).toArray, by simp [rows.2, count]⟩⟩
          b := ⟨(rows.1.map Prod.snd).toArray, by simp [rows.2, count]⟩ }
    else
      .error (.equationCount unknowns.length texts.length)

end LinearSystem

end Chalkboard
