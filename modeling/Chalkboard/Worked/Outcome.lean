import Chalkboard.Decimal.Text
import Chalkboard.Worked.Step

/-!
# What a method ends with

A method either finds the value of every unknown or meets a number that it would have to divide by
and that counts as zero. Both endings come with the steps up to them.
-/

namespace Chalkboard

universe u

/-- The phase in which a pivot was refused. -/
inductive Stage where
  | elimination
  | decomposition
  | backSubstitution
deriving DecidableEq

/-- Why there is no unique solution within the tolerance. -/
inductive Singularity (α : Type u) where
  | zeroDeterminant (determinant : α)
  | zeroPivot (column : Nat) (pivot : α) (stage : Stage)
deriving DecidableEq

/-- The values of all unknowns. -/
structure Solution (n : Nat) (α : Type u) where
  /-- The unknowns in the order of their columns. -/
  unknowns : Vector Char n
  values : Vector α n
deriving DecidableEq

/-- The ending of a method. -/
inductive Outcome (n : Nat) (α : Type u) where
  | solved (solution : Solution n α) (steps : List (Step α))
  | stopped (reason : Singularity α) (steps : List (Step α))

/-- The name of a phase in a sentence. -/
def Stage.phrase : Stage → String
  | .elimination => "elimination"
  | .decomposition => "decomposition"
  | .backSubstitution => "back substitution"

/-- The reason in words. Columns count from one. -/
def Singularity.text {α : Type u} : Singularity α → String
  | .zeroDeterminant _ => "determinant is zero"
  | .zeroPivot column _ stage =>
    "zero pivot encountered in column " ++ toString (column + 1) ++ " during " ++ stage.phrase

/-- What is said when there is no unique solution. -/
def noSolutionText (reason : String) : String :=
  "No unique solution: " ++ reason

namespace Solution

variable {n : Nat} {α : Type u}

/-- The value of the first unknown with this name. -/
def get? (s : Solution n α) (name : Char) : Option α :=
  (s.unknowns.finIdxOf? name).map s.values.get

/-- Unknowns and their values. -/
def assignments (s : Solution n α) : List (Char × α) :=
  s.unknowns.toList.zip s.values.toList

/-- Assignments in one line. -/
def assignmentsText (precision : Nat) (assignments : List (Char × Float)) : String :=
  ", ".intercalate (assignments.map fun p => p.1.toString ++ " = " ++ fixedText precision p.2)

/-- The solution in one line. -/
def text (precision : Nat) (s : Solution n Float) : String :=
  assignmentsText precision s.assignments

end Solution

namespace Outcome

variable {n : Nat} {α : Type u}

/-- All steps. -/
def steps : Outcome n α → List (Step α)
  | .solved _ steps => steps
  | .stopped _ steps => steps

/-- Whether every unknown has a value. -/
def isSolved : Outcome n α → Bool
  | .solved .. => true
  | .stopped .. => false

/-- The solution, if there is one. -/
def solution? : Outcome n α → Option (Solution n α)
  | .solved solution _ => some solution
  | .stopped .. => none

/-- The reason for stopping, if the method stopped. -/
def reason? : Outcome n α → Option (Singularity α)
  | .solved .. => none
  | .stopped reason _ => some reason

/-- The ending with a solution, written down as the last step. -/
def close (unknowns : Vector Char n) (values : Vector α n) (steps : List (Step α)) : Outcome n α :=
  let solution : Solution n α := ⟨unknowns, values⟩
  .solved solution (steps ++ [.solution solution.assignments])

/-- The ending without a solution, with the reason written down as the last step. -/
def stop (reason : Singularity α) (steps : List (Step α)) : Outcome n α :=
  .stopped reason (steps ++ [.failure reason.text])

end Outcome

end Chalkboard
