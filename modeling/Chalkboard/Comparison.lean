import Chalkboard.Method.Basic

/-!
# Comparing methods

Several methods on one system, and how far their answers lie apart. Only methods that found a
solution count; with fewer than two of them there is no deviation, and nothing to disagree about.
A difference that is not a number is passed over.
-/

namespace Chalkboard

/-- What one method made of a system of some size. -/
structure Attempt where
  method : Method
  size : Nat
  result : Except InputError (Outcome size Float)

/-- The values found, in the order of the unknowns. -/
def Attempt.values? (a : Attempt) : Option (List Float) :=
  match a.result with
  | .ok outcome => outcome.solution?.map fun s => s.values.toList
  | .error _ => none

/-- Attempts to be held against one another. -/
structure Comparison where
  /-- The attempts, in the order in which they are shown. -/
  attempts : List Attempt

namespace Comparison

/-- Largest difference under which two methods agree. -/
def tolerance : Float := 1e-6

/-- All methods on one system. -/
def ofSystem {n : Nat} (settings : Settings Float) (s : LinearSystem n Float) : Comparison :=
  ⟨Method.all.map fun m => ⟨m, n, m.solve settings s⟩⟩

/-- The first attempt with a method. -/
def get? (c : Comparison) (m : Method) : Option Attempt :=
  c.attempts.find? (·.method = m)

/-- The methods that found a solution. -/
def solvedBy (c : Comparison) : List Method :=
  (c.attempts.filter (·.values?.isSome)).map (·.method)

/-- The solutions found. -/
def solutions (c : Comparison) : List (List Float) :=
  c.attempts.filterMap (·.values?)

/-- The larger of two numbers; one that is not a number counts for nothing on the right. -/
def larger (x y : Float) : Float :=
  if x < y then y else x

/-- `worst`, or a larger difference between two solutions at the same place. -/
def deviate (worst : Float) (xs ys : List Float) : Float :=
  (xs.zip ys).foldl (fun worst p => larger worst (p.1 - p.2).abs) worst

/-- `worst`, or a larger difference between any two of several solutions. -/
def deviateAll (worst : Float) : List (List Float) → Float
  | [] => worst
  | xs :: rest => deviateAll (rest.foldl (fun worst ys => deviate worst xs ys) worst) rest

/-- The largest difference between any two solutions at the same place. -/
def maxDeviation? (c : Comparison) : Option Float :=
  match c.solutions with
  | [] | [_] => none
  | solutions => some (deviateAll 0.0 solutions)

/-- Whether all solutions agree. -/
def agree (c : Comparison) : Bool :=
  match c.maxDeviation? with
  | none => true
  | some d => decide (d ≤ tolerance)

end Comparison

/-- One method on several systems of any sizes. -/
def solveBatch (m : Method) (settings : Settings Float) (systems : List (Σ n, LinearSystem n Float)) :
    List Attempt :=
  systems.map fun s => ⟨m, s.1, m.solve settings s.2⟩

end Chalkboard
