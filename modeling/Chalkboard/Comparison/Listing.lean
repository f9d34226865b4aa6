import Chalkboard.Comparison
import Chalkboard.Worked.Json

/-!
# Attempts on paper

An attempt as a listing, with a heading, numbered steps and a conclusion, or as a JSON record; and
what is said of several attempts together.
-/

namespace Chalkboard

open Json (ofFields ofFloat ofOption ofString)

/-- A text filled up with blanks on the left. -/
def alignRight (width : Nat) (text : String) : String :=
  String.ofList (List.replicate (width - text.length) ' ') ++ text

/-- Lines behind their numbers, which begin with one. -/
def numberedLines (lines : List String) : List String :=
  lines.zipIdx.map fun p => alignRight 3 (toString (p.2 + 1)) ++ ". " ++ p.1

/-- The last line of a listing. -/
def Outcome.conclusion {n : Nat} (precision : Nat) : Outcome n Float → String
  | .solved solution _ => solution.text precision
  | .stopped reason _ => noSolutionText reason.text

namespace Attempt

/-- Steps and conclusion of an attempt. -/
def body (precision : Nat) (a : Attempt) : List String :=
  match a.result with
  | .ok outcome =>
    numberedLines (outcome.steps.map (Step.text precision)) ++ ["=> " ++ outcome.conclusion precision]
  | .error e => ["=> " ++ e.message]

/-- An attempt as lines, the last one empty. -/
def lines (precision : Nat) (a : Attempt) : List String :=
  ("== " ++ a.method.title ++ " ==") :: a.body precision ++ [""]

/-- An attempt as a record. What an attempt lacks is `null`. -/
def json (precision : Nat) (a : Attempt) : Json :=
  let solution := a.result.toOption.bind Outcome.solution?
  let reason := a.result.toOption.bind Outcome.reason?
  let error := match a.result with
    | .ok _ => none
    | .error e => some e.message
  ofFields
    [("method", ofString a.method.id), ("success", .bool solution.isSome),
     ("solution", ofOption
       (fun s => ofFields (s.assignments.map fun p => (p.1.toString, ofFloat p.2))) solution),
     ("reason", ofOption (fun r => ofString r.text) reason), ("error", ofOption ofString error),
     ("steps", ofOption (fun o => Step.listJson precision o.steps) a.result.toOption)]

end Attempt

namespace Comparison

/-- What the deviation says about the methods. -/
def conclusion (c : Comparison) : String :=
  match c.maxDeviation? with
  | none => "Fewer than two methods produced a solution"
  | some d =>
    (if c.agree then "All successful methods agree" else "Methods DISAGREE")
      ++ " (max deviation " ++ scientificText 3 d ++ ")"

/-- All attempts as lines, and the conclusion. -/
def lines (precision : Nat) (c : Comparison) : List String :=
  c.attempts.flatMap (Attempt.lines precision) ++ [c.conclusion]

/-- All attempts as records, and the deviation. -/
def json (precision : Nat) (c : Comparison) : Json :=
  ofFields
    [("results", .array (c.attempts.map (Attempt.json precision))), ("agree", .bool c.agree),
     ("max_deviation", ofOption ofFloat c.maxDeviation?)]

end Comparison

end Chalkboard
