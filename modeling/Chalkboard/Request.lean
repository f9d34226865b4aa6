import Chalkboard.Json.Parser
import Chalkboard.Json.Printer
import Chalkboard.Method.Basic
import Chalkboard.Worked.Json

/-!
# Requests and responses

A request names a method, equations and, if it likes, unknowns; a response says whether there is a
unique solution, and shows the steps. Both are JSON.

A request is an object, in which the order of the members, unknown members and `null` for the
unknowns make no difference, or a list of its two or three parts in their order. A known member may
not be repeated, and the name of every member of the request itself has to be a text.

What the decoder of requests says of a text that it refuses is a parameter: an answer passes it on
behind words of its own.
-/

namespace Chalkboard

open Json (ofFields ofFloat ofString)

/-- What a caller asks for. -/
structure Request where
  method : Method
  equations : List String
  /-- The unknowns; without them the default ones are taken. -/
  chosenUnknowns : Option (List Char)
deriving DecidableEq

/-- What a caller is told. -/
inductive Response where
  /-- The request cannot be read, of which the decoder said something. -/
  | unreadable (said : String)
  /-- The equations never reached the method. -/
  | refused (method : Method) (cause : InputError)
  | ended (method : Method) {n : Nat} (outcome : Outcome n Float)

namespace Request

/-- A method by its identifier, or by an object whose only member has the identifier as its name and
`null` as its value. -/
def methodOfJson? : Json → Option Method
  | .string s => s.bind Method.ofId?
  | .object [(name, .null)] => name.bind Method.ofId?
  | _ => none

/-- A list of texts. -/
def textsOfJson? (v : Json) : Option (List String) :=
  v.items?.bind fun items => items.mapM Json.text?

/-- A text of a single character. -/
def letterOfJson? (v : Json) : Option Char :=
  v.text?.bind fun s => match s.toList with
    | [c] => some c
    | _ => none

/-- Unknowns, or `null` for none. -/
def unknownsOfJson? : Json → Option (Option (List Char))
  | .null => some none
  | v => v.items?.bind fun items => (items.mapM letterOfJson?).map some

/-- A request from its parts. -/
def ofParts? (method equations : Json) (unknowns : Option Json) : Option Request := do
  let method ← methodOfJson? method
  let equations ← textsOfJson? equations
  let unknowns ← match unknowns with
    | none => some none
    | some v => unknownsOfJson? v
  return { method, equations, chosenUnknowns := unknowns }

/-- The request that a JSON value denotes. -/
def ofJson? : Json → Option Request
  | .object members => do
    let members ← Json.namedMembers? members
    let method ← Json.uniqueMember? members "method"
    let equations ← Json.uniqueMember? members "equations"
    let unknowns ← Json.uniqueMember? members "variables"
    ofParts? (← method) (← equations) unknowns
  | .array [method, equations] => ofParts? method equations none
  | .array [method, equations, unknowns] => ofParts? method equations (some unknowns)
  | _ => none

/-- The request that a text denotes. -/
def parse? (text : String) : Option Request :=
  (Json.parse? text).bind ofJson?

/-- The unknowns of a request. -/
def unknowns (r : Request) : List Char :=
  r.chosenUnknowns.getD (LinearSystem.defaultUnknowns r.equations.length)

end Request

namespace Response

/-- The method of the request, if that could be read. -/
def method? : Response → Option Method
  | .unreadable _ => none
  | .refused method _ => some method
  | .ended method _ => some method

/-- Whether there is a unique solution. -/
def isSuccess : Response → Bool
  | .ended _ outcome => outcome.isSolved
  | _ => false

/-- What is told when there is nothing to solve. -/
def messageFields (message : String) : List (String × Json) :=
  [("status", ofString "error"), ("message", ofString message)]

/-- What is told of a method's ending. -/
def outcomeFields {n : Nat} (precision : Nat) : Outcome n Float → List (String × Json)
  | .solved solution steps =>
    [("status", ofString "solved"),
     ("solution", .array (solution.assignments.map fun p =>
        ofFields [("variable", ofString p.1.toString), ("value", ofFloat p.2)])),
     ("steps", Step.listJson precision steps)]
  | .stopped reason steps =>
    [("status", ofString "no_unique_solution"), ("reason", reason.json),
     ("message", ofString (noSolutionText reason.text)),
     ("steps", Step.listJson precision steps)]

/-- Status and details. -/
def resultFields (precision : Nat) : Response → List (String × Json)
  | .unreadable said => messageFields ("Invalid request: " ++ said)
  | .refused _ cause => messageFields cause.message
  | .ended _ outcome => outcomeFields precision outcome

/-- The response as JSON. -/
def json (precision : Nat) (r : Response) : Json :=
  ofFields
    [("success", .bool r.isSuccess), ("method", Json.ofOption (fun m => ofString m.id) r.method?),
     ("result", ofFields (r.resultFields precision))]

end Response

/-- Answers a request. -/
def Request.respond (settings : Settings Float) (r : Request) : Response :=
  match r.method.solveTexts settings r.unknowns r.equations with
  | .ok outcome => .ended r.method outcome
  | .error cause => .refused r.method cause

/-- Answers a request in its written form; `said` is what the decoder says of a text that denotes
none. -/
def respondText (said : String → String) (settings : Settings Float) (body : String) : String :=
  let response := match Request.parse? body with
    | some request => request.respond settings
    | none => .unreadable (said body)
  (response.json settings.precision).compact

end Chalkboard
