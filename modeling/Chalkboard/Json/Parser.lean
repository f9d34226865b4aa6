import Chalkboard.Json.Lexer

/-!
# Reading JSON

Tokens are taken one after another, with the unfinished arrays and objects on a stack, so values may
be nested to any depth. `Json.parse?` accepts a text that is one value with blanks around it.
-/

namespace Chalkboard

namespace Json

/-- An unfinished array or object; its parts are in reverse order. -/
inductive Frame where
  | array (items : List Json)
  /-- An object with the members so far and the name of the next one. -/
  | object (members : List (Option String × Json)) (name : Option String)

/-- What the tokens so far leave to be expected. -/
inductive State where
  /-- A value; just after `[` also its closing bracket. -/
  | value (first : Bool) (stack : List Frame)
  /-- The name of a member; just after the opening brace also the closing one. -/
  | memberName (first : Bool) (members : List (Option String × Json)) (stack : List Frame)
  | colon (members : List (Option String × Json)) (name : Option String) (stack : List Frame)
  | done (v : Json) (stack : List Frame)

namespace State

/-- A value that is finished inside an array or object: a comma or a closing mark may follow. -/
def afterValue (v : Json) (c : Char) : List Frame → Option State
  | .array items :: stack =>
    if c = ',' then some (.value false (.array (v :: items) :: stack))
    else if c = ']' then some (.done (.array (v :: items).reverse) stack)
    else none
  | .object members name :: stack =>
    if c = ',' then some (.memberName false ((name, v) :: members) stack)
    else if c = '\x7d' then some (.done (.object ((name, v) :: members).reverse) stack)
    else none
  | [] => none

/-- Where a value is expected: it may be one token, or begin with a bracket. -/
def atValue (first : Bool) (stack : List Frame) : Token → Option State
  | .scalar v => some (.done v stack)
  | .mark c =>
    if c = '[' then some (.value true (.array [] :: stack))
    else if c = '\x7b' then some (.memberName true [] stack)
    else if c = ']' ∧ first then
      match stack with
      | .array items :: stack => some (.done (.array items.reverse) stack)
      | _ => none
    else none

/-- Takes one token. -/
def step : State → Token → Option State
  | .value first stack, t => atValue first stack t
  | .memberName _ members stack, .scalar (.string name) => some (.colon members name stack)
  | .memberName true members stack, .mark c =>
    if c = '\x7d' then some (.done (.object members.reverse) stack) else none
  | .colon members name stack, .mark c =>
    if c = ':' then some (.value false (.object members name :: stack)) else none
  | .done v stack, .mark c => afterValue v c stack
  | _, _ => none

end State

/-- The value that tokens make up. -/
def ofTokens? (ts : List Token) : Option Json :=
  match ts.foldlM State.step (.value false []) with
  | some (.done v []) => some v
  | _ => none

/-- The value that a text denotes. -/
def parse? (text : String) : Option Json :=
  (tokens? text.toList).bind ofTokens?

end Json

end Chalkboard
