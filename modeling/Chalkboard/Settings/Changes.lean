import Chalkboard.Json.Parser
import Chalkboard.Json.Printer
import Chalkboard.Settings
import Chalkboard.Toml.Parser

/-!
# Settings as text

A settings text names the settings that differ from the standard ones, as JSON or as TOML. What it
names is a `Changes`; names that mean nothing here are passed over, whatever they hold. A setting of
the wrong kind, or one that is named twice, makes the whole text unreadable. Only the settings that
result are checked.
-/

namespace Chalkboard

/-- The two forms of a settings text. -/
inductive TextFormat where
  | json
  | toml
deriving DecidableEq

namespace Settings

/-- What the system and the libraries for the two forms say of what they refuse. It
is passed on in the causes, and nothing here depends on it. -/
structure Wording where
  /-- What is said of a text without settings. -/
  undecodable : TextFormat → String → String
  /-- What is said of settings without a text. -/
  unencodable : TextFormat → Settings Float → String
  /-- What is said of the path of a file that cannot be read or written. -/
  inaccessible : String → String

/-- Settings to be replaced. -/
structure Changes where
  epsilon : Option Float
  maxSize : Option Nat
  precision : Option Nat
  expandCofactors : Option Bool

namespace Changes

/-- The settings with the changes made. -/
def apply (c : Changes) (s : Settings Float) : Settings Float :=
  { epsilon := c.epsilon.getD s.epsilon
    maxSize := c.maxSize.getD s.maxSize
    precision := c.precision.getD s.precision
    expandCofactors := c.expandCofactors.getD s.expandCofactors }

/-- Reads something that may be missing; there is no result if it is there and cannot be read. -/
def optional? {α β : Type} (read : α → Option β) : Option α → Option (Option β)
  | none => some none
  | some v => (read v).map some

/-- Changes from four values of any kind, each of which may be missing. -/
def ofValues? {α : Type} (real : α → Option Float) (count : α → Option Nat) (flag : α → Option Bool)
    (epsilon maxSize precision expandCofactors : Option α) : Option Changes := do
  let epsilon ← optional? real epsilon
  let maxSize ← optional? count maxSize
  let precision ← optional? count precision
  let expandCofactors ← optional? flag expandCofactors
  return { epsilon, maxSize, precision, expandCofactors }

/-! ## JSON -/

/-- A quantity in JSON. -/
def jsonReal? : Json → Option Float
  | .number x => x.toFloat?
  | _ => none

/-- A count in JSON. -/
def jsonCount? : Json → Option Nat
  | .number x => x.toNat?
  | _ => none

/-- A truth value in JSON. -/
def jsonFlag? : Json → Option Bool
  | .bool b => some b
  | _ => none

/-- The changes that a JSON value names: an object, or a list of settings in their order, which may
end early. -/
def ofJson? : Json → Option Changes
  | .object members => do
    let members ← Json.namedMembers? members
    ofValues? jsonReal? jsonCount? jsonFlag? (← Json.uniqueMember? members "epsilon")
      (← Json.uniqueMember? members "max_size") (← Json.uniqueMember? members "precision")
      (← Json.uniqueMember? members "expand_cofactors")
  | .array items =>
    if items.length ≤ 4 then
      ofValues? jsonReal? jsonCount? jsonFlag? items[0]? items[1]? items[2]? items[3]?
    else
      none
  | _ => none

/-! ## TOML -/

/-- A quantity in TOML. -/
def tomlReal? : Toml.Value → Option Float
  | .float x => some x
  | .integer n => some (Decimal.toFloat (decide (n < 0)) ⟨n.natAbs, 0⟩)
  | _ => none

/-- A count in TOML. -/
def tomlCount? : Toml.Value → Option Nat
  | .integer n => if 0 ≤ n then some n.toNat else none
  | _ => none

/-- A truth value in TOML. -/
def tomlFlag? : Toml.Value → Option Bool
  | .boolean b => some b
  | _ => none

/-- The changes that a TOML document names. -/
def ofToml? (es : Toml.Entries) : Option Changes :=
  ofValues? tomlReal? tomlCount? tomlFlag? (es.get? "epsilon") (es.get? "max_size")
    (es.get? "precision") (es.get? "expand_cofactors")

/-- The changes that a text names. -/
def parse? (text : String) : TextFormat → Option Changes
  | .json => (Json.parse? text).bind ofJson?
  | .toml => (Toml.parse? text).bind ofToml?

end Changes

/-- The settings that a text chooses. -/
def parse (said : Wording) (format : TextFormat) (text : String) :
    Except SettingsError (Settings Float) :=
  match Changes.parse? text format with
  | none => .error (.undecodable (said.undecodable format text))
  | some changes => (changes.apply standard).check

/-- Settings as JSON. -/
def json (s : Settings Float) : Json :=
  Json.ofFields
    [("epsilon", Json.ofFloat s.epsilon), ("max_size", Json.ofNat s.maxSize),
     ("precision", Json.ofNat s.precision), ("expand_cofactors", .bool s.expandCofactors)]

/-- A number in TOML: all its digits, with a point in any case. -/
def tomlReal (x : Float) : String :=
  let text := plainText x
  if text.toList.all fun c => c.isDigit || c = '-' then text ++ ".0" else text

/-- Settings as TOML, a line for each. -/
def tomlText (s : Settings Float) : String :=
  "epsilon = " ++ tomlReal s.epsilon ++ "\nmax_size = " ++ toString s.maxSize
    ++ "\nprecision = " ++ toString s.precision
    ++ "\nexpand_cofactors = " ++ (if s.expandCofactors then "true" else "false") ++ "\n"

/-- Settings as text. TOML has no count that reaches `Toml.integerBound`. -/
def render (said : Wording) (s : Settings Float) : TextFormat → Except SettingsError String
  | .json => .ok s.json.pretty
  | .toml =>
    if s.maxSize < Toml.integerBound ∧ s.precision < Toml.integerBound then .ok s.tomlText
    else .error (.unencodable (said.unencodable .toml s))

end Settings

end Chalkboard
