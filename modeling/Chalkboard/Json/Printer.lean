import Chalkboard.Json.Basic

/-!
# Writing JSON

`Json.compact` writes a value without any blank, `Json.pretty` with one member or item on a line and
two spaces for each level. Strings escape the quote, the backslash and the control characters, and
nothing else. `Json.sortMembers` brings the members of all objects into the order of their names.
-/

namespace Chalkboard

namespace Json

/-- The hexadecimal digit for a number below sixteen. -/
def hexChar (n : Nat) : Char :=
  if n < 10 then Char.ofNat ('0'.toNat + n) else Char.ofNat ('a'.toNat + (n - 10))

/-- A character inside a string. -/
def escapeChar (c : Char) : List Char :=
  if c = '"' then ['\\', '"']
  else if c = '\\' then ['\\', '\\']
  else if c = '\x08' then ['\\', 'b']
  else if c = '\x0c' then ['\\', 'f']
  else if c = '\n' then ['\\', 'n']
  else if c = '\r' then ['\\', 'r']
  else if c = '\t' then ['\\', 't']
  else if c.toNat < 0x20 then
    ['\\', 'u', '0', '0', hexChar (c.toNat / 16), hexChar (c.toNat % 16)]
  else [c]

/-- A string in its quotes; a string that is no text is written as an empty one. -/
def stringChars (s : Option String) : List Char :=
  '"' :: ((s.getD "").toList.flatMap escapeChar ++ ['"'])

/-- The characters of a numeral; an exponent always shows its sign. -/
def Numeral.chars (x : Numeral) : List Char :=
  let sign := if x.negative then ['-'] else []
  let fraction := if x.fraction.isEmpty then [] else '.' :: x.fraction
  let exponent := match x.exponent with
    | none => []
    | some (negative, ds) => 'e' :: (if negative then '-' else '+') :: ds
  sign ++ x.whole ++ fraction ++ exponent

mutual

/-- The characters of a value without blanks. -/
def chars : Json → List Char
  | .null => ['n', 'u', 'l', 'l']
  | .bool true => ['t', 'r', 'u', 'e']
  | .bool false => ['f', 'a', 'l', 's', 'e']
  | .number x => x.chars
  | .string s => stringChars s
  | .array items => '[' :: itemsChars items
  | .object members => '\x7b' :: membersChars members

/-- The items of an array and its closing bracket. -/
def itemsChars : List Json → List Char
  | [] => [']']
  | [v] => chars v ++ [']']
  | v :: vs => chars v ++ ',' :: itemsChars vs

/-- The members of an object and its closing brace. -/
def membersChars : List (Option String × Json) → List Char
  | [] => ['\x7d']
  | [(name, v)] => stringChars name ++ ':' :: (chars v ++ ['\x7d'])
  | (name, v) :: ms => stringChars name ++ ':' :: (chars v ++ ',' :: membersChars ms)

end

/-- A value as text without blanks. -/
def compact (v : Json) : String :=
  String.ofList v.chars

/-- A new line at the given level. -/
def newLine (level : Nat) : List Char :=
  '\n' :: List.replicate (2 * level) ' '

mutual

/-- The characters of a value whose parts stand on lines of their own. -/
def prettyChars (level : Nat) : Json → List Char
  | .array (v :: vs) => '[' :: prettyItems level (v :: vs)
  | .object (m :: ms) => '\x7b' :: prettyMembers level (m :: ms)
  | v => chars v

/-- The items of an array, each on a line, and its closing bracket. -/
def prettyItems (level : Nat) : List Json → List Char
  | [] => [']']
  | [v] => newLine (level + 1) ++ prettyChars (level + 1) v ++ newLine level ++ [']']
  | v :: vs => newLine (level + 1) ++ prettyChars (level + 1) v ++ ',' :: prettyItems level vs

/-- The members of an object, each on a line, and its closing brace. -/
def prettyMembers (level : Nat) : List (Option String × Json) → List Char
  | [] => ['\x7d']
  | [(name, v)] =>
    newLine (level + 1) ++ stringChars name ++ ':' :: ' ' :: (prettyChars (level + 1) v
      ++ newLine level ++ ['\x7d'])
  | (name, v) :: ms =>
    newLine (level + 1) ++ stringChars name ++ ':' :: ' ' :: (prettyChars (level + 1) v
      ++ ',' :: prettyMembers level ms)

end

/-- A value as text with its parts on lines of their own. -/
def pretty (v : Json) : String :=
  String.ofList (v.prettyChars 0)

mutual

/-- The value with the members of every object in the order of their names. -/
def sortMembers : Json → Json
  | .array items => .array (sortItems items)
  | .object members =>
    .object ((sortEach members).mergeSort fun a b => decide (a.1.getD "" ≤ b.1.getD ""))
  | v => v

/-- Sorts the members of each item. -/
def sortItems : List Json → List Json
  | [] => []
  | v :: vs => sortMembers v :: sortItems vs

/-- Sorts the members of each member's value. -/
def sortEach : List (Option String × Json) → List (Option String × Json)
  | [] => []
  | (name, v) :: ms => (name, sortMembers v) :: sortEach ms

end

end Json

end Chalkboard
