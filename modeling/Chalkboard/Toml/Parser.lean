import Chalkboard.Toml.Text

/-!
# Reading TOML

A document is a sequence of lines: headers, which choose the table that the following lines fill,
headers of arrays of tables, and keys with their values. Arrays and inline tables may be nested up
to a fixed depth, and arrays alone may run over several lines.

`Toml.parse?` gives the entries of the document, or nothing if any line is wrong.
-/

namespace Chalkboard

namespace Toml

/-- A carriage return before a line feed does not count. -/
def dropReturns : List Char → List Char
  | '\r' :: '\n' :: r => '\n' :: dropReturns r
  | c :: r => c :: dropReturns r
  | [] => []

/-- What follows blanks, line feeds and comments inside an array. -/
def skipSpace (inComment : Bool) : List Char → Option (List Char)
  | [] => if inComment then none else some []
  | c :: r =>
    if c = '\n' then skipSpace false r
    else if inComment then if isPlain c then skipSpace true r else none
    else if c = '#' then skipSpace true r
    else if isBlank c then skipSpace false r
    else some (c :: r)

/-- What follows the end of a line: blanks and a comment may come before it. -/
def afterLine? (cs : List Char) : Option (List Char) :=
  let finish : List Char → Option (List Char)
    | [] => some []
    | c :: r => if c = '\n' then some r else none
  match cs.dropWhile isBlank with
  | '#' :: r => finish (r.dropWhile isPlain)
  | r => finish r

/-! ## Values -/

/-- The items of an array behind its opening bracket, and what follows the closing one. A comma may
follow the last item. -/
def scanItems? (item : List Char → Option (Value × List Char)) (cs : List Char) :
    Option (List Value × List Char) :=
  match skipSpace false cs with
  | none | some [] => none
  | some (c :: r) =>
    if c = ']' then
      some ([], r)
    else
      match (item (c :: r)).bind fun (v, rest) => (skipSpace false rest).map (v, ·) with
      | some (v, ',' :: rest) =>
        if rest.length < cs.length then
          (scanItems? item rest).map fun (vs, left) => (v :: vs, left)
        else
          none
      | some (v, ']' :: rest) => some ([v], rest)
      | _ => none
termination_by cs.length

/-- A key, an equals sign and a value, each with the blanks around it, and what follows them. -/
def scanKeyValue? (item : List Char → Option (Value × List Char)) (cs : List Char) :
    Option (((List String × String) × Value) × List Char) :=
  match scanKey? cs with
  | some (key, '=' :: r) =>
    (item (r.dropWhile isBlank)).map fun (v, rest) => ((key, v), rest.dropWhile isBlank)
  | _ => none

/-- The entries that keys and values make up in an inline table. -/
def inlineEntries? (pairs : List ((List String × String) × Value)) : Option Entries :=
  pairs.foldlM (fun es pair =>
    Entries.enter .dotted (· = .dotted)
      (fun o inner => if pair.1.1 ≠ [] ∧ o ≠ .dotted then none else inner.insert? pair.1.2 pair.2)
      pair.1.1 .inline es) []

/-- An inline table behind its opening brace, and what follows the closing one. -/
def scanInline? (item : List Char → Option (Value × List Char)) (cs : List Char) :
    Option (Value × List Char) :=
  match cs.dropWhile isBlank with
  | '\x7d' :: rest => some (.table .inline [], rest)
  | r =>
    match scanSeparated (scanKeyValue? item) ',' r with
    | some (pairs, '\x7d' :: rest) => (inlineEntries? pairs).map fun es => (.table .inline es, rest)
    | _ => none

/-- The value at the front of a text, and what follows it; `depth` bounds the nesting of arrays and
inline tables. -/
def scanValue? : (depth : Nat) → List Char → Option (Value × List Char)
  | _, [] => none
  | depth, c :: r =>
    if c = '"' ∨ c = '\'' then
      (scanString? (c :: r)).map fun (s, rest) => (.string (String.ofList s), rest)
    else if c = '[' then
      match depth with
      | 0 => none
      | depth + 1 => (scanItems? (scanValue? depth) r).map fun (vs, rest) => (.array vs, rest)
    else if c = '\x7b' then
      match depth with
      | 0 => none
      | depth + 1 => scanInline? (scanValue? depth) r
    else
      scanRun? (c :: r)

/-- Deepest admitted nesting of arrays and inline tables. -/
def maxDepth : Nat := 79

/-! ## Documents -/

/-- The entries so far, and the path of the table that is being filled. -/
structure Draft where
  entries : Entries
  /-- The path of the current table; empty for the document itself. -/
  current : List String

namespace Draft

/-- Adds a value to the current table. -/
def add (d : Draft) (key : List String × String) (v : Value) : Option Draft :=
  (Entries.enterHeader d.current (Entries.insertDotted key.1 key.2 v .header) d.entries).map
    fun es => { d with entries := es }

/-- Turns to another table by a header. -/
def turn (d : Draft) (openAt : String → Entries → Option Entries) (key : List String × String) :
    Option Draft :=
  (Entries.enterHeader key.1 (openAt key.2) d.entries).map fun es => ⟨es, key.1 ++ [key.2]⟩

end Draft

/-- Reads the line at the front of a text that does not begin with a blank; gives what follows
it. -/
def readLine? (d : Draft) : List Char → Option (Draft × List Char)
  | '[' :: '[' :: r =>
    match scanKey? r with
    | some (key, ']' :: ']' :: rest) => do
      let d ← d.turn Entries.openElement key
      return (d, ← afterLine? rest)
    | _ => none
  | '[' :: r =>
    match scanKey? r with
    | some (key, ']' :: rest) => do
      let d ← d.turn Entries.openTable key
      return (d, ← afterLine? rest)
    | _ => none
  | cs =>
    match scanKeyValue? (scanValue? maxDepth) cs with
    | some ((key, v), rest) => do
      let d ← d.add key v
      return (d, ← afterLine? rest)
    | none => none

/-- Reads all lines. -/
def readLines? (d : Draft) (cs : List Char) : Option Draft :=
  match afterLine? cs with
  | some [] => some d
  | some rest => if rest.length < cs.length then readLines? d rest else none
  | none =>
    match readLine? d (cs.dropWhile isBlank) with
    | some (d, rest) => if rest.length < cs.length then readLines? d rest else none
    | none => none
termination_by cs.length

/-- The entries of a document; a byte order mark may stand at its front. -/
def parse? (text : String) : Option Entries :=
  let cs := match text.toList with
    | c :: r => if c.toNat = 0xFEFF then r else c :: r
    | [] => []
  (readLines? ⟨[], []⟩ (dropReturns cs)).map (·.entries)

end Toml

end Chalkboard
