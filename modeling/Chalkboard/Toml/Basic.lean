/-!
# TOML documents

A document is a table of named values. Tables remember how they came about, because that decides
whether later lines may add to them: a table that only a longer header implied may still be opened
by its own header, one that dotted keys made may be extended by dotted keys alone, and an inline
table is closed.

`Entries.enter` walks down a path of names and changes the table at its end, creating tables that
are not there; of an array of tables it takes the last.
-/

namespace Chalkboard

namespace Toml

/-- Whole numbers lie from `-integerBound` to `integerBound - 1`. -/
def integerBound : Nat := 9223372036854775808

/-- How a table came about. -/
inductive Origin where
  /-- By a header of its own, or as the document itself. -/
  | header
  /-- By a header that names it on the way. -/
  | implied
  | dotted
  | inline
deriving DecidableEq

/-- A value of a document. -/
inductive Value where
  | string (text : String)
  /-- A whole number of 64 bits. -/
  | integer (n : Int)
  | float (x : Float)
  | boolean (b : Bool)
  /-- A date, a time, or both. -/
  | moment (text : List Char)
  | array (items : List Value)
  | table (origin : Origin) (entries : List (String × Value))
  /-- An array of tables made by headers: all but the last, and the last. -/
  | tables (before : List (List (String × Value))) (last : List (String × Value))

/-- Named values in the order in which they were written. -/
abbrev Entries : Type :=
  List (String × Value)

namespace Entries

/-- The value with the given name. -/
def get? (es : Entries) (name : String) : Option Value :=
  es.lookup name

/-- The entries with the value of a name changed. -/
def replace (es : Entries) (name : String) (v : Value) : Entries :=
  es.map fun e => if e.1 = name then (name, v) else e

/-- The entries with a new one, unless the name is taken. -/
def insert? (es : Entries) (name : String) (v : Value) : Option Entries :=
  match es.get? name with
  | some _ => none
  | none => some (es ++ [(name, v)])

/-- Changes the table at the end of a path by `change`, which is told how that table came about.
Tables that are missing on the way are made with the origin `missing`; a table may only be entered
if `open?` says so of its origin. -/
def enter (missing : Origin) (open? : Origin → Bool) (change : Origin → Entries → Option Entries) :
    (path : List String) → Origin → Entries → Option Entries
  | [], origin, es => change origin es
  | name :: path, _, es =>
    match es.get? name with
    | none => do
      let inner ← enter missing open? change path missing []
      return es ++ [(name, .table missing inner)]
    | some (.table origin inner) =>
      if open? origin then do
        let inner ← enter missing open? change path origin inner
        return es.replace name (.table origin inner)
      else
        none
    | some (.tables before last) => do
      let last ← enter missing open? change path .header last
      return es.replace name (.tables before last)
    | some _ => none

/-- Adds a value under a dotted key. A table on the way has to be implied or made by dotted keys,
and the table that receives the value has to be made by dotted keys, unless the key has one part. -/
def insertDotted (path : List String) (name : String) (v : Value) (origin : Origin) (es : Entries) :
    Option Entries :=
  enter .dotted (fun o => o = .implied ∨ o = .dotted)
    (fun o inner => if path ≠ [] ∧ o ≠ .dotted then none else inner.insert? name v)
    path origin es

/-- Changes the table that a header path names. Inline tables are closed to it. -/
def enterHeader (path : List String) (change : Entries → Option Entries) (es : Entries) :
    Option Entries :=
  enter .implied (· ≠ .inline) (fun _ inner => change inner) path .header es

/-- Opens the table `name` by its header. -/
def openTable (name : String) (es : Entries) : Option Entries :=
  match es.get? name with
  | none => some (es ++ [(name, .table .header [])])
  | some (.table .implied inner) => some (es.replace name (.table .header inner))
  | some _ => none

/-- Opens another table of the array of tables `name`. -/
def openElement (name : String) (es : Entries) : Option Entries :=
  match es.get? name with
  | none => some (es ++ [(name, .tables [] [])])
  | some (.tables before last) => some (es.replace name (.tables (before ++ [last]) []))
  | some _ => none

end Entries

end Toml

end Chalkboard
