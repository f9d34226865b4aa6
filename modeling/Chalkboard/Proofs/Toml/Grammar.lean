import Chalkboard.Toml.Parser

/-!
# The grammar of TOML lines

A document without headers is a sequence of rows. A row is blank or assigns a value to a key, and a
comment may end it. Arrays may run over several rows, inline tables may not; strings between three
quotes may, and up to two quotes more may stand at any place in them.

Two numbers bound what a reader takes: how many parts a key may have, and how deep arrays and inline
tables may be nested. The grammar has both as parameters.

* `StringSpelled`, `ScalarSpelled`, `ValueSpelled` — the ways to write a value.
* `KeySpelled`, `Assignment.Spelled` — the ways to write a key, and a key with its value.
* `RowsSpelled` — rows with line feeds between them.
* `Document` — the texts of rows, where a carriage return may precede a line feed.

What a run of letters, digits and signs denotes is said by `ofRun?`, and how dotted keys make up an
inline table by `inlineEntries?`. How a text is split is said here without the reader.
-/

namespace Chalkboard

namespace Toml

/-! ## Blanks and comments -/

/-- **`Blanks cs`** — spaces and tabs. -/
def Blanks (cs : List Char) : Prop :=
  ∀ c ∈ cs, isBlank c = true

/-- **`Comment cs`** — a comment up to the end of its row, or none. -/
inductive Comment : List Char → Prop where
  | none : Comment []
  | text {cs : List Char} : (∀ c ∈ cs, isPlain c = true) → Comment ('#' :: cs)

/-- **`Gap cs`** — what may stand between the parts of an array. -/
inductive Gap : List Char → Prop where
  | nil : Gap []
  | blank {c : Char} {cs : List Char} : isBlank c = true ∨ c = '\n' → Gap cs → Gap (c :: cs)
  | comment {text cs : List Char} : (∀ c ∈ text, isPlain c = true) → Gap cs →
      Gap ('#' :: (text ++ '\n' :: cs))

/-! ## Strings -/

/-- **`EscapeSpelled c word`** — a backslash and `word` denote `c`. -/
inductive EscapeSpelled : Char → List Char → Prop where
  | letter {e c : Char} : escape? e = some c → EscapeSpelled c [e]
  | four {ds : List Char} {n : Nat} {c : Char} : ds.length = 4 → hexValue? ds = some n →
      charOfCode? n = some c → EscapeSpelled c ('u' :: ds)
  | eight {ds : List Char} {n : Nat} {c : Char} : ds.length = 8 → hexValue? ds = some n →
      charOfCode? n = some c → EscapeSpelled c ('U' :: ds)

/-- **`BasicSpelled s word`** — between double quotes, `word` is the text `s`. -/
inductive BasicSpelled : List Char → List Char → Prop where
  | nil : BasicSpelled [] []
  | raw {c : Char} {s word : List Char} : isPlain c = true → c ≠ '"' → c ≠ '\\' →
      BasicSpelled s word → BasicSpelled (c :: s) (c :: word)
  | escape {c : Char} {e s word : List Char} : EscapeSpelled c e → BasicSpelled s word →
      BasicSpelled (c :: s) ('\\' :: (e ++ word))

/-- **`LiteralText s`** — the text `s` may stand between single quotes. -/
def LiteralText (s : List Char) : Prop :=
  ∀ c ∈ s, isPlain c = true ∧ c ≠ '\''

/-- **`BasicLinesSpelled quotes s word`** — between three double quotes, `word` is the text `s`, and
it begins with at most `quotes` quotes. -/
inductive BasicLinesSpelled : Nat → List Char → List Char → Prop where
  | nil {quotes : Nat} : BasicLinesSpelled quotes [] []
  | quote {quotes : Nat} {s word : List Char} : BasicLinesSpelled quotes s word →
      BasicLinesSpelled (quotes + 1) ('"' :: s) ('"' :: word)
  /-- A character that stands for itself; two quotes may follow it. -/
  | raw {quotes : Nat} {c : Char} {s word : List Char} : isPlain c = true ∨ c = '\n' → c ≠ '"' →
      c ≠ '\\' → BasicLinesSpelled 2 s word → BasicLinesSpelled quotes (c :: s) (c :: word)
  | escape {quotes : Nat} {c : Char} {e s word : List Char} : EscapeSpelled c e →
      BasicLinesSpelled 2 s word → BasicLinesSpelled quotes (c :: s) ('\\' :: (e ++ word))
  /-- A backslash at the end of a row: the white space around the end does not count. -/
  | join {quotes : Nat} {blanks space s word : List Char} : Blanks blanks →
      (∀ c ∈ space, isBlank c = true ∨ c = '\n') →
      (∀ c ∈ word.head?, isBlank c = false ∧ c ≠ '\n') → BasicLinesSpelled 2 s word →
      BasicLinesSpelled quotes s ('\\' :: (blanks ++ '\n' :: (space ++ word)))

/-- **`LiteralLines quotes s`** — the text `s` may stand between three single quotes, and it begins
with at most `quotes` quotes. -/
inductive LiteralLines : Nat → List Char → Prop where
  | nil {quotes : Nat} : LiteralLines quotes []
  | quote {quotes : Nat} {s : List Char} : LiteralLines quotes s →
      LiteralLines (quotes + 1) ('\'' :: s)
  /-- Another character; two quotes may follow it. -/
  | raw {quotes : Nat} {c : Char} {s : List Char} : isPlain c = true ∨ c = '\n' → c ≠ '\'' →
      LiteralLines 2 s → LiteralLines quotes (c :: s)

/-- **`QuotedSpelled s word`** — `word` is the text `s` with quotes around it, in one row. -/
inductive QuotedSpelled : List Char → List Char → Prop where
  | basic {s word : List Char} : BasicSpelled s word → QuotedSpelled s ('"' :: (word ++ ['"']))
  | literal {s : List Char} : LiteralText s → QuotedSpelled s ('\'' :: (s ++ ['\'']))

/-- **`FirstBreak start word`** — `start` stands between opening quotes and the text that begins with
`word`: a line feed that does not count, or nothing if there would be one that does. -/
inductive FirstBreak : List Char → List Char → Prop where
  | none {word : List Char} : word.head? ≠ some '\n' → FirstBreak [] word
  | feed {word : List Char} : FirstBreak ['\n'] word

/-- **`StringSpelled s word`** — `word` is the text `s` with its quotes. -/
inductive StringSpelled : List Char → List Char → Prop where
  | quoted {s word : List Char} : QuotedSpelled s word → StringSpelled s word
  /-- Three double quotes. -/
  | basicLines {start s word : List Char} : FirstBreak start word → BasicLinesSpelled 2 s word →
      StringSpelled s ('"' :: '"' :: '"' :: (start ++ (word ++ ['"', '"', '"'])))
  /-- Three single quotes. -/
  | literalLines {start s : List Char} : FirstBreak start s → LiteralLines 2 s →
      StringSpelled s ('\'' :: '\'' :: '\'' :: (start ++ (s ++ ['\'', '\'', '\''])))

/-! ## Keys -/

/-- **`KeyPartSpelled part word`** — `word` is one part of a key. -/
inductive KeyPartSpelled : String → List Char → Prop where
  | bare {word : List Char} : word ≠ [] → (∀ c ∈ word, isBare c = true) →
      KeyPartSpelled (String.ofList word) word
  | quoted {s word : List Char} : QuotedSpelled s word → KeyPartSpelled (String.ofList s) word

/-- A bare word is written as it is. -/
theorem keyPartSpelled_bare {part : String} (some : part.toList ≠ [])
    (bare : ∀ c ∈ part.toList, isBare c = true) : KeyPartSpelled part part.toList := by
  have spelled := KeyPartSpelled.bare some bare
  rwa [String.ofList_toList] at spelled

/-- **`KeySpelled path name word`** — `word` is the key whose last part is `name`, and whose parts
before it are `path`. -/
inductive KeySpelled : List String → String → List Char → Prop where
  | last {name : String} {word : List Char} : KeyPartSpelled name word → KeySpelled [] name word
  | dotted {part name : String} {path : List String} {word before behind rest : List Char} :
      KeyPartSpelled part word → Blanks before → Blanks behind → KeySpelled path name rest →
      KeySpelled (part :: path) name (word ++ (before ++ '.' :: (behind ++ rest)))

/-! ## Values -/

/-- **`IsWord word`** — `word` begins as neither string nor array nor table, and does not end before
its end. -/
structure IsWord (word : List Char) : Prop where
  /-- There is a first character, which opens nothing. -/
  first : ∃ c cs, word = c :: cs ∧ c ≠ '"' ∧ c ≠ '\'' ∧ c ≠ '[' ∧ c ≠ '\x7b'
  stays : ∀ c ∈ word, endsRun c = false

/-- **`ScalarSpelled v word`** — `word` is a number, a truth value, a date or a time. -/
inductive ScalarSpelled : Value → List Char → Prop where
  | run {v : Value} {word : List Char} : IsWord word → ofRun? word = some v → ScalarSpelled v word
  /-- A date and a time with a space between them. -/
  | moment {date time : List Char} : IsWord date → isDate date = true →
      (∀ c ∈ time, endsRun c = false) → isZonedTime time = true →
      ScalarSpelled (.moment (date ++ ' ' :: time)) (date ++ ' ' :: time)

/-- **`AtomSpelled v word`** — `word` is a value that holds no other. -/
inductive AtomSpelled : Value → List Char → Prop where
  | string {s word : List Char} : StringSpelled s word → AtomSpelled (.string (String.ofList s)) word
  | scalar {v : Value} {word : List Char} : ScalarSpelled v word → AtomSpelled v word

/-- A key and its value. -/
structure Assignment where
  /-- The parts of the key before the last. -/
  path : List String
  /-- The last part. -/
  name : String
  value : Value

namespace Assignment

/-- All parts of the key. -/
def parts (a : Assignment) : List String :=
  a.path ++ [a.name]

/-- The assignment as it is read. -/
def pair (a : Assignment) : (List String × String) × Value :=
  ((a.path, a.name), a.value)

end Assignment

section Spelled

variable (most : Nat) (item : Value → List Char → Prop)

/-- **`a.Spelled most item word`** — `word` is a key of at most `most` parts, an equals sign and a
value as `item` spells it. -/
inductive Assignment.Spelled (a : Assignment) : List Char → Prop where
  | intro {key before behind word : List Char} : KeySpelled a.path a.name key →
      a.parts.length ≤ most → Blanks before → Blanks behind → item a.value word →
      a.Spelled (key ++ (before ++ '=' :: (behind ++ word)))

/-- **`ItemsSpelled item vs word`** — behind an opening bracket, `word` is the items `vs` and the
closing bracket. -/
inductive ItemsSpelled : List Value → List Char → Prop where
  /-- No more items; a comma may precede. -/
  | close {gap : List Char} : Gap gap → ItemsSpelled [] (gap ++ [']'])
  | last {before word behind : List Char} {v : Value} : Gap before → item v word → Gap behind →
      ItemsSpelled [v] (before ++ (word ++ (behind ++ [']'])))
  | cons {before word behind rest : List Char} {v : Value} {vs : List Value} : Gap before →
      item v word → Gap behind → ItemsSpelled vs rest →
      ItemsSpelled (v :: vs) (before ++ (word ++ (behind ++ ',' :: rest)))

/-- **`PairsSpelled most item as word`** — behind an opening brace, `word` is the assignments `as`
and the closing brace. -/
inductive PairsSpelled : List Assignment → List Char → Prop where
  | last {before word behind : List Char} {a : Assignment} : Blanks before →
      a.Spelled most item word → Blanks behind →
      PairsSpelled [a] (before ++ (word ++ (behind ++ ['\x7d'])))
  | cons {before word behind rest : List Char} {a : Assignment} {as : List Assignment} :
      Blanks before → a.Spelled most item word → Blanks behind → PairsSpelled as rest →
      PairsSpelled (a :: as) (before ++ (word ++ (behind ++ ',' :: rest)))

/-- **`ContainerSpelled most item v word`** — `word` is an array or an inline table whose values are
spelled as `item` says. -/
inductive ContainerSpelled : Value → List Char → Prop where
  | array {vs : List Value} {word : List Char} : ItemsSpelled item vs word →
      ContainerSpelled (.array vs) ('[' :: word)
  | empty {blanks : List Char} : Blanks blanks →
      ContainerSpelled (.table .inline []) ('\x7b' :: (blanks ++ ['\x7d']))
  /-- A table of assignments whose keys go together. -/
  | table {as : List Assignment} {word : List Char} {es : Entries} : PairsSpelled most item as word →
      inlineEntries? (as.map Assignment.pair) = some es →
      ContainerSpelled (.table .inline es) ('\x7b' :: word)

end Spelled

section Documents

variable (most : Nat)

/-- **`ValueSpelled most depth v word`** — `word` is the value `v`, with arrays and inline tables
nested at most `depth` deep. -/
def ValueSpelled : (depth : Nat) → Value → List Char → Prop
  | 0, v, word => AtomSpelled v word
  | depth + 1, v, word => AtomSpelled v word ∨ ContainerSpelled most (ValueSpelled depth) v word

variable (depth : Nat)

/-- A value that holds no other may stand at any depth. -/
theorem AtomSpelled.valueSpelled {v : Value} {word : List Char} (h : AtomSpelled v word) :
    ValueSpelled most depth v word := by
  cases depth with
  | zero => exact h
  | succ depth => exact .inl h

/-- **`RowSpelled most depth a? row`** — `row` is the assignment `a?`, if there is one, with blanks
and perhaps a comment. -/
inductive RowSpelled : Option Assignment → List Char → Prop where
  | blank {blanks comment : List Char} : Blanks blanks → Comment comment →
      RowSpelled none (blanks ++ comment)
  | assignment {a : Assignment} {before word behind comment : List Char} : Blanks before →
      a.Spelled most (ValueSpelled most depth) word → Blanks behind → Comment comment →
      RowSpelled (some a) (before ++ (word ++ (behind ++ comment)))

/-- An assignment alone in its row, with a blank on either side of the equals sign. -/
theorem rowSpelled_assignment {a : Assignment} {key word : List Char}
    (hkey : KeySpelled a.path a.name key) (few : a.parts.length ≤ most)
    (value : ValueSpelled most depth a.value word) :
    RowSpelled most depth (some a) (key ++ ' ' :: '=' :: ' ' :: word) := by
  have blank : Blanks [' '] := List.forall_mem_singleton.mpr rfl
  have none : Blanks [] := List.forall_mem_nil _
  have row := RowSpelled.assignment none (.intro hkey few blank blank value) none .none
  simpa using row

/-- **`RowsSpelled most depth as cs`** — `cs` is rows with the assignments `as`, with a line feed
between any two. -/
inductive RowsSpelled : List Assignment → List Char → Prop where
  | last {a? : Option Assignment} {row : List Char} : RowSpelled most depth a? row →
      RowsSpelled a?.toList row
  | cons {a? : Option Assignment} {as : List Assignment} {row rest : List Char} :
      RowSpelled most depth a? row → RowsSpelled as rest →
      RowsSpelled (a?.toList ++ as) (row ++ '\n' :: rest)

/-- **`LineEnds cs text`** — `text` is `cs` with a carriage return before some of its line feeds. -/
inductive LineEnds : List Char → List Char → Prop where
  | nil : LineEnds [] []
  | char {c : Char} {cs text : List Char} : c ≠ '\r' → LineEnds cs text →
      LineEnds (c :: cs) (c :: text)
  | returned {cs text : List Char} : LineEnds cs text → LineEnds ('\n' :: cs) ('\r' :: '\n' :: text)

/-- No line feed needs a carriage return. -/
theorem lineEnds_self {cs : List Char} (h : '\r' ∉ cs) : LineEnds cs cs := by
  induction cs with
  | nil => exact .nil
  | cons c cs ih =>
    rw [List.mem_cons, not_or] at h
    exact .char (Ne.symm h.1) (ih h.2)

/-- **`Document most depth as text`** — `text` is a document of the assignments `as`: rows, and
perhaps a byte order mark in front. -/
inductive Document (as : List Assignment) (text : String) : Prop where
  | rows {mark cs body : List Char} : mark = [] ∨ mark = ['\ufeff'] → RowsSpelled most depth as cs →
      LineEnds cs body → text.toList = mark ++ body → Document as text

end Documents

end Toml

end Chalkboard
