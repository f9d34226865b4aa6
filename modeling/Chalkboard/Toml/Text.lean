import Chalkboard.Toml.Scalar

/-!
# TOML strings and keys

There are four kinds of strings: with escapes or without, on one line or on several. A key is one
string on one line or a bare word, or several of them with dots between. Line feeds are the only
line ends here: a carriage return before one is dropped beforehand, and any other is refused.
-/

namespace Chalkboard

namespace Toml

/-- Characters that may stand in comments and, apart from quotes and backslashes, in strings on one
line. -/
def isPlain (c : Char) : Bool :=
  c = '\t' || (0x20 ≤ c.toNat && c.toNat ≠ 0x7F)

/-- The value of a hexadecimal digit string. -/
def hexValue? (cs : List Char) : Option Nat :=
  if cs.all (isDigitOf 16) then some (cs.foldl (fun acc c => 16 * acc + digitValue c) 0) else none

/-- The character with a code point; surrogates and numbers past the last one have none. -/
def charOfCode? (n : Nat) : Option Char :=
  if n < 0xD800 ∨ (0xE000 ≤ n ∧ n < 0x110000) then some (Char.ofNat n) else none

/-- The character that a backslash and one more character denote. -/
def escape? : Char → Option Char
  | 'b' => some '\x08'
  | 't' => some '\t'
  | 'n' => some '\n'
  | 'f' => some '\x0c'
  | 'r' => some '\r'
  | '"' => some '"'
  | '\\' => some '\\'
  | _ => none

/-- The character that the text behind a backslash denotes, and what follows it. -/
def scanEscape? : List Char → Option (Char × List Char)
  | 'u' :: r =>
    if (r.take 4).length = 4 then
      ((hexValue? (r.take 4)).bind charOfCode?).map (·, r.drop 4)
    else none
  | 'U' :: r =>
    if (r.take 8).length = 8 then
      ((hexValue? (r.take 8)).bind charOfCode?).map (·, r.drop 8)
    else none
  | c :: r => (escape? c).map (·, r)
  | [] => none

theorem length_lt_of_scanEscape? {cs rest : List Char} {c : Char}
    (h : scanEscape? cs = some (c, rest)) : rest.length < cs.length := by
  unfold scanEscape? at h
  split at h
  · next r =>
    split at h
    · simp only [Option.map_eq_some_iff, Prod.mk.injEq] at h
      obtain ⟨_, _, _, rfl⟩ := h
      simp only [List.length_drop, List.length_cons]
      omega
    · cases h
  · next r =>
    split at h
    · simp only [Option.map_eq_some_iff, Prod.mk.injEq] at h
      obtain ⟨_, _, _, rfl⟩ := h
      simp only [List.length_drop, List.length_cons]
      omega
    · cases h
  · simp only [Option.map_eq_some_iff, Prod.mk.injEq] at h
    obtain ⟨_, _, _, rfl⟩ := h
    simp
  · cases h

/-! ## Strings on one line -/

/-- A string with escapes up to its closing quote, and what follows it. -/
def scanBasic (cs : List Char) : Option (List Char × List Char) :=
  match cs with
  | [] => none
  | c :: r =>
    if c = '"' then some ([], r)
    else if c = '\\' then
      match escape : scanEscape? r with
      | none => none
      | some (e, left) =>
        have := length_lt_of_scanEscape? escape
        (scanBasic left).map fun (s, rest) => (e :: s, rest)
    else if isPlain c then (scanBasic r).map fun (s, rest) => (c :: s, rest)
    else none
termination_by cs.length
decreasing_by all_goals simp_all; try omega

/-- A string without escapes up to its closing quote, and what follows it. -/
def scanLiteral : List Char → Option (List Char × List Char)
  | [] => none
  | c :: r =>
    if c = '\'' then some ([], r)
    else if isPlain c then (scanLiteral r).map fun (s, rest) => (c :: s, rest)
    else none

/-! ## Strings on several lines -/

/-- What follows a backslash at the end of a line: blanks, a line feed, and then blanks and line
feeds. -/
def afterBreak? (cs : List Char) : Option (List Char) :=
  match cs.dropWhile isBlank with
  | '\n' :: r => some (r.dropWhile fun c => isBlank c || c = '\n')
  | _ => none

theorem length_lt_of_afterBreak? {cs rest : List Char} (h : afterBreak? cs = some rest) :
    rest.length < cs.length := by
  unfold afterBreak? at h
  split at h
  · next r eq =>
    cases h
    have outer := (List.dropWhile_suffix (l := cs) isBlank).length_le
    have inner := (List.dropWhile_suffix (l := r) fun c => isBlank c || decide (c = '\n')).length_le
    rw [eq, List.length_cons] at outer
    omega
  · cases h

/-- A string with escapes up to its three closing quotes, and what follows them. One or two quotes
more belong to the string. -/
def scanBasicLines (cs : List Char) : Option (List Char × List Char) :=
  match cs with
  | '"' :: '"' :: '"' :: '"' :: '"' :: r => some (['"', '"'], r)
  | '"' :: '"' :: '"' :: '"' :: r => some (['"'], r)
  | '"' :: '"' :: '"' :: r => some ([], r)
  | [] => none
  | c :: r =>
    if c = '\\' then
      match line : afterBreak? r with
      | some left =>
        have := length_lt_of_afterBreak? line
        scanBasicLines left
      | none =>
        match escape : scanEscape? r with
        | none => none
        | some (e, left) =>
          have := length_lt_of_scanEscape? escape
          (scanBasicLines left).map fun (s, rest) => (e :: s, rest)
    else if isPlain c ∨ c = '\n' then (scanBasicLines r).map fun (s, rest) => (c :: s, rest)
    else none
termination_by cs.length
decreasing_by all_goals simp_all; try omega

/-- A string without escapes up to its three closing quotes, and what follows them. -/
def scanLiteralLines : List Char → Option (List Char × List Char)
  | '\'' :: '\'' :: '\'' :: '\'' :: '\'' :: r => some (['\'', '\''], r)
  | '\'' :: '\'' :: '\'' :: '\'' :: r => some (['\''], r)
  | '\'' :: '\'' :: '\'' :: r => some ([], r)
  | [] => none
  | c :: r =>
    if isPlain c ∨ c = '\n' then (scanLiteralLines r).map fun (s, rest) => (c :: s, rest)
    else none

/-- A text without a line feed at its front: one that follows three opening quotes does not belong
to the string. -/
def dropFirstBreak : List Char → List Char
  | '\n' :: r => r
  | r => r

/-- The string at the front of a text, and what follows it. -/
def scanString? : List Char → Option (List Char × List Char)
  | '"' :: '"' :: '"' :: r => scanBasicLines (dropFirstBreak r)
  | '\'' :: '\'' :: '\'' :: r => scanLiteralLines (dropFirstBreak r)
  | '"' :: r => scanBasic r
  | '\'' :: r => scanLiteral r
  | _ => none

/-! ## Keys -/

/-- Characters of bare words. -/
def isBare (c : Char) : Bool :=
  c.isAlphanum || c = '_' || c = '-'

/-- One part of a key with the blanks around it, and what follows it. -/
def scanKeyPart? (cs : List Char) : Option (String × List Char) :=
  let part := match cs.dropWhile isBlank with
    | '"' :: r => scanBasic r
    | '\'' :: r => scanLiteral r
    | r => if (r.takeWhile isBare).isEmpty then none else some (r.takeWhile isBare, r.dropWhile isBare)
  part.map fun (s, rest) => (String.ofList s, rest.dropWhile isBlank)

/-- Items with a separator between them, and what follows the last. An item that takes nothing is
none. -/
def scanSeparated {α : Type} (item : List Char → Option (α × List Char)) (separator : Char)
    (cs : List Char) : Option (List α × List Char) :=
  match item cs with
  | none => none
  | some (x, []) => some ([x], [])
  | some (x, c :: rest) =>
    if c = separator then
      if rest.length < cs.length then
        (scanSeparated item separator rest).map fun (xs, left) => (x :: xs, left)
      else
        none
    else
      some ([x], c :: rest)
termination_by cs.length

/-- Most parts that a key may have. -/
def maxKeyParts : Nat := 79

/-- The parts of a key, all but the last and the last, and what follows it. -/
def scanKey? (cs : List Char) : Option ((List String × String) × List Char) :=
  match scanSeparated scanKeyPart? '.' cs with
  | some (parts, rest) =>
    if maxKeyParts < parts.length then none
    else parts.getLast?.map fun name => ((parts.dropLast, name), rest)
  | none => none

end Toml

end Chalkboard
