import Chalkboard.Json.Basic

/-!
# The tokens of JSON

Brackets, separators, literals, numbers and strings, with blanks between them. A string token is
given as the text that its characters and escapes denote; an escape that is half of a surrogate pair
must stand beside its other half for the string to be a text.
-/

namespace Chalkboard

namespace Json

/-- A token. -/
inductive Token where
  /-- One of `[ ] { } , :`. -/
  | mark (c : Char)
  | scalar (value : Json)

/-- Space, tab, line feed and carriage return. -/
def isBlank (c : Char) : Bool :=
  c = ' ' || c = '\t' || c = '\n' || c = '\r'

/-- The six characters that are tokens by themselves. -/
def isMark (c : Char) : Bool :=
  c = '[' || c = ']' || c = '\x7b' || c = '\x7d' || c = ',' || c = ':'

/-! ## Strings -/

/-- What one character or escape contributes to a string. -/
inductive Piece where
  | char (c : Char)
  /-- Half of a surrogate pair. -/
  | half (unit : Nat)

/-- The value of a hexadecimal digit. -/
def hexDigit? (c : Char) : Option Nat :=
  if c.isDigit then some (c.toNat - '0'.toNat)
  else if 'a' ≤ c ∧ c ≤ 'f' then some (c.toNat - 'a'.toNat + 10)
  else if 'A' ≤ c ∧ c ≤ 'F' then some (c.toNat - 'A'.toNat + 10)
  else none

/-- The value of hexadecimal digits, from the left. -/
def hexValue? (cs : List Char) : Option Nat :=
  cs.foldlM (fun acc c => (hexDigit? c).map (16 * acc + ·)) 0

/-- The piece with the given sixteen bits. -/
def pieceOfUnit (unit : Nat) : Piece :=
  if 0xD800 ≤ unit ∧ unit < 0xE000 then .half unit else .char (Char.ofNat unit)

/-- The character that a backslash and one more character denote. -/
def simpleEscape? : Char → Option Char
  | '"' => some '"'
  | '\\' => some '\\'
  | '/' => some '/'
  | 'b' => some '\x08'
  | 'f' => some '\x0c'
  | 'n' => some '\n'
  | 'r' => some '\r'
  | 't' => some '\t'
  | _ => none

/-- The pieces up to the closing quote, and what follows it. -/
def scanString : List Char → Option (List Piece × List Char)
  | [] => none
  | '"' :: rest => some ([], rest)
  | '\\' :: 'u' :: a :: b :: c :: d :: rest => do
    let unit ← hexValue? [a, b, c, d]
    let (pieces, rest) ← scanString rest
    return (pieceOfUnit unit :: pieces, rest)
  | '\\' :: e :: rest => do
    let c ← simpleEscape? e
    let (pieces, rest) ← scanString rest
    return (.char c :: pieces, rest)
  | c :: rest =>
    if c = '\\' ∨ c.toNat < 0x20 then
      none
    else do
      let (pieces, rest) ← scanString rest
      return (.char c :: pieces, rest)

/-- The text of pieces, if every half stands in a pair. -/
def joinPieces? : List Piece → Option (List Char)
  | [] => some []
  | .char c :: ps => (joinPieces? ps).map (c :: ·)
  | .half high :: .half low :: ps =>
    if high < 0xDC00 ∧ 0xDC00 ≤ low then
      (joinPieces? ps).map (Char.ofNat (0x10000 + (high - 0xD800) * 0x400 + (low - 0xDC00)) :: ·)
    else
      none
  | .half _ :: _ => none

/-! ## Numbers -/

/-- At least one digit, and what follows the digits. -/
def scanDigits? (cs : List Char) : Option (List Char × List Char) :=
  match spanDigits cs with
  | ([], _) => none
  | (ds, rest) => some (ds, rest)

/-- The digits before the point: a zero stands alone. -/
def scanWhole? : List Char → Option (List Char × List Char)
  | '0' :: rest => some (['0'], rest)
  | cs => scanDigits? cs

/-- The digits behind a point, if there is one. -/
def scanFraction? : List Char → Option (List Char × List Char)
  | '.' :: rest => scanDigits? rest
  | cs => some ([], cs)

/-- The sign of an exponent, and what follows it. -/
def scanExponentSign : List Char → Bool × List Char
  | '-' :: rest => (true, rest)
  | '+' :: rest => (false, rest)
  | rest => (false, rest)

/-- An exponent, if there is one. -/
def scanExponent? : List Char → Option (Option (Bool × List Char) × List Char)
  | [] => some (none, [])
  | c :: rest =>
    if c = 'e' ∨ c = 'E' then
      let (negative, rest) := scanExponentSign rest
      (scanDigits? rest).map fun (ds, rest) => (some (negative, ds), rest)
    else
      some (none, c :: rest)

/-- A number without its sign. -/
def scanUnsigned? (negative : Bool) (cs : List Char) : Option (Numeral × List Char) := do
  let (whole, rest) ← scanWhole? cs
  let (fraction, rest) ← scanFraction? rest
  let (exponent, rest) ← scanExponent? rest
  return (⟨negative, whole, fraction, exponent⟩, rest)

/-- A number. -/
def scanNumber? : List Char → Option (Numeral × List Char)
  | '-' :: rest => scanUnsigned? true rest
  | cs => scanUnsigned? false cs

/-! ## Tokens -/

/-- The token at the front of a text that does not begin with a blank. -/
def scanToken? : List Char → Option (Token × List Char)
  | '"' :: rest => (scanString rest).map fun (pieces, rest) =>
      (.scalar (.string ((joinPieces? pieces).map String.ofList)), rest)
  | 'n' :: 'u' :: 'l' :: 'l' :: rest => some (.scalar .null, rest)
  | 't' :: 'r' :: 'u' :: 'e' :: rest => some (.scalar (.bool true), rest)
  | 'f' :: 'a' :: 'l' :: 's' :: 'e' :: rest => some (.scalar (.bool false), rest)
  | c :: rest =>
    if isMark c then some (.mark c, rest)
    else (scanNumber? (c :: rest)).map fun (x, rest) => (.scalar (.number x), rest)
  | [] => none

theorem length_lt_of_scanString {cs rest : List Char} {ps : List Piece}
    (h : scanString cs = some (ps, rest)) : rest.length < cs.length := by
  fun_induction scanString cs generalizing ps rest with
  | case1 => simp at h
  | case2 => simp_all
  | case3 a b c d tail ih =>
    simp only [bind, Option.bind_eq_some_iff, pure, Option.some.injEq, Prod.mk.injEq] at h
    obtain ⟨_, _, ⟨_, _⟩, h', _, rfl⟩ := h
    have := ih h'
    simp only [List.length_cons]
    omega
  | case4 e tail _ ih =>
    simp only [bind, Option.bind_eq_some_iff, pure, Option.some.injEq, Prod.mk.injEq] at h
    obtain ⟨_, _, ⟨_, _⟩, h', _, rfl⟩ := h
    have := ih h'
    simp only [List.length_cons]
    omega
  | case5 => simp at h
  | case6 c tail _ _ _ _ ih =>
    simp only [bind, Option.bind_eq_some_iff, pure, Option.some.injEq, Prod.mk.injEq] at h
    obtain ⟨⟨_, _⟩, h', _, rfl⟩ := h
    have := ih h'
    simp only [List.length_cons]
    omega

theorem length_lt_of_scanDigits? {cs ds rest : List Char} (h : scanDigits? cs = some (ds, rest)) :
    rest.length < cs.length := by
  have whole : cs.takeWhile Char.isDigit ++ cs.dropWhile Char.isDigit = cs :=
    List.takeWhile_append_dropWhile
  unfold scanDigits? spanDigits at h
  split at h
  · cases h
  · next ds' rest' ne eq =>
    simp only [Prod.mk.injEq] at eq
    simp only [Option.some.injEq, Prod.mk.injEq] at h
    obtain ⟨rfl, rfl⟩ := h
    rw [eq.1, eq.2] at whole
    rw [← whole, List.length_append]
    have : ds'.length ≠ 0 := fun zero => ne (List.eq_nil_of_length_eq_zero zero)
    omega

theorem length_lt_of_scanWhole? {cs ds rest : List Char} (h : scanWhole? cs = some (ds, rest)) :
    rest.length < cs.length := by
  unfold scanWhole? at h
  split at h
  · cases h; simp
  · exact length_lt_of_scanDigits? h

theorem length_le_of_scanFraction? {cs ds rest : List Char}
    (h : scanFraction? cs = some (ds, rest)) : rest.length ≤ cs.length := by
  unfold scanFraction? at h
  split at h
  · have := length_lt_of_scanDigits? h
    simp only [List.length_cons]
    omega
  · cases h; simp

theorem length_le_of_scanExponent? {cs rest : List Char} {e : Option (Bool × List Char)}
    (h : scanExponent? cs = some (e, rest)) : rest.length ≤ cs.length := by
  unfold scanExponent? at h
  split at h
  · cases h; simp
  · next c tail =>
    split at h
    · simp only [Option.map_eq_some_iff] at h
      obtain ⟨⟨ds, left⟩, h', eq⟩ := h
      simp only [Prod.mk.injEq] at eq
      obtain ⟨-, rfl⟩ := eq
      have short := length_lt_of_scanDigits? h'
      have sign : (scanExponentSign tail).2.length ≤ tail.length := by
        unfold scanExponentSign
        split <;> simp
      simp only [List.length_cons]
      omega
    · cases h; simp

theorem length_lt_of_scanUnsigned? {cs rest : List Char} {negative : Bool} {x : Numeral}
    (h : scanUnsigned? negative cs = some (x, rest)) : rest.length < cs.length := by
  simp only [scanUnsigned?, bind, Option.bind_eq_some_iff, pure, Option.some.injEq,
    Prod.mk.injEq] at h
  obtain ⟨⟨_, _⟩, h1, ⟨_, _⟩, h2, ⟨_, _⟩, h3, _, rfl⟩ := h
  have h1 := length_lt_of_scanWhole? h1
  have h2 := length_le_of_scanFraction? h2
  have h3 := length_le_of_scanExponent? h3
  simp only at h1 h2 h3 ⊢
  omega

theorem length_lt_of_scanNumber? {cs rest : List Char} {x : Numeral}
    (h : scanNumber? cs = some (x, rest)) : rest.length < cs.length := by
  unfold scanNumber? at h
  split at h
  · have := length_lt_of_scanUnsigned? h
    simp only [List.length_cons]
    omega
  · exact length_lt_of_scanUnsigned? h

/-- A token leaves less than there was. -/
theorem length_lt_of_scanToken? {cs rest : List Char} {t : Token}
    (h : scanToken? cs = some (t, rest)) : rest.length < cs.length := by
  unfold scanToken? at h
  split at h
  · simp only [Option.map_eq_some_iff] at h
    obtain ⟨⟨ps, left⟩, h', eq⟩ := h
    simp only [Prod.mk.injEq] at eq
    obtain ⟨-, rfl⟩ := eq
    have := length_lt_of_scanString h'
    simp only [List.length_cons]
    omega
  · cases h; simp only [List.length_cons]; omega
  · cases h; simp only [List.length_cons]; omega
  · cases h; simp only [List.length_cons]; omega
  · split at h
    · cases h; simp
    · simp only [Option.map_eq_some_iff] at h
      obtain ⟨⟨x, left⟩, h', eq⟩ := h
      simp only [Prod.mk.injEq] at eq
      obtain ⟨-, rfl⟩ := eq
      exact length_lt_of_scanNumber? h'
  · cases h

/-- The tokens of a text. -/
def tokens? (cs : List Char) : Option (List Token) :=
  match cs with
  | [] => some []
  | c :: rest =>
    if isBlank c then
      tokens? rest
    else
      match scan : scanToken? (c :: rest) with
      | none => none
      | some (t, left) =>
        have := length_lt_of_scanToken? scan
        (tokens? left).map (t :: ·)
termination_by cs.length
decreasing_by all_goals simp_all

end Json

end Chalkboard
