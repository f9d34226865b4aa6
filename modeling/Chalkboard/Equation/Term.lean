import Chalkboard.Decimal.Literal
import Chalkboard.Text.Digit

/-!
# Terms as they are written

A term is an optional sign, an optional coefficient and a letter. The coefficient is digits, digits
with a point behind or among them, or a point with digits behind it; digits of every script belong
to its shape, those of ASCII alone have a value.

`WrittenTerm.at?` reads the term at the front of a text. What it takes is determined: a sign, then
as many digits as there are, cannot be read as a shorter term, because the letter has to follow
immediately. `splitTerms` reads as many terms as follow one another, and `junk` is the part of the
remaining text before the next term.
-/

namespace Chalkboard

/-- The pieces of a term. -/
structure WrittenTerm where
  /-- Nothing, `+` or `-`. -/
  sign : List Char
  /-- Nothing, or the digits and the point of the coefficient. -/
  coefficient : List Char
  letter : Char
deriving DecidableEq

/-- Leading digits of any script, and what follows them. -/
def spanDecimalDigits (cs : List Char) : List Char × List Char :=
  (cs.takeWhile isDecimalDigit, cs.dropWhile isDecimalDigit)

/-- The sign at the front of a text, and what follows it. -/
def spanSign : List Char → List Char × List Char
  | '+' :: r => (['+'], r)
  | '-' :: r => (['-'], r)
  | r => ([], r)

/-- The longest coefficient at the front of a text, and what follows it. -/
def spanCoefficient (cs : List Char) : List Char × List Char :=
  match spanDecimalDigits cs with
  | ([], _) =>
    match cs with
    | '.' :: r =>
      match spanDecimalDigits r with
      | ([], _) => ([], cs)
      | (fraction, rest) => ('.' :: fraction, rest)
    | _ => ([], cs)
  | (whole, '.' :: r) => (whole ++ '.' :: (spanDecimalDigits r).1, (spanDecimalDigits r).2)
  | (whole, rest) => (whole, rest)

namespace WrittenTerm

/-- The characters of a term. -/
def chars (t : WrittenTerm) : List Char :=
  t.sign ++ t.coefficient ++ [t.letter]

/-- The number that a term adds to the coefficient of its letter, if it is finite: `1` when no
coefficient is written. -/
def value? (t : WrittenTerm) : Option Float :=
  let magnitude? :=
    if t.coefficient = [] then some 1.0 else readFinite? (String.ofList t.coefficient)
  magnitude?.map fun v => if t.sign = ['-'] then -v else v

/-- The term at the front of a text, and what follows it. -/
def at? (cs : List Char) : Option (WrittenTerm × List Char) :=
  let (sign, afterSign) := spanSign cs
  let (coefficient, afterCoefficient) := spanCoefficient afterSign
  match afterCoefficient with
  | c :: rest => if c.isAlpha then some (⟨sign, coefficient, c⟩, rest) else none
  | [] => none

end WrittenTerm

theorem append_spanDecimalDigits (cs : List Char) :
    (spanDecimalDigits cs).1 ++ (spanDecimalDigits cs).2 = cs :=
  List.takeWhile_append_dropWhile

theorem append_spanSign (cs : List Char) : (spanSign cs).1 ++ (spanSign cs).2 = cs := by
  unfold spanSign
  split <;> rfl

theorem append_spanCoefficient (cs : List Char) :
    (spanCoefficient cs).1 ++ (spanCoefficient cs).2 = cs := by
  have whole := append_spanDecimalDigits cs
  unfold spanCoefficient
  split
  · split
    · next r _ =>
      have fraction := append_spanDecimalDigits r
      split
      · rfl
      · next h => rw [h] at fraction; simp [← fraction]
    · rfl
  · next r _ h =>
    rw [h] at whole
    simp [← whole, append_spanDecimalDigits]
  · next h => rw [h] at whole; exact whole

namespace WrittenTerm

/-- A term and what follows it make up the text. -/
theorem chars_append_of_at? {cs rest : List Char} {t : WrittenTerm} (h : at? cs = some (t, rest)) :
    t.chars ++ rest = cs := by
  have sign := append_spanSign cs
  have coefficient := append_spanCoefficient (spanSign cs).2
  unfold at? at h
  simp only at h
  split at h
  · next after =>
    split at h
    · cases h
      rw [after] at coefficient
      simp only [chars, List.append_assoc, List.cons_append, List.nil_append]
      rw [coefficient, sign]
    · cases h
  · cases h

theorem length_lt_of_at? {cs rest : List Char} {t : WrittenTerm} (h : at? cs = some (t, rest)) :
    rest.length < cs.length := by
  rw [← chars_append_of_at? h]
  simp [chars]
  omega

end WrittenTerm

/-- As many terms as follow one another at the front of a text, and what follows them. -/
def splitTerms (cs : List Char) : List WrittenTerm × List Char :=
  match h : WrittenTerm.at? cs with
  | some (t, rest) =>
    have := WrittenTerm.length_lt_of_at? h
    let (ts, left) := splitTerms rest
    (t :: ts, left)
  | none => ([], cs)
termination_by cs.length

/-- The characters before the next term. -/
def junk : List Char → List Char
  | [] => []
  | c :: cs => if (WrittenTerm.at? (c :: cs)).isSome then [] else c :: junk cs

end Chalkboard
