import Chalkboard.Decimal.Literal
import Chalkboard.Toml.Basic

/-!
# TOML numbers, dates and truth values

Everything that is neither text, array nor table is one run of characters up to the next blank,
comma, bracket or comment; only between a date and a time may a blank stand. The run decides alone
what it is.
-/

namespace Chalkboard

namespace Toml

/-- Space and tab. -/
def isBlank (c : Char) : Bool :=
  c = ' ' || c = '\t'

/-- Characters that end a run. -/
def endsRun (c : Char) : Bool :=
  isBlank c || c = '\n' || c = '#' || c = ',' || c = ']' || c = '\x7d'

/-! ## Numbers -/

/-- Digits in which single underscores may stand between two digits, without the underscores. -/
def digitsBetween? (isDigit : Char → Bool) : List Char → Option (List Char)
  | [] => none
  | [c] => if isDigit c then some [c] else none
  | c :: '_' :: cs => if isDigit c then (digitsBetween? isDigit cs).map (c :: ·) else none
  | c :: cs => if isDigit c then (digitsBetween? isDigit cs).map (c :: ·) else none

/-- A sign, and what follows it. -/
def spanSign : List Char → Bool × List Char
  | '-' :: r => (true, r)
  | '+' :: r => (false, r)
  | r => (false, r)

/-- The digits of a decimal whole number: a zero stands alone. -/
def wholeDigits? (cs : List Char) : Option (List Char) :=
  match digitsBetween? Char.isDigit cs with
  | some ds => if cs.head? = some '0' ∧ cs ≠ ['0'] then none else some ds
  | none => none

/-- The value of a digit in a base up to sixteen. -/
def digitValue (c : Char) : Nat :=
  if c.isDigit then c.toNat - '0'.toNat else c.toLower.toNat - 'a'.toNat + 10

/-- Whether a character is a digit of a base up to sixteen. -/
def isDigitOf (base : Nat) (c : Char) : Bool :=
  (c.isDigit || ('a' ≤ c.toLower && c.toLower ≤ 'f')) && digitValue c < base

/-- A whole number in a base other than ten. -/
def readBased? (base : Nat) (cs : List Char) : Option Int :=
  (digitsBetween? (isDigitOf base) cs).map fun ds =>
    (ds.foldl (fun acc c => base * acc + digitValue c) 0 : Nat)

/-- A whole number of any size. -/
def readWhole? : List Char → Option Int
  | '0' :: 'x' :: cs => readBased? 16 cs
  | '0' :: 'o' :: cs => readBased? 8 cs
  | '0' :: 'b' :: cs => readBased? 2 cs
  | cs =>
    let (negative, cs) := spanSign cs
    (wholeDigits? cs).map fun ds =>
      let n : Int := digitsValue ds
      if negative then -n else n

/-- A whole number of 64 bits. -/
def readInteger? (cs : List Char) : Option Int :=
  (readWhole? cs).filter fun n => -integerBound ≤ n && n < integerBound

/-- Whether a character belongs to digits with underscores. -/
def isDigitOrUnderscore (c : Char) : Bool :=
  c.isDigit || c = '_'

/-- The exponent of a decimal number. -/
def readPower? (cs : List Char) : Option Int :=
  let (negative, cs) := spanSign cs
  (digitsBetween? Char.isDigit cs).map fun ds =>
    let n : Int := digitsValue ds
    if negative then -n else n

/-- A decimal number with a fraction, an exponent, or both. -/
def readDecimal? (cs : List Char) : Option Decimal := do
  let whole ← wholeDigits? (cs.takeWhile isDigitOrUnderscore)
  match cs.dropWhile isDigitOrUnderscore with
  | '.' :: r =>
    let fraction ← digitsBetween? Char.isDigit (r.takeWhile isDigitOrUnderscore)
    let value (power : Int) : Decimal := ⟨digitsValue (whole ++ fraction), power - fraction.length⟩
    match r.dropWhile isDigitOrUnderscore with
    | [] => return value 0
    | c :: r => if c = 'e' ∨ c = 'E' then (readPower? r).map value else none
  | c :: r => if c = 'e' ∨ c = 'E' then (readPower? r).map (⟨digitsValue whole, ·⟩) else none
  | [] => none

/-- A number that is not whole; one past the largest is refused, one below the smallest is infinite.
The words `inf` and `nan` may have a sign. -/
def readReal? (cs : List Char) : Option Float :=
  let (negative, unsigned) := spanSign cs
  if unsigned = ['i', 'n', 'f'] then
    some (Binary64.ofPattern negative Binary64.infinity)
  else if unsigned = ['n', 'a', 'n'] then
    some (0.0 / 0.0)
  else
    ((readDecimal? unsigned).map (Decimal.toFloat negative)).filter fun x => negative || !x.isInf

/-! ## Dates and times -/

/-- The value of exactly `n` digits at the front, and what follows them. -/
def fixedDigits? (n : Nat) (cs : List Char) : Option (Nat × List Char) :=
  let ds := cs.take n
  if ds.length = n ∧ ds.all Char.isDigit then some (digitsValue ds, cs.drop n) else none

/-- A given character at the front; what follows it. -/
def afterChar? (c : Char) : List Char → Option (List Char)
  | d :: r => if d = c then some r else none
  | [] => none

/-- The number of days of a month. -/
def daysIn (year month : Nat) : Nat :=
  if month = 2 then
    if year % 4 = 0 ∧ (year % 100 ≠ 0 ∨ year % 400 = 0) then 29 else 28
  else if month = 4 ∨ month = 6 ∨ month = 9 ∨ month = 11 then 30
  else 31

/-- What follows a date. -/
def afterDate? (cs : List Char) : Option (List Char) := do
  let (year, r) ← fixedDigits? 4 cs
  let (month, r) ← fixedDigits? 2 (← afterChar? '-' r)
  let (day, r) ← fixedDigits? 2 (← afterChar? '-' r)
  if 1 ≤ month ∧ month ≤ 12 ∧ 1 ≤ day ∧ day ≤ daysIn year month then some r else none

/-- What follows the fraction of a second, if there is one. -/
def afterFraction? : List Char → Option (List Char)
  | '.' :: r => if (r.takeWhile Char.isDigit).isEmpty then none else some (r.dropWhile Char.isDigit)
  | r => some r

/-- What follows a time of day; a minute may have a second too many. -/
def afterTime? (cs : List Char) : Option (List Char) := do
  let (hour, r) ← fixedDigits? 2 cs
  let (minute, r) ← fixedDigits? 2 (← afterChar? ':' r)
  let (second, r) ← fixedDigits? 2 (← afterChar? ':' r)
  if hour < 24 ∧ minute < 60 ∧ second ≤ 60 then afterFraction? r else none

/-- Whether a text is nothing, `Z`, or a difference to universal time. -/
def isOffset : List Char → Bool
  | [] => true
  | [c] => c = 'Z' || c = 'z'
  | c :: r =>
    (c = '+' || c = '-') &&
      match fixedDigits? 2 r with
      | some (hour, ':' :: r) =>
        match fixedDigits? 2 r with
        | some (minute, []) => hour < 24 && minute < 60
        | _ => false
      | _ => false

/-- Whether a text is a time of day with at most a difference to universal time behind it. -/
def isZonedTime (cs : List Char) : Bool :=
  match afterTime? cs with
  | some r => isOffset r
  | none => false

/-- Whether a text is a date, a time of day, or a date and a time with a `T` between them. -/
def isMoment (cs : List Char) : Bool :=
  match afterDate? cs with
  | some [] => true
  | some (c :: r) => (c = 'T' || c = 't') && isZonedTime r
  | none => afterTime? cs = some []

/-- Whether a text is a date alone. -/
def isDate (cs : List Char) : Bool :=
  afterDate? cs = some []

/-! ## Runs -/

/-- What a run denotes. -/
def ofRun? (cs : List Char) : Option Value :=
  if cs = ['t', 'r', 'u', 'e'] then some (.boolean true)
  else if cs = ['f', 'a', 'l', 's', 'e'] then some (.boolean false)
  else if isMoment cs then some (.moment cs)
  else match readReal? cs with
    | some x => some (.float x)
    | none => (readInteger? cs).map .integer

/-- The run at the front of a text, what it denotes, and what follows it. -/
def scanRun? (cs : List Char) : Option (Value × List Char) :=
  let run := cs.takeWhile (!endsRun ·)
  let rest := cs.dropWhile (!endsRun ·)
  match isDate run, rest with
  | true, ' ' :: more =>
    let time := more.takeWhile (!endsRun ·)
    if isZonedTime time then some (.moment (run ++ ' ' :: time), more.dropWhile (!endsRun ·))
    else some (.moment run, rest)
  | _, _ => (ofRun? run).map fun v => (v, rest)

end Toml

end Chalkboard
