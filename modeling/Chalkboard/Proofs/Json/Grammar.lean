import Chalkboard.Json.Lexer
import Chalkboard.Proofs.Decimal.Literal

/-!
# The grammar of JSON

A JSON text spells the tokens of one value, with blanks before, between and behind them. The tokens
of a value are certain; each of them may be spelled in several ways: a character of a string stands
for itself or is escaped, an exponent begins with a small or a capital letter. Half of a surrogate
pair may be escaped by itself, and then the string is no text.

* `Numeral.Spelled`, `Piece.Spelled`, `Token.Spelled` — the ways to spell one of them.
* `Lexed` — tokens with blanks between them.
* `Json.tokens` — the tokens of a value.
* `Json.Spells` — the texts of a value.

Nothing here is computed by the reader: it is shown elsewhere that it reads these texts and no
others.
-/

namespace Chalkboard

namespace Json

/-! ## Numbers -/

/-- **`IsWhole ds`** — digits without a superfluous zero in front. -/
inductive IsWhole : List Char → Prop where
  | zero : IsWhole ['0']
  | digits {d : Char} {ds : List Char} : d ≠ '0' → AllDigits (d :: ds) → IsWhole (d :: ds)

/-- **`FractionSpelled ds word`** — `word` is a point with the digits `ds` behind it, or nothing. -/
inductive FractionSpelled : List Char → List Char → Prop where
  | none : FractionSpelled [] []
  | point {ds : List Char} : ds ≠ [] → AllDigits ds → FractionSpelled ds ('.' :: ds)

/-- **`ExponentSpelled e word`** — `word` is an exponent with the sign and digits of `e`. -/
inductive ExponentSpelled : Option (Bool × List Char) → List Char → Prop where
  | none : ExponentSpelled none []
  /-- An exponent whose sign is plain to see, or left out. -/
  | some {mark : Char} {negative : Bool} {sign ds : List Char} : mark = 'e' ∨ mark = 'E' →
      (negative = true ∧ sign = ['-'] ∨ negative = false ∧ (sign = ['+'] ∨ sign = [])) →
      ds ≠ [] → AllDigits ds → ExponentSpelled (some (negative, ds)) (mark :: (sign ++ ds))

/-- The minus of a number. -/
def minus (negative : Bool) : List Char :=
  if negative then ['-'] else []

/-- **`x.Spelled word`** — `word` is the number `x`. -/
inductive Numeral.Spelled (x : Numeral) : List Char → Prop where
  | parts {fraction exponent : List Char} : IsWhole x.whole →
      FractionSpelled x.fraction fraction → ExponentSpelled x.exponent exponent →
      x.Spelled (minus x.negative ++ (x.whole ++ (fraction ++ exponent)))

/-! ## Strings -/

/-- **`p.Spelled word`** — `word` contributes the piece `p` to a string. -/
inductive Piece.Spelled : Piece → List Char → Prop where
  | raw {c : Char} : c ≠ '"' → c ≠ '\\' → 0x20 ≤ c.toNat → Spelled (.char c) [c]
  | escape {e c : Char} : simpleEscape? e = some c → Spelled (.char c) ['\\', e]
  /-- A backslash and sixteen bits. -/
  | unit {a b c d : Char} {unit : Nat} : hexValue? [a, b, c, d] = some unit →
      Spelled (pieceOfUnit unit) ['\\', 'u', a, b, c, d]

/-- **`PiecesSpelled ps word`** — `word` contributes the pieces `ps` one after another. -/
inductive PiecesSpelled : List Piece → List Char → Prop where
  | nil : PiecesSpelled [] []
  | cons {p : Piece} {ps : List Piece} {word rest : List Char} :
      p.Spelled word → PiecesSpelled ps rest → PiecesSpelled (p :: ps) (word ++ rest)

/-- The string that pieces make up; it is a text unless a half stands alone. -/
def stringOfPieces (ps : List Piece) : Option String :=
  (joinPieces? ps).map String.ofList

/-! ## Tokens -/

/-- **`t.Spelled word`** — `word` is the token `t`. -/
inductive Token.Spelled : Token → List Char → Prop where
  | mark {c : Char} : isMark c = true → Spelled (.mark c) [c]
  | literalNull : Spelled (.scalar .null) ['n', 'u', 'l', 'l']
  | literalTrue : Spelled (.scalar (.bool true)) ['t', 'r', 'u', 'e']
  | literalFalse : Spelled (.scalar (.bool false)) ['f', 'a', 'l', 's', 'e']
  | number {x : Numeral} {word : List Char} : x.Spelled word → Spelled (.scalar (.number x)) word
  | string {ps : List Piece} {word : List Char} : PiecesSpelled ps word →
      Spelled (.scalar (.string (stringOfPieces ps))) ('"' :: (word ++ ['"']))

/-- **`Lexed ts cs`** — `cs` is the tokens `ts` with blanks before, between and behind them. -/
inductive Lexed : List Token → List Char → Prop where
  | nil {blanks : List Char} : blanks.all isBlank = true → Lexed [] blanks
  | cons {blanks word rest : List Char} {t : Token} {ts : List Token} :
      blanks.all isBlank = true → t.Spelled word → Lexed ts rest →
      Lexed (t :: ts) (blanks ++ (word ++ rest))

/-! ## Values -/

mutual

/-- The tokens of a value. -/
def tokens : Json → List Token
  | .array items => .mark '[' :: itemsTokens items
  | .object members => .mark '\x7b' :: membersTokens members
  | v => [.scalar v]

/-- The tokens of the items of an array, and its closing bracket. -/
def itemsTokens : List Json → List Token
  | [] => [.mark ']']
  | [v] => tokens v ++ [.mark ']']
  | v :: vs => tokens v ++ .mark ',' :: itemsTokens vs

/-- The tokens of the members of an object, and its closing brace. -/
def membersTokens : List (Option String × Json) → List Token
  | [] => [.mark '\x7d']
  | [(name, v)] => .scalar (.string name) :: .mark ':' :: (tokens v ++ [.mark '\x7d'])
  | (name, v) :: ms =>
    .scalar (.string name) :: .mark ':' :: (tokens v ++ .mark ',' :: membersTokens ms)

end

/-- Items before the last are followed by a comma. -/
theorem itemsTokens_cons (v : Json) {vs : List Json} (h : vs ≠ []) :
    itemsTokens (v :: vs) = v.tokens ++ .mark ',' :: itemsTokens vs := by
  cases vs with
  | nil => exact absurd rfl h
  | cons => rfl

/-- Members before the last are followed by a comma. -/
theorem membersTokens_cons (name : Option String) (v : Json) {ms : List (Option String × Json)}
    (h : ms ≠ []) : membersTokens ((name, v) :: ms) =
      .scalar (.string name) :: .mark ':' :: (v.tokens ++ .mark ',' :: membersTokens ms) := by
  cases ms with
  | nil => exact absurd rfl h
  | cons => rfl

/-- **`v.Spells text`** — `text` is a JSON text of the value `v`. -/
def Spells (v : Json) (text : String) : Prop :=
  Lexed v.tokens text.toList

end Json

end Chalkboard
