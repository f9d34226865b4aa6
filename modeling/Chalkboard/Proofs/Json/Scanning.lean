import Mathlib.Data.List.Basic
import Chalkboard.Proofs.Json.Grammar

/-!
# Scanning JSON is splitting by the grammar

A scanner takes a spelled word off the front of a text, and every spelled word is taken off, if what
follows cannot belong to it. The only words that a longer one could begin with are numbers, and in a
value a mark or a blank follows each of them.

* `scanString_eq_some_iff` — strings end at the first quote that is not escaped.
* `exists_of_scanToken?`, `scanToken?_append` — one token.
* `tokens?_eq_some_iff` — all tokens of a text whose scalars stand apart.
-/

namespace Chalkboard

namespace Json

/-! ## What follows a word -/

/-- **`Stops rest`** — no character of a number stands in front of `rest`. -/
def Stops (rest : List Char) : Prop :=
  ∀ c ∈ rest.head?, c.isDigit = false ∧ c ≠ '.' ∧ c ≠ 'e' ∧ c ≠ 'E'

theorem stops_nil : Stops [] :=
  fun _ h => nomatch h

theorem stops_cons {c : Char} {rest : List Char}
    (h : c.isDigit = false ∧ c ≠ '.' ∧ c ≠ 'e' ∧ c ≠ 'E') : Stops (c :: rest) := by
  intro c' hc'
  cases hc'
  exact h

theorem stops_of_isMark {c : Char} {rest : List Char} (h : isMark c = true) :
    Stops (c :: rest) := by
  refine stops_cons ?_
  simp only [isMark, Bool.or_eq_true, decide_eq_true_eq] at h
  rcases h with ((((rfl | rfl) | rfl) | rfl) | rfl) | rfl <;> decide

theorem stops_of_isBlank {c : Char} {rest : List Char} (h : isBlank c = true) :
    Stops (c :: rest) := by
  refine stops_cons ?_
  simp only [isBlank, Bool.or_eq_true, decide_eq_true_eq] at h
  rcases h with ((rfl | rfl) | rfl) | rfl <;> decide

/-! ## Numbers -/

theorem IsWhole.exists_cons {ds : List Char} (h : IsWhole ds) :
    ∃ d rest, ds = d :: rest ∧ d.isDigit = true := by
  cases h with
  | zero => exact ⟨'0', [], rfl, rfl⟩
  | digits _ all => exact ⟨_, _, rfl, all _ (List.mem_cons_self ..)⟩

theorem exists_of_scanDigits? {cs ds rest : List Char} (h : scanDigits? cs = some (ds, rest)) :
    ds ≠ [] ∧ AllDigits ds ∧ cs = ds ++ rest := by
  have all := allDigits_spanDigits cs
  have split := append_spanDigits cs
  unfold scanDigits? at h
  split at h
  · exact nomatch h
  · next ds' rest' ne heq =>
    cases h
    rw [heq] at all split
    exact ⟨fun none => ne none, all, split.symm⟩

theorem scanDigits?_append {ds rest : List Char} (ne : ds ≠ []) (all : AllDigits ds)
    (stop : ∀ c ∈ rest.head?, c.isDigit = false) :
    scanDigits? (ds ++ rest) = some (ds, rest) := by
  unfold scanDigits?
  rw [spanDigits_append all stop]
  cases ds with
  | nil => exact absurd rfl ne
  | cons d ds => rfl

theorem exists_of_scanWhole? {cs ds rest : List Char} (h : scanWhole? cs = some (ds, rest)) :
    IsWhole ds ∧ cs = ds ++ rest := by
  unfold scanWhole? at h
  split at h
  · cases h
    exact ⟨.zero, rfl⟩
  · next notZero =>
    obtain ⟨ne, all, rfl⟩ := exists_of_scanDigits? h
    cases ds with
    | nil => exact absurd rfl ne
    | cons d ds =>
      refine ⟨.digits ?_ all, rfl⟩
      rintro rfl
      exact notZero _ rfl

theorem scanWhole?_append {ds rest : List Char} (h : IsWhole ds)
    (stop : ∀ c ∈ rest.head?, c.isDigit = false) : scanWhole? (ds ++ rest) = some (ds, rest) := by
  cases h with
  | zero => rfl
  | digits ne all =>
    unfold scanWhole?
    split
    · next heq =>
      rw [List.cons_append] at heq
      injection heq with heq
      exact absurd heq ne
    · exact scanDigits?_append (List.cons_ne_nil _ _) all stop

theorem exists_of_scanFraction? {cs ds rest : List Char}
    (h : scanFraction? cs = some (ds, rest)) :
    ∃ word, FractionSpelled ds word ∧ cs = word ++ rest := by
  unfold scanFraction? at h
  split at h
  · obtain ⟨ne, all, rfl⟩ := exists_of_scanDigits? h
    exact ⟨'.' :: ds, .point ne all, rfl⟩
  · cases h
    exact ⟨[], .none, rfl⟩

theorem scanFraction?_append {ds word rest : List Char} (h : FractionSpelled ds word)
    (stop : ∀ c ∈ rest.head?, c.isDigit = false ∧ c ≠ '.') :
    scanFraction? (word ++ rest) = some (ds, rest) := by
  cases h with
  | none =>
    unfold scanFraction?
    split
    · next heq =>
      rw [List.nil_append] at heq
      subst heq
      exact absurd rfl (stop '.' rfl).2
    · rfl
  | point ne all => exact scanDigits?_append ne all fun c hc => (stop c hc).1

theorem exists_of_scanExponentSign {cs rest : List Char} {negative : Bool}
    (h : scanExponentSign cs = (negative, rest)) :
    ∃ sign, (negative = true ∧ sign = ['-'] ∨ negative = false ∧ (sign = ['+'] ∨ sign = [])) ∧
      cs = sign ++ rest := by
  unfold scanExponentSign at h
  split at h <;> cases h
  · exact ⟨['-'], .inl ⟨rfl, rfl⟩, rfl⟩
  · exact ⟨['+'], .inr ⟨rfl, .inl rfl⟩, rfl⟩
  · exact ⟨[], .inr ⟨rfl, .inr rfl⟩, rfl⟩

theorem scanExponentSign_append {negative : Bool} {sign ds rest : List Char}
    (h : negative = true ∧ sign = ['-'] ∨ negative = false ∧ (sign = ['+'] ∨ sign = []))
    (ne : ds ≠ []) (all : AllDigits ds) :
    scanExponentSign (sign ++ (ds ++ rest)) = (negative, ds ++ rest) := by
  rcases h with ⟨rfl, rfl⟩ | ⟨rfl, rfl | rfl⟩
  · rfl
  · rfl
  · cases ds with
    | nil => exact absurd rfl ne
    | cons d ds =>
      -- a digit is no sign
      have digit := all d (List.mem_cons_self ..)
      unfold scanExponentSign
      split
      · next heq =>
        cases heq
        exact absurd digit (by decide)
      · next heq =>
        cases heq
        exact absurd digit (by decide)
      · rfl

theorem exists_of_scanExponent? {cs rest : List Char} {e : Option (Bool × List Char)}
    (h : scanExponent? cs = some (e, rest)) :
    ∃ word, ExponentSpelled e word ∧ cs = word ++ rest := by
  unfold scanExponent? at h
  split at h
  · cases h
    exact ⟨[], .none, rfl⟩
  · next mark tail =>
    split_ifs at h with hmark
    · obtain ⟨⟨ds, left⟩, digits, heq⟩ := Option.map_eq_some_iff.mp h
      cases heq
      obtain ⟨sign, hsign, htail⟩ := exists_of_scanExponentSign (Eq.refl (scanExponentSign tail))
      obtain ⟨ne, all, hleft⟩ := exists_of_scanDigits? digits
      refine ⟨mark :: (sign ++ ds), .some hmark hsign ne all, ?_⟩
      rw [List.cons_append, List.append_assoc, ← hleft, ← htail]
    · cases h
      exact ⟨[], .none, rfl⟩

theorem scanExponent?_append {e : Option (Bool × List Char)} {word rest : List Char}
    (h : ExponentSpelled e word) (stop : Stops rest) :
    scanExponent? (word ++ rest) = some (e, rest) := by
  cases h with
  | none =>
    cases rest with
    | nil => rfl
    | cons c rest =>
      obtain ⟨-, -, small, large⟩ := stop c rfl
      exact if_neg (not_or.mpr ⟨small, large⟩)
  | @some mark negative sign ds hmark hsign ne all =>
    have digits := scanDigits?_append ne all fun c hc => (stop c hc).1
    rw [List.cons_append, List.append_assoc]
    unfold scanExponent?
    simp only [if_pos hmark, scanExponentSign_append hsign ne all, digits, Option.map_some]

/-- Nothing of an exponent, or of what follows a number, continues a fraction. -/
theorem ExponentSpelled.stops {e : Option (Bool × List Char)} {word rest : List Char}
    (h : ExponentSpelled e word) (stop : Stops rest) :
    ∀ c ∈ (word ++ rest).head?, c.isDigit = false ∧ c ≠ '.' := by
  cases h with
  | none => exact fun c hc => ⟨(stop c hc).1, (stop c hc).2.1⟩
  | some hmark =>
    intro c hc
    cases hc
    rcases hmark with rfl | rfl <;> decide

/-- Nothing of a fraction, or of what follows it, continues a whole part. -/
theorem FractionSpelled.stops {ds word rest : List Char} (h : FractionSpelled ds word)
    (stop : ∀ c ∈ rest.head?, c.isDigit = false ∧ c ≠ '.') :
    ∀ c ∈ (word ++ rest).head?, c.isDigit = false := by
  cases h with
  | none => exact fun c hc => (stop c hc).1
  | point =>
    intro c hc
    cases hc
    rfl

theorem exists_of_scanUnsigned? {negative : Bool} {cs rest : List Char} {x : Numeral}
    (h : scanUnsigned? negative cs = some (x, rest)) :
    ∃ word, x.Spelled (minus negative ++ word) ∧ cs = word ++ rest := by
  simp only [scanUnsigned?, bind, Option.bind_eq_some_iff, pure, Option.some.injEq,
    Prod.mk.injEq] at h
  obtain ⟨⟨whole, r⟩, h1, ⟨fraction, r'⟩, h2, ⟨exponent, r''⟩, h3, rfl, rfl⟩ := h
  obtain ⟨hwhole, rfl⟩ := exists_of_scanWhole? h1
  obtain ⟨f, hf, rfl⟩ := exists_of_scanFraction? h2
  obtain ⟨e, he, rfl⟩ := exists_of_scanExponent? h3
  refine ⟨whole ++ (f ++ e), .parts hwhole hf he, ?_⟩
  simp only [List.append_assoc]

theorem scanUnsigned?_append {x : Numeral} {f e rest : List Char} (hwhole : IsWhole x.whole)
    (hf : FractionSpelled x.fraction f) (he : ExponentSpelled x.exponent e) (stop : Stops rest) :
    scanUnsigned? x.negative (x.whole ++ (f ++ e) ++ rest) = some (x, rest) := by
  have whole := scanWhole?_append hwhole (hf.stops (he.stops stop))
  have fraction := scanFraction?_append hf (he.stops stop)
  have exponent := scanExponent?_append he stop
  simp only [scanUnsigned?, List.append_assoc, whole, fraction, exponent, bind, Option.bind_some]
  rfl

theorem exists_of_scanNumber? {cs rest : List Char} {x : Numeral}
    (h : scanNumber? cs = some (x, rest)) : ∃ word, x.Spelled word ∧ cs = word ++ rest := by
  unfold scanNumber? at h
  split at h
  · obtain ⟨word, spelled, rfl⟩ := exists_of_scanUnsigned? h
    exact ⟨'-' :: word, spelled, rfl⟩
  · obtain ⟨word, spelled, rfl⟩ := exists_of_scanUnsigned? h
    exact ⟨word, spelled, rfl⟩

theorem scanNumber?_append {x : Numeral} {word rest : List Char} (h : x.Spelled word)
    (stop : Stops rest) : scanNumber? (word ++ rest) = some (x, rest) := by
  obtain ⟨hwhole, hf, he⟩ := h
  have unsigned := scanUnsigned?_append hwhole hf he stop
  cases sign : x.negative with
  | true =>
    rw [sign] at unsigned
    exact unsigned
  | false =>
    rw [sign] at unsigned
    obtain ⟨d, ds, hd, digit⟩ := hwhole.exists_cons
    unfold scanNumber?
    split
    · next heq =>
      rw [minus, if_neg Bool.false_ne_true, List.nil_append, hd] at heq
      cases heq
      exact absurd digit (by decide)
    · exact unsigned

/-- A number begins with a digit or with its minus. -/
theorem Numeral.Spelled.exists_cons {x : Numeral} {word : List Char} (h : x.Spelled word) :
    ∃ c rest, word = c :: rest ∧ (c.isDigit = true ∨ c = '-') := by
  obtain ⟨hwhole, -, -⟩ := h
  obtain ⟨d, ds, hd, digit⟩ := hwhole.exists_cons
  rw [hd, minus]
  cases x.negative with
  | true => exact ⟨'-', _, rfl, .inr rfl⟩
  | false => exact ⟨d, _, rfl, .inl digit⟩

/-! ## Strings -/

theorem exists_of_scanString {cs rest : List Char} {ps : List Piece}
    (h : scanString cs = some (ps, rest)) :
    ∃ word, PiecesSpelled ps word ∧ cs = word ++ '"' :: rest := by
  fun_induction scanString cs generalizing ps rest with
  | case1 => cases h
  | case2 =>
    cases h
    exact ⟨[], .nil, rfl⟩
  | case3 a b c d tail ih =>
    simp only [bind, Option.bind_eq_some_iff, pure, Option.some.injEq, Prod.mk.injEq] at h
    obtain ⟨unit, hunit, ⟨ps', rest'⟩, h', rfl, rfl⟩ := h
    obtain ⟨word, spelled, rfl⟩ := ih h'
    exact ⟨_, .cons (.unit hunit) spelled, rfl⟩
  | case4 e tail _ ih =>
    simp only [bind, Option.bind_eq_some_iff, pure, Option.some.injEq, Prod.mk.injEq] at h
    obtain ⟨c, hc, ⟨ps', rest'⟩, h', rfl, rfl⟩ := h
    obtain ⟨word, spelled, rfl⟩ := ih h'
    exact ⟨_, .cons (.escape hc) spelled, rfl⟩
  | case5 => cases h
  | case6 c tail notQuote _ _ plain ih =>
    simp only [bind, Option.bind_eq_some_iff, pure, Option.some.injEq, Prod.mk.injEq] at h
    obtain ⟨⟨ps', rest'⟩, h', rfl, rfl⟩ := h
    obtain ⟨word, spelled, rfl⟩ := ih h'
    obtain ⟨notBackslash, notControl⟩ := not_or.mp plain
    exact ⟨_, .cons (.raw notQuote notBackslash (not_lt.mp notControl)) spelled, rfl⟩

/-- One piece more at the front. -/
theorem scanString_append {p : Piece} {word : List Char} (h : p.Spelled word) (cs : List Char) :
    scanString (word ++ cs) = (scanString cs).map fun r => (p :: r.1, r.2) := by
  cases h with
  | @raw c notQuote notBackslash notControl =>
    rw [List.singleton_append, scanString.eq_def]
    split
    · next heq => exact nomatch heq
    · next heq =>
      cases heq
      exact absurd rfl notQuote
    · next heq =>
      cases heq
      exact absurd rfl notBackslash
    · next heq =>
      cases heq
      exact absurd rfl notBackslash
    · next heq =>
      cases heq
      rw [if_neg (not_or.mpr ⟨notBackslash, not_lt.mpr notControl⟩)]
      cases scanString cs <;> rfl
  | @escape e c hc =>
    have notUnit : e ≠ 'u' := by
      rintro rfl
      exact nomatch hc
    show scanString ('\\' :: e :: cs) = _
    rw [scanString.eq_def]
    split
    · next heq => exact nomatch heq
    · next heq => exact nomatch heq
    · next heq =>
      cases heq
      exact absurd rfl notUnit
    · next heq =>
      cases heq
      rw [hc]
      cases scanString cs <;> rfl
    · next no heq =>
      cases heq
      exact absurd rfl (no e cs rfl)
  | @unit a b c d unit hunit =>
    show scanString ('\\' :: 'u' :: a :: b :: c :: d :: cs) = _
    rw [scanString, hunit]
    cases scanString cs <;> rfl

/-- **A string ends at its quote**, and its pieces are certain. -/
theorem scanString_eq_some_iff {cs rest : List Char} {ps : List Piece} :
    scanString cs = some (ps, rest) ↔
      ∃ word, PiecesSpelled ps word ∧ cs = word ++ '"' :: rest := by
  refine ⟨exists_of_scanString, ?_⟩
  rintro ⟨word, spelled, rfl⟩
  induction spelled with
  | nil => rfl
  | cons first _ ih => rw [List.append_assoc, scanString_append first, ih, Option.map_some]

/-! ## Tokens -/

/-- Whether a token is a bracket or a separator. -/
def Token.isMark : Token → Bool
  | .mark _ => true
  | .scalar _ => false

theorem exists_of_scanToken? {cs rest : List Char} {t : Token}
    (h : scanToken? cs = some (t, rest)) : ∃ word, t.Spelled word ∧ cs = word ++ rest := by
  unfold scanToken? at h
  split at h
  · obtain ⟨⟨ps, left⟩, scanned, heq⟩ := Option.map_eq_some_iff.mp h
    cases heq
    obtain ⟨word, spelled, rfl⟩ := scanString_eq_some_iff.mp scanned
    exact ⟨_, .string spelled, by simp⟩
  · cases h
    exact ⟨_, .literalNull, rfl⟩
  · cases h
    exact ⟨_, .literalTrue, rfl⟩
  · cases h
    exact ⟨_, .literalFalse, rfl⟩
  · split_ifs at h with hmark
    · cases h
      exact ⟨_, .mark hmark, rfl⟩
    · obtain ⟨⟨x, left⟩, scanned, heq⟩ := Option.map_eq_some_iff.mp h
      cases heq
      obtain ⟨word, spelled, split⟩ := exists_of_scanNumber? scanned
      exact ⟨word, .number spelled, split⟩
  · exact nomatch h

/-- A character that is no quote and no letter begins a mark or a number. -/
theorem scanToken?_cons {c : Char} {cs : List Char} (quote : c ≠ '"')
    (letter : c.isAlpha = false) :
    scanToken? (c :: cs) = if Json.isMark c then some (.mark c, cs)
      else (scanNumber? (c :: cs)).map fun (x, rest) => (.scalar (.number x), rest) := by
  unfold scanToken?
  split
  · next heq =>
    cases heq
    exact absurd rfl quote
  · next heq =>
    cases heq
    exact absurd letter (by decide)
  · next heq =>
    cases heq
    exact absurd letter (by decide)
  · next heq =>
    cases heq
    exact absurd letter (by decide)
  · next heq =>
    cases heq
    rfl
  · next heq => exact nomatch heq

/-- **A spelled token is taken off the front**, if it is no scalar that what follows could
continue. -/
theorem scanToken?_append {t : Token} {word rest : List Char} (h : t.Spelled word)
    (stop : t.isMark = true ∨ Stops rest) : scanToken? (word ++ rest) = some (t, rest) := by
  cases h with
  | @mark c hmark =>
    have first : c ≠ '"' ∧ c.isAlpha = false := by
      have cases := hmark
      simp only [Json.isMark, Bool.or_eq_true, decide_eq_true_eq] at cases
      rcases cases with ((((rfl | rfl) | rfl) | rfl) | rfl) | rfl <;> decide
    rw [List.singleton_append, scanToken?_cons first.1 first.2, if_pos hmark]
  | literalNull => rfl
  | literalTrue => rfl
  | literalFalse => rfl
  | number spelled =>
    have stop : Stops rest := stop.resolve_left Bool.false_ne_true
    have scanned := scanNumber?_append spelled stop
    obtain ⟨c, cs, rfl, hc⟩ := spelled.exists_cons
    have first : c ≠ '"' ∧ c.isAlpha = false ∧ Json.isMark c = false := by
      rcases hc with digit | rfl
      · have bounds := toNat_of_isDigit digit
        refine ⟨?_, not_isAlpha_of_isCoefficientChar ?_, ?_⟩
        · rintro rfl
          exact absurd digit (by decide)
        · exact Bool.or_eq_true_iff.mpr (.inl (isDecimalDigit_of_isDigit digit))
        · by_contra mark
          rw [Bool.not_eq_false] at mark
          have stop : Stops [c] := stops_of_isMark mark
          exact absurd (digit.symm.trans (stop c rfl).1) (by decide)
      · decide
    rw [List.cons_append] at scanned ⊢
    rw [scanToken?_cons first.1 first.2.1, if_neg (Bool.not_eq_true _ ▸ first.2.2), scanned,
      Option.map_some]
  | @string ps word spelled =>
    have scanned : scanString (word ++ '"' :: rest) = some (ps, rest) :=
      scanString_eq_some_iff.mpr ⟨word, spelled, rfl⟩
    have text : '"' :: (word ++ ['"']) ++ rest = '"' :: (word ++ '"' :: rest) := by simp
    rw [text, scanToken?, scanned, Option.map_some]
    rfl

/-! ## All tokens -/

/-- Blanks in front are skipped. -/
theorem tokens?_blanks {blanks : List Char} (h : blanks.all isBlank = true) (cs : List Char) :
    tokens? (blanks ++ cs) = tokens? cs := by
  induction blanks with
  | nil => rfl
  | cons c blanks ih =>
    rw [List.all_cons, Bool.and_eq_true] at h
    rw [List.cons_append, tokens?, if_pos h.1, ih h.2]

/-- No token begins with a blank. -/
theorem Token.Spelled.exists_cons {t : Token} {word : List Char} (h : t.Spelled word) :
    ∃ c rest, word = c :: rest ∧ isBlank c = false := by
  cases h with
  | mark hmark =>
    refine ⟨_, _, rfl, ?_⟩
    simp only [Json.isMark, Bool.or_eq_true, decide_eq_true_eq] at hmark
    rcases hmark with ((((rfl | rfl) | rfl) | rfl) | rfl) | rfl <;> decide
  | number spelled =>
    obtain ⟨c, rest, rfl, digit | rfl⟩ := spelled.exists_cons
    · refine ⟨c, rest, rfl, ?_⟩
      by_contra blank
      rw [Bool.not_eq_false] at blank
      have stop : Stops [c] := stops_of_isBlank blank
      exact absurd (digit.symm.trans (stop c rfl).1) (by decide)
    · exact ⟨'-', rest, rfl, rfl⟩
  | literalNull => exact ⟨_, _, rfl, rfl⟩
  | literalTrue => exact ⟨_, _, rfl, rfl⟩
  | literalFalse => exact ⟨_, _, rfl, rfl⟩
  | string => exact ⟨_, _, rfl, rfl⟩

/-- Behind the blanks there is a token, and then there are the others. -/
theorem tokens?_cons {c : Char} {cs : List Char} (solid : isBlank c = false) :
    tokens? (c :: cs) =
      (scanToken? (c :: cs)).bind fun r => (tokens? r.2).map (r.1 :: ·) := by
  rw [tokens?, if_neg (by rw [solid]; exact Bool.false_ne_true)]
  split
  · next none =>
    rw [none]
    rfl
  · next t left some =>
    have split : (scanToken? (c :: cs)).bind (fun r => (tokens? r.2).map (r.1 :: ·)) =
        (tokens? left).map (t :: ·) := by
      rw [some]
      rfl
    exact split.symm

/-- A token in front is taken off. -/
theorem tokens?_append {t : Token} {word rest : List Char} (h : t.Spelled word)
    (stop : t.isMark = true ∨ Stops rest) :
    tokens? (word ++ rest) = (tokens? rest).map (t :: ·) := by
  have scanned := scanToken?_append h stop
  obtain ⟨c, cs, rfl, solid⟩ := h.exists_cons
  rw [List.cons_append] at scanned ⊢
  rw [tokens?_cons solid, scanned, Option.bind_some]

/-- A token without blanks in front. -/
theorem Lexed.token {t : Token} {ts : List Token} {word rest : List Char} (h : t.Spelled word)
    (h' : Lexed ts rest) : Lexed (t :: ts) (word ++ rest) := by
  have none : ([] : List Char).all isBlank = true := rfl
  exact .cons none h h'

/-- What the tokens of a text spell. -/
theorem lexed_of_tokens? {cs : List Char} {ts : List Token} (h : tokens? cs = some ts) :
    Lexed ts cs := by
  induction cs using tokens?.induct generalizing ts with
  | case1 =>
    rw [tokens?, Option.some.injEq] at h
    subst h
    exact .nil rfl
  | case2 c cs blank ih =>
    rw [tokens?, if_pos blank] at h
    -- the blank joins those in front of the next token
    cases ih h with
    | nil blanks => exact .nil (by rw [List.all_cons, blank, blanks]; rfl)
    | @cons blanks word rest t ts hblanks spelled lexed =>
      have all : (c :: blanks).all isBlank = true := by
        rw [List.all_cons, blank, hblanks]
        rfl
      exact .cons all spelled lexed
  | case3 c cs solid none =>
    rw [tokens?_cons (Bool.eq_false_iff.mpr solid), none] at h
    exact nomatch h
  | case4 c cs solid t left scan _ ih =>
    rw [tokens?_cons (Bool.eq_false_iff.mpr solid), scan, Option.bind_some] at h
    obtain ⟨ts', hts, rfl⟩ := Option.map_eq_some_iff.mp h
    obtain ⟨word, spelled, split⟩ := exists_of_scanToken? scan
    rw [split]
    exact .token spelled (ih hts)

/-- **`Apart ts`** — of two tokens that follow each other one is a mark. -/
def Apart (ts : List Token) : Prop :=
  ts.IsChain fun t t' => t.isMark = true ∨ t'.isMark = true

/-- What follows a scalar cannot belong to it. -/
theorem Lexed.stops {t : Token} {ts : List Token} {cs : List Char} (h : Lexed ts cs)
    (apart : Apart (t :: ts)) : t.isMark = true ∨ Stops cs := by
  have blank {blanks rest : List Char} (hb : blanks.all isBlank = true)
      (none : blanks = [] → Stops rest) : Stops (blanks ++ rest) := by
    cases blanks with
    | nil => exact none rfl
    | cons c blanks =>
      rw [List.all_cons, Bool.and_eq_true] at hb
      exact stops_of_isBlank hb.1
  cases h with
  | @nil blanks hblanks =>
    have stop := blank hblanks fun _ => stops_nil
    rw [List.append_nil] at stop
    exact .inr stop
  | @cons blanks word rest t' ts hblanks spelled lexed =>
    refine (List.isChain_cons_cons.mp apart).1.imp_right fun hmark => ?_
    refine blank hblanks fun _ => ?_
    cases spelled with
    | mark h => exact stops_of_isMark h
    | _ => exact nomatch hmark

/-- **The tokens of a text**, if its scalars stand apart, are those that it spells. -/
theorem tokens?_eq_some_iff {cs : List Char} {ts : List Token} (apart : Apart ts) :
    tokens? cs = some ts ↔ Lexed ts cs := by
  refine ⟨lexed_of_tokens?, fun lexed => ?_⟩
  induction lexed with
  | @nil blanks hblanks =>
    have := tokens?_blanks hblanks []
    rw [List.append_nil] at this
    rw [this, tokens?]
  | @cons blanks word rest t ts hblanks spelled lexed ih =>
    rw [tokens?_blanks hblanks, tokens?_append spelled (lexed.stops apart),
      ih apart.of_cons, Option.map_some]

end Json

end Chalkboard
