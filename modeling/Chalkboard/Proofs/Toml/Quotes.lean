import Chalkboard.Proofs.Decimal.Literal
import Chalkboard.Proofs.Toml.Grammar

/-!
# Strings and keys of TOML are taken off the front

A scanner takes a spelled string or key off the front of a text. A string on several lines ends at
the first three quotes that are not followed by another, so no quote may follow it; a key ends before
an equals sign.

* `scanBasic_append`, `scanBasicLines_append`, `scanLiteralLines_append` — behind the opening quotes.
* `scanString?_append` — strings with their quotes.
* `scanKey?_append` — keys, with the blanks on both sides.
-/

namespace Chalkboard

namespace Toml

/-! ## Escapes -/

theorem scanEscape?_append {c : Char} {e : List Char} (h : EscapeSpelled c e) (rest : List Char) :
    scanEscape? (e ++ rest) = some (c, rest) := by
  cases h with
  | @letter e c he =>
    show scanEscape? (e :: rest) = some (c, rest)
    unfold scanEscape?
    split
    · next same =>
      cases same
      exact nomatch he
    · next same =>
      cases same
      exact nomatch he
    · next same =>
      cases same
      rw [he]
      rfl
    · next same => exact nomatch same
  | @four ds n c length value code =>
    have front : (ds ++ rest).take 4 = ds := List.take_left' length
    have behind : (ds ++ rest).drop 4 = rest := List.drop_left' length
    rw [List.cons_append, scanEscape?, front, behind, if_pos length, value, Option.bind_some, code]
    rfl
  | @eight ds n c length value code =>
    have front : (ds ++ rest).take 8 = ds := List.take_left' length
    have behind : (ds ++ rest).drop 8 = rest := List.drop_left' length
    rw [List.cons_append, scanEscape?, front, behind, if_pos length, value, Option.bind_some, code]
    rfl

/-! ## Strings in one row -/

theorem scanBasic_append {s word : List Char} (h : BasicSpelled s word) (rest : List Char) :
    scanBasic (word ++ '"' :: rest) = some (s, rest) := by
  induction h with
  | nil =>
    rw [List.nil_append, scanBasic, if_pos rfl]
  | raw plain quote slash _ ih =>
    rw [List.cons_append, scanBasic, if_neg quote, if_neg slash, if_pos plain, ih]
    rfl
  | @escape c e s word he _ ih =>
    have hescape := scanEscape?_append he (word ++ '"' :: rest)
    rw [List.cons_append, List.append_assoc, scanBasic, if_neg (by decide), if_pos rfl]
    split
    · next none =>
      rw [hescape] at none
      cases none
    · next some =>
      rw [hescape] at some
      cases some
      rw [ih]
      rfl

theorem scanLiteral_append {s : List Char} (h : LiteralText s) (rest : List Char) :
    scanLiteral (s ++ '\'' :: rest) = some (s, rest) := by
  induction s with
  | nil => rfl
  | cons c s ih =>
    obtain ⟨⟨plain, quote⟩, others⟩ := List.forall_mem_cons.mp h
    rw [List.cons_append, scanLiteral, if_neg quote, if_pos plain, ih others]
    rfl

/-! ## Strings on several rows -/

/-- Three quotes, and what follows them. -/
def closing (quote : Char) (rest : List Char) : List Char :=
  quote :: quote :: quote :: rest

/-- **A quote before a text with few quotes** is one of those before the closing ones, or it stands
apart from them. -/
theorem quote_cases {quote : Char} {word : List Char}
    (few : (word.takeWhile (· = quote)).length ≤ 1) :
    word = [] ∨ word = [quote] ∨
      ∀ rest rest', quote :: (word ++ closing quote rest) ≠ closing quote rest' := by
  match word with
  | [] => exact .inl rfl
  | [c] =>
    by_cases h : c = quote
    · exact .inr (.inl (by rw [h]))
    · refine .inr (.inr fun rest rest' same => h ?_)
      injection same with _ same
      injection same
  | c :: d :: r =>
    refine .inr (.inr fun rest rest' same => ?_)
    injection same with _ same
    injection same with first same
    injection same with second same
    simp [first, second] at few

theorem BasicLinesSpelled.length_quotes_le {quotes : Nat} {s word : List Char}
    (h : BasicLinesSpelled quotes s word) : (word.takeWhile (· = '"')).length ≤ quotes := by
  induction h with
  | nil => exact Nat.zero_le _
  | quote _ ih => simpa using ih
  | raw _ quote _ _ _ => simp [quote]
  | escape => simp
  | join => simp

theorem BasicLinesSpelled.eq_of_quotes {quotes n : Nat} {s : List Char}
    (h : BasicLinesSpelled quotes s (List.replicate n '"')) : s = List.replicate n '"' := by
  generalize hword : List.replicate n '"' = word at h
  induction h generalizing n with
  | nil => rfl
  | quote _ ih =>
    cases n with
    | zero => exact nomatch hword
    | succ n =>
      injection hword with _ hword
      rw [ih hword]
  | raw _ quote _ _ _ =>
    cases n with
    | zero => exact nomatch hword
    | succ n =>
      injection hword with first _
      exact absurd first.symm quote
  | escape =>
    cases n with
    | zero => exact nomatch hword
    | succ n =>
      injection hword with first _
      exact absurd first (by decide)
  | join =>
    cases n with
    | zero => exact nomatch hword
    | succ n =>
      injection hword with first _
      exact absurd first (by decide)

theorem scanBasicLines_closing {rest : List Char} (stop : rest.head? ≠ some '"') :
    scanBasicLines (closing '"' rest) = some ([], rest) ∧
      scanBasicLines ('"' :: closing '"' rest) = some (['"'], rest) ∧
      scanBasicLines ('"' :: '"' :: closing '"' rest) = some (['"', '"'], rest) := by
  have one : ∀ r, rest ≠ '"' :: r := by
    rintro r rfl
    exact stop rfl
  refine ⟨?_, ?_, ?_⟩
  · rw [closing, scanBasicLines]
    · exact fun r same => one _ same
    · exact fun r same => one _ same
  · rw [closing, scanBasicLines]
    exact fun r same => one _ same
  · rw [closing, scanBasicLines]

/-- A character that is neither a backslash nor the first of three quotes belongs to the string. -/
theorem scanBasicLines_cons {c : Char} {r : List Char} (plain : isPlain c = true ∨ c = '\n')
    (slash : c ≠ '\\') (front : ∀ rest, c :: r ≠ closing '"' rest) :
    scanBasicLines (c :: r) = (scanBasicLines r).map fun (s, rest) => (c :: s, rest) := by
  rw [scanBasicLines.eq_def]
  split
  · next same => exact absurd same (front _)
  · next same => exact absurd same (front _)
  · next same => exact absurd same (front _)
  · next same => exact absurd same (List.cons_ne_nil c r)
  · next same =>
    cases same
    rw [if_neg slash, if_pos plain]

/-- A backslash takes what its row ends with, or else what it escapes. -/
theorem scanBasicLines_slash (r : List Char) :
    scanBasicLines ('\\' :: r) = match afterBreak? r with
      | some left => scanBasicLines left
      | none => (scanEscape? r).bind fun (c, left) =>
        (scanBasicLines left).map fun (s, rest) => (c :: s, rest) := by
  rw [scanBasicLines, if_pos rfl]
  · split
    · next ends => simp only [ends]
    · next goesOn =>
      split
      · next none => simp only [goesOn, none, Option.bind_none]
      · next some => simp only [goesOn, some, Option.bind_some]
  · exact fun _ first => absurd first (by decide)
  · exact fun _ first => absurd first (by decide)
  · exact fun _ first => absurd first (by decide)

/-- What begins an escape is no white space. -/
theorem EscapeSpelled.first {c : Char} {e : List Char} (h : EscapeSpelled c e) :
    ∃ d ds, e = d :: ds ∧ isBlank d = false ∧ d ≠ '\n' := by
  cases h with
  | @letter e c he =>
    refine ⟨e, [], rfl, ?_, ?_⟩
    · by_contra blank
      rw [Bool.not_eq_false, isBlank, Bool.or_eq_true, decide_eq_true_eq, decide_eq_true_eq] at blank
      rcases blank with rfl | rfl <;> exact nomatch he
    · rintro rfl
      exact nomatch he
  | four => exact ⟨'u', _, rfl, rfl, by decide⟩
  | eight => exact ⟨'U', _, rfl, rfl, by decide⟩

/-- So a backslash in front of it does not end a row. -/
theorem afterBreak?_escape {c : Char} {e : List Char} (h : EscapeSpelled c e) (rest : List Char) :
    afterBreak? (e ++ rest) = none := by
  obtain ⟨d, ds, rfl, blank, feed⟩ := h.first
  rw [afterBreak?, List.cons_append, List.dropWhile_cons_of_neg (by rw [blank]; exact Bool.false_ne_true)]
  split
  · next same =>
    injection same with first _
    exact absurd first feed
  · rfl

theorem dropWhile_append_of_stop {p : Char → Bool} {ds rest : List Char} (h : ∀ c ∈ ds, p c = true)
    (stop : ∀ c ∈ rest.head?, p c = false) : (ds ++ rest).dropWhile p = rest :=
  congrArg Prod.snd (span_append h stop)

theorem afterBreak?_join {blanks space rest : List Char} (hblanks : Blanks blanks)
    (hspace : ∀ c ∈ space, isBlank c = true ∨ c = '\n')
    (stop : ∀ c ∈ rest.head?, isBlank c = false ∧ c ≠ '\n') :
    afterBreak? (blanks ++ '\n' :: (space ++ rest)) = some rest := by
  have feed : ∀ c ∈ ('\n' :: (space ++ rest)).head?, isBlank c = false := by
    intro c hc
    cases hc
    decide
  rw [afterBreak?, dropWhile_append_of_stop hblanks feed]
  simp only
  rw [dropWhile_append_of_stop]
  · intro c hc
    rw [Bool.or_eq_true, decide_eq_true_eq]
    exact hspace c hc
  · intro c hc
    rw [Bool.or_eq_false_iff, decide_eq_false_iff_not]
    exact stop c hc

theorem scanBasicLines_append {quotes : Nat} {s word rest : List Char}
    (h : BasicLinesSpelled quotes s word) (few : quotes ≤ 2) (stop : rest.head? ≠ some '"') :
    scanBasicLines (word ++ closing '"' rest) = some (s, rest) := by
  obtain ⟨three, four, five⟩ := scanBasicLines_closing stop
  induction h with
  | nil => exact three
  | @quote quotes s word h ih =>
    have one : quotes ≤ 1 := by omega
    rcases quote_cases (h.length_quotes_le.trans one) with rfl | rfl | goesOn
    · rw [h.eq_of_quotes (n := 0)]
      exact four
    · rw [h.eq_of_quotes (n := 1)]
      exact five
    · rw [List.cons_append, scanBasicLines_cons (.inl rfl) (by decide) (goesOn rest),
        ih (by omega)]
      rfl
  | @raw quotes c s word plain quote slash _ ih =>
    have front : ∀ rest', c :: (word ++ closing '"' rest) ≠ closing '"' rest' := by
      intro rest' same
      injection same with first _
      exact quote first
    rw [List.cons_append, scanBasicLines_cons plain slash front, ih le_rfl]
    rfl
  | @escape quotes c e s word he _ ih =>
    have hescape := scanEscape?_append he (word ++ closing '"' rest)
    have none := afterBreak?_escape he (word ++ closing '"' rest)
    rw [List.cons_append, List.append_assoc, scanBasicLines_slash, none, hescape]
    simp only [Option.bind_some, ih le_rfl, Option.map_some]
  | @join quotes blanks space s word hblanks hspace front _ ih =>
    have stop' : ∀ c ∈ (word ++ closing '"' rest).head?, isBlank c = false ∧ c ≠ '\n' := by
      cases word with
      | nil =>
        intro c hc
        cases hc
        decide
      | cons d ds => exact front
    have joined := afterBreak?_join hblanks hspace stop'
    rw [List.cons_append, List.append_assoc, List.cons_append, List.append_assoc,
      scanBasicLines_slash, joined]
    exact ih le_rfl

/-! ## Strings on several rows, without escapes -/

theorem LiteralLines.length_quotes_le {quotes : Nat} {s : List Char} (h : LiteralLines quotes s) :
    (s.takeWhile (· = '\'')).length ≤ quotes := by
  induction h with
  | nil => exact Nat.zero_le _
  | quote _ ih => simpa using ih
  | raw _ quote _ _ => simp [quote]

theorem scanLiteralLines_closing {rest : List Char} (stop : rest.head? ≠ some '\'') :
    scanLiteralLines (closing '\'' rest) = some ([], rest) ∧
      scanLiteralLines ('\'' :: closing '\'' rest) = some (['\''], rest) ∧
      scanLiteralLines ('\'' :: '\'' :: closing '\'' rest) = some (['\'', '\''], rest) := by
  have one : ∀ r, rest ≠ '\'' :: r := by
    rintro r rfl
    exact stop rfl
  refine ⟨?_, ?_, ?_⟩
  · rw [closing, scanLiteralLines]
    · exact fun r same => one _ same
    · exact fun r same => one _ same
  · rw [closing, scanLiteralLines]
    exact fun r same => one _ same
  · rw [closing, scanLiteralLines]

/-- A character that is not the first of three quotes belongs to the string. -/
theorem scanLiteralLines_cons {c : Char} {r : List Char} (plain : isPlain c = true ∨ c = '\n')
    (front : ∀ rest, c :: r ≠ closing '\'' rest) :
    scanLiteralLines (c :: r) = (scanLiteralLines r).map fun (s, rest) => (c :: s, rest) := by
  rw [scanLiteralLines.eq_def]
  split
  · next same => exact absurd same (front _)
  · next same => exact absurd same (front _)
  · next same => exact absurd same (front _)
  · next same => exact nomatch same
  · next same =>
    cases same
    rw [if_pos plain]

theorem scanLiteralLines_append {quotes : Nat} {s rest : List Char} (h : LiteralLines quotes s)
    (few : quotes ≤ 2) (stop : rest.head? ≠ some '\'') :
    scanLiteralLines (s ++ closing '\'' rest) = some (s, rest) := by
  obtain ⟨three, four, five⟩ := scanLiteralLines_closing stop
  induction h with
  | nil => exact three
  | @quote quotes s h ih =>
    have one : quotes ≤ 1 := by omega
    rcases quote_cases (h.length_quotes_le.trans one) with rfl | rfl | goesOn
    · exact four
    · exact five
    · rw [List.cons_append, scanLiteralLines_cons (.inl rfl) (goesOn rest), ih (by omega)]
      rfl
  | @raw quotes c s plain quote _ ih =>
    have front : ∀ rest', c :: (s ++ closing '\'' rest) ≠ closing '\'' rest' := by
      intro rest' same
      injection same with first _
      exact quote first
    rw [List.cons_append, scanLiteralLines_cons plain front, ih le_rfl]
    rfl

/-! ## Strings with their quotes -/

/-- What ends a run is no quote. -/
theorem ne_quote_of_stop {rest : List Char} (stop : ∀ c ∈ rest.head?, endsRun c = true) :
    rest.head? ≠ some '"' ∧ rest.head? ≠ some '\'' := by
  constructor
  · intro same
    exact absurd (stop _ same) (by decide)
  · intro same
    exact absurd (stop _ same) (by decide)

theorem dropFirstBreak_append {start word : List Char} (h : FirstBreak start word) {rest : List Char}
    (ne : rest.head? ≠ some '\n') : dropFirstBreak (start ++ (word ++ rest)) = word ++ rest := by
  cases h with
  | none front =>
    have front' : (word ++ rest).head? ≠ some '\n' := by
      cases word with
      | nil => exact ne
      | cons c cs => exact front
    rw [List.nil_append]
    unfold dropFirstBreak
    split
    · next same =>
      rw [same] at front'
      exact absurd rfl front'
    · rfl
  | feed => rfl

theorem scanString?_quoted {s word rest : List Char} (h : QuotedSpelled s word)
    (stop : ∀ c ∈ rest.head?, endsRun c = true) : scanString? (word ++ rest) = some (s, rest) := by
  obtain ⟨double, single⟩ := ne_quote_of_stop stop
  cases h with
  | @basic word h =>
    have front : ∀ r, word ++ '"' :: rest ≠ '"' :: '"' :: r := by
      intro r same
      cases h with
      | nil =>
        injection same with _ same
        rw [same] at double
        exact double rfl
      | raw _ quote _ _ =>
        injection same with first _
        exact quote first
      | escape =>
        injection same with first _
        exact absurd first (by decide)
    rw [List.cons_append, List.append_assoc, List.singleton_append, scanString?,
      scanBasic_append h rest]
    exact front
  | literal h =>
    have front : ∀ r, s ++ '\'' :: rest ≠ '\'' :: '\'' :: r := by
      intro r same
      cases s with
      | nil =>
        injection same with _ same
        rw [same] at single
        exact single rfl
      | cons c s =>
        injection same with first _
        exact (h c List.mem_cons_self).2 first
    rw [List.cons_append, List.append_assoc, List.singleton_append, scanString?,
      scanLiteral_append h rest]
    exact front

/-- **A string is taken off the front**, if what follows ends a run. -/
theorem scanString?_append {s word rest : List Char} (h : StringSpelled s word)
    (stop : ∀ c ∈ rest.head?, endsRun c = true) : scanString? (word ++ rest) = some (s, rest) := by
  obtain ⟨double, single⟩ := ne_quote_of_stop stop
  cases h with
  | quoted h => exact scanString?_quoted h stop
  | @basicLines start s word first h =>
    have text : '"' :: '"' :: '"' :: (start ++ (word ++ ['"', '"', '"'])) ++ rest =
        '"' :: '"' :: '"' :: (start ++ (word ++ closing '"' rest)) := by
      simp [closing]
    rw [text, scanString?, dropFirstBreak_append first (by simp [closing])]
    exact scanBasicLines_append h le_rfl double
  | @literalLines start s first h =>
    have text : '\'' :: '\'' :: '\'' :: (start ++ (s ++ ['\'', '\'', '\''])) ++ rest =
        '\'' :: '\'' :: '\'' :: (start ++ (s ++ closing '\'' rest)) := by
      simp [closing]
    rw [text, scanString?, dropFirstBreak_append first (by simp [closing])]
    exact scanLiteralLines_append h le_rfl single

/-! ## Keys -/

/-- A character that has a property is none that has not. -/
theorem ne_of_class {p : Char → Bool} {c d : Char} (h : p c = true) (other : p d = false) :
    c ≠ d := by
  rintro rfl
  rw [h] at other
  exact nomatch other

/-- A bare word has no blanks. -/
theorem not_isBlank_of_isBare {c : Char} (h : isBare c = true) : isBlank c = false := by
  have space : c ≠ ' ' := ne_of_class h (by decide)
  have tab : c ≠ '\t' := ne_of_class h (by decide)
  rw [isBlank, decide_eq_false space, decide_eq_false tab]
  rfl

/-- The characters that a part of a key may begin with. -/
def opensKey (c : Char) : Bool :=
  isBare c || c = '"' || c = '\''

theorem not_isBlank_of_opensKey {c : Char} (h : opensKey c = true) : isBlank c = false := by
  rw [opensKey, Bool.or_eq_true, Bool.or_eq_true, decide_eq_true_eq, decide_eq_true_eq] at h
  rcases h with (bare | rfl) | rfl
  · exact not_isBlank_of_isBare bare
  · rfl
  · rfl

theorem KeyPartSpelled.first {part : String} {word : List Char} (h : KeyPartSpelled part word) :
    ∃ c cs, word = c :: cs ∧ opensKey c = true := by
  cases h with
  | @bare word ne bare =>
    obtain ⟨c, cs, rfl⟩ := List.exists_cons_of_ne_nil ne
    refine ⟨c, cs, rfl, ?_⟩
    rw [opensKey, bare c List.mem_cons_self]
    rfl
  | quoted h =>
    cases h with
    | basic => exact ⟨'"', _, rfl, rfl⟩
    | literal => exact ⟨'\'', _, rfl, rfl⟩

/-- Blanks before what is no blank are passed over. -/
theorem dropWhile_blanks {blanks rest : List Char} (h : Blanks blanks)
    (stop : ∀ c ∈ rest.head?, isBlank c = false) : (blanks ++ rest).dropWhile isBlank = rest :=
  dropWhile_append_of_stop h stop

/-- No bare word goes on behind blanks. -/
theorem not_isBare_of_blanks {blanks rest : List Char} (h : Blanks blanks)
    (stop : ∀ c ∈ rest.head?, isBare c = false) :
    ∀ c ∈ (blanks ++ rest).head?, isBare c = false := by
  cases blanks with
  | nil => exact stop
  | cons d ds =>
    intro c hc
    cases hc
    by_contra isBare
    rw [Bool.not_eq_false] at isBare
    have blank := h d List.mem_cons_self
    rw [not_isBlank_of_isBare isBare] at blank
    exact Bool.false_ne_true blank

/-- A bare word does not begin with what no bare word has. -/
theorem bare_append_ne_cons {word : List Char} (ne : word ≠ []) (bare : ∀ c ∈ word, isBare c = true)
    {d : Char} (other : isBare d = false) (rest r : List Char) : word ++ rest ≠ d :: r := by
  obtain ⟨c, cs, rfl⟩ := List.exists_cons_of_ne_nil ne
  intro same
  injection same with same _
  exact ne_of_class (bare c List.mem_cons_self) other same

/-- **A part of a key is taken off the front**, with the blanks on both sides. -/
theorem scanKeyPart?_append {part : String} {word before behind rest : List Char}
    (h : KeyPartSpelled part word) (hbefore : Blanks before) (hbehind : Blanks behind)
    (stop : ∀ c ∈ rest.head?, isBlank c = false ∧ isBare c = false) :
    scanKeyPart? (before ++ (word ++ (behind ++ rest))) = some (part, rest) := by
  have blanks : (behind ++ rest).dropWhile isBlank = rest :=
    dropWhile_blanks hbehind fun c hc => (stop c hc).1
  have front : (before ++ (word ++ (behind ++ rest))).dropWhile isBlank =
      word ++ (behind ++ rest) := by
    obtain ⟨c, cs, rfl, opens⟩ := h.first
    refine dropWhile_blanks hbefore fun d hd => ?_
    cases hd
    exact not_isBlank_of_opensKey opens
  rw [scanKeyPart?, front]
  cases h with
  | @bare word ne bare =>
    have span := span_append bare (not_isBare_of_blanks hbehind fun c hc => (stop c hc).2)
    have taken : (word ++ (behind ++ rest)).takeWhile isBare = word := congrArg Prod.fst span
    have left : (word ++ (behind ++ rest)).dropWhile isBare = behind ++ rest :=
      congrArg Prod.snd span
    have filled : word.isEmpty = false := List.isEmpty_eq_false_iff.mpr ne
    split
    · next same => exact absurd same (bare_append_ne_cons ne bare (by decide) _ _)
    · next same => exact absurd same (bare_append_ne_cons ne bare (by decide) _ _)
    · rw [taken, left, filled]
      simp only [Bool.false_eq_true, if_false, Option.map_some, blanks]
  | @quoted s word h =>
    cases h with
    | @basic word h =>
      have text : '"' :: (word ++ ['"']) ++ (behind ++ rest) =
          '"' :: (word ++ '"' :: (behind ++ rest)) := by simp
      rw [text]
      simp only [scanBasic_append h, Option.map_some, blanks]
    | literal h =>
      have text : '\'' :: (s ++ ['\'']) ++ (behind ++ rest) =
          '\'' :: (s ++ '\'' :: (behind ++ rest)) := by simp
      rw [text]
      simp only [scanLiteral_append h, Option.map_some, blanks]

theorem KeySpelled.first {path : List String} {name : String} {word : List Char}
    (h : KeySpelled path name word) : ∃ c cs, word = c :: cs ∧ opensKey c = true := by
  cases h with
  | last h => exact h.first
  | dotted h =>
    obtain ⟨c, cs, rfl, opens⟩ := h.first
    exact ⟨c, _, rfl, opens⟩

/-- **The parts of a key**, up to what is no dot. -/
theorem scanSeparated_key {path : List String} {name : String} {word : List Char}
    (h : KeySpelled path name word) {before behind rest : List Char} (hbefore : Blanks before)
    (hbehind : Blanks behind) :
    scanSeparated scanKeyPart? '.' (before ++ (word ++ (behind ++ '=' :: rest))) =
      some (path ++ [name], '=' :: rest) := by
  induction h generalizing before with
  | @last name word part =>
    have first : scanKeyPart? (before ++ (word ++ (behind ++ '=' :: rest))) =
        some (name, '=' :: rest) :=
      scanKeyPart?_append part hbefore hbehind (by simp; decide)
    rw [scanSeparated, first]
    rfl
  | @dotted part name path word before' behind' more hpart hbefore' hbehind' _ ih =>
    have text : word ++ (before' ++ '.' :: (behind' ++ more)) ++ (behind ++ '=' :: rest) =
        word ++ (before' ++ '.' :: (behind' ++ (more ++ (behind ++ '=' :: rest)))) := by simp
    have first : scanKeyPart? (before ++ (word ++ (before' ++ '.' :: (behind' ++ (more ++
        (behind ++ '=' :: rest)))))) = some (part, '.' :: (behind' ++ (more ++
          (behind ++ '=' :: rest)))) :=
      scanKeyPart?_append hpart hbefore hbefore' (by simp; decide)
    have shorter : (behind' ++ (more ++ (behind ++ '=' :: rest))).length <
        (before ++ (word ++ (before' ++ '.' ::
          (behind' ++ (more ++ (behind ++ '=' :: rest)))))).length := by
      simp only [List.length_append, List.length_cons]
      omega
    rw [text, scanSeparated, first]
    simp only [if_true, if_pos shorter, ih hbehind']
    rfl

/-- **A key is taken off the front** up to its equals sign, unless it has too many parts. -/
theorem scanKey?_append {path : List String} {name : String} {word : List Char}
    (h : KeySpelled path name word) {before behind : List Char} (hbefore : Blanks before)
    (hbehind : Blanks behind) (rest : List Char) :
    scanKey? (before ++ (word ++ (behind ++ '=' :: rest))) =
      if maxKeyParts < (path ++ [name]).length then none else some ((path, name), '=' :: rest) := by
  rw [scanKey?, scanSeparated_key h hbefore hbehind]
  simp only [List.getLast?_concat, List.dropLast_concat, Option.map_some]

end Toml

end Chalkboard
