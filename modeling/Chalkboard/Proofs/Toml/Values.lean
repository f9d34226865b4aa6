import Chalkboard.Proofs.Toml.Quotes

/-!
# Values of TOML are taken off the front

A value ends where, behind blanks, the text is over or a character follows that ends a run. So it
does not matter what else follows: a date is not continued by a time, and a string not by a quote.

A value that is nested too deep, or has a key with too many parts inside, is not taken at all.
`Agrees` says this of any result: it is the expected one, or there is none, and that only beyond the
bounds.

* `scanRun?_append` — numbers, truth values, dates and times.
* `scanItems?_append`, `scanInline?_append` — behind an opening bracket or brace, given what takes
  off the values inside.
* `takes_valueSpelled` — all values, by induction on the depth to which they are nested.
-/

namespace Chalkboard

namespace Toml

/-! ## Results within bounds -/

/-- **`Agrees sure o p`** — the result `o` is `p`; unless `sure`, there may be none instead. -/
def Agrees {α : Type} (sure : Prop) (o p : Option α) : Prop :=
  o = p ∨ ¬ sure ∧ o = none

namespace Agrees

variable {α β : Type} {sure sure' : Prop} {o p : Option α}

theorem of_eq (h : o = p) : Agrees sure o p :=
  .inl h

theorem of_none (h : ¬ sure) (none : o = none) : Agrees sure o p :=
  .inr ⟨h, none⟩

theorem eq_of_sure (h : Agrees sure o p) (hsure : sure) : o = p :=
  h.resolve_right fun unsure => unsure.1 hsure

theorem mono (h : Agrees sure o p) (weaker : sure' → sure) : Agrees sure' o p :=
  h.imp_right fun unsure => ⟨fun hsure => unsure.1 (weaker hsure), unsure.2⟩

theorem trans {q : Option α} (h : Agrees sure o p) (h' : Agrees sure p q) : Agrees sure o q := by
  rcases h with rfl | ⟨unsure, none⟩
  · exact h'
  · exact of_none unsure none

theorem map (h : Agrees sure o p) (f : α → β) : Agrees sure (o.map f) (p.map f) := by
  rcases h with rfl | ⟨unsure, rfl⟩
  · exact of_eq rfl
  · exact of_none unsure rfl

theorem bind (h : Agrees sure o p) {f g : α → Option β} (each : ∀ x, Agrees sure (f x) (g x)) :
    Agrees sure (o.bind f) (p.bind g) := by
  rcases h with rfl | ⟨unsure, rfl⟩
  · cases o with
    | none => exact of_eq rfl
    | some x => exact each x
  · exact of_none unsure rfl

end Agrees

/-! ## Where a value ends -/

/-- **`Stops rest`** — behind blanks, nothing or the end of a run. -/
def Stops (rest : List Char) : Prop :=
  ∀ c ∈ (rest.dropWhile isBlank).head?, endsRun c = true

theorem endsRun_of_isBlank {c : Char} (h : isBlank c = true) : endsRun c = true := by
  rw [endsRun, h]
  rfl

theorem Stops.head {rest : List Char} (h : Stops rest) : ∀ c ∈ rest.head?, endsRun c = true := by
  cases rest with
  | nil => exact fun c hc => nomatch hc
  | cons d ds =>
    intro c hc
    cases hc
    cases blank : isBlank d with
    | true => exact endsRun_of_isBlank blank
    | false =>
      refine h d ?_
      rw [List.dropWhile_cons_of_neg (by rw [blank]; exact Bool.false_ne_true)]
      rfl

/-- A character that ends a run and is no blank. -/
theorem stops_blanks {blanks : List Char} (h : Blanks blanks) {rest : List Char}
    (stop : ∀ c ∈ rest.head?, isBlank c = false ∧ endsRun c = true) : Stops (blanks ++ rest) := by
  rw [Stops, dropWhile_blanks h fun c hc => (stop c hc).1]
  exact fun c hc => (stop c hc).2

/-- A gap ends in what follows it, or earlier. -/
theorem stops_gap {gap : List Char} (h : Gap gap) {c : Char} (blank : isBlank c = false)
    (ends : endsRun c = true) (rest : List Char) : Stops (gap ++ c :: rest) := by
  induction h with
  | nil =>
    have none : Blanks [] := List.forall_mem_nil _
    refine stops_blanks none fun d hd => ?_
    cases hd
    exact ⟨blank, ends⟩
  | @blank d cs hd _ ih =>
    rcases hd with hd | rfl
    · rw [Stops, List.cons_append, List.dropWhile_cons_of_pos hd]
      exact ih
    · intro d hd
      cases hd
      rfl
  | comment =>
    intro d hd
    cases hd
    rfl

/-! ## Runs -/

/-- A date is a run that denotes it. -/
theorem ofRun?_of_isDate {cs : List Char} (h : isDate cs = true) : ofRun? cs = some (.moment cs) := by
  have date : afterDate? cs = some [] := of_decide_eq_true h
  have moment : isMoment cs = true := by
    rw [isMoment, date]
  have yes : cs ≠ ['t', 'r', 'u', 'e'] := by
    rintro rfl
    exact absurd h (by decide)
  have no : cs ≠ ['f', 'a', 'l', 's', 'e'] := by
    rintro rfl
    exact absurd h (by decide)
  rw [ofRun?, if_neg yes, if_neg no, if_pos moment]

/-- A run ends before the first character that ends it. -/
theorem span_run {word rest : List Char} (stays : ∀ c ∈ word, endsRun c = false)
    (stop : ∀ c ∈ rest.head?, endsRun c = true) :
    (word ++ rest).takeWhile (!endsRun ·) = word ∧ (word ++ rest).dropWhile (!endsRun ·) = rest := by
  have span := span_append (p := fun c => !endsRun c)
    (fun c hc => by rw [stays c hc]; rfl : ∀ c ∈ word, (!endsRun c) = true)
    (fun c hc => by rw [stop c hc]; rfl : ∀ c ∈ rest.head?, (!endsRun c) = false)
  exact ⟨congrArg Prod.fst span, congrArg Prod.snd span⟩

/-- **A run is taken off the front**; a time behind a date belongs to it. -/
theorem scanRun?_append {v : Value} {word rest : List Char} (h : ScalarSpelled v word)
    (stop : Stops rest) : scanRun? (word ++ rest) = some (v, rest) := by
  cases h with
  | run hword denotes =>
    obtain ⟨taken, left⟩ := span_run hword.stays stop.head
    rw [scanRun?, taken, left]
    simp only
    split
    · next _ more date =>
      -- a blank follows a date, and no time follows the blank
      have noTime : more.takeWhile (!endsRun ·) = [] := by
        have stop' : Stops more := stop
        cases more with
        | nil => rfl
        | cons d ds =>
          have ends := stop'.head d rfl
          rw [List.takeWhile_cons_of_neg (by rw [ends]; exact Bool.false_ne_true)]
      rw [ofRun?_of_isDate date] at denotes
      cases denotes
      rw [noTime]
      rfl
    · rw [denotes]
      rfl
  | @moment date time hdate isDate htime zoned =>
    have text : date ++ ' ' :: time ++ rest = date ++ ' ' :: (time ++ rest) := by simp
    have space : ∀ c ∈ (' ' :: (time ++ rest)).head?, endsRun c = true := by simp; decide
    obtain ⟨taken, left⟩ := span_run hdate.stays space
    obtain ⟨taken', left'⟩ := span_run htime stop.head
    rw [text, scanRun?, taken, left, isDate]
    simp only [taken', left', zoned, if_true]

/-! ## Arrays -/

theorem skipSpace_text {text rest : List Char} (h : ∀ c ∈ text, isPlain c = true) :
    skipSpace true (text ++ '\n' :: rest) = skipSpace false rest := by
  induction text with
  | nil => rfl
  | cons c cs ih =>
    obtain ⟨plain, others⟩ := List.forall_mem_cons.mp h
    have feed : c ≠ '\n' := ne_of_class plain (by decide)
    rw [List.cons_append, skipSpace, if_neg feed, if_pos rfl, if_pos plain, ih others]

/-- **A gap is passed over.** -/
theorem skipSpace_gap {gap : List Char} (h : Gap gap) {c : Char}
    (stop : isBlank c = false ∧ c ≠ '\n' ∧ c ≠ '#') (rest : List Char) :
    skipSpace false (gap ++ c :: rest) = some (c :: rest) := by
  induction h with
  | nil =>
    rw [List.nil_append, skipSpace, if_neg stop.2.1, if_neg Bool.false_ne_true, if_neg stop.2.2,
      stop.1, if_neg Bool.false_ne_true]
  | @blank d cs hd _ ih =>
    rcases hd with hd | rfl
    · have feed : d ≠ '\n' := ne_of_class hd (by decide)
      have comment : d ≠ '#' := ne_of_class hd (by decide)
      rw [List.cons_append, skipSpace, if_neg feed, if_neg Bool.false_ne_true, if_neg comment,
        if_pos hd, ih]
    · rw [List.cons_append, skipSpace, if_pos rfl, ih]
  | @comment text cs htext _ ih =>
    rw [List.cons_append, List.append_assoc, List.cons_append, skipSpace, if_neg (by decide),
      if_neg Bool.false_ne_true, if_pos rfl, skipSpace_text htext, ih]

section Containers

variable {sure : Prop} {most : Nat} {item : Value → List Char → Prop}
  {scan : List Char → Option (Value × List Char)}

/-- **`Takes sure scan item`** — `scan` takes values off the front that are spelled as `item` says,
and none of them begins with what ends a run. -/
structure Takes (sure : Prop) (scan : List Char → Option (Value × List Char))
    (item : Value → List Char → Prop) : Prop where
  takes : ∀ {v word rest}, item v word → Stops rest →
    Agrees sure (scan (word ++ rest)) (some (v, rest))
  first : ∀ {v word}, item v word → ∃ c cs, word = c :: cs ∧ endsRun c = false

/-- What does not end a run is neither a blank nor one of the marks. -/
theorem stays_cases {c : Char} (h : endsRun c = false) :
    (isBlank c = false ∧ c ≠ '\n' ∧ c ≠ '#') ∧ c ≠ ',' ∧ c ≠ ']' ∧ c ≠ '\x7d' := by
  simp only [endsRun, Bool.or_eq_false_iff, decide_eq_false_iff_not] at h
  obtain ⟨⟨⟨⟨⟨blank, feed⟩, comment⟩, comma⟩, bracket⟩, brace⟩ := h
  exact ⟨⟨blank, feed, comment⟩, comma, bracket, brace⟩

/-- An item with the gaps on both sides, up to the mark behind it. -/
theorem scanItem?_append (h : Takes sure scan item) {v : Value} {before word behind : List Char}
    (hbefore : Gap before) (hitem : item v word) (hbehind : Gap behind) {d : Char}
    (mark : isBlank d = false ∧ d ≠ '\n' ∧ d ≠ '#') (ends : endsRun d = true) (rest : List Char) :
    ∃ c cs, skipSpace false (before ++ (word ++ (behind ++ d :: rest))) = some (c :: cs) ∧
      c ≠ ']' ∧ Agrees sure ((scan (c :: cs)).bind fun p => (skipSpace false p.2).map (p.1, ·))
        (some (v, d :: rest)) := by
  have taken := h.takes hitem (stops_gap hbehind mark.1 ends rest)
  obtain ⟨c, cs, rfl, stays⟩ := h.first hitem
  obtain ⟨front, -, bracket, -⟩ := stays_cases stays
  refine ⟨c, cs ++ (behind ++ d :: rest), ?_, bracket, ?_⟩
  · rw [List.cons_append, skipSpace_gap hbefore front]
  · rw [List.cons_append] at taken
    rcases taken with taken | ⟨unsure, none⟩
    · apply Agrees.of_eq
      rw [taken, Option.bind_some, skipSpace_gap hbehind mark rest, Option.map_some]
    · apply Agrees.of_none unsure
      rw [none, Option.bind_none]

/-- **The items of an array** are taken off, up to the closing bracket. -/
theorem scanItems?_append (h : Takes sure scan item) {vs : List Value} {word : List Char}
    (spelled : ItemsSpelled item vs word) (rest : List Char) :
    Agrees sure (scanItems? scan (word ++ rest)) (some (vs, rest)) := by
  induction spelled with
  | close hgap =>
    have skipped := skipSpace_gap hgap (c := ']') (by decide) rest
    apply Agrees.of_eq
    rw [List.append_assoc, List.singleton_append, scanItems?, skipped]
    simp only [if_true]
  | @last before word behind v hbefore hitem hbehind =>
    have text : before ++ (word ++ (behind ++ [']'])) ++ rest =
        before ++ (word ++ (behind ++ ']' :: rest)) := by simp
    obtain ⟨c, cs, skipped, bracket, taken⟩ :=
      scanItem?_append h hbefore hitem hbehind (d := ']') (by decide) rfl rest
    rw [text, scanItems?, skipped]
    simp only [if_neg bracket]
    rcases taken with taken | ⟨unsure, none⟩
    · apply Agrees.of_eq
      simp only [taken]
    · apply Agrees.of_none unsure
      simp only [none]
  | @cons before word behind more v vs hbefore hitem hbehind _ ih =>
    have text : before ++ (word ++ (behind ++ ',' :: more)) ++ rest =
        before ++ (word ++ (behind ++ ',' :: (more ++ rest))) := by simp
    have shorter : (more ++ rest).length <
        (before ++ (word ++ (behind ++ ',' :: (more ++ rest)))).length := by
      simp only [List.length_append, List.length_cons]
      omega
    obtain ⟨c, cs, skipped, bracket, taken⟩ :=
      scanItem?_append h hbefore hitem hbehind (d := ',') (by decide) rfl (more ++ rest)
    rw [text, scanItems?, skipped]
    simp only [if_neg bracket]
    rcases taken with taken | ⟨unsure, none⟩
    · simp only [taken, if_pos shorter]
      exact ih.map _
    · apply Agrees.of_none unsure
      simp only [none]

/-! ## Inline tables -/

/-- **An assignment** is taken off, with the blanks on both sides, up to what ends its value. -/
theorem scanKeyValue?_append (h : Takes sure scan item) (limit : sure → most ≤ maxKeyParts)
    {a : Assignment} {before word behind rest : List Char} (hbefore : Blanks before)
    (spelled : a.Spelled most item word) (hbehind : Blanks behind)
    (stop : ∀ c ∈ rest.head?, isBlank c = false ∧ endsRun c = true) :
    Agrees sure (scanKeyValue? scan (before ++ (word ++ (behind ++ rest))))
      (some (a.pair, rest)) := by
  cases spelled with
  | @intro key before' behind' value hkey few hbefore' hbehind' hitem =>
    have text : before ++ (key ++ (before' ++ '=' :: (behind' ++ value)) ++ (behind ++ rest)) =
        before ++ (key ++ (before' ++ '=' :: (behind' ++ (value ++ (behind ++ rest))))) := by simp
    have taken := h.takes hitem (stops_blanks hbehind stop)
    have front : (behind' ++ (value ++ (behind ++ rest))).dropWhile isBlank =
        value ++ (behind ++ rest) := by
      obtain ⟨c, cs, rfl, stays⟩ := h.first hitem
      refine dropWhile_blanks hbehind' fun d hd => ?_
      cases hd
      exact (stays_cases stays).1.1
    have left : (behind ++ rest).dropWhile isBlank = rest :=
      dropWhile_blanks hbehind fun c hc => (stop c hc).1
    rw [text, scanKeyValue?, scanKey?_append hkey hbefore hbefore']
    by_cases many : maxKeyParts < (a.path ++ [a.name]).length
    · have unsure : ¬ sure := fun hsure => absurd (few.trans (limit hsure)) (not_le.mpr many)
      apply Agrees.of_none unsure
      rw [if_pos many]
    · rw [if_neg many]
      have read := taken.map fun p => (((a.path, a.name), p.1), p.2.dropWhile isBlank)
      simp only [Option.map_some, left] at read
      simp only [front]
      exact read

/-- Blanks in front of assignments do not count, and no brace is behind them. -/
theorem PairsSpelled.trimmed {as : List Assignment} {word : List Char}
    (h : PairsSpelled most item as word) : ∃ c cs blanks, Blanks blanks ∧ word = blanks ++ c :: cs ∧
      opensKey c = true ∧ PairsSpelled most item as (c :: cs) := by
  have none : Blanks [] := List.forall_mem_nil _
  cases h with
  | last hbefore ha hbehind =>
    cases ha with
    | intro hkey few before behind hitem =>
      obtain ⟨c, cs, rfl, opens⟩ := hkey.first
      exact ⟨c, _, _, hbefore, rfl, opens, .last none (.intro hkey few before behind hitem) hbehind⟩
  | cons hbefore ha hbehind others =>
    cases ha with
    | intro hkey few before behind hitem =>
      obtain ⟨c, cs, rfl, opens⟩ := hkey.first
      exact ⟨c, _, _, hbefore, rfl, opens,
        .cons none (.intro hkey few before behind hitem) hbehind others⟩

/-- **The assignments of a table** are taken off, up to the closing brace. -/
theorem scanSeparated_pairs (h : Takes sure scan item) (limit : sure → most ≤ maxKeyParts)
    {as : List Assignment} {word : List Char} (spelled : PairsSpelled most item as word)
    (rest : List Char) : Agrees sure (scanSeparated (scanKeyValue? scan) ',' (word ++ rest))
      (some (as.map Assignment.pair, '\x7d' :: rest)) := by
  induction spelled with
  | @last before word behind a hbefore ha hbehind =>
    have text : before ++ (word ++ (behind ++ ['\x7d'])) ++ rest =
        before ++ (word ++ (behind ++ '\x7d' :: rest)) := by simp
    have brace : ∀ c ∈ ('\x7d' :: rest).head?, isBlank c = false ∧ endsRun c = true := by
      simp; decide
    have taken := scanKeyValue?_append h limit hbefore ha hbehind brace
    rw [text, scanSeparated]
    rcases taken with taken | ⟨unsure, none⟩
    · rw [taken]
      exact Agrees.of_eq rfl
    · rw [none]
      exact Agrees.of_none unsure rfl
  | @cons before word behind more a as hbefore ha hbehind _ ih =>
    have text : before ++ (word ++ (behind ++ ',' :: more)) ++ rest =
        before ++ (word ++ (behind ++ ',' :: (more ++ rest))) := by simp
    have comma : ∀ c ∈ (',' :: (more ++ rest)).head?, isBlank c = false ∧ endsRun c = true := by
      simp; decide
    have taken := scanKeyValue?_append h limit hbefore ha hbehind comma
    have shorter : (more ++ rest).length <
        (before ++ (word ++ (behind ++ ',' :: (more ++ rest)))).length := by
      simp only [List.length_append, List.length_cons]
      omega
    rw [text, scanSeparated]
    rcases taken with taken | ⟨unsure, none⟩
    · rw [taken]
      simp only [if_true, if_pos shorter]
      exact ih.map _
    · rw [none]
      exact Agrees.of_none unsure rfl

/-- **An inline table** is taken off behind its opening brace. -/
theorem scanInline?_append (h : Takes sure scan item) (limit : sure → most ≤ maxKeyParts)
    {as : List Assignment} {word : List Char} {es : Entries}
    (spelled : PairsSpelled most item as word)
    (entries : inlineEntries? (as.map Assignment.pair) = some es) (rest : List Char) :
    Agrees sure (scanInline? scan (word ++ rest)) (some (.table .inline es, rest)) := by
  obtain ⟨c, cs, blanks, hblanks, rfl, opens, spelled⟩ := spelled.trimmed
  have front : (blanks ++ c :: cs ++ rest).dropWhile isBlank = c :: cs ++ rest := by
    rw [List.append_assoc]
    refine dropWhile_blanks hblanks fun d hd => ?_
    cases hd
    exact not_isBlank_of_opensKey opens
  rw [scanInline?, front]
  split
  · next same =>
    injection same with first _
    exact absurd first (ne_of_class opens (by decide))
  · rcases scanSeparated_pairs h limit spelled rest with taken | ⟨unsure, none⟩
    · apply Agrees.of_eq
      rw [taken]
      simp only [entries, Option.map_some]
    · apply Agrees.of_none unsure
      rw [none]

theorem scanInline?_empty {blanks : List Char} (h : Blanks blanks) (rest : List Char) :
    scanInline? scan (blanks ++ ['\x7d'] ++ rest) = some (.table .inline [], rest) := by
  have front : (blanks ++ ['\x7d'] ++ rest).dropWhile isBlank = '\x7d' :: rest := by
    rw [List.append_assoc]
    refine dropWhile_blanks h fun d hd => ?_
    cases hd
    decide
  rw [scanInline?, front]
  rfl

end Containers

/-! ## All values -/

theorem StringSpelled.first {s word : List Char} (h : StringSpelled s word) :
    ∃ c cs, word = c :: cs ∧ (c = '"' ∨ c = '\'') := by
  cases h with
  | quoted h =>
    cases h with
    | basic => exact ⟨_, _, rfl, .inl rfl⟩
    | literal => exact ⟨_, _, rfl, .inr rfl⟩
  | basicLines => exact ⟨_, _, rfl, .inl rfl⟩
  | literalLines => exact ⟨_, _, rfl, .inr rfl⟩

/-- A run or a date begins as nothing else does. -/
theorem ScalarSpelled.first {v : Value} {word : List Char} (h : ScalarSpelled v word) :
    ∃ c cs, word = c :: cs ∧ endsRun c = false ∧ c ≠ '"' ∧ c ≠ '\'' ∧ c ≠ '[' ∧ c ≠ '\x7b' := by
  cases h with
  | run hword _ =>
    obtain ⟨⟨c, cs, rfl, opens⟩, stays⟩ := hword
    exact ⟨c, cs, rfl, stays c List.mem_cons_self, opens⟩
  | moment hdate _ _ _ =>
    obtain ⟨⟨c, cs, rfl, opens⟩, stays⟩ := hdate
    exact ⟨c, _, rfl, stays c List.mem_cons_self, opens⟩

theorem AtomSpelled.first {v : Value} {word : List Char} (h : AtomSpelled v word) :
    ∃ c cs, word = c :: cs ∧ endsRun c = false := by
  cases h with
  | string h =>
    obtain ⟨c, cs, rfl, rfl | rfl⟩ := h.first
    · exact ⟨_, _, rfl, rfl⟩
    · exact ⟨_, _, rfl, rfl⟩
  | scalar h =>
    obtain ⟨c, cs, rfl, stays, -⟩ := h.first
    exact ⟨c, cs, rfl, stays⟩

theorem ContainerSpelled.first {most : Nat} {item : Value → List Char → Prop} {v : Value}
    {word : List Char} (h : ContainerSpelled most item v word) :
    ∃ c cs, word = c :: cs ∧ endsRun c = false := by
  cases h with
  | array => exact ⟨_, _, rfl, rfl⟩
  | empty => exact ⟨_, _, rfl, rfl⟩
  | table => exact ⟨_, _, rfl, rfl⟩

/-- **A value that holds no other** is taken off the front, at any depth. -/
theorem scanValue?_atom {v : Value} {word rest : List Char} (h : AtomSpelled v word)
    (stop : Stops rest) (depth : Nat) : scanValue? depth (word ++ rest) = some (v, rest) := by
  cases h with
  | string h =>
    have taken := scanString?_append h stop.head
    obtain ⟨c, cs, rfl, quote⟩ := h.first
    rw [List.cons_append] at taken ⊢
    rw [scanValue?.eq_def]
    simp only [if_pos quote, taken, Option.map_some]
  | scalar h =>
    have taken := scanRun?_append h stop
    obtain ⟨c, cs, rfl, -, double, single, bracket, brace⟩ := h.first
    have quote : ¬ (c = '"' ∨ c = '\'') := not_or.mpr ⟨double, single⟩
    rw [List.cons_append] at taken ⊢
    rw [scanValue?.eq_def]
    simp only [if_neg quote, if_neg bracket, if_neg brace, taken]

/-- **An array or an inline table** is taken off the front, if the values inside are. -/
theorem scanValue?_container {sure : Prop} {most depth : Nat} {item : Value → List Char → Prop}
    {v : Value} {word : List Char} (limit : sure → most ≤ maxKeyParts)
    (h : Takes sure (scanValue? depth) item) (spelled : ContainerSpelled most item v word)
    (rest : List Char) :
    Agrees sure (scanValue? (depth + 1) (word ++ rest)) (some (v, rest)) := by
  cases spelled with
  | array items =>
    rw [List.cons_append, scanValue?.eq_def]
    exact (scanItems?_append h items rest).map _
  | empty blanks =>
    rw [List.cons_append, scanValue?.eq_def]
    exact Agrees.of_eq (scanInline?_empty blanks rest)
  | table pairs entries =>
    rw [List.cons_append, scanValue?.eq_def]
    exact scanInline?_append h limit pairs entries rest

/-- No array and no table is taken off at depth zero. -/
theorem scanValue?_zero {most : Nat} {item : Value → List Char → Prop} {v : Value}
    {word : List Char} (h : ContainerSpelled most item v word) (rest : List Char) :
    scanValue? 0 (word ++ rest) = none := by
  cases h <;> rfl

/-- **Every value is taken off the front** within the bounds, and beyond them it is taken off or
refused. -/
theorem takes_valueSpelled (most depth bound : Nat) :
    Takes (most ≤ maxKeyParts ∧ depth ≤ bound) (scanValue? bound) (ValueSpelled most depth) := by
  induction depth generalizing bound with
  | zero => exact ⟨fun h stop => .of_eq (scanValue?_atom h stop bound), AtomSpelled.first⟩
  | succ depth ih =>
    constructor
    · rintro v word rest (atom | container) stop
      · exact .of_eq (scanValue?_atom atom stop bound)
      · cases bound with
        | zero =>
          refine .of_none ?_ (scanValue?_zero container rest)
          rintro ⟨-, deep⟩
          exact absurd deep (Nat.not_succ_le_zero depth)
        | succ bound =>
          refine (scanValue?_container And.left (ih bound) container rest).mono ?_
          rintro ⟨few, deep⟩
          exact ⟨few, Nat.le_of_succ_le_succ deep⟩
    · rintro v word (atom | container)
      · exact atom.first
      · exact container.first

end Toml

end Chalkboard
