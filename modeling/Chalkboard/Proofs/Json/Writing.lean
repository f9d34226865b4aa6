import Chalkboard.Json.Printer
import Chalkboard.Proofs.Json.Reading

/-!
# What is written is read back

The compact form of a value is one of its texts: the one without blanks, with the fewest escapes.
This needs every string of the value to be a text, and every number to be written as a number is.

* `Json.Writable` — the values that have a written form.
* `Json.Writable.spells_compact` — the written form is a text of the value.
-/

namespace Chalkboard

namespace Json

/-! ## Strings -/

/-- The sixteen bits of a control character. -/
theorem hexValue?_control : ∀ n < 0x20,
    hexValue? ['0', '0', hexChar (n / 16), hexChar (n % 16)] = some n := by
  decide

theorem spelled_escapeChar (c : Char) : (Piece.char c).Spelled (escapeChar c) := by
  unfold escapeChar
  split_ifs with quote backslash backspace formFeed lineFeed carriage tab control
  · subst quote
    exact .escape rfl
  · subst backslash
    exact .escape rfl
  · subst backspace
    exact .escape rfl
  · subst formFeed
    exact .escape rfl
  · subst lineFeed
    exact .escape rfl
  · subst carriage
    exact .escape rfl
  · subst tab
    exact .escape rfl
  · have spelled := Piece.Spelled.unit (hexValue?_control c.toNat control)
    have piece : pieceOfUnit c.toNat = .char c := by
      unfold pieceOfUnit
      rw [if_neg (by omega), Char.ofNat_toNat]
    rwa [piece] at spelled
  · exact .raw quote backslash (not_lt.mp control)

theorem piecesSpelled_escaped (cs : List Char) :
    PiecesSpelled (cs.map .char) (cs.flatMap escapeChar) := by
  induction cs with
  | nil => exact .nil
  | cons c cs ih => exact .cons (spelled_escapeChar c) ih

theorem stringOfPieces_char (s : String) : stringOfPieces (s.toList.map .char) = some s := by
  have join (cs : List Char) : joinPieces? (cs.map .char) = some cs := by
    induction cs with
    | nil => rfl
    | cons c cs ih =>
      rw [List.map_cons, joinPieces?, ih]
      rfl
  rw [stringOfPieces, join, Option.map_some, String.ofList_toList]

/-- A text in quotes, with the fewest escapes. -/
theorem spelled_stringChars (s : String) :
    (Token.scalar (.string (some s))).Spelled (stringChars (some s)) := by
  have spelled := Token.Spelled.string (piecesSpelled_escaped s.toList)
  rwa [stringOfPieces_char] at spelled

/-! ## Values -/

/-- **`v.Writable`** — all strings of `v` are texts, and all its numbers are spelled as they are
written. -/
inductive Writable : Json → Prop where
  | null : Writable .null
  | bool (value : Bool) : Writable (.bool value)
  | number {x : Numeral} : x.Spelled x.chars → Writable (.number x)
  | string (s : String) : Writable (.string (some s))
  | array {items : List Json} : (∀ v ∈ items, Writable v) → Writable (.array items)
  /-- An object of such values whose names are texts. -/
  | object {members : List (Option String × Json)} : (∀ m ∈ members, m.1.isSome = true) →
      (∀ m ∈ members, Writable m.2) → Writable (.object members)

theorem Lexed.mark {c : Char} {ts : List Token} {rest : List Char} (h : isMark c = true)
    (h' : Lexed ts rest) : Lexed (.mark c :: ts) (c :: rest) :=
  .token (.mark h) h'

/-- **`v.Written`** — the written form of `v` can stand in front of any text. -/
def Written (v : Json) : Prop :=
  ∀ ts rest, Lexed ts rest → Lexed (v.tokens ++ ts) (v.chars ++ rest)

theorem written_scalar {v : Json} (single : v.tokens = [.scalar v])
    (h : (Token.scalar v).Spelled v.chars) : v.Written := by
  intro ts rest h'
  rw [single]
  exact .token h h'

/-- Items one after another. -/
theorem lexed_itemsChars {items : List Json} (h : ∀ v ∈ items, v.Written) {ts : List Token}
    {rest : List Char} (h' : Lexed ts rest) :
    Lexed (itemsTokens items ++ ts) (itemsChars items ++ rest) := by
  induction items with
  | nil => exact .mark rfl h'
  | cons v vs ih =>
    obtain ⟨first, others⟩ := List.forall_mem_cons.mp h
    cases vs with
    | nil =>
      have lexed := first _ _ (Lexed.mark (c := ']') rfl h')
      rw [itemsTokens, itemsChars, List.append_assoc, List.append_assoc]
      exact lexed
    | cons u us =>
      have lexed := first _ _ (Lexed.mark (c := ',') rfl (ih others))
      have chars : itemsChars (v :: u :: us) = v.chars ++ ',' :: itemsChars (u :: us) := rfl
      rw [itemsTokens_cons v (List.cons_ne_nil u us), chars, List.append_assoc, List.append_assoc]
      exact lexed

/-- Members one after another. -/
theorem lexed_membersChars {members : List (Option String × Json)}
    (names : ∀ m ∈ members, m.1.isSome = true) (h : ∀ m ∈ members, m.2.Written)
    {ts : List Token} {rest : List Char} (h' : Lexed ts rest) :
    Lexed (membersTokens members ++ ts) (membersChars members ++ rest) := by
  induction members with
  | nil => exact .mark rfl h'
  | cons m ms ih =>
    obtain ⟨⟨name, v⟩, rfl⟩ : ∃ p, p = m := ⟨m, rfl⟩
    obtain ⟨named, otherNames⟩ := List.forall_mem_cons.mp names
    obtain ⟨first, others⟩ := List.forall_mem_cons.mp h
    obtain ⟨s, rfl⟩ := Option.isSome_iff_exists.mp named
    cases ms with
    | nil =>
      have lexed := first _ _ (Lexed.mark (c := '\x7d') rfl h')
      rw [membersTokens, membersChars]
      simp only [List.append_assoc, List.cons_append]
      exact .token (spelled_stringChars s) (.mark rfl lexed)
    | cons m ms =>
      have lexed := first _ _ (Lexed.mark (c := ',') rfl (ih otherNames others))
      have chars : membersChars ((some s, v) :: m :: ms) =
          stringChars (some s) ++ ':' :: (v.chars ++ ',' :: membersChars (m :: ms)) := rfl
      rw [membersTokens_cons (some s) v (List.cons_ne_nil m ms), chars]
      simp only [List.append_assoc, List.cons_append]
      exact .token (spelled_stringChars s) (.mark rfl lexed)

theorem Writable.written {v : Json} (h : v.Writable) : v.Written := by
  induction h with
  | null => exact written_scalar rfl .literalNull
  | bool value =>
    cases value with
    | true => exact written_scalar rfl .literalTrue
    | false => exact written_scalar rfl .literalFalse
  | number spelled => exact written_scalar rfl (.number spelled)
  | string s => exact written_scalar rfl (spelled_stringChars s)
  | array _ ih => exact fun ts rest h' => .mark rfl (lexed_itemsChars ih h')
  | object names _ ih => exact fun ts rest h' => .mark rfl (lexed_membersChars names ih h')

/-- **The written form of a value is a text of it.** -/
theorem Writable.spells_compact {v : Json} (h : v.Writable) : v.Spells v.compact := by
  have lexed := h.written [] [] (.nil rfl)
  rw [List.append_nil, List.append_nil] at lexed
  rw [Spells, compact, String.toList_ofList]
  exact lexed

/-! ## Values that are put together -/

theorem writable_ofString (s : String) : (ofString s).Writable :=
  .string s

theorem writable_map {β : Type} {f : β → Json} (h : ∀ x, (f x).Writable) (xs : List β) :
    (Json.array (xs.map f)).Writable := by
  refine .array fun v hv => ?_
  obtain ⟨x, -, rfl⟩ := List.mem_map.mp hv
  exact h x

theorem writable_ofStrings (xs : List String) : (ofStrings xs).Writable :=
  writable_map writable_ofString xs

theorem writable_ofFields {fields : List (String × Json)} (h : ∀ p ∈ fields, p.2.Writable) :
    (ofFields fields).Writable := by
  refine .object (fun m hm => ?_) fun m hm => ?_
  all_goals obtain ⟨p, hp, rfl⟩ := List.mem_map.mp hm
  · rfl
  · exact h p hp

theorem writable_ofOption {β : Type} {f : β → Json} (h : ∀ x, (f x).Writable) (x? : Option β) :
    (ofOption f x?).Writable := by
  cases x? with
  | none => exact .null
  | some x => exact h x

end Json

end Chalkboard
