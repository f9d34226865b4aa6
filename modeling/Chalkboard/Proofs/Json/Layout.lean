import Chalkboard.Proofs.Json.Writing

/-!
# Laid out text

`Json.pretty` puts every part of a value on a line of its own. It differs from the compact form by
blanks between tokens alone, so it is a text of the same value, and the value is read back from it.

* `Writable.spells_pretty` — the laid out form is a text of the value.
* `Writable.parse?_pretty` — it is read as this value.
-/

namespace Chalkboard

namespace Json

/-! ## Blanks -/

/-- Blanks may stand before anything. -/
theorem Lexed.blanks {blanks : List Char} (h : blanks.all isBlank = true) {ts : List Token}
    {cs : List Char} (h' : Lexed ts cs) : Lexed ts (blanks ++ cs) := by
  cases h' with
  | nil others =>
    refine .nil ?_
    rw [List.all_append, h, others]
    rfl
  | cons others spelled rest =>
    rw [← List.append_assoc]
    refine .cons ?_ spelled rest
    rw [List.all_append, h, others]
    rfl

theorem all_isBlank_newLine (level : Nat) : (newLine level).all isBlank = true := by
  rw [newLine, List.all_cons, List.all_eq_true.mpr]
  · rfl
  · intro c hc
    rw [List.eq_of_mem_replicate hc]
    rfl

theorem Lexed.newLine (level : Nat) {ts : List Token} {cs : List Char} (h : Lexed ts cs) :
    Lexed ts (newLine level ++ cs) :=
  .blanks (all_isBlank_newLine level) h

/-! ## Values -/

/-- **`v.LaidOut`** — the laid out form of `v` can stand in front of any text, at any level. -/
def LaidOut (v : Json) : Prop :=
  ∀ level ts rest, Lexed ts rest → Lexed (v.tokens ++ ts) (v.prettyChars level ++ rest)

/-- What has no parts is laid out as it is written. -/
theorem Written.laidOut {v : Json} (h : v.Written) (same : ∀ level, v.prettyChars level = v.chars) :
    v.LaidOut := by
  intro level ts rest h'
  rw [same]
  exact h ts rest h'

/-- Items on lines of their own. -/
theorem lexed_prettyItems {items : List Json} (ne : items ≠ []) (h : ∀ v ∈ items, v.LaidOut)
    (level : Nat) {ts : List Token} {rest : List Char} (h' : Lexed ts rest) :
    Lexed (itemsTokens items ++ ts) (prettyItems level items ++ rest) := by
  induction items with
  | nil => exact absurd rfl ne
  | cons v vs ih =>
    obtain ⟨first, others⟩ := List.forall_mem_cons.mp h
    cases vs with
    | nil =>
      have close : Lexed (.mark ']' :: ts) (']' :: rest) := .mark rfl h'
      have lexed := first (level + 1) _ _ (close.newLine level)
      rw [itemsTokens, prettyItems]
      simp only [List.append_assoc, List.singleton_append]
      exact lexed.newLine (level + 1)
    | cons u us =>
      have comma := Lexed.mark (c := ',') rfl (ih (List.cons_ne_nil u us) others)
      have lexed := first (level + 1) _ _ comma
      have chars : prettyItems level (v :: u :: us) =
          newLine (level + 1) ++ v.prettyChars (level + 1) ++ ',' :: prettyItems level (u :: us) :=
        rfl
      rw [itemsTokens_cons v (List.cons_ne_nil u us), chars]
      simp only [List.append_assoc, List.cons_append]
      exact lexed.newLine (level + 1)

/-- Members on lines of their own, with a blank behind the colon. -/
theorem lexed_prettyMembers {members : List (Option String × Json)} (ne : members ≠ [])
    (names : ∀ m ∈ members, m.1.isSome = true) (h : ∀ m ∈ members, m.2.LaidOut) (level : Nat)
    {ts : List Token} {rest : List Char} (h' : Lexed ts rest) :
    Lexed (membersTokens members ++ ts) (prettyMembers level members ++ rest) := by
  -- a name, its colon and a blank
  have named (s : String) {ts : List Token} {rest : List Char} (h : Lexed ts rest) :
      Lexed (.scalar (.string (some s)) :: .mark ':' :: ts)
        (newLine (level + 1) ++ (stringChars (some s) ++ (':' :: ' ' :: rest))) := by
    have space : [' '].all isBlank = true := rfl
    have blank : Lexed ts (' ' :: rest) := .blanks space h
    exact (Lexed.token (spelled_stringChars s) (.mark rfl blank)).newLine (level + 1)
  induction members with
  | nil => exact absurd rfl ne
  | cons m ms ih =>
    obtain ⟨⟨name, v⟩, rfl⟩ : ∃ p, p = m := ⟨m, rfl⟩
    obtain ⟨hasName, otherNames⟩ := List.forall_mem_cons.mp names
    obtain ⟨first, others⟩ := List.forall_mem_cons.mp h
    obtain ⟨s, rfl⟩ := Option.isSome_iff_exists.mp hasName
    cases ms with
    | nil =>
      have close : Lexed (.mark '\x7d' :: ts) ('\x7d' :: rest) := .mark rfl h'
      have lexed := first (level + 1) _ _ (close.newLine level)
      rw [membersTokens, prettyMembers]
      simp only [List.append_assoc, List.cons_append]
      exact named s lexed
    | cons m ms =>
      have comma := Lexed.mark (c := ',') rfl (ih (List.cons_ne_nil m ms) otherNames others)
      have lexed := first (level + 1) _ _ comma
      have chars : prettyMembers level ((some s, v) :: m :: ms) =
          newLine (level + 1) ++ stringChars (some s) ++ ':' :: ' ' :: (v.prettyChars (level + 1)
            ++ ',' :: prettyMembers level (m :: ms)) := rfl
      rw [membersTokens_cons (some s) v (List.cons_ne_nil m ms), chars]
      simp only [List.append_assoc, List.cons_append]
      exact named s lexed

theorem Writable.laidOut {v : Json} (h : v.Writable) : v.LaidOut := by
  induction h with
  | null => exact Writable.null.written.laidOut fun _ => rfl
  | bool value => exact (Writable.bool value).written.laidOut fun _ => rfl
  | number spelled => exact (Writable.number spelled).written.laidOut fun _ => rfl
  | string s => exact (Writable.string s).written.laidOut fun _ => rfl
  | @array items parts ih =>
    cases items with
    | nil => exact (Writable.array parts).written.laidOut fun _ => rfl
    | cons v vs =>
      intro level ts rest h'
      exact .mark rfl (lexed_prettyItems (List.cons_ne_nil v vs) ih level h')
  | @object members names parts ih =>
    cases members with
    | nil => exact (Writable.object names parts).written.laidOut fun _ => rfl
    | cons m ms =>
      intro level ts rest h'
      exact .mark rfl (lexed_prettyMembers (List.cons_ne_nil m ms) names ih level h')

/-- **The laid out form of a value is a text of it.** -/
theorem Writable.spells_pretty {v : Json} (h : v.Writable) : v.Spells v.pretty := by
  have lexed := h.laidOut 0 [] [] (.nil rfl)
  rw [List.append_nil, List.append_nil] at lexed
  rw [Spells, pretty, String.toList_ofList]
  exact lexed

/-- **The laid out form of a value is read as this value.** -/
theorem Writable.parse?_pretty {v : Json} (h : v.Writable) : parse? v.pretty = some v :=
  parse?_eq_some_iff.mpr h.spells_pretty

end Json

end Chalkboard
