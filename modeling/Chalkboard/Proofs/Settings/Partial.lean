import Mathlib.Data.List.Forall2
import Chalkboard.Proofs.Json.Members
import Chalkboard.Proofs.Json.Reading
import Chalkboard.Proofs.Settings.Check
import Chalkboard.Proofs.Settings.Choice
import Chalkboard.Proofs.Toml.Apart
import Chalkboard.Proofs.Toml.Lines

/-!
# Texts that name some settings

A settings text names some of the settings, each with a value, in any order and among names that mean
nothing here. It is read as the standard settings with those values in their places, and then these
are judged: the tolerance first, the size bound after it. A setting that is named twice makes the
text unreadable.

* `MembersName`, `AssignmentsName` — what a JSON object and a TOML document name.
* `Judged` — the verdict on settings.
* `parse_partial` — what texts of both forms are read as.
* `not_judged_of_nested`, `not_judged_of_dotted` — texts that the reader of TOML refuses for the depth
  of a value, or for the parts of a key.
-/

namespace Chalkboard

namespace Settings

/-! ## JSON -/

section Lists

variable {α β : Type} {R : α → β → Prop} {xs : List α} {ys : List β}

theorem exists_right_of_mem (h : List.Forall₂ R xs ys) {x : α} (mem : x ∈ xs) :
    ∃ y ∈ ys, R x y := by
  induction h with
  | nil => exact absurd mem List.not_mem_nil
  | cons related _ ih =>
    rcases List.mem_cons.mp mem with rfl | mem
    · exact ⟨_, List.mem_cons_self, related⟩
    · obtain ⟨y, hy, related⟩ := ih mem
      exact ⟨y, List.mem_cons_of_mem _ hy, related⟩

theorem exists_left_of_mem (h : List.Forall₂ R xs ys) {y : β} (mem : y ∈ ys) :
    ∃ x ∈ xs, R x y :=
  exists_right_of_mem h.flip mem

/-- Of pairs with different names, those of one name are the one that is found, or none. -/
theorem filter_eq_lookup {ps : List (String × α)} (apart : (ps.map Prod.fst).Nodup)
    (name : String) : ps.filter (·.1 = name) = (ps.lookup name).toList.map (name, ·) := by
  induction ps with
  | nil => rfl
  | cons p ps ih =>
    obtain ⟨n, v⟩ := p
    rw [List.map_cons, List.nodup_cons] at apart
    obtain ⟨notAgain, apart⟩ := apart
    by_cases same : n = name
    · subst same
      have none : ps.filter (·.1 = n) = [] := by
        rw [List.filter_eq_nil_iff]
        intro p hp named
        exact notAgain (List.mem_map.mpr ⟨p, hp, of_decide_eq_true named⟩)
      rw [List.filter_cons_of_pos (by simp), none, List.lookup_cons_self]
      rfl
    · have other : (name == n) = false := beq_false_of_ne (Ne.symm same)
      rw [List.filter_cons_of_neg (by simpa using same), List.lookup_cons, other, ih apart]

theorem lookup_of_mem {ps : List (String × α)} (apart : (ps.map Prod.fst).Nodup) {p : String × α}
    (mem : p ∈ ps) : ps.lookup p.1 = some p.2 := by
  have found : p ∈ ps.filter (·.1 = p.1) := List.mem_filter.mpr ⟨mem, decide_eq_true rfl⟩
  rw [filter_eq_lookup apart] at found
  obtain ⟨v, hv, same⟩ := List.mem_map.mp found
  rw [← congrArg Prod.snd same]
  exact Option.mem_toList.mp hv

end Lists

/-- **`MembersName cs members`** — those of the members that have the name of a setting are the
choices `cs`, in their order. -/
structure MembersName (cs : List Choice) (members : List (String × Json)) : Prop where
  apart : (cs.map Choice.name).Nodup
  mean : List.Forall₂ (fun c m => m.1 = c.name ∧ c.InJson m.2) cs
    (members.filter (·.1 ∈ Choice.names))

/-- The value of a setting among members. -/
def memberOf (members : List (String × Json)) (name : String) : Option Json :=
  (members.filter (·.1 ∈ Choice.names)).lookup name

variable {cs : List Choice} {text : String}

theorem MembersName.nodup {members : List (String × Json)} (h : MembersName cs members) :
    ((members.filter (·.1 ∈ Choice.names)).map Prod.fst).Nodup := by
  have names : List.Forall₂ Eq (cs.map Choice.name)
      ((members.filter (·.1 ∈ Choice.names)).map Prod.fst) :=
    List.rel_map (fun c m means => means.1.symm) h.mean
  rw [List.forall₂_eq_eq_eq] at names
  rw [← names]
  exact h.apart

theorem MembersName.holds {members : List (String × Json)} (h : MembersName cs members) :
    Field.Holds (memberOf members) Choice.InJson cs := by
  refine ⟨h.apart, fun c mem => ?_, fun name known none => ?_⟩
  · obtain ⟨m, hm, named, means⟩ := exists_right_of_mem h.mean mem
    refine ⟨m.2, ?_, means⟩
    rw [← named]
    exact lookup_of_mem h.nodup hm
  · rw [memberOf, List.lookup_eq_none_iff]
    intro m hm
    obtain ⟨c, mem, named, -⟩ := exists_left_of_mem h.mean hm
    rw [named]
    exact bne_iff_ne.mpr (Ne.symm (none c mem))

theorem MembersName.uniqueMember? {members : List (String × Json)} (h : MembersName cs members)
    {name : String} (known : name ∈ Choice.names) :
    Json.uniqueMember? members name = some (memberOf members name) := by
  rw [Json.uniqueMember?_eq_some_iff, memberOf, ← filter_eq_lookup h.nodup, List.filter_filter]
  refine List.filter_congr fun m _ => ?_
  by_cases named : m.1 = name <;> simp [named, known]

/-- An object in which each setting has one value, or none, is read from these values. -/
theorem ofJson?_ofFields {members : List (String × Json)} {look : String → Option Json}
    (unique : ∀ name ∈ Choice.names, Json.uniqueMember? members name = some (look name)) :
    Changes.ofJson? (Json.ofFields members) =
      Changes.ofValues? Changes.jsonReal? Changes.jsonCount? Changes.jsonFlag? (look "epsilon")
        (look "max_size") (look "precision") (look "expand_cofactors") := by
  have named : Json.namedMembers? (members.map fun p => (some p.1, p.2)) = some members :=
    Json.namedMembers?_eq_some_iff.mpr rfl
  simp only [Choice.names, List.forall_mem_cons] at unique
  obtain ⟨epsilon, maxSize, precision, expandCofactors, -⟩ := unique
  rw [Json.ofFields, Changes.ofJson?, named]
  simp only [bind, Option.bind_some, epsilon, maxSize, precision, expandCofactors]

/-- **An object** is read as the changes that make its choices. -/
theorem exists_changes_json {members : List (String × Json)}
    (spelled : (Json.ofFields members).Spells text) (h : MembersName cs members) :
    ∃ changes, Changes.parse? text .json = some changes ∧ ∀ s, changes.apply s = choose cs s := by
  obtain ⟨changes, read, makes⟩ := exists_changes Changes.jsonReal? Changes.jsonCount?
    Changes.jsonFlag? h.holds (fun | .epsilon number => number) (fun | .maxSize number => number)
    (fun | .precision number => number) (fun | .expandCofactors _ => rfl)
  refine ⟨changes, ?_, makes⟩
  rw [Changes.parse?, Json.parse?_eq_some_iff.mpr spelled, Option.bind_some,
    ofJson?_ofFields fun _ known => h.uniqueMember? known]
  exact read

/-- **An object that names a setting twice** is unreadable. -/
theorem parse?_json_repeated {members : List (Option String × Json)} {name : String}
    (spelled : (Json.object members).Spells text) (known : name ∈ Choice.names)
    (repeated : 2 ≤ members.countP (·.1 = some name)) : Changes.parse? text .json = none := by
  rw [Changes.parse?, Json.parse?_eq_some_iff.mpr spelled, Option.bind_some,
    Option.eq_none_iff_forall_ne_some]
  intro changes read
  simp only [Changes.ofJson?, bind, Option.bind_eq_some_iff] at read
  obtain ⟨named, hnamed, x?, hx, n?, hn, p?, hp, b?, hb, -⟩ := read
  have none := Json.uniqueMember?_eq_none_of_repeated hnamed repeated
  simp only [Choice.names, List.mem_cons, List.not_mem_nil, or_false] at known
  rcases known with rfl | rfl | rfl | rfl
  · exact nomatch hx.symm.trans none
  · exact nomatch hn.symm.trans none
  · exact nomatch hp.symm.trans none
  · exact nomatch hb.symm.trans none

/-! ## TOML -/

/-- **`AssignmentsName cs as`** — those of the assignments whose key begins with the name of a setting
are the choices `cs`, in their order, and all keys are apart. -/
structure AssignmentsName (cs : List Choice) (as : List Toml.Assignment) : Prop where
  apart : (cs.map Choice.name).Nodup
  keys : as.Pairwise fun a b => Toml.Apart a.parts b.parts
  mean : List.Forall₂ (fun c a => a.parts = [c.name] ∧ c.InToml a.value) cs
    (as.filter (·.first ∈ Choice.names))

theorem AssignmentsName.holds {as : List Toml.Assignment} {es : Toml.Entries}
    (h : AssignmentsName cs as) (kept : ∀ n, (∀ a ∈ as, a.first ≠ n) → es.get? n = none)
    (has : ∀ a ∈ as, a.path = [] → es.get? a.name = some a.value) :
    Field.Holds es.get? Choice.InToml cs := by
  refine ⟨h.apart, fun c mem => ?_, fun name known none => kept name fun a ha first => ?_⟩
  · obtain ⟨a, ha, key, means⟩ := exists_right_of_mem h.mean mem
    obtain ⟨top, named⟩ := a.parts_eq_singleton key
    refine ⟨a.value, ?_, means⟩
    rw [← named]
    exact has a (List.mem_of_mem_filter ha) top
  · have setting : a ∈ as.filter (·.first ∈ Choice.names) :=
      List.mem_filter.mpr ⟨ha, decide_eq_true (first ▸ known)⟩
    obtain ⟨c, mem, key, -⟩ := exists_left_of_mem h.mean setting
    obtain ⟨top, named⟩ := a.parts_eq_singleton key
    rw [Toml.Assignment.first, top] at first
    exact none c mem (named.symm.trans first)

theorem tomlCount?_natCast (n : Nat) : Changes.tomlCount? (.integer n) = some n := by
  rw [Changes.tomlCount?, if_pos (Int.natCast_nonneg n), Int.toNat_natCast]

/-- **A document** is read as the changes that make its choices. -/
theorem exists_changes_toml {as : List Toml.Assignment}
    (document : Toml.Document Toml.maxKeyParts Toml.maxDepth as text) (h : AssignmentsName cs as) :
    ∃ changes, Changes.parse? text .toml = some changes ∧ ∀ s, changes.apply s = choose cs s := by
  have room : ∀ a ∈ as, a.HasRoom [] := fun a _ => Toml.room_nil a.path a.name
  obtain ⟨es, read, kept, has⟩ := Toml.exists_foldlM_assign h.keys room
  obtain ⟨changes, values, makes⟩ := exists_changes Changes.tomlReal? Changes.tomlCount?
    Changes.tomlFlag? (h.holds kept has) (fun | .epsilon _ => rfl | .epsilonWhole _ => rfl)
    (fun | .maxSize n => tomlCount?_natCast n) (fun | .precision n => tomlCount?_natCast n)
    (fun | .expandCofactors _ => rfl)
  refine ⟨changes, ?_, makes⟩
  rw [Changes.parse?, Toml.parse?_document document, read]
  exact values

/-- **A document that names a setting twice** is unreadable. -/
theorem parse?_toml_repeated {most depth : Nat} {as : List Toml.Assignment} {name : String}
    (document : Toml.Document most depth as text)
    (repeated : 2 ≤ as.countP (·.parts = [name])) : Changes.parse? text .toml = none := by
  have unread : Toml.parse? text = none := by
    rcases Toml.parse?_agrees document with read | ⟨-, refused⟩
    · rw [read, Toml.foldlM_assign_repeated [] repeated]
      rfl
    · exact refused
  rw [Changes.parse?, unread]
  rfl

/-! ## Verdicts -/

/-- **`Judged s r`** — `r` is the verdict on the settings `s`: the tolerance comes first. -/
structure Judged (s : Settings Float) (r : Except SettingsError (Settings Float)) : Prop where
  epsilon : ¬ (s.epsilon.isFinite = true ∧ 0.0 < s.epsilon) → r = .error (.invalidEpsilon s.epsilon)
  maxSize : s.epsilon.isFinite = true → 0.0 < s.epsilon → s.maxSize = 0 → r = .error .invalidMaxSize
  admitted : s.epsilon.isFinite = true → 0.0 < s.epsilon → 1 ≤ s.maxSize → r = .ok s

/-- **The check is the verdict.** -/
theorem judged_check (s : Settings Float) : Judged s s.check := by
  have refused : (!s.epsilon.isFinite || decide (s.epsilon ≤ 0.0)) = true ↔
      ¬ (s.epsilon.isFinite = true ∧ 0.0 < s.epsilon) := by
    cases finite : s.epsilon.isFinite with
    | false => simp
    | true => simp [zero_lt_iff finite]
  have passed (finite : s.epsilon.isFinite = true) (above : 0.0 < s.epsilon) :
      ¬ (!s.epsilon.isFinite || decide (s.epsilon ≤ 0.0)) = true :=
    fun h => refused.mp h ⟨finite, above⟩
  refine ⟨fun bad => ?_, fun finite above zero => ?_, fun finite above some => ?_⟩
  · rw [check, if_pos (refused.mpr bad)]
  · rw [check, if_neg (passed finite above), if_pos zero]
  · rw [check, if_neg (passed finite above), if_neg (Nat.one_le_iff_ne_zero.mp some)]

/-! ## Texts -/

/-- **`Names most depth cs format text`** — the text names the settings `cs` and no others. In TOML
its keys have at most `most` parts, and its values are nested at most `depth` deep. -/
inductive Names (most depth : Nat) (cs : List Choice) : TextFormat → String → Prop where
  | json {members : List (String × Json)} {text : String} : (Json.ofFields members).Spells text →
      MembersName cs members → Names most depth cs .json text
  | toml {as : List Toml.Assignment} {text : String} : Toml.Document most depth as text →
      AssignmentsName cs as → Names most depth cs .toml text

/-- **`Repeats name format text`** — the text names the setting `name` twice. -/
inductive Repeats (name : String) : TextFormat → String → Prop where
  | json {members : List (Option String × Json)} {text : String} :
      (Json.object members).Spells text → 2 ≤ members.countP (·.1 = some name) →
      Repeats name .json text
  | toml {most depth : Nat} {as : List Toml.Assignment} {text : String} :
      Toml.Document most depth as text → 2 ≤ as.countP (·.parts = [name]) → Repeats name .toml text

/-- **A text overrides what it names.** Whatever settings it names, in any order and among other
names, it is read as the standard settings with these replaced, and then judged; a text that names a
setting twice is unreadable, whatever is said of it. -/
theorem parse_partial (said : Wording) :
    (∀ (cs : List Choice) (format : TextFormat) (text : String),
      Names Toml.maxKeyParts Toml.maxDepth cs format text →
      Judged (choose cs standard) (parse said format text)) ∧
    ∀ name ∈ Choice.names, ∀ (format : TextFormat) (text : String), Repeats name format text →
      parse said format text = .error (.undecodable (said.undecodable format text)) := by
  constructor
  · intro cs format text names
    obtain ⟨changes, read, makes⟩ : ∃ changes, Changes.parse? text format = some changes ∧
        ∀ s, changes.apply s = choose cs s := by
      cases names with
      | json spelled members => exact exists_changes_json spelled members
      | toml document assignments => exact exists_changes_toml document assignments
    rw [parse, read]
    simp only [makes]
    exact judged_check _
  · intro name known format text repeats
    have unread : Changes.parse? text format = none := by
      cases repeats with
      | json spelled twice => exact parse?_json_repeated spelled known twice
      | toml document twice => exact parse?_toml_repeated document twice
    rw [parse, unread]

/-- An object that names a tolerance and a size bound, neither of them admitted, behind another
member. -/
def nothingAdmitted : String :=
  "\x7b\"note\": [\x7b\"max_size\": 4\x7d, true], \"max_size\": 0, \"epsilon\": 0\x7d"

theorem names_nothingAdmitted :
    Names Toml.maxKeyParts Toml.maxDepth [.maxSize 0, .epsilon 0.0] .json nothingAdmitted := by
  have spelled : (Json.ofFields [
      ("note", .array [.object [(some "max_size", .number ⟨false, ['4'], [], none⟩)], .bool true]),
      ("max_size", .number ⟨false, ['0'], [], none⟩),
      ("epsilon", .number ⟨false, ['0'], [], none⟩)]).Spells nothingAdmitted :=
    Json.parse?_eq_some_iff.mp (by cbv)
  refine .json spelled ⟨by decide, ?_⟩
  exact .cons ⟨rfl, .maxSize rfl⟩ (.cons ⟨rfl, .epsilon (by decide +kernel)⟩ .nil)

/-- A document that names a number of decimals behind another key. -/
def otherDecimals : String :=
  "note.of = [[], 7]\nprecision = 3\n"

/-- A document that names a number of decimals twice. -/
def decimalsTwice : String :=
  "precision = 3\nprecision = 3"

theorem rowSpelled_decimals : Toml.RowSpelled Toml.maxKeyParts Toml.maxDepth
    (some ⟨[], "precision", .integer 3⟩) ("precision".toList ++ ' ' :: '=' :: ' ' :: digits 3) := by
  have key : Toml.KeyPartSpelled "precision" "precision".toList :=
    Toml.keyPartSpelled_bare (by simp) (by simp [Toml.isBare])
  have three : Toml.AtomSpelled (.integer 3) (digits 3) := Toml.atomSpelled_digits (by decide)
  exact Toml.rowSpelled_assignment _ _ (.last key) (by decide) (three.valueSpelled _ _)

theorem rowSpelled_note : Toml.RowSpelled Toml.maxKeyParts Toml.maxDepth
    (some ⟨["note"], "of", .array [.array [], .integer 7]⟩)
    ("note.of".toList ++ ' ' :: '=' :: ' ' :: "[[], 7]".toList) := by
  have none : Toml.Blanks [] := List.forall_mem_nil _
  have first : Toml.KeyPartSpelled "note" "note".toList :=
    Toml.keyPartSpelled_bare (by simp) (by simp [Toml.isBare])
  have last : Toml.KeyPartSpelled "of" "of".toList :=
    Toml.keyPartSpelled_bare (by simp) (by simp [Toml.isBare])
  have key : Toml.KeySpelled ["note"] "of" ("note".toList ++ ([] ++ '.' :: ([] ++ "of".toList))) :=
    .dotted first none none (.last last)
  have seven : Toml.AtomSpelled (.integer 7) (digits 7) := Toml.atomSpelled_digits (by decide)
  have value : Toml.ValueSpelled Toml.maxKeyParts (78 + 1) (.array [.array [], .integer 7])
      ('[' :: ([] ++ (['[', ']'] ++ ([] ++ ',' :: ([' '] ++ (digits 7 ++ ([] ++ [']']))))))) :=
    .inr (.array (.cons .nil (.inr (.array (.close .nil))) .nil
      (.last (.blank (.inl rfl) .nil) (seven.valueSpelled _ _) .nil)))
  exact Toml.rowSpelled_assignment _ _ key (by decide) value

theorem names_otherDecimals :
    Names Toml.maxKeyParts Toml.maxDepth [.precision 3] .toml otherDecimals := by
  have none : Toml.Blanks [] := List.forall_mem_nil _
  have apart : Toml.Apart ["note", "of"] ["precision"] := by simp [Toml.Apart]
  have rows := Toml.RowsSpelled.cons rowSpelled_note
    (.cons rowSpelled_decimals (.last (.blank none .none)))
  exact .toml (.rows (.inl rfl) rows (Toml.lineEnds_self (by decide)) rfl)
    ⟨List.nodup_singleton _, List.pairwise_pair.mpr apart, .cons ⟨rfl, .precision 3⟩ .nil⟩

theorem repeats_decimalsTwice : Repeats "precision" .toml decimalsTwice := by
  have rows := Toml.RowsSpelled.cons rowSpelled_decimals (.last rowSpelled_decimals)
  exact .toml (.rows (.inl rfl) rows (Toml.lineEnds_self (by decide)) rfl) (by decide)

theorem parse_partial_sample :
    Names Toml.maxKeyParts Toml.maxDepth [.maxSize 0, .epsilon 0.0] .json nothingAdmitted ∧
      Names Toml.maxKeyParts Toml.maxDepth [.precision 3] .toml otherDecimals ∧
      Repeats "precision" .toml decimalsTwice ∧
      ∀ said : Wording,
        parse said .json nothingAdmitted = .error (.invalidEpsilon 0.0) ∧
        parse said .toml otherDecimals = .ok { standard with precision := 3 } ∧
        parse said .toml decimalsTwice =
          .error (.undecodable (said.undecodable .toml decimalsTwice)) := by
  refine ⟨names_nothingAdmitted, names_otherDecimals, repeats_decimalsTwice, fun said => ?_⟩
  obtain ⟨judged, unreadable⟩ := parse_partial said
  have known : "precision" ∈ Choice.names := by simp [Choice.names]
  refine ⟨?_, ?_, unreadable _ known _ _ repeats_decimalsTwice⟩
  · have zero : ¬ (0.0 : Float) < 0.0 := by decide +kernel
    exact (judged _ _ _ names_nothingAdmitted).epsilon fun admitted => zero admitted.2
  · have epsilon : standard.epsilon.isFinite = true ∧ 0.0 < standard.epsilon := by decide +kernel
    exact (judged _ _ _ names_otherDecimals).admitted epsilon.1 epsilon.2 (by decide)

/-! ## Texts beyond the bounds -/

/-- **A row that the reader refuses** names no setting, if its key begins with none; but it is not
judged as the standard settings are. -/
theorem names_and_not_judged {most depth : Nat} {a : Toml.Assignment}
    (document : Toml.Document most depth [a] text) (other : a.first ∉ Choice.names)
    (unread : Toml.parse? text = none) (said : Wording) :
    Names most depth [] .toml text ∧ ¬ Judged (choose [] standard) (parse said .toml text) := by
  constructor
  · refine .toml document ⟨List.nodup_nil, List.pairwise_singleton _ _, ?_⟩
    rw [List.filter_cons_of_neg (by simpa using other), List.filter_nil]
    exact .nil
  · intro judged
    have admitted := judged.admitted (by decide +kernel) (by decide +kernel) (by decide)
    rw [parse, Changes.parse?, unread] at admitted
    exact nomatch admitted

/-- **Not every value may be there**: a document may be refused for a value that is nested too
deep. -/
theorem not_judged_of_nested :
    ¬ ∃ said : Wording, ∀ (most depth : Nat) (cs : List Choice) (format : TextFormat)
      (text : String), Names most depth cs format text →
        Judged (choose cs standard) (parse said format text) := by
  rintro ⟨said, claimed⟩
  have document := Toml.document_nestedRow le_rfl Toml.maxDepth
  have other : (Toml.Assignment.mk [] "x" (Toml.nestedValue Toml.maxDepth)).first ∉
      Choice.names := by
    simp [Choice.names, Toml.Assignment.first, Toml.firstPart]
  obtain ⟨names, notJudged⟩ :=
    names_and_not_judged document other (Toml.parse?_nestedRow le_rfl) said
  exact notJudged (claimed _ _ _ _ _ names)

/-- **Not every key may be there**: a document may be refused for a key of too many parts. -/
theorem not_judged_of_dotted :
    ¬ ∃ said : Wording, ∀ (most : Nat) (cs : List Choice) (format : TextFormat) (text : String),
      Names most Toml.maxDepth cs format text →
        Judged (choose cs standard) (parse said format text) := by
  rintro ⟨said, claimed⟩
  have document : Toml.Document (Toml.maxKeyParts + 1) Toml.maxDepth _ _ :=
    Toml.document_dottedRow le_rfl
  have other : (Toml.Assignment.mk (List.replicate Toml.maxKeyParts "x") "x" (.array [])).first ∉
      Choice.names := by
    simp [Choice.names, Toml.Assignment.first, Toml.firstPart, Toml.maxKeyParts]
  obtain ⟨names, notJudged⟩ :=
    names_and_not_judged document other (Toml.parse?_dottedRow le_rfl) said
  exact notJudged (claimed _ _ _ _ names)

end Settings

end Chalkboard
