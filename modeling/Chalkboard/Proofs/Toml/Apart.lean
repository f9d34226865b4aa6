import Chalkboard.Proofs.Toml.Reading

/-!
# Keys that are apart

Two keys are apart if neither begins with the other. Assignments to keys that are apart can be made
one after another, in any order, and each of them leaves the entries of the other names as they were.
An assignment to a name that has a value is refused.

* `Room` — where a key leads past tables that dotted keys have made, to a name without a value.
* `exists_assign` — an assignment succeeds where there is room, and the room of keys apart stays.
* `exists_foldlM_assign` — all assignments of a document.
* `foldlM_assign_repeated` — a document that assigns twice to one name.
-/

namespace Chalkboard

namespace Toml

variable {es es' : Entries} {name part : String} {path path' : List String} {v : Value}

/-! ## Entries by name -/

/-- **`es.Gets name v es'`** — `es'` has the value `v` under `name`, and otherwise what `es` has. -/
def Entries.Gets (es : Entries) (name : String) (v : Value) (es' : Entries) : Prop :=
  ∀ n, es'.get? n = if n = name then some v else es.get? n

theorem gets_append (new : es.get? name = none) (v : Value) : es.Gets name v (es ++ [(name, v)]) := by
  intro n
  rw [Entries.get?, List.lookup_append]
  by_cases same : n = name
  · subst same
    have before : List.lookup n es = none := new
    rw [if_pos rfl, before, List.lookup_cons_self]
    rfl
  · have other : (n == name) = false := beq_false_of_ne same
    rw [if_neg same, List.lookup_cons, other, List.lookup_nil, Option.or_none]
    rfl

theorem get?_replace_of_ne {n : String} (other : n ≠ name) (es : Entries) (v : Value) :
    (es.replace name v).get? n = es.get? n := by
  have apart : (n == name) = false := beq_false_of_ne other
  induction es with
  | nil => rfl
  | cons e es ih =>
    obtain ⟨m, u⟩ := e
    rw [Entries.replace, List.map_cons]
    by_cases same : m = name
    · subst same
      rw [if_pos rfl, Entries.get?, Entries.get?, List.lookup_cons, List.lookup_cons, apart]
      exact ih
    · rw [if_neg same, Entries.get?, Entries.get?, List.lookup_cons, List.lookup_cons]
      cases n == m with
      | true => rfl
      | false => exact ih

theorem get?_replace_self {u : Value} (old : es.get? name = some u) (v : Value) :
    (es.replace name v).get? name = some v := by
  induction es with
  | nil => exact nomatch old
  | cons e es ih =>
    obtain ⟨m, w⟩ := e
    rw [Entries.replace, List.map_cons]
    by_cases same : m = name
    · rw [if_pos same]
      exact List.lookup_cons_self
    · have apart : (name == m) = false := beq_false_of_ne (Ne.symm same)
      rw [Entries.get?, List.lookup_cons, apart] at old
      rw [if_neg same, Entries.get?, List.lookup_cons, apart]
      exact ih old

theorem gets_replace {u : Value} (old : es.get? name = some u) (v : Value) :
    es.Gets name v (es.replace name v) := by
  intro n
  by_cases same : n = name
  · rw [if_pos same, same, get?_replace_self old]
  · rw [if_neg same, get?_replace_of_ne same]

theorem insert?_eq_some (new : es.get? name = none) (v : Value) :
    es.insert? name v = some (es ++ [(name, v)]) := by
  rw [Entries.insert?, new]

/-! ## Room for a key -/

/-- **`Room path name es`** — the path leads over tables that dotted keys have made, or out of the
entries, and at its end the name has no value. -/
def Room : List String → String → Entries → Prop
  | [], name, es => es.get? name = none
  | part :: path, name, es =>
    es.get? part = none ∨ ∃ inner, es.get? part = some (.table .dotted inner) ∧ Room path name inner

/-- Nothing has room for every key. -/
theorem room_nil (path : List String) (name : String) : Room path name [] := by
  cases path with
  | nil => rfl
  | cons part path => exact .inl rfl

/-- **`Apart ps qs`** — none of two keys begins with the other. -/
def Apart (ps qs : List String) : Prop :=
  ¬ ps <+: qs ∧ ¬ qs <+: ps

theorem Apart.symm {ps qs : List String} (h : Apart ps qs) : Apart qs ps :=
  ⟨h.2, h.1⟩

theorem Apart.tail {p : String} {ps qs : List String} (h : Apart (p :: ps) (p :: qs)) :
    Apart ps qs := by
  simpa only [Apart, List.prefix_cons_inj] using h

/-- **`Assigned path name v es es'`** — `es'` is `es` with the value `v` at the end of the path. -/
inductive Assigned (name : String) (v : Value) : List String → Entries → Entries → Prop where
  | last {es es' : Entries} : es.Gets name v es' → Assigned name v [] es es'
  /-- In a table on the way, which may be new. -/
  | dotted {part : String} {path : List String} {es es' inner inner' : Entries} :
      es.get? part = none ∧ inner = [] ∨ es.get? part = some (.table .dotted inner) →
      Assigned name v path inner inner' → es.Gets part (.table .dotted inner') es' →
      Assigned name v (part :: path) es es'

/-- **An assignment succeeds where there is room.** -/
theorem exists_enter {open? : Origin → Bool} {change : Origin → Entries → Option Entries}
    (dotted : open? .dotted = true) (inside : ∀ inner, change .dotted inner = inner.insert? name v)
    (origin : Origin) (top : path = [] → change origin es = es.insert? name v)
    (room : Room path name es) :
    ∃ es', Entries.enter .dotted open? change path origin es = some es' ∧
      Assigned name v path es es' := by
  induction path generalizing origin es with
  | nil =>
    refine ⟨es ++ [(name, v)], ?_, .last (gets_append room v)⟩
    rw [Entries.enter, top rfl, insert?_eq_some room]
  | cons part path ih =>
    rcases room with new | ⟨inner, old, room⟩
    · obtain ⟨inner', entered, assigned⟩ :=
        ih .dotted (fun _ => inside []) (room_nil path name)
      refine ⟨es ++ [(part, .table .dotted inner')], ?_,
        .dotted (.inl ⟨new, rfl⟩) assigned (gets_append new _)⟩
      rw [Entries.enter, new]
      simp only [entered]
      rfl
    · obtain ⟨inner', entered, assigned⟩ := ih .dotted (fun _ => inside inner) room
      refine ⟨es.replace part (.table .dotted inner'), ?_,
        .dotted (.inr old) assigned (gets_replace old _)⟩
      rw [Entries.enter, old]
      simp only [dotted, if_true, entered]
      rfl

/-- The first part of a key. -/
def firstPart : List String → String → String
  | [], name => name
  | part :: _, _ => part

/-- A key of one part is apart from all that do not begin with it. -/
theorem Apart.firstPart_ne (h : Apart [part] (path ++ [name])) : firstPart path name ≠ part := by
  rintro rfl
  apply h.1
  cases path with
  | nil => exact List.prefix_refl _
  | cons p path => exact ⟨path ++ [name], rfl⟩

/-- **Other names** keep their values. -/
theorem Assigned.get?_of_ne (h : Assigned name v path es es') {n : String}
    (other : n ≠ firstPart path name) : es'.get? n = es.get? n := by
  cases h with
  | last gets => exact (gets n).trans (if_neg other)
  | dotted _ _ gets => exact (gets n).trans (if_neg other)

/-- Room depends on the value of the first part alone. -/
theorem room_congr (same : es'.get? (firstPart path name) = es.get? (firstPart path name))
    (room : Room path name es) : Room path name es' := by
  cases path with
  | nil => exact same.trans room
  | cons part path =>
    rcases room with new | ⟨inner, old, room⟩
    · exact .inl (same.trans new)
    · exact .inr ⟨inner, same.trans old, room⟩

/-- **Keys that are apart** keep their room. -/
theorem Assigned.room {name' : String} (h : Assigned name v path es es')
    (apart : Apart (path ++ [name]) (path' ++ [name'])) (room : Room path' name' es) :
    Room path' name' es' := by
  induction h generalizing path' with
  | last gets => exact room_congr ((gets _).trans (if_neg apart.firstPart_ne)) room
  | @dotted part path es es' inner inner' there _ gets ih =>
    by_cases same : firstPart path' name' = part
    · cases path' with
      | nil => exact absurd same.symm apart.symm.firstPart_ne
      | cons part' path' =>
        have same : part' = part := same
        subst same
        refine .inr ⟨inner', (gets _).trans (if_pos rfl), ih apart.tail ?_⟩
        rcases there with ⟨-, rfl⟩ | old
        · exact room_nil _ _
        · rcases room with new | ⟨inner, old', room⟩
          · rw [old] at new
            exact nomatch new
          · rw [old] at old'
            cases old'
            exact room
    · exact room_congr ((gets _).trans (if_neg same)) room

/-! ## All assignments -/

namespace Assignment

/-- The first part of the key. -/
def first (a : Assignment) : String :=
  firstPart a.path a.name

/-- A key of one part. -/
theorem parts_eq_singleton (a : Assignment) {name : String} (h : a.parts = [name]) :
    a.path = [] ∧ a.name = name := by
  obtain ⟨path, last, value⟩ := a
  cases path with
  | nil => exact ⟨rfl, (List.cons.inj h).1⟩
  | cons p path =>
    have length := congrArg List.length h
    simp [parts] at length

/-- There is room for the key. -/
def HasRoom (a : Assignment) (es : Entries) : Prop :=
  Room a.path a.name es

end Assignment

/-- **An assignment to the document itself** succeeds where there is room. -/
theorem exists_assign {a : Assignment} (room : a.HasRoom es) :
    ∃ es', Draft.assign ⟨es, []⟩ a = some ⟨es', []⟩ ∧ Assigned a.name a.value a.path es es' := by
  obtain ⟨es', entered, assigned⟩ : ∃ es', Entries.enter .dotted
      (fun o => o = .implied ∨ o = .dotted)
      (fun o inner => if a.path ≠ [] ∧ o ≠ .dotted then none else inner.insert? a.name a.value)
      a.path .header es = some es' ∧ Assigned a.name a.value a.path es es' :=
    exists_enter (by decide) (fun inner => if_neg fun h => h.2 rfl) .header
      (fun top => if_neg fun h => h.1 top) room
  refine ⟨es', ?_, assigned⟩
  show ((Entries.insertDotted a.path a.name a.value .header es).map fun es => Draft.mk es []) = _
  rw [Entries.insertDotted, entered]
  rfl

/-- **All assignments** to keys that are apart succeed. A name without assignment keeps its value,
and one that is assigned to has what it was assigned. -/
theorem exists_foldlM_assign {as : List Assignment}
    (apart : as.Pairwise fun a b => Apart a.parts b.parts) (room : ∀ a ∈ as, a.HasRoom es) :
    ∃ es', as.foldlM Draft.assign ⟨es, []⟩ = some ⟨es', []⟩ ∧
      (∀ n, (∀ a ∈ as, a.first ≠ n) → es'.get? n = es.get? n) ∧
      ∀ a ∈ as, a.path = [] → es'.get? a.name = some a.value := by
  induction as generalizing es with
  | nil => exact ⟨es, rfl, fun _ _ => rfl, List.forall_mem_nil _⟩
  | cons a as ih =>
    obtain ⟨apartFirst, apart⟩ := List.pairwise_cons.mp apart
    obtain ⟨roomFirst, room⟩ := List.forall_mem_cons.mp room
    obtain ⟨es₁, assigned?, assigned⟩ := exists_assign roomFirst
    obtain ⟨es₂, others?, kept, has⟩ :=
      ih apart fun b hb => assigned.room (apartFirst b hb) (room b hb)
    refine ⟨es₂, ?_, ?_, ?_⟩
    · rw [List.foldlM_cons, assigned?]
      exact others?
    · intro n hn
      obtain ⟨hfirst, hothers⟩ := List.forall_mem_cons.mp hn
      rw [kept n hothers, assigned.get?_of_ne (Ne.symm hfirst)]
    · intro b hb top
      rcases List.mem_cons.mp hb with rfl | hb
      · -- no later key begins with this name
        have later : ∀ b' ∈ as, b'.first ≠ b.name := by
          intro b' hb'
          have apart' := apartFirst b' hb'
          rw [Assignment.parts, top] at apart'
          exact apart'.firstPart_ne
        rw [kept b.name later]
        rw [top] at assigned
        cases assigned with
        | last gets => exact (gets _).trans (if_pos rfl)
      · exact has b hb top

/-! ## Names that are assigned to twice -/

/-- A name that has a value. -/
def Entries.Holds (es : Entries) (name : String) : Prop :=
  ∃ v, es.get? name = some v

theorem Entries.Gets.holds {n : String} (h : es.Gets name v es') (old : es.Holds n) :
    es'.Holds n := by
  obtain ⟨u, hu⟩ := old
  by_cases same : n = name
  · exact ⟨v, (h n).trans (if_pos same)⟩
  · exact ⟨u, ((h n).trans (if_neg same)).trans hu⟩

/-- A new entry is under a name without value. -/
theorem gets_of_insert? (h : es.insert? name v = some es') :
    es.get? name = none ∧ es.Gets name v es' := by
  unfold Entries.insert? at h
  split at h
  · exact nomatch h
  · next new =>
    cases h
    exact ⟨new, gets_append new v⟩

/-- **Names keep having values**, if they do where a path ends. -/
theorem holds_of_enter {missing : Origin} {open? : Origin → Bool}
    {change : Origin → Entries → Option Entries} {origin : Origin} {n : String}
    (last : ∀ o es es', change o es = some es' → es.Holds n → es'.Holds n)
    (h : Entries.enter missing open? change path origin es = some es') (old : es.Holds n) :
    es'.Holds n := by
  cases path with
  | nil => exact last origin es es' h old
  | cons part path =>
    rw [Entries.enter] at h
    split at h
    · next new =>
      obtain ⟨inner, -, eq⟩ := Option.bind_eq_some_iff.mp h
      cases eq
      exact (gets_append new _).holds old
    · next there =>
      split_ifs at h
      obtain ⟨inner, -, eq⟩ := Option.bind_eq_some_iff.mp h
      cases eq
      exact (gets_replace there _).holds old
    · next there =>
      obtain ⟨inner, -, eq⟩ := Option.bind_eq_some_iff.mp h
      cases eq
      exact (gets_replace there _).holds old
    · exact nomatch h

/-- **An assignment** to the document itself leaves every value there, and makes one at most once. -/
theorem holds_of_assign (name : String) {a : Assignment} {d : Draft}
    (h : Draft.assign ⟨es, []⟩ a = some d) :
    ∃ es', d = ⟨es', []⟩ ∧ (∀ n, es.Holds n → es'.Holds n) ∧
      (a.parts = [name] → es.get? name = none ∧ es'.Holds name) := by
  have h : (Entries.insertDotted a.path a.name a.value .header es).map (Draft.mk · []) = some d := h
  obtain ⟨es', inserted, rfl⟩ := Option.map_eq_some_iff.mp h
  refine ⟨es', rfl, fun n => holds_of_enter ?_ inserted, ?_⟩
  · intro o inner inner' changed held
    split_ifs at changed
    exact (gets_of_insert? changed).2.holds held
  · intro single
    obtain ⟨top, same⟩ := a.parts_eq_singleton single
    rw [top, same, Entries.insertDotted, Entries.enter, if_neg fun h => h.1 rfl] at inserted
    obtain ⟨new, gets⟩ := gets_of_insert? inserted
    exact ⟨new, a.value, (gets name).trans (if_pos rfl)⟩

/-- A name with a value is not assigned to. -/
theorem foldlM_assign_held {as : List Assignment} (held : es.Holds name)
    (again : 1 ≤ as.countP (·.parts = [name])) : as.foldlM Draft.assign ⟨es, []⟩ = none := by
  induction as generalizing es with
  | nil => exact nomatch again
  | cons a as ih =>
    rw [List.foldlM_cons]
    cases h : Draft.assign ⟨es, []⟩ a with
    | none => rfl
    | some d =>
      obtain ⟨es', rfl, keeps, once⟩ := holds_of_assign name h
      by_cases same : a.parts = [name]
      · obtain ⟨v, hv⟩ := held
        rw [(once same).1] at hv
        exact nomatch hv
      · rw [List.countP_cons_of_neg (by simpa using same)] at again
        exact ih (keeps name held) again

/-- **A name that is assigned to twice** makes a document unreadable. -/
theorem foldlM_assign_repeated (es : Entries) {as : List Assignment}
    (repeated : 2 ≤ as.countP (·.parts = [name])) :
    as.foldlM Draft.assign ⟨es, []⟩ = none := by
  induction as generalizing es with
  | nil => exact nomatch repeated
  | cons a as ih =>
    rw [List.foldlM_cons]
    cases h : Draft.assign ⟨es, []⟩ a with
    | none => rfl
    | some d =>
      obtain ⟨es', rfl, -, once⟩ := holds_of_assign name h
      by_cases same : a.parts = [name]
      · rw [List.countP_cons_of_pos (by simpa using same)] at repeated
        exact foldlM_assign_held (once same).2 (Nat.le_of_succ_le_succ repeated)
      · rw [List.countP_cons_of_neg (by simpa using same)] at repeated
        exact ih es' repeated

end Toml

end Chalkboard
