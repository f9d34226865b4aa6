import Mathlib.Data.List.Chain
import Chalkboard.Json.Parser
import Chalkboard.Proofs.Json.Scanning

/-!
# Reading accepts exactly the texts of a value

The reader keeps what it has seen: its stack and its state hold all tokens so far, in their order.
So what it has finished at the end of a text is the value whose tokens these are, and in the other
direction the tokens of a value lead it from expecting a value to having it, whatever is on the
stack.

* `State.consumed` — the tokens that a state was reached by.
* `ofTokens?_eq_some_iff` — a value is read from its tokens and no others.
* `parse?_eq_some_iff` — a value is read from its texts and no others.
-/

namespace Chalkboard

namespace Json

/-! ## Tokens of values -/

/-- Whether a token is one that a text has: its scalar is a literal, a number or a string. -/
def Token.isPlain : Token → Bool
  | .scalar (.array _) => false
  | .scalar (.object _) => false
  | _ => true

theorem Token.Spelled.isPlain {t : Token} {word : List Char} (h : t.Spelled word) :
    t.isPlain = true := by
  cases h <;> rfl

theorem Lexed.isPlain {ts : List Token} {cs : List Char} (h : Lexed ts cs) :
    ∀ t ∈ ts, t.isPlain = true := by
  induction h with
  | nil => exact fun t ht => nomatch ht
  | cons _ spelled _ ih => exact List.forall_mem_cons.mpr ⟨spelled.isPlain, ih⟩

/-- The tokens of an item and the comma behind it. -/
def itemTokens (v : Json) : List Token :=
  v.tokens ++ [.mark ',']

/-- The tokens of a member and the comma behind it. -/
def memberTokens (m : Option String × Json) : List Token :=
  .scalar (.string m.1) :: .mark ':' :: itemTokens m.2

theorem itemsTokens_concat (vs : List Json) (v : Json) :
    itemsTokens (vs ++ [v]) = vs.flatMap itemTokens ++ (v.tokens ++ [.mark ']']) := by
  induction vs with
  | nil => rfl
  | cons u us ih =>
    have more : us ++ [v] ≠ [] := List.append_ne_nil_of_right_ne_nil us (List.cons_ne_nil v [])
    rw [List.cons_append, itemsTokens_cons u more, ih, List.flatMap_cons, itemTokens,
      List.append_assoc, List.append_assoc, List.singleton_append]

theorem membersTokens_concat (ms : List (Option String × Json)) (name : Option String) (v : Json) :
    membersTokens (ms ++ [(name, v)]) = ms.flatMap memberTokens ++
      (.scalar (.string name) :: .mark ':' :: (v.tokens ++ [.mark '\x7d'])) := by
  induction ms with
  | nil => rfl
  | cons m ms ih =>
    have more : ms ++ [(name, v)] ≠ [] :=
      List.append_ne_nil_of_right_ne_nil ms (List.cons_ne_nil (name, v) [])
    rw [List.cons_append, membersTokens_cons m.1 m.2 more, ih, List.flatMap_cons, memberTokens,
      itemTokens]
    simp only [List.append_assoc, List.cons_append, List.nil_append]

/-! ## What the reader has seen -/

/-- The tokens of an unfinished array or object. -/
def Frame.consumed : Frame → List Token
  | .array items => .mark '[' :: items.reverse.flatMap itemTokens
  | .object members name =>
    .mark '\x7b' :: (members.reverse.flatMap memberTokens ++ [.scalar (.string name), .mark ':'])

/-- The tokens of all unfinished arrays and objects, the outermost first. -/
def stackConsumed (stack : List Frame) : List Token :=
  stack.reverse.flatMap Frame.consumed

theorem stackConsumed_cons (f : Frame) (stack : List Frame) :
    stackConsumed (f :: stack) = stackConsumed stack ++ f.consumed := by
  simp [stackConsumed]

namespace State

/-- The tokens that a state was reached by. -/
def consumed : State → List Token
  | .value _ stack => stackConsumed stack
  | .memberName _ members stack =>
    stackConsumed stack ++ .mark '\x7b' :: members.reverse.flatMap memberTokens
  | .colon members name stack =>
    stackConsumed stack ++ .mark '\x7b' ::
      (members.reverse.flatMap memberTokens ++ [.scalar (.string name)])
  | .done v stack => stackConsumed stack ++ v.tokens

/-- **`s.Fresh`** — where a closing mark may come first, nothing has come before it. -/
def Fresh : State → Prop
  | .value true stack => ∃ rest, stack = .array [] :: rest
  | .memberName true members _ => members = []
  | _ => True

/-- A finished value and the mark behind it. -/
theorem consumed_afterValue {v : Json} {c : Char} {stack : List Frame} {s : State}
    (h : afterValue v c stack = some s) :
    s.Fresh ∧ s.consumed = (State.done v stack).consumed ++ [.mark c] := by
  unfold afterValue at h
  split at h
  · next items rest =>
    split_ifs at h with comma close <;> cases h
    · subst comma
      refine ⟨trivial, ?_⟩
      simp [consumed, stackConsumed_cons, Frame.consumed, itemTokens]
    · subst close
      refine ⟨trivial, ?_⟩
      simp [consumed, stackConsumed_cons, Frame.consumed, tokens, itemsTokens_concat]
  · next members name rest =>
    split_ifs at h with comma close <;> cases h
    · subst comma
      refine ⟨trivial, ?_⟩
      simp [consumed, stackConsumed_cons, Frame.consumed, memberTokens, itemTokens]
    · subst close
      refine ⟨trivial, ?_⟩
      simp [consumed, stackConsumed_cons, Frame.consumed, tokens, membersTokens_concat]
  · exact nomatch h

/-- A token where a value is expected. -/
theorem consumed_atValue {first : Bool} {stack : List Frame} {t : Token} {s : State}
    (fresh : (State.value first stack).Fresh) (plain : t.isPlain = true)
    (h : atValue first stack t = some s) :
    s.Fresh ∧ s.consumed = (State.value first stack).consumed ++ [t] := by
  cases t with
  | scalar v =>
    cases h
    refine ⟨trivial, ?_⟩
    cases v with
    | array | object => exact nomatch plain
    | _ => rfl
  | mark c =>
    simp only [atValue] at h
    split_ifs at h with array object close
    · cases h
      subst array
      refine ⟨⟨stack, rfl⟩, ?_⟩
      simp [consumed, stackConsumed_cons, Frame.consumed]
    · cases h
      subst object
      refine ⟨rfl, ?_⟩
      simp [consumed]
    · obtain ⟨rfl, rfl⟩ := close
      obtain ⟨rest, rfl⟩ := fresh
      cases h
      refine ⟨trivial, ?_⟩
      simp [consumed, stackConsumed_cons, Frame.consumed, tokens, itemsTokens]

/-- **One step** adds its token to what was seen. -/
theorem consumed_step {s s' : State} {t : Token} (fresh : s.Fresh) (plain : t.isPlain = true)
    (h : s.step t = some s') : s'.Fresh ∧ s'.consumed = s.consumed ++ [t] := by
  unfold step at h
  split at h
  · exact consumed_atValue fresh plain h
  · cases h
    refine ⟨trivial, ?_⟩
    simp [consumed]
  · next members stack c =>
    split_ifs at h with close
    cases h
    subst close
    have none : members = [] := fresh
    subst none
    refine ⟨trivial, ?_⟩
    simp [consumed, tokens, membersTokens]
  · split_ifs at h with colon
    cases h
    subst colon
    refine ⟨trivial, ?_⟩
    simp [consumed, stackConsumed_cons, Frame.consumed]
  · exact consumed_afterValue h
  · exact nomatch h

/-- **A run** adds its tokens to what was seen. -/
theorem consumed_run {ts : List Token} : ∀ {s s' : State}, s.Fresh →
    (∀ t ∈ ts, t.isPlain = true) → ts.foldlM step s = some s' →
    s'.consumed = s.consumed ++ ts := by
  induction ts with
  | nil =>
    intro s s' _ _ h
    cases h
    exact (List.append_nil _).symm
  | cons t ts ih =>
    intro s s' fresh plain h
    obtain ⟨plainHead, plainTail⟩ := List.forall_mem_cons.mp plain
    rw [List.foldlM_cons] at h
    obtain ⟨middle, hstep, hrun⟩ := Option.bind_eq_some_iff.mp h
    obtain ⟨fresh', seen⟩ := consumed_step fresh plainHead hstep
    rw [ih fresh' plainTail hrun, seen, List.append_assoc, List.singleton_append]

/-! ## The tokens of a value are read -/

mutual

/-- The tokens of a value lead to the value. -/
theorem run_tokens (v : Json) (first : Bool) (stack : List Frame) (ts : List Token) :
    (v.tokens ++ ts).foldlM step (.value first stack) = ts.foldlM step (.done v stack) := by
  match v with
  | .null | .bool _ | .number _ | .string _ => rfl
  | .array items => exact run_itemsTokens items true [] (fun _ => rfl) stack ts
  | .object members => exact run_membersTokens members true [] (fun _ => rfl) stack ts

/-- The tokens of items lead to an array with these items behind those so far. -/
theorem run_itemsTokens (items : List Json) (first : Bool) (before : List Json)
    (fresh : items = [] → first = true) (stack : List Frame) (ts : List Token) :
    (itemsTokens items ++ ts).foldlM step (.value first (.array before :: stack)) =
      ts.foldlM step (.done (.array (before.reverse ++ items)) stack) := by
  match items with
  | [] =>
    rw [fresh rfl, List.append_nil]
    rfl
  | [v] =>
    rw [itemsTokens, List.append_assoc, run_tokens v]
    show ts.foldlM step (.done (.array (v :: before).reverse) stack) = _
    rw [List.reverse_cons]
  | v :: u :: us =>
    rw [itemsTokens_cons v (List.cons_ne_nil u us), List.append_assoc, run_tokens v]
    show (itemsTokens (u :: us) ++ ts).foldlM step
      (.value false (.array (v :: before) :: stack)) = _
    rw [run_itemsTokens (u :: us) false (v :: before) (fun none => nomatch none),
      List.reverse_cons, List.append_assoc, List.singleton_append]

/-- The tokens of members lead to an object with these members behind those so far. -/
theorem run_membersTokens (members : List (Option String × Json)) (first : Bool)
    (before : List (Option String × Json)) (fresh : members = [] → first = true)
    (stack : List Frame) (ts : List Token) :
    (membersTokens members ++ ts).foldlM step (.memberName first before stack) =
      ts.foldlM step (.done (.object (before.reverse ++ members)) stack) := by
  match members with
  | [] =>
    rw [fresh rfl, List.append_nil]
    rfl
  | [(name, v)] =>
    show (v.tokens ++ [Token.mark '\x7d'] ++ ts).foldlM step
      (.value false (.object before name :: stack)) = _
    rw [List.append_assoc, run_tokens v]
    show ts.foldlM step (.done (.object ((name, v) :: before).reverse) stack) = _
    rw [List.reverse_cons]
  | (name, v) :: m :: ms =>
    show (v.tokens ++ Token.mark ',' :: membersTokens (m :: ms) ++ ts).foldlM step
      (.value false (.object before name :: stack)) = _
    rw [List.append_assoc, run_tokens v]
    show (membersTokens (m :: ms) ++ ts).foldlM step
      (.memberName false ((name, v) :: before) stack) = _
    rw [run_membersTokens (m :: ms) false ((name, v) :: before) (fun none => nomatch none),
      List.reverse_cons, List.append_assoc, List.singleton_append]

end

end State

/-- **A value is read from its tokens** and from no others. -/
theorem ofTokens?_eq_some_iff {ts : List Token} (plain : ∀ t ∈ ts, t.isPlain = true) {v : Json} :
    ofTokens? ts = some v ↔ ts = v.tokens := by
  unfold ofTokens?
  constructor
  · intro h
    split at h
    · next run =>
      cases h
      exact (State.consumed_run (s := .value false []) trivial plain run).symm
    · exact nomatch h
  · rintro rfl
    have run := State.run_tokens v false [] []
    rw [List.append_nil] at run
    rw [run]
    rfl

/-! ## Scalars stand apart -/

theorem apart_singleton (t : Token) : Apart [t] :=
  .singleton t

/-- Tokens, a mark, and tokens. -/
theorem Apart.append_mark {ts ts' : List Token} {c : Char} (h : Apart ts)
    (h' : Apart (.mark c :: ts')) : Apart (ts ++ .mark c :: ts') := by
  refine List.isChain_append.mpr ⟨h, h', fun t _ t' ht' => ?_⟩
  cases ht'
  exact .inr rfl

/-- A mark in front of tokens. -/
theorem Apart.cons_mark {ts : List Token} {c : Char} (h : Apart ts) : Apart (.mark c :: ts) := by
  cases ts with
  | nil => exact apart_singleton _
  | cons t ts => exact List.isChain_cons_cons.mpr ⟨.inl rfl, h⟩

/-- A scalar and a mark in front of tokens. -/
theorem Apart.cons_scalar {v : Json} {ts : List Token} {c : Char} (h : Apart ts) :
    Apart (.scalar v :: .mark c :: ts) :=
  List.isChain_cons_cons.mpr ⟨.inr rfl, h.cons_mark⟩

mutual

theorem apart_tokens (v : Json) : Apart v.tokens := by
  cases v with
  | null | bool | number | string => exact apart_singleton _
  | array items => exact (apart_itemsTokens items).cons_mark
  | object members => exact (apart_membersTokens members).cons_mark

theorem apart_itemsTokens (items : List Json) : Apart (itemsTokens items) := by
  match items with
  | [] => exact apart_singleton _
  | [v] => exact (apart_tokens v).append_mark (apart_singleton _)
  | v :: u :: us => exact (apart_tokens v).append_mark (apart_itemsTokens (u :: us)).cons_mark

theorem apart_membersTokens (members : List (Option String × Json)) :
    Apart (membersTokens members) := by
  match members with
  | [] => exact apart_singleton _
  | [(name, v)] => exact ((apart_tokens v).append_mark (apart_singleton _)).cons_scalar
  | (name, v) :: m :: ms =>
    exact ((apart_tokens v).append_mark (apart_membersTokens (m :: ms)).cons_mark).cons_scalar

end

/-! ## Texts -/

/-- **A value is read from its texts** and from no others. -/
theorem parse?_eq_some_iff {text : String} {v : Json} : parse? text = some v ↔ v.Spells text := by
  unfold parse?
  rw [Option.bind_eq_some_iff]
  constructor
  · rintro ⟨ts, scanned, read⟩
    have lexed := lexed_of_tokens? scanned
    rw [ofTokens?_eq_some_iff lexed.isPlain] at read
    subst read
    exact lexed
  · intro spelled
    exact ⟨v.tokens, (tokens?_eq_some_iff (apart_tokens v)).mpr spelled,
      (ofTokens?_eq_some_iff spelled.isPlain).mpr rfl⟩

/-- A text spells at most one value. -/
theorem Spells.unique {text : String} {v v' : Json} (h : v.Spells text) (h' : v'.Spells text) :
    v = v' :=
  Option.some.inj ((parse?_eq_some_iff.mpr h).symm.trans (parse?_eq_some_iff.mpr h'))

end Json

end Chalkboard
