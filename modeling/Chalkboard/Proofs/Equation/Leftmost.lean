import Chalkboard.Proofs.Equation.Grammar
import Chalkboard.Proofs.Loop

/-!
# The leftmost problem of an equation

An equation that is refused is refused for what comes first in it. First of all it needs two sides.
Of the left side the longest beginning that is made of acceptable terms is accepted, and what follows
that beginning decides the error. The number on the right counts only if nothing follows.

* `WrittenTerm.Acceptable`, `Equation.Accepted` — acceptable terms, and texts made of them.
* `Equation.Problem` — what is reported of a text that does not begin with an acceptable term.
* `Equation.readTerms_ends` — the scan: everything is accepted, or the rest is to blame.
* `Equation.read_error_is_leftmost` — which error is reported, and of what.
-/

namespace Chalkboard

namespace WrittenTerm

/-- **`t.Acceptable unknowns`** — `t` has the shape of a term, its letter is an unknown, and its
coefficient, if there is one, is a finite number. -/
structure Acceptable (unknowns : List Char) (t : WrittenTerm) : Prop where
  matched : t.Matched
  known : t.letter ∈ unknowns
  finite : t.coefficient = [] ∨ ∃ v, readFinite? (String.ofList t.coefficient) = some v

/-- A term has a value exactly if its coefficient is a finite number, or left out. -/
theorem exists_value_iff {t : WrittenTerm} :
    (∃ x, t.value? = some x) ↔
      t.coefficient = [] ∨ ∃ v, readFinite? (String.ofList t.coefficient) = some v := by
  unfold value?
  by_cases none : t.coefficient = []
  · simp [none]
  · simp [none]

/-- A term has its letter for its last character. -/
theorem chars_ne_nil (t : WrittenTerm) : t.chars ≠ [] := by
  intro none
  simp [chars] at none

/-- **One term at most** stands at the front of a text. -/
theorem Matched.unique {t u : WrittenTerm} {cs : List Char} (ht : t.Matched) (hu : u.Matched)
    (front : t.chars <+: cs) (front' : u.chars <+: cs) : t = u := by
  obtain ⟨rest, rfl⟩ := front
  obtain ⟨rest', same⟩ := front'
  have read := ht.at?_chars rest
  rw [← same, hu.at?_chars rest', Option.some.injEq, Prod.mk.injEq] at read
  exact read.1.symm

end WrittenTerm

/-- What stands before the next term is the front of the text. -/
theorem junk_isPrefix (cs : List Char) : junk cs <+: cs := by
  induction cs with
  | nil => exact List.nil_prefix
  | cons c cs ih =>
    rw [junk]
    split_ifs
    · exact List.nil_prefix
    · exact (List.prefix_cons_inj c).mpr ih

/-- It is not empty where no term stands. -/
theorem junk_ne_nil {cs : List Char} (ne : cs ≠ []) (none : WrittenTerm.at? cs = none) :
    junk cs ≠ [] := by
  obtain ⟨c, cs, rfl⟩ := List.exists_cons_of_ne_nil ne
  rw [junk, none]
  simp

namespace Equation

variable {unknowns : List Char}

/-! ## What is accepted, and what stops it -/

/-- **`Accepted unknowns first cs`** — `cs` is made of acceptable terms, one behind the other. Each of
them has a sign; if nothing comes before `cs`, as `first` says, the first can do without. -/
inductive Accepted (unknowns : List Char) : (first : Bool) → List Char → Prop where
  | nil {first : Bool} : Accepted unknowns first []
  | cons {first : Bool} {t : WrittenTerm} {cs : List Char} : t.Acceptable unknowns →
    (first = false → t.sign ≠ []) → Accepted unknowns false cs →
    Accepted unknowns first (t.chars ++ cs)

/-- **`Stops unknowns first rest`** — no acceptable term stands at the front of `rest`. -/
def Stops (unknowns : List Char) (first : Bool) (rest : List Char) : Prop :=
  ∀ t : WrittenTerm, t.Acceptable unknowns → (first = false → t.sign ≠ []) → ¬ t.chars <+: rest

/-- **Where no acceptable term follows, nothing longer is accepted.** -/
theorem Accepted.isPrefix_of_stops {first : Bool} {p q rest : List Char}
    (hp : Accepted unknowns first p) (stops : Stops unknowns (first && p.isEmpty) rest)
    (hq : Accepted unknowns first q) (front : q <+: p ++ rest) : q <+: p := by
  -- both texts are read term by term from the same front
  induction hp generalizing q with
  | @nil first =>
    cases hq with
    | nil => exact List.nil_prefix
    | @cons _ u cs acceptable signed _ =>
      rw [List.isEmpty_nil, Bool.and_true] at stops
      exact absurd ((List.prefix_append u.chars cs).trans front) (stops u acceptable signed)
  | @cons first t p acceptable signed _ ih =>
    cases hq with
    | nil => exact List.nil_prefix
    | @cons _ u cs acceptable' signed' hq =>
      have front' : u.chars <+: t.chars ++ (p ++ rest) := by
        rw [← List.append_assoc]
        exact (List.prefix_append u.chars cs).trans front
      have same : t = u :=
        acceptable.matched.unique acceptable'.matched (List.prefix_append _ _) front'
      subst same
      rw [List.append_assoc, List.prefix_append_right_inj] at front
      refine (List.prefix_append_right_inj t.chars).mpr (ih ?_ hq front)
      have filled : (t.chars ++ p).isEmpty = false := by
        simp [t.chars_ne_nil]
      rw [filled, Bool.and_false] at stops
      exact stops

/-- **`Problem unknowns first rest e`** — `e` reports the front of `rest`: a term whose letter is no
unknown, or else some text that is not accepted. -/
inductive Problem (unknowns : List Char) (first : Bool) (rest : List Char) : InputError → Prop where
  /-- The front is a term, but for its letter. -/
  | unknown {t : WrittenTerm} : t.Matched → (first = false → t.sign ≠ []) → t.chars <+: rest →
    t.letter ∉ unknowns → Problem unknowns first rest (.unknownVariable t.letter)
  /-- The front is no such term. -/
  | text {cs : List Char} : cs ≠ [] → cs <+: rest →
    (∀ t : WrittenTerm, t.Matched → (first = false → t.sign ≠ []) → t.chars <+: rest →
      t.letter ∈ unknowns) → Problem unknowns first rest (.invalidTerm (String.ofList cs))

/-- **`Blocked unknowns first cs e`** — part of `cs` is accepted and `e` reports what follows it. -/
def Blocked (unknowns : List Char) (first : Bool) (cs : List Char) (e : InputError) : Prop :=
  ∃ p rest, cs = p ++ rest ∧ rest ≠ [] ∧ Accepted unknowns first p ∧
    Stops unknowns (first && p.isEmpty) rest ∧ Problem unknowns (first && p.isEmpty) rest e

/-! ## The scan -/

/-- **One term** is added if it is acceptable and has the sign that it needs; otherwise the error
reports it. -/
theorem addTerm_ends (first : Bool) (row : Vector Float unknowns.length) {t : WrittenTerm}
    (matched : t.Matched) (rest : List Char) :
    Ends (fun e => Stops unknowns first (t.chars ++ rest) ∧
        Problem unknowns first (t.chars ++ rest) e)
      (fun _ => t.Acceptable unknowns ∧ (first = false → t.sign ≠ []))
      (addTerm unknowns first row t) := by
  have front : t.chars <+: t.chars ++ rest := List.prefix_append _ _
  -- every other term at the front is this one
  have only {u : WrittenTerm} (hu : u.Matched) (hfront : u.chars <+: t.chars ++ rest) : u = t :=
    hu.unique matched hfront front
  have stops (wrong : t.Acceptable unknowns → ¬ (first = false → t.sign ≠ [])) :
      Stops unknowns first (t.chars ++ rest) := by
    intro u acceptable signed hfront
    have same := only acceptable.matched hfront
    subst same
    exact wrong acceptable signed
  unfold addTerm
  by_cases unsigned : first = false ∧ t.sign = []
  · obtain ⟨later, none⟩ := unsigned
    rw [if_pos (by simp [later, none])]
    refine ⟨stops fun _ signed => signed later none, .text t.chars_ne_nil front ?_⟩
    intro u hu signed hfront
    have same := only hu hfront
    subst same
    exact absurd none (signed later)
  have signed : first = false → t.sign ≠ [] := not_and.mp unsigned
  rw [if_neg (by simpa using unsigned)]
  cases hj : unknowns.finIdxOf? t.letter with
  | none =>
    have absent : t.letter ∉ unknowns := List.finIdxOf?_eq_none_iff.mp hj
    exact ⟨stops fun acceptable => absurd acceptable.known absent,
      .unknown matched signed front absent⟩
  | some j =>
    have known : t.letter ∈ unknowns := (finIdxOf?_eq_some_iff_idxOf.mp hj).1
    cases hx : t.value? with
    | none =>
      have worthless : ¬ ∃ x, t.value? = some x := by simp [hx]
      rw [WrittenTerm.exists_value_iff] at worthless
      refine ⟨stops fun acceptable => absurd acceptable.finite worthless,
        .text t.chars_ne_nil front ?_⟩
      intro u hu _ hfront
      rw [only hu hfront]
      exact known
    | some x =>
      exact ⟨⟨matched, known, WrittenTerm.exists_value_iff.mp ⟨x, hx⟩⟩, signed⟩

/-- Adds the terms of a text, if it has no other parts. -/
def readTerms (unknowns : List Char) (first : Bool) (row : Vector Float unknowns.length)
    (cs : List Char) : Except InputError (Vector Float unknowns.length) :=
  (addTerms unknowns first row (splitTerms cs).1).bind fun row =>
    if (splitTerms cs).2 = [] then .ok row
    else .error (.invalidTerm (String.ofList (junk (splitTerms cs).2)))

theorem readLeft_eq_readTerms (left : List Char) :
    readLeft unknowns left = readTerms unknowns true (Vector.replicate _ 0.0) left := rfl

theorem readTerms_of_at? {first : Bool} {row : Vector Float unknowns.length} {t : WrittenTerm}
    {cs rest : List Char} (h : WrittenTerm.at? cs = some (t, rest)) :
    readTerms unknowns first row cs =
      (addTerm unknowns first row t).bind fun row => readTerms unknowns false row rest := by
  unfold readTerms
  rw [splitTerms_of_at? h, addTerms]
  cases addTerm unknowns first row t with
  | error e => rfl
  | ok row => rfl

theorem readTerms_of_none {first : Bool} {row : Vector Float unknowns.length} {cs : List Char}
    (h : WrittenTerm.at? cs = none) :
    readTerms unknowns first row cs =
      if cs = [] then .ok row else .error (.invalidTerm (String.ofList (junk cs))) := by
  unfold readTerms
  rw [splitTerms_of_none h]
  rfl

/-- **The scan.** Everything is accepted, or the error reports what follows the accepted part. -/
theorem readTerms_ends (first : Bool) (row : Vector Float unknowns.length) (cs : List Char) :
    Ends (Blocked unknowns first cs) (fun _ => Accepted unknowns first cs)
      (readTerms unknowns first row cs) := by
  induction cs using splitTerms.induct generalizing first row with
  | case1 cs t rest hat _ _ _ _ ih =>
    obtain ⟨matched, rfl⟩ := WrittenTerm.at?_eq_some_iff.mp hat
    have filled (p : List Char) : (t.chars ++ p).isEmpty = false := by
      simp [t.chars_ne_nil]
    rw [readTerms_of_at? hat]
    have step := addTerm_ends first row matched rest
    cases hadd : addTerm unknowns first row t with
    | error e =>
      rw [hadd] at step
      obtain ⟨stops, problem⟩ := step
      refine ⟨[], t.chars ++ rest, rfl, ?_, .nil, ?_, ?_⟩
      · exact List.append_ne_nil_of_left_ne_nil t.chars_ne_nil _
      · rwa [List.isEmpty_nil, Bool.and_true]
      · rwa [List.isEmpty_nil, Bool.and_true]
    | ok row' =>
      rw [hadd] at step
      obtain ⟨acceptable, signed⟩ := step
      refine (ih false row').imp ?_ fun _ accepted => .cons acceptable signed accepted
      -- what follows the accepted part of the rest also follows it with the term in front
      rintro e ⟨p, rest', rfl, ne, accepted, stops, problem⟩
      refine ⟨t.chars ++ p, rest', (List.append_assoc _ _ _).symm, ne,
        .cons acceptable signed accepted, ?_, ?_⟩
      · rwa [filled, Bool.and_false]
      · rwa [filled, Bool.and_false]
  | case2 cs hat =>
    have absent {t : WrittenTerm} (matched : t.Matched) : ¬ t.chars <+: cs := by
      rintro ⟨rest, rfl⟩
      rw [matched.at?_chars rest] at hat
      exact Option.some_ne_none _ hat
    rw [readTerms_of_none hat]
    split_ifs with none
    · rw [none]
      exact .nil
    · refine ⟨[], cs, rfl, none, .nil, ?_, ?_⟩
      · intro t acceptable _
        exact absent acceptable.matched
      · refine .text (junk_ne_nil none hat) (junk_isPrefix cs) ?_
        intro t matched _ front
        exact absurd front (absent matched)

/-! ## The error -/

/-- What stands before the first `=`. -/
theorem takeWhile_before {left : List Char} (h : '=' ∉ left) (right : List Char) :
    (left ++ '=' :: right).takeWhile (· ≠ '=') = left := by
  have stays : ∀ c ∈ left, decide (c ≠ '=') = true := by
    intro c hc
    rw [decide_eq_true_eq]
    rintro rfl
    exact h hc
  have stops : ∀ c ∈ ('=' :: right).head?, decide (c ≠ '=') = false := by simp
  exact congrArg Prod.fst (span_append stays stops)

/-- **There are no two sides** exactly if there is not one `=`, or nothing stands before it. -/
theorem sides?_eq_none_iff {cs : List Char} :
    sides? cs = none ↔ cs.count '=' ≠ 1 ∨ cs.takeWhile (· ≠ '=') = [] := by
  constructor
  · intro none
    by_contra both
    rw [not_or, not_not] at both
    obtain ⟨one, ne⟩ := both
    have present : '=' ∈ cs := List.count_pos_iff.mp (by omega)
    obtain ⟨left, right, rfl, hleft⟩ := List.eq_append_cons_of_mem present
    rw [takeWhile_before hleft] at ne
    have hright : '=' ∉ right := by
      intro again
      have more := List.count_pos_iff.mpr again
      rw [List.count_append, List.count_cons_self] at one
      omega
    rw [sides?_eq_some_iff.mpr ⟨rfl, ne, hleft, hright⟩] at none
    exact nomatch none
  · intro wrong
    rw [Option.eq_none_iff_forall_ne_some]
    rintro ⟨left, right⟩ some
    obtain ⟨rfl, ne, hleft, hright⟩ := sides?_eq_some_iff.mp some
    rcases wrong with count | empty
    · apply count
      rw [List.count_append, List.count_cons_self, List.count_eq_zero.mpr hleft,
        List.count_eq_zero.mpr hright]
    · rw [takeWhile_before hleft] at empty
      exact ne empty

/-- An unknown letter is reported exactly if a term with this letter stands in front. -/
theorem Problem.eq_unknownVariable_iff {first : Bool} {rest : List Char} {e : InputError}
    (h : Problem unknowns first rest e) (v : Char) :
    e = .unknownVariable v ↔ ∃ t : WrittenTerm, t.Matched ∧ (first = false → t.sign ≠ []) ∧
      t.chars <+: rest ∧ t.letter = v ∧ v ∉ unknowns := by
  cases h with
  | @unknown t matched signed front absent =>
    rw [InputError.unknownVariable.injEq]
    constructor
    · rintro rfl
      exact ⟨t, matched, signed, front, rfl, absent⟩
    · rintro ⟨u, hu, -, hfront, rfl, -⟩
      rw [matched.unique hu front hfront]
  | text _ _ known =>
    refine iff_of_false (fun h => nomatch h) ?_
    rintro ⟨t, matched, signed, front, rfl, absent⟩
    exact absent (known t matched signed front)

/-- **`IsLongestAccepted unknowns left p`** — `p` is accepted, and no longer beginning of `left`
is. -/
structure IsLongestAccepted (unknowns left p : List Char) : Prop where
  front : p <+: left
  accepted : Accepted unknowns true p
  longest : ∀ q, Accepted unknowns true q → q <+: left → q <+: p

/-- **`Reports unknowns p rest right e`** — `e` is the error of an equation whose left side is `p`,
which is accepted, and `rest`, and whose right side is `right`. -/
structure Reports (unknowns p rest right : List Char) (e : InputError) : Prop where
  /-- A letter is reported if `rest` begins with a term of this letter, which is no unknown. -/
  unknown : ∀ v, e = .unknownVariable v ↔ ∃ t : WrittenTerm, t.Matched ∧
    (p ≠ [] → t.sign ≠ []) ∧ t.chars <+: rest ∧ t.letter = v ∧ v ∉ unknowns
  /-- Otherwise a beginning of `rest` is reported, if there is a rest. -/
  term : rest ≠ [] → (∀ v, e ≠ .unknownVariable v) →
    ∃ cs, cs ≠ [] ∧ cs <+: rest ∧ e = .invalidTerm (String.ofList cs)
  constant : rest = [] ↔ e = .invalidConstant (String.ofList right)
  noOther : ∀ s, e = .invalidConstant s → s = String.ofList right

theorem Problem.reports {p rest right : List Char} {e : InputError} (ne : rest ≠ [])
    (h : Problem unknowns (true && p.isEmpty) rest e) : Reports unknowns p rest right e := by
  have later : (true && p.isEmpty) = false ↔ p ≠ [] := by simp
  have unknown := h.eq_unknownVariable_iff
  rw [later] at unknown
  have notConstant : ∀ s, e ≠ .invalidConstant s := by
    intro s same
    subst same
    exact nomatch h
  refine ⟨unknown, ?_, ?_, ?_⟩
  · intro _ known
    cases h with
    | @unknown t _ _ _ _ => exact absurd rfl (known t.letter)
    | @text cs filled front _ => exact ⟨cs, filled, front, rfl⟩
  · exact iff_of_false ne (notConstant _)
  · intro s same
    exact absurd same (notConstant s)

theorem reports_constant (p right : List Char) :
    Reports unknowns p [] right (.invalidConstant (String.ofList right)) := by
  refine ⟨?_, ?_, iff_of_true rfl rfl, ?_⟩
  · intro v
    refine iff_of_false (fun h => nomatch h) ?_
    rintro ⟨t, -, -, front, -⟩
    exact t.chars_ne_nil (List.prefix_nil.mp front)
  · intro ne
    exact absurd rfl ne
  · intro s same
    exact (InputError.invalidConstant.inj same).symm

theorem eq_invalidConstant_of_readRight {right : List Char} {e : InputError}
    (h : readRight right = .error e) : e = .invalidConstant (String.ofList right) := by
  unfold readRight at h
  split at h
  · exact nomatch h
  · exact (Except.error.inj h).symm

/-- **A left side that is blocked**, and what is reported of it. -/
theorem Blocked.reports {left right : List Char} {e : InputError}
    (h : Blocked unknowns true left e) :
    ∃ p rest, left = p ++ rest ∧ IsLongestAccepted unknowns left p ∧
      Reports unknowns p rest right e := by
  obtain ⟨p, rest, rfl, ne, accepted, stops, problem⟩ := h
  refine ⟨p, rest, rfl, ⟨List.prefix_append p rest, accepted, ?_⟩, problem.reports ne⟩
  intro q hq front
  exact accepted.isPrefix_of_stops stops hq front

theorem Reports.ne_invalidEquation {p rest right : List Char} {e : InputError}
    (h : Reports unknowns p rest right e) (s : String) : e ≠ .invalidEquation s := by
  rintro rfl
  by_cases none : rest = []
  · exact nomatch h.constant.mp none
  · obtain ⟨cs, -, -, same⟩ := h.term none (fun v h => nomatch h)
    exact nomatch same

/-- **An equation with two sides**, and what is reported of it: the right side only if the whole left
side is accepted. -/
theorem exists_reports {text : String} {left right : List Char} {e : InputError}
    (hsides : sides? (eraseBlanks text.toList) = some (left, right))
    (refused : read unknowns text = .error e) :
    ∃ p rest, left = p ++ rest ∧ IsLongestAccepted unknowns left p ∧
      Reports unknowns p rest right e := by
  have scan := readTerms_ends true (Vector.replicate unknowns.length 0.0) left
  unfold read at refused
  rw [hsides] at refused
  simp only [readLeft_eq_readTerms] at refused
  generalize readTerms unknowns true (Vector.replicate _ 0.0) left = result at scan refused
  cases result with
  | error e' =>
    obtain rfl := Except.error.inj refused
    exact Blocked.reports scan
  | ok row =>
    refine ⟨left, [], (List.append_nil left).symm, ⟨List.prefix_rfl, scan, ?_⟩, ?_⟩
    · intro q _ front
      exact front
    · cases hright : readRight right with
      | ok v =>
        rw [hright] at refused
        exact nomatch refused
      | error e' =>
        rw [hright] at refused
        obtain rfl := Except.error.inj refused
        rw [eq_invalidConstant_of_readRight hright]
        exact reports_constant left right

/-- **The error is that of the leftmost problem.** Without its blanks, an equation that is refused has
not exactly one `=`, or nothing before it, and the error holds the text without the blanks around it.
Otherwise the longest accepted beginning of its left side decides: if what follows is a term but for
its letter, the error is that letter; if anything else follows, the error is some text from there on;
and only if nothing follows, the error is the right side. -/
theorem read_error_is_leftmost {text : String} {e : InputError}
    (refused : read unknowns text = .error e) :
    ((∃ s, e = .invalidEquation s) ↔
        (text.toList.filter (!isBlank ·)).count '=' ≠ 1 ∨
          (text.toList.filter (!isBlank ·)).takeWhile (· ≠ '=') = []) ∧
      (∀ s, e = .invalidEquation s → s = String.ofList (trimBlanks text.toList)) ∧
      ∀ left right, text.toList.filter (!isBlank ·) = left ++ '=' :: right → left ≠ [] →
        '=' ∉ left → '=' ∉ right →
        ∃ p rest, left = p ++ rest ∧ IsLongestAccepted unknowns left p ∧
          Reports unknowns p rest right e := by
  have blanks : text.toList.filter (!isBlank ·) = eraseBlanks text.toList := rfl
  rw [blanks, ← sides?_eq_none_iff]
  cases hsides : sides? (eraseBlanks text.toList) with
  | none =>
    have reported : e = .invalidEquation (String.ofList (trimBlanks text.toList)) := by
      unfold read at refused
      rw [hsides] at refused
      exact (Except.error.inj refused).symm
    subst reported
    refine ⟨iff_of_true ⟨_, rfl⟩ rfl, ?_, ?_⟩
    · intro s same
      exact (InputError.invalidEquation.inj same).symm
    · intro left right htext ne before after
      rw [sides?_eq_some_iff.mpr ⟨htext, ne, before, after⟩] at hsides
      exact nomatch hsides
  | some sides =>
    obtain ⟨left, right⟩ := sides
    have reports := exists_reports hsides refused
    have notEquation : ∀ s, e ≠ .invalidEquation s := by
      intro s
      obtain ⟨p, rest, -, -, report⟩ := reports
      exact report.ne_invalidEquation s
    refine ⟨iff_of_false ?_ (fun h => nomatch h), ?_, ?_⟩
    · rintro ⟨s, same⟩
      exact notEquation s same
    · intro s same
      exact absurd same (notEquation s)
    · intro left' right' htext ne before after
      have same := sides?_eq_some_iff.mpr ⟨htext, ne, before, after⟩
      rw [hsides, Option.some.injEq, Prod.mk.injEq] at same
      obtain ⟨rfl, rfl⟩ := same
      exact reports

theorem read_error_is_leftmost_sample :
    read ['x'] " 2x + 3x*y - 4q = one" = .error (.invalidTerm "*") ∧
      ∃ p rest, "2x+3x*y-4q".toList = p ++ rest ∧
        IsLongestAccepted ['x'] "2x+3x*y-4q".toList p ∧
        Reports ['x'] p rest "one".toList (.invalidTerm "*") := by
  have refused : read ['x'] " 2x + 3x*y - 4q = one" = .error (.invalidTerm "*") := by
    decide +kernel
  refine ⟨refused, ?_⟩
  exact (read_error_is_leftmost refused).2.2 _ _ (by decide +kernel) (by decide) (by decide)
    (by decide)

end Equation

end Chalkboard
