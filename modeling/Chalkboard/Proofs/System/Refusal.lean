import Chalkboard.Method.Basic
import Chalkboard.Proofs.Loop
import Chalkboard.Proofs.System.RoundTrip

/-!
# Why a system is refused

What can be wrong with unknowns, equations and settings is looked for in a fixed order, before any
method runs: the unknowns from the left, the number of the equations, the equations from the first to
the last, and the size. The first fault that is found is reported, and the method has no say in it.
Without a fault the method runs on the system whose rows are those of the single equations.

* `LinearSystem.FirstFault` — the first fault in a list of unknowns (`variableFault?_eq_some_iff`).
* `Method.Refusal` — the first fault of all.
* `Method.refusals_in_order` — it is the error that is reported, whatever the method.
-/

namespace Chalkboard

namespace LinearSystem

/-! ## Unknowns -/

/-- **`Distinct cs`** — letters of ASCII, each of them once. -/
structure Distinct (cs : List Char) : Prop where
  letters : ∀ v ∈ cs, v.isAlpha = true
  once : cs.Nodup

/-- **`FirstFault unknowns fault`** — `fault` is the first one from the left: there is no unknown at
all, or those before the offender have no fault. -/
inductive FirstFault : List Char → VariableFault → Prop where
  | noVariables : FirstFault [] .noVariables
  | notLetter {before after : List Char} {v : Char} : Distinct before → v.isAlpha = false →
    FirstFault (before ++ v :: after) (.notLetter v)
  | repeated {before after : List Char} {v : Char} : Distinct before → v.isAlpha = true →
    v ∈ before → FirstFault (before ++ v :: after) (.repeated v)

/-- **`Named unknowns`** — unknowns without a fault. -/
structure Named (unknowns : List Char) : Prop where
  nonempty : unknowns ≠ []
  distinct : Distinct unknowns

theorem variableFault?_eq_none_iff_named {unknowns : List Char} :
    variableFault? unknowns = none ↔ Named unknowns := by
  rw [variableFault?_eq_none_iff]
  constructor
  · rintro ⟨ne, letters, once⟩
    exact ⟨ne, letters, once⟩
  · rintro ⟨ne, letters, once⟩
    exact ⟨ne, letters, once⟩

/-- Distinct letters are passed over. -/
theorem variableFaultAfter_append {before : List Char} (distinct : Distinct before)
    (rest : List Char) : ∀ {seen : List Char}, (∀ v ∈ before, v ∉ seen) →
      variableFaultAfter seen (before ++ rest) = variableFaultAfter (before.reverse ++ seen) rest := by
  obtain ⟨letters, once⟩ := distinct
  induction before with
  | nil =>
    intro seen _
    rfl
  | cons v before ih =>
    intro seen new
    obtain ⟨letter, letters⟩ := List.forall_mem_cons.mp letters
    obtain ⟨newFirst, newOthers⟩ := List.forall_mem_cons.mp new
    obtain ⟨notAgain, once⟩ := List.nodup_cons.mp once
    have stillNew : ∀ w ∈ before, w ∉ v :: seen := by
      intro w hw
      rw [List.mem_cons, not_or]
      exact ⟨fun same => notAgain (same ▸ hw), newOthers w hw⟩
    rw [List.cons_append, variableFaultAfter, letter, if_neg (by simp), if_neg newFirst,
      ih letters once stillNew, List.reverse_cons, List.append_assoc, List.singleton_append]

/-- The fault that is found behind distinct letters is the first one. -/
theorem firstFault_of_variableFaultAfter {vs : List Char} {fault : VariableFault} :
    ∀ {before seen : List Char}, Distinct before → (∀ v, v ∈ seen ↔ v ∈ before) →
      variableFaultAfter seen vs = some fault → FirstFault (before ++ vs) fault := by
  induction vs with
  | nil =>
    intro before seen _ _ found
    exact nomatch found
  | cons v vs ih =>
    intro before seen distinct same found
    rw [variableFaultAfter] at found
    split_ifs at found with other again
    · cases found
      exact .notLetter distinct (by simpa using other)
    · cases found
      exact .repeated distinct (by simpa using other) ((same v).mp again)
    · -- `v` joins the letters before it
      have letter : v.isAlpha = true := by simpa using other
      have fresh : v ∉ before := fun hv => again ((same v).mpr hv)
      have longer : Distinct (before ++ [v]) := by
        refine ⟨List.forall_mem_append.mpr ⟨distinct.letters, ?_⟩, ?_⟩
        · exact List.forall_mem_singleton.mpr letter
        · exact List.nodup_append_comm.mp (List.nodup_cons.mpr ⟨fresh, distinct.once⟩)
      have seenToo : ∀ w, w ∈ v :: seen ↔ w ∈ before ++ [v] := by
        intro w
        rw [List.mem_cons, List.mem_append, List.mem_singleton, same w, or_comm]
      have rest := ih longer seenToo found
      rwa [List.append_assoc, List.singleton_append] at rest

/-- **The fault that is found is the first one.** -/
theorem variableFault?_eq_some_iff {unknowns : List Char} {fault : VariableFault} :
    variableFault? unknowns = some fault ↔ FirstFault unknowns fault := by
  unfold variableFault?
  constructor
  · intro found
    split_ifs at found with empty
    · cases found
      rw [empty]
      exact .noVariables
    · have none : Distinct [] := ⟨List.forall_mem_nil _, List.nodup_nil⟩
      exact firstFault_of_variableFaultAfter none (fun _ => Iff.rfl) found
  · intro first
    cases first with
    | noVariables => rfl
    | @notLetter before after v distinct other =>
      rw [if_neg (by simp), variableFaultAfter_append distinct _ (by simp), variableFaultAfter, other]
      rfl
    | @repeated before after v distinct letter again =>
      rw [if_neg (by simp), variableFaultAfter_append distinct _ (by simp), variableFaultAfter,
        letter, if_neg (by simp), if_pos (by simpa using again)]

/-! ## Equations -/

variable {unknowns : List Char}

/-- **`Readable unknowns text`** — `text` is read as an equation. -/
def Readable (unknowns : List Char) (text : String) : Prop :=
  ∃ row, Equation.read unknowns text = .ok row

/-- **Equations are read up to the first that is refused.** -/
theorem readAll_ends (unknowns : List Char) (texts : List String) :
    Ends
      (fun e => ∃ before text after, texts = before ++ text :: after ∧
        (∀ t ∈ before, Readable unknowns t) ∧ Equation.read unknowns text = .error e)
      (fun rows => List.Forall₂ (fun text row => Equation.read unknowns text = .ok row) texts rows.1)
      (Equation.readAll unknowns texts) := by
  induction texts with
  | nil => exact .nil
  | cons text texts ih =>
    rw [Equation.readAll]
    cases hread : Equation.read unknowns text with
    | error e =>
      exact ⟨[], text, texts, rfl, List.forall_mem_nil _, hread⟩
    | ok row =>
      cases hrest : Equation.readAll unknowns texts with
      | error e =>
        rw [hrest] at ih
        obtain ⟨before, text', after, rfl, readable, refused⟩ := ih
        exact ⟨text :: before, text', after, rfl, List.forall_mem_cons.mpr ⟨⟨row, hread⟩, readable⟩,
          refused⟩
      | ok rows =>
        rw [hrest] at ih
        exact .cons hread ih

/-- The first equation that is refused gives the error. -/
theorem readAll_of_refused {before after : List String} {text : String} {e : InputError}
    (readable : ∀ t ∈ before, Readable unknowns t) (refused : Equation.read unknowns text = .error e) :
    Equation.readAll unknowns (before ++ text :: after) = .error e := by
  induction before with
  | nil =>
    rw [List.nil_append, Equation.readAll, refused]
    rfl
  | cons t before ih =>
    obtain ⟨⟨row, hread⟩, others⟩ := List.forall_mem_cons.mp readable
    rw [List.cons_append, Equation.readAll, hread, ih others]
    rfl

/-- **`s.HoldsEquations texts`** — row `i` and constant `i` of `s` are those of equation `i`. -/
def HoldsEquations (s : LinearSystem unknowns.length Float) (texts : List String) : Prop :=
  ∀ i : Fin unknowns.length, ∃ text, texts[(i : Nat)]? = some text ∧
    Equation.read unknowns text = .ok (s.a.row i, s.b.get i)

/-- **A system of readable equations** holds each of them in its own row. -/
theorem exists_read_of_readable {texts : List String} (named : Named unknowns)
    (count : texts.length = unknowns.length) (readable : ∀ t ∈ texts, Readable unknowns t) :
    ∃ s, read unknowns texts = .ok s ∧ s.unknowns.toList = unknowns ∧ s.HoldsEquations texts := by
  have rows := readAll_ends unknowns texts
  cases hrows : Equation.readAll unknowns texts with
  | error e =>
    rw [hrows] at rows
    obtain ⟨before, text, after, rfl, -, refused⟩ := rows
    obtain ⟨row, hread⟩ := readable text (by simp)
    rw [refused] at hread
    exact nomatch hread
  | ok all =>
    rw [hrows] at rows
    have each : List.Forall₂ (fun text row => Equation.read unknowns text = .ok row) texts all.1 :=
      rows
    unfold read
    simp only [variableFault?_eq_none_iff_named.mpr named, dif_pos count, hrows]
    refine ⟨_, rfl, rfl, ?_⟩
    intro i
    have here : (i : Nat) < texts.length := by omega
    refine ⟨texts[(i : Nat)], List.getElem?_eq_getElem here, ?_⟩
    have hread := each.get here (by rw [all.2]; exact here)
    simp only [List.get_eq_getElem] at hread
    rw [hread]
    refine congrArg Except.ok (Prod.ext ?_ ?_)
    · exact (List.getElem_map Prod.fst).symm
    · exact (List.getElem_map Prod.snd).symm

end LinearSystem

/-! ## Refusals -/

namespace Method

open LinearSystem (FirstFault Named Readable HoldsEquations exists_read_of_readable
  variableFault?_eq_some_iff variableFault?_eq_none_iff_named readAll_ends readAll_of_refused)

variable {settings : Settings Float} {unknowns : List Char} {texts : List String}

/-- **`Refusal settings unknowns texts e`** — `e` is the first fault: what is looked for earlier is
in order. -/
inductive Refusal (settings : Settings Float) (unknowns : List Char) (texts : List String) :
    InputError → Prop where
  | unknowns {fault : VariableFault} : FirstFault unknowns fault →
    Refusal settings unknowns texts (.invalidVariables fault)
  | count : Named unknowns → texts.length ≠ unknowns.length →
    Refusal settings unknowns texts (.equationCount unknowns.length texts.length)
  /-- An equation is refused that comes behind readable ones. -/
  | equation {before after : List String} {text : String} {e : InputError} : Named unknowns →
    texts.length = unknowns.length → texts = before ++ text :: after →
    (∀ t ∈ before, Readable unknowns t) → Equation.read unknowns text = .error e →
    Refusal settings unknowns texts e
  | size : Named unknowns → texts.length = unknowns.length → (∀ t ∈ texts, Readable unknowns t) →
    settings.maxSize < unknowns.length →
    Refusal settings unknowns texts (.systemTooLarge unknowns.length settings.maxSize)

/-- **`Admitted settings unknowns texts`** — nothing is wrong. -/
structure Admitted (settings : Settings Float) (unknowns : List Char) (texts : List String) :
    Prop where
  named : Named unknowns
  count : texts.length = unknowns.length
  readable : ∀ t ∈ texts, Readable unknowns t
  size : unknowns.length ≤ settings.maxSize

/-- **A refusal is reported**, whatever the method. -/
theorem solveTexts_of_refusal {e : InputError} (m : Method)
    (refusal : Refusal settings unknowns texts e) :
    m.solveTexts settings unknowns texts = .error e := by
  unfold solveTexts
  cases refusal with
  | unknowns first =>
    unfold LinearSystem.read
    rw [variableFault?_eq_some_iff.mpr first]
    rfl
  | count named differs =>
    unfold LinearSystem.read
    simp only [variableFault?_eq_none_iff_named.mpr named, dif_neg differs]
    rfl
  | equation named count split readable refused =>
    unfold LinearSystem.read
    simp only [variableFault?_eq_none_iff_named.mpr named, dif_pos count]
    subst split
    rw [readAll_of_refused readable refused]
    rfl
  | size named count readable large =>
    obtain ⟨s, hs, -⟩ := exists_read_of_readable named count readable
    rw [hs]
    exact if_pos large

/-- **Admitted equations are solved**, each of them in its own row. -/
theorem exists_system_of_admitted (admitted : Admitted settings unknowns texts) :
    ∃ s : LinearSystem unknowns.length Float, s.unknowns.toList = unknowns ∧
      s.HoldsEquations texts ∧
      ∀ m : Method, m.solveTexts settings unknowns texts = .ok (m.run settings s) := by
  obtain ⟨s, hs, names, rows⟩ :=
    exists_read_of_readable admitted.named admitted.count admitted.readable
  refine ⟨s, names, rows, ?_⟩
  intro m
  unfold solveTexts
  rw [hs]
  exact if_neg (Nat.not_lt.mpr admitted.size)

/-- **Nothing is wrong, or something comes first.** -/
theorem admitted_or_refusal (settings : Settings Float) (unknowns : List Char)
    (texts : List String) :
    Admitted settings unknowns texts ∨ ∃ e, Refusal settings unknowns texts e := by
  cases fault : LinearSystem.variableFault? unknowns with
  | some f => exact .inr ⟨_, .unknowns (variableFault?_eq_some_iff.mp fault)⟩
  | none =>
    have named := variableFault?_eq_none_iff_named.mp fault
    by_cases count : texts.length = unknowns.length
    · have rows := readAll_ends unknowns texts
      cases hrows : Equation.readAll unknowns texts with
      | error e =>
        rw [hrows] at rows
        obtain ⟨before, text, after, split, readable, refused⟩ := rows
        exact .inr ⟨e, .equation named count split readable refused⟩
      | ok all =>
        rw [hrows] at rows
        have readable : ∀ t ∈ texts, Readable unknowns t := by
          intro t ht
          obtain ⟨i, hi, rfl⟩ := List.getElem_of_mem ht
          exact ⟨_, List.Forall₂.get rows hi (by rw [all.2]; exact hi)⟩
        rcases Nat.lt_or_ge settings.maxSize unknowns.length with large | fits
        · exact .inr ⟨_, .size named count readable large⟩
        · exact .inl ⟨named, count, readable, fits⟩
    · exact .inr ⟨_, .count named count⟩

/-- **Refusals come in a fixed order, and before the method.** An error is reported exactly if it is
the first fault; there is one exactly if the unknowns, the number of equations, some equation or the
size is at fault; and if there is none, the method runs on the system that holds each equation in its
own row. -/
theorem refusals_in_order (settings : Settings Float) (unknowns : List Char)
    (texts : List String) :
    (∀ (m : Method) (e : InputError), m.solveTexts settings unknowns texts = .error e ↔
        Refusal settings unknowns texts e) ∧
      ((∃ e, Refusal settings unknowns texts e) ↔ ¬ Named unknowns ∨
        texts.length ≠ unknowns.length ∨ (∃ t ∈ texts, ¬ Readable unknowns t) ∨
        settings.maxSize < unknowns.length) ∧
      ((¬ ∃ e, Refusal settings unknowns texts e) →
        ∃ s : LinearSystem unknowns.length Float, s.unknowns.toList = unknowns ∧
          s.HoldsEquations texts ∧
          ∀ m : Method, m.solveTexts settings unknowns texts = .ok (m.run settings s)) := by
  have never {e : InputError} (refusal : Refusal settings unknowns texts e) :
      ¬ Admitted settings unknowns texts := by
    intro admitted
    obtain ⟨s, -, -, solved⟩ := exists_system_of_admitted admitted
    have reported := solveTexts_of_refusal .cramersRule refusal
    rw [solved] at reported
    exact nomatch reported
  refine ⟨?_, ?_, ?_⟩
  · intro m e
    refine ⟨fun reported => ?_, solveTexts_of_refusal m⟩
    rcases admitted_or_refusal settings unknowns texts with admitted | ⟨e', refusal⟩
    · obtain ⟨s, -, -, solved⟩ := exists_system_of_admitted admitted
      rw [solved] at reported
      exact nomatch reported
    · rw [solveTexts_of_refusal m refusal] at reported
      obtain rfl := Except.error.inj reported
      exact refusal
  · constructor
    · rintro ⟨e, refusal⟩
      by_contra all
      simp only [not_or, not_not, not_exists, not_and, not_lt] at all
      obtain ⟨named, count, readable, size⟩ := all
      exact never refusal ⟨named, count, readable, size⟩
    · intro fault
      rcases admitted_or_refusal settings unknowns texts with ⟨named, count, readable, size⟩ | refusal
      · rcases fault with unnamed | differs | ⟨t, ht, unread⟩ | large
        · exact absurd named unnamed
        · exact absurd count differs
        · exact absurd (readable t ht) unread
        · exact absurd size (Nat.not_le.mpr large)
      · exact refusal
  · intro none
    rcases admitted_or_refusal settings unknowns texts with admitted | refusal
    · exact exists_system_of_admitted admitted
    · exact absurd refusal none

/-- Settings that admit one unknown only. -/
def single : Settings Float :=
  { Settings.standard with maxSize := 1 }

/-- Two equations that cannot be read, and a size that is not admitted: the first equation is
reported. -/
theorem refusals_in_order_sample :
    (∀ m : Method, m.solveTexts single ['x', 'y'] ["x + q = 1", "x = y = 1"] =
      .error (.unknownVariable 'q')) ∧
    ¬ (∃ e, Refusal single ['x'] ["2x = 4"] e) ∧
    ∃ s : LinearSystem ['x'].length Float, s.unknowns.toList = ['x'] ∧
      s.HoldsEquations ["2x = 4"] ∧
      ∀ m : Method, m.solveTexts single ['x'] ["2x = 4"] = .ok (m.run single s) := by
  obtain ⟨errors, -, -⟩ := refusals_in_order single ['x', 'y'] ["x + q = 1", "x = y = 1"]
  obtain ⟨-, faults, solved⟩ := refusals_in_order single ['x'] ["2x = 4"]
  have letters : Named ['x', 'y'] := variableFault?_eq_none_iff_named.mp (by decide)
  have letter : Named ['x'] := variableFault?_eq_none_iff_named.mp (by decide)
  have refused : Equation.read ['x', 'y'] "x + q = 1" = .error (.unknownVariable 'q') := by
    decide +kernel
  have read : Equation.read ['x'] "2x = 4" = .ok (#v[2.0], 4.0) := by decide +kernel
  have none : ¬ ∃ e, Refusal single ['x'] ["2x = 4"] e := by
    rw [faults]
    simp only [not_or, not_not, not_exists, not_and]
    refine ⟨letter, rfl, ?_, by decide⟩
    intro t ht
    obtain rfl := List.mem_singleton.mp ht
    exact ⟨_, read⟩
  refine ⟨?_, none, solved none⟩
  intro m
  exact (errors m _).mpr
    (.equation letters rfl (List.nil_append _).symm (List.forall_mem_nil _) refused)

end Method

end Chalkboard
