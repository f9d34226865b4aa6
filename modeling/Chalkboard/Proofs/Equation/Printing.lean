import Chalkboard.Proofs.Decimal.Entry
import Chalkboard.Proofs.Equation.Grammar

/-!
# Written equations are read back

The text of an equation leaves out its zero terms and every coefficient of one, and puts the sign of
a term between blanks. Without the blanks what remains is a sum of the grammar, and it is read as
the coefficients that were written: each unknown is added to once, or not at all.

* `Equation.written` — the terms that the text of an equation consists of.
* `Equation.read_text` — one equation, written and read.
* `Equation.read_text_of_zero` — a left side without terms is written as `0`, which is no term.
-/

namespace Chalkboard

open Binary64

/-! ## Characters of a side -/

/-- Whether a character is neither blank nor the sign of equality. -/
def isSideChar (c : Char) : Bool :=
  !isBlank c && c != '='

/-- No printed character of ASCII is blank. -/
theorem isSideChar_of_ascii {c : Char} (low : 33 ≤ c.toNat) (high : c.toNat < 128) (ne : c ≠ '=') :
    isSideChar c := by
  have runs : ∀ run ∈ blankRuns, run.1 + run.2 ≤ 33 ∨ 128 ≤ run.1 := by decide
  have blank : isBlank c = false := by
    refine List.any_eq_false.mpr fun run hrun => ?_
    have := runs run hrun
    simp only [Bool.and_eq_true, decide_eq_true_eq, not_and, not_lt]
    omega
  rw [isSideChar, blank, Bool.not_false, Bool.true_and, bne_iff_ne]
  exact ne

theorem isSideChar_of_isAlpha {c : Char} (h : c.isAlpha) : isSideChar c := by
  obtain ⟨low, high⟩ := toNat_lt_of_isAlpha h
  refine isSideChar_of_ascii (by omega) high ?_
  rintro rfl
  exact absurd h (by decide)

/-- Entries stand in equations as they are. -/
theorem isSideChar_of_isEntryChar {c : Char} (h : isEntryChar c) : isSideChar c := by
  simp only [isEntryChar, Char.isAlphanum, Bool.or_eq_true, decide_eq_true_eq] at h
  rcases h with ((alpha | digit) | rfl) | rfl
  · exact isSideChar_of_isAlpha alpha
  · obtain ⟨low, high⟩ := toNat_of_isDigit digit
    refine isSideChar_of_ascii (by omega) (by omega) ?_
    rintro rfl
    exact absurd digit (by decide)
  · decide
  · decide

theorem all_isSideChar_of_entry {cs : List Char} (h : cs.all isEntryChar) : cs.all isSideChar :=
  List.all_eq_true.mpr fun c hc => isSideChar_of_isEntryChar (List.all_eq_true.mp h c hc)

theorem all_isSideChar_valueText (x : Float) : (valueText x).toList.all isSideChar :=
  all_isSideChar_of_entry (all_isEntryChar_valueText x)

theorem eraseBlanks_append (cs ds : List Char) :
    eraseBlanks (cs ++ ds) = eraseBlanks cs ++ eraseBlanks ds :=
  List.filter_append cs ds

theorem eraseBlanks_of_all {cs : List Char} (h : cs.all isSideChar) : eraseBlanks cs = cs :=
  List.filter_eq_self.mpr fun c hc => (Bool.and_eq_true_iff.mp (List.all_eq_true.mp h c hc)).1

theorem equals_not_mem_of_all {cs : List Char} (h : cs.all isSideChar) : '=' ∉ cs := fun hc =>
  absurd (List.all_eq_true.mp h '=' hc) (by decide)

/-! ## Numbers -/

/-- A magnitude is written as a numeral. -/
theorem isNumeral_valueText_abs {x : Float} (h : x.isFinite = true) :
    IsNumeral (valueText x.abs).toList := by
  obtain ⟨negative, p, hp, rfl⟩ := exists_ofPattern_of_isFinite h
  rw [abs_ofPattern negative hp.le, valueText]
  split_ifs
  · have digit : AllDigits ['0'] := by simp [AllDigits]
    exact .whole (by simp) digit
  · obtain ⟨cs, numeral, text, -⟩ := exists_plainText false hp
    rw [text, String.toList_ofList]
    exact numeral

namespace Equation

/-! ## Terms -/

/-- The term that is written for a coefficient that is not zero. -/
def writtenTerm (first : Bool) (t : Float × Char) : WrittenTerm :=
  { sign := if t.1 < 0.0 then ['-'] else if first then [] else ['+']
    coefficient := if t.1.abs == 1.0 then [] else (valueText t.1.abs).toList
    letter := t.2 }

/-- The terms that are written for coefficients that are not zero, with the numbers they add. -/
def written : (first : Bool) → List (Float × Char) → List (WrittenTerm × Float)
  | _, [] => []
  | first, t :: terms => (writtenTerm first t, t.1) :: written false terms

variable {unknowns : List Char}

/-- **A written term adds its coefficient.** -/
theorem isTerm_writtenTerm {first : Bool} {c : Float} {v : Char} (finite : c.isFinite = true)
    (nonzero : (c == 0.0) = false) (letter : v.isAlpha) (known : v ∈ unknowns) :
    IsTerm unknowns (writtenTerm first (c, v)) c where
  sign := by
    unfold writtenTerm IsSign
    simp only
    split_ifs <;> simp
  coefficient := by
    refine ⟨c.abs, ?_, ?_⟩
    · simp only [writtenTerm]
      split_ifs with one
      · rw [eq_one_of_beq one]
        exact .omitted
      · refine .numeral (isNumeral_valueText_abs finite) ?_
        rw [String.ofList_toList, readFinite?_valueText (isFinite_abs finite), plusZero,
          abs_beq_zero finite, nonzero]
        rfl
    · -- the sign that is written is that of the coefficient, also when it separates two terms
      have minus : (writtenTerm first (c, v)).sign = ['-'] ↔ c < 0.0 := by
        unfold writtenTerm
        simp only
        split_ifs <;> simp_all
      simp only [minus]
      exact eq_signed_abs finite nonzero
  letter := letter
  known := known

/-- The text of a term, without its blanks. -/
theorem eraseBlanks_term (first : Bool) {c : Float} {v : Char} (letter : v.isAlpha) :
    eraseBlanks (signText first c ++ unsignedText c v).toList =
      (writtenTerm first (c, v)).chars := by
  have sign : eraseBlanks (signText first c).toList = (writtenTerm first (c, v)).sign := by
    unfold signText writtenTerm
    by_cases below : c < 0.0 <;> cases first <;> simp only [below] <;> decide
  have unsigned : eraseBlanks (unsignedText c v).toList =
      (writtenTerm first (c, v)).coefficient ++ [v] := by
    have single : v.toString.toList = [v] := String.toList_singleton v
    have hv : [v].all isSideChar := by
      rw [List.all_cons, isSideChar_of_isAlpha letter]
      rfl
    unfold unsignedText writtenTerm
    simp only [String.toList_append, eraseBlanks_append, single, eraseBlanks_of_all hv]
    split_ifs
    · rfl
    · rw [eraseBlanks_of_all (all_isSideChar_valueText _)]
  rw [String.toList_append, eraseBlanks_append, sign, unsigned, ← List.append_assoc]
  rfl

/-- The text of terms, without its blanks. -/
theorem eraseBlanks_termsText {terms : List (Float × Char)} (letters : ∀ t ∈ terms, t.2.isAlpha) :
    ∀ first, eraseBlanks (termsText first terms).toList =
      (written first terms).flatMap fun p => p.1.chars := by
  induction terms with
  | nil => exact fun _ => rfl
  | cons t terms ih =>
    intro first
    obtain ⟨letter, letters'⟩ := List.forall_mem_cons.mp letters
    rw [termsText, String.toList_append, eraseBlanks_append, eraseBlanks_term first letter,
      ih letters' false]
    rfl

/-- What the written terms add up to. -/
theorem addUp_written (terms : List (Float × Char)) (j : Nat) : ∀ (first : Bool) (start : Float),
    addUp unknowns (written first terms) j start =
      ((terms.filter fun t => unknowns.idxOf t.2 = j).map (·.1)).foldl (· + ·) start := by
  induction terms with
  | nil => exact fun _ _ => rfl
  | cons t terms ih =>
    intro first start
    rw [written, addUp_cons, ih]
    by_cases h : unknowns.idxOf t.2 = j
    · rw [List.filter_cons_of_pos (by simpa using h)]
      exact congrArg (List.foldl _ · _) (if_pos h)
    · rw [List.filter_cons_of_neg (by simpa using h)]
      exact congrArg (List.foldl _ · _) (if_neg h)

/-- Only the first written term can lack a sign. -/
theorem sign_of_mem_written {terms : List (Float × Char)} :
    ∀ p ∈ written false terms, p.1.sign ≠ [] := by
  induction terms with
  | nil => exact fun p hp => nomatch hp
  | cons t terms ih =>
    refine List.forall_mem_cons.mpr ⟨?_, ih⟩
    unfold writtenTerm
    simp only [Bool.false_eq_true, if_false]
    split_ifs <;> simp

/-- **The text of terms is a sum of the grammar.** -/
theorem isSum_written {terms : List (Float × Char)} (ne : terms ≠ [])
    (finite : ∀ t ∈ terms, t.1.isFinite = true) (nonzero : ∀ t ∈ terms, (t.1 == 0.0) = false)
    (letters : ∀ t ∈ terms, t.2.isAlpha) (known : ∀ t ∈ terms, t.2 ∈ unknowns) :
    IsSum unknowns (eraseBlanks (termsText true terms).toList) (written true terms) where
  nonempty := by
    cases terms with
    | nil => exact absurd rfl ne
    | cons t terms => exact List.cons_ne_nil _ _
  text := eraseBlanks_termsText letters true
  each := by
    have each (first : Bool) : ∀ p ∈ written first terms, IsTerm unknowns p.1 p.2 := by
      clear ne
      induction terms generalizing first with
      | nil => exact fun p hp => nomatch hp
      | cons t terms ih =>
        rw [List.forall_mem_cons] at finite nonzero letters known
        exact List.forall_mem_cons.mpr
          ⟨isTerm_writtenTerm finite.1 nonzero.1 letters.1 known.1,
            ih finite.2 nonzero.2 letters.2 known.2 false⟩
    exact each true
  signed := by
    cases terms with
    | nil => exact absurd rfl ne
    | cons t terms => exact sign_of_mem_written

/-! ## Equations -/

/-- The terms that an equation shows. -/
def shown (terms : List (Float × Char)) : List (Float × Char) :=
  terms.filter fun t => !(t.1 == 0.0)

theorem mem_shown {terms : List (Float × Char)} {t : Float × Char} :
    t ∈ shown terms ↔ t ∈ terms ∧ (t.1 == 0.0) = false := by
  rw [shown, List.mem_filter, Bool.not_eq_true']

theorem leftText_of_ne_nil {terms : List (Float × Char)} (h : shown terms ≠ []) :
    leftText terms = termsText true (shown terms) := by
  unfold leftText
  split
  · next none => exact absurd none h
  · rfl

theorem leftText_of_eq_nil {terms : List (Float × Char)} (h : shown terms = []) :
    leftText terms = "0" := by
  unfold leftText
  split
  · rfl
  · next ne => exact absurd h ne

/-- A sum has no sign of equality. -/
theorem equals_not_mem_of_isSum {left : List Char} {terms : List (WrittenTerm × Float)}
    (h : IsSum unknowns left terms) : '=' ∉ left := by
  rw [h.text, List.mem_flatMap]
  rintro ⟨p, hp, equals⟩
  obtain ⟨sign, coefficient, letter⟩ := (h.each p hp).spelled
  rw [WrittenTerm.chars, List.append_assoc, List.mem_append, List.mem_append, List.mem_singleton]
    at equals
  rcases equals with equals | equals | equals
  · rcases sign with hs | hs | hs <;> rw [hs] at equals <;> exact absurd equals (by decide)
  · rcases coefficient with none | numeral
    · rw [none] at equals
      cases equals
    · exact equals_not_mem_of_all (all_isSideChar_of_entry numeral.all_isEntryChar) equals
  · rw [← equals] at letter
    exact absurd letter (by decide)

/-- An equation, without its blanks. -/
theorem eraseBlanks_text (e : Equation Float) :
    eraseBlanks e.text.toList =
      eraseBlanks (leftText e.terms).toList ++ '=' :: (valueText e.constant).toList := by
  rw [text, String.toList_append, String.toList_append, eraseBlanks_append, eraseBlanks_append,
    eraseBlanks_of_all (all_isSideChar_valueText e.constant), List.append_assoc]
  rfl

/-- The only term with a letter that occurs once. -/
theorem filter_idxOf {terms : List (Float × Char)} (distinct : (terms.map (·.2)).Nodup)
    (j : Fin terms.length) :
    terms.filter (fun t => (terms.map (·.2)).idxOf t.2 = j) = [terms.get j] := by
  have index (i : Fin terms.length) : (terms.map (·.2)).idxOf (terms.get i).2 = i := by
    have := distinct.idxOf_getElem i (by rw [List.length_map]; exact i.isLt)
    rwa [List.getElem_map] at this
  have only : (List.finRange terms.length).filter (fun i => decide (i = j)) = [j] := by
    rw [List.filter_eq, List.count_finRange]
    rfl
  calc terms.filter (fun t => (terms.map (·.2)).idxOf t.2 = j)
      = ((List.finRange terms.length).map terms.get).filter
          fun t => (terms.map (·.2)).idxOf t.2 = j := by rw [List.map_get_finRange]
    _ = ((List.finRange terms.length).filter fun i => decide (i = j)).map terms.get := by
        simp only [List.filter_map, Function.comp_def, index, Fin.val_inj]
    _ = [terms.get j] := by rw [only]; rfl

/-- **Each letter gets its coefficient**, from the one term that has it, or from none. -/
theorem addUp_shown {terms : List (Float × Char)} (distinct : (terms.map (·.2)).Nodup)
    (finite : ∀ t ∈ terms, t.1.isFinite = true) (j : Fin terms.length) :
    addUp (terms.map (·.2)) (written true (shown terms)) j 0.0 = plusZero (terms.get j).1 := by
  rw [addUp_written, shown, List.filter_comm, filter_idxOf distinct j]
  have hj := finite _ (terms.get_mem j)
  generalize terms.get j = t at hj ⊢
  cases zero : t.1 == 0.0 with
  | true =>
    rw [List.filter_cons_of_neg (by simpa using zero), plusZero, zero]
    rfl
  | false =>
    rw [List.filter_cons_of_pos (by simpa using zero)]
    exact zero_add_eq_plusZero hj

/-- **A written equation is read**, if it has a coefficient that is not zero. What stands in front of
one letter adds up. -/
theorem read_text_of_addUp {e : Equation Float} (letters : ∀ t ∈ e.terms, t.2.isAlpha)
    (known : ∀ t ∈ e.terms, t.2 ∈ unknowns) (finite : ∀ t ∈ e.terms, t.1.isFinite = true)
    (constant : e.constant.isFinite = true) (nonzero : ∃ t ∈ e.terms, (t.1 == 0.0) = false)
    {row : Vector Float unknowns.length}
    (hrow : ∀ j : Fin unknowns.length,
      row.get j = addUp unknowns (written true (shown e.terms)) j 0.0) :
    read unknowns e.text = .ok (row, plusZero e.constant) := by
  have some : shown e.terms ≠ [] := by
    obtain ⟨t, ht, hne⟩ := nonzero
    exact List.ne_nil_of_mem (mem_shown.mpr ⟨ht, hne⟩)
  have sum : IsSum unknowns (eraseBlanks (leftText e.terms).toList)
      (written true (shown e.terms)) := by
    rw [leftText_of_ne_nil some]
    refine isSum_written some (fun t ht => ?_) (fun t ht => ?_) (fun t ht => ?_) fun t ht => ?_
    all_goals obtain ⟨ht, hne⟩ := mem_shown.mp ht
    · exact finite t ht
    · exact hne
    · exact letters t ht
    · exact known t ht
  refine read_of_isSum (eraseBlanks_text e) (equals_not_mem_of_isSum sum)
    (equals_not_mem_of_all (all_isSideChar_valueText _)) sum ?_ hrow
  rw [String.ofList_toList]
  exact readFinite?_valueText constant

/-- **A written equation is read back**, if its letters are distinct. -/
theorem read_text {e : Equation Float} (names : e.terms.map (·.2) = unknowns)
    (distinct : unknowns.Nodup) (letters : ∀ v ∈ unknowns, v.isAlpha)
    (finite : ∀ t ∈ e.terms, t.1.isFinite = true) (constant : e.constant.isFinite = true)
    (nonzero : ∃ t ∈ e.terms, (t.1 == 0.0) = false) {row : Vector Float unknowns.length}
    (hrow : row.toList = e.terms.map fun t => plusZero t.1) :
    read unknowns e.text = .ok (row, plusZero e.constant) := by
  have member : ∀ t ∈ e.terms, t.2 ∈ unknowns := fun t ht => names ▸ List.mem_map_of_mem ht
  refine read_text_of_addUp (fun t ht => letters _ (member t ht)) member finite constant nonzero
    fun j => ?_
  subst names
  -- the letter of `j` stands in one term, which is written unless it is zero
  obtain ⟨k, rfl⟩ : ∃ k : Fin e.terms.length, j = k.cast (List.length_map _).symm :=
    ⟨j.cast (List.length_map _), rfl⟩
  have entry : row.get (k.cast (List.length_map _).symm) = plusZero (e.terms.get k).1 := by
    have := List.getElem_of_eq hrow (i := k) (by simp)
    rwa [List.getElem_map] at this
  exact entry.trans (addUp_shown distinct finite k).symm

/-- **A left side without terms is refused.** It is written as zero, which is no term. -/
theorem read_text_of_zero (unknowns : List Char) {e : Equation Float}
    (zero : ∀ t ∈ e.terms, (t.1 == 0.0) = true) :
    read unknowns e.text = .error (.invalidTerm "0") := by
  have none : shown e.terms = [] := by
    refine List.eq_nil_iff_forall_not_mem.mpr fun t ht => ?_
    obtain ⟨ht, hne⟩ := mem_shown.mp ht
    rw [zero t ht] at hne
    exact nomatch hne
  -- a digit that no letter follows is no term, so all of the left side is junk
  have sides : sides? (eraseBlanks e.text.toList) = some (['0'], (valueText e.constant).toList) := by
    rw [sides?_eq_some_iff, eraseBlanks_text, leftText_of_eq_nil none]
    exact ⟨rfl, by decide, by decide, equals_not_mem_of_all (all_isSideChar_valueText _)⟩
  have refused : readLeft unknowns ['0'] = .error (.invalidTerm "0") := by
    unfold readLeft
    rw [splitTerms_of_none (by decide)]
    rfl
  unfold read
  simp only [sides, refused]
  rfl

end Equation

end Chalkboard
