import Chalkboard.Equation.Term
import Chalkboard.Proofs.Decimal.Literal

/-!
# Terms at the front of a text

A term is read back from its own characters, whatever follows it: its letter ends it. The digits of
its coefficient may be of any script, until the coefficient turns out to have a value.

* `WrittenTerm.Matched` — the shape of a term; it is what is read (`WrittenTerm.at?_eq_some_iff`).
* `WrittenTerm.Spelled` — a term with digits of ASCII; a sequence of them is read back
  (`splitTerms_flatMap`).
* `WrittenTerm.Scanned` — a term that was read; with a value it is spelled (`Scanned.spelled`).
-/

namespace Chalkboard

/-! ## Signs -/

/-- Nothing, `+` or `-`. -/
def IsSign (cs : List Char) : Prop :=
  cs = [] ∨ cs = ['+'] ∨ cs = ['-']

theorem isSign_spanSign (cs : List Char) : IsSign (spanSign cs).1 := by
  unfold spanSign
  split
  · exact .inr (.inl rfl)
  · exact .inr (.inr rfl)
  · exact .inl rfl

theorem spanSign_append {sign rest : List Char} (h : IsSign sign)
    (stop : ∀ c ∈ rest.head?, c ≠ '+' ∧ c ≠ '-') : spanSign (sign ++ rest) = (sign, rest) := by
  rcases h with rfl | rfl | rfl
  · rw [List.nil_append]
    unfold spanSign
    split
    · exact absurd rfl (stop '+' rfl).1
    · exact absurd rfl (stop '-' rfl).2
    · rfl
  · rfl
  · rfl

/-! ## Coefficients -/

/-- A text of digits of any script. -/
def AllDecimalDigits (cs : List Char) : Prop :=
  ∀ c ∈ cs, isDecimalDigit c

/-- **`IsFigure cs`** — `cs` has the shape of a coefficient: digits, with a point behind or among
them, or a point with digits behind it. The digits may be of any script. -/
inductive IsFigure : List Char → Prop where
  | whole {ds : List Char} : ds ≠ [] → AllDecimalDigits ds → IsFigure ds
  | point {ds fs : List Char} :
    ds ≠ [] → AllDecimalDigits ds → AllDecimalDigits fs → IsFigure (ds ++ '.' :: fs)
  | fraction {fs : List Char} : fs ≠ [] → AllDecimalDigits fs → IsFigure ('.' :: fs)

theorem AllDigits.allDecimalDigits {ds : List Char} (h : AllDigits ds) : AllDecimalDigits ds :=
  fun c hc => isDecimalDigit_of_isDigit (h c hc)

theorem IsNumeral.isFigure {cs : List Char} (h : IsNumeral cs) : IsFigure cs := by
  cases h with
  | whole ne hds => exact .whole ne hds.allDecimalDigits
  | point ne hds hfs => exact .point ne hds.allDecimalDigits hfs.allDecimalDigits
  | fraction ne hfs => exact .fraction ne hfs.allDecimalDigits

theorem IsFigure.ne_nil {cs : List Char} (h : IsFigure cs) : cs ≠ [] := by
  cases h with
  | whole ne _ => exact ne
  | point _ _ _ => simp
  | fraction _ _ => simp

theorem IsFigure.isCoefficientChar {cs : List Char} (h : IsFigure cs) :
    ∀ c ∈ cs, isCoefficientChar c := by
  have digits {ds : List Char} (all : AllDecimalDigits ds) : ∀ c ∈ ds, Chalkboard.isCoefficientChar c :=
    fun c hc => Bool.or_eq_true_iff.mpr (.inl (all c hc))
  have point : Chalkboard.isCoefficientChar '.' := by decide
  cases h with
  | whole _ hds => exact digits hds
  | point _ hds hfs =>
    exact List.forall_mem_append.mpr ⟨digits hds, List.forall_mem_cons.mpr ⟨point, digits hfs⟩⟩
  | fraction _ hfs => exact List.forall_mem_cons.mpr ⟨point, digits hfs⟩

/-- Leading digits are digits. -/
theorem allDecimalDigits_spanDecimalDigits (cs : List Char) :
    AllDecimalDigits (spanDecimalDigits cs).1 :=
  fun _ hc => List.mem_takeWhile_imp hc

/-- **What is taken for a coefficient** has its shape, or is nothing. -/
theorem isFigure_spanCoefficient (cs : List Char) :
    (spanCoefficient cs).1 = [] ∨ IsFigure (spanCoefficient cs).1 := by
  have whole := allDecimalDigits_spanDecimalDigits cs
  unfold spanCoefficient
  split
  · split
    · next r _ =>
      have fraction := allDecimalDigits_spanDecimalDigits r
      split
      · exact .inl rfl
      · next ne h =>
        rw [h] at fraction
        exact .inr (.fraction (fun none => ne none) fraction)
    · exact .inl rfl
  · next ds r ne h =>
    rw [h] at whole
    exact .inr (.point (fun none => ne none) whole (allDecimalDigits_spanDecimalDigits r))
  · next ds _ ne _ h =>
    rw [h] at whole
    exact .inr (.whole (fun none => ne none) whole)

theorem AllDecimalDigits.spanDecimalDigits_append {ds rest : List Char} (h : AllDecimalDigits ds)
    (stop : ∀ c ∈ rest.head?, isDecimalDigit c = false) :
    spanDecimalDigits (ds ++ rest) = (ds, rest) :=
  span_append h stop

/-- **A letter ends a coefficient.** -/
theorem spanCoefficient_append {cs rest : List Char} {c : Char} (h : cs = [] ∨ IsFigure cs)
    (letter : c.isAlpha) : spanCoefficient (cs ++ c :: rest) = (cs, c :: rest) := by
  have digit : ∀ c' ∈ (c :: rest).head?, isDecimalDigit c' = false := by
    rintro _ ⟨rfl⟩
    exact not_isDecimalDigit_of_isAlpha letter
  have point : ∀ r : List Char, ∀ c' ∈ ('.' :: r).head?, isDecimalDigit c' = false := by
    rintro r _ ⟨rfl⟩
    decide
  have hc : c ≠ '.' := by
    rintro rfl
    exact absurd letter (by decide)
  have none {r : List Char} (stop : ∀ c' ∈ r.head?, isDecimalDigit c' = false) :
      spanDecimalDigits r = ([], r) :=
    have empty : AllDecimalDigits [] := fun _ hc => nomatch hc
    empty.spanDecimalDigits_append stop
  rcases h with rfl | h
  · simp only [List.nil_append, spanCoefficient, none digit]
    split
    · next r heq =>
      injection heq with heq
      exact absurd heq hc
    · rfl
  · cases h with
    | whole ne hds =>
      obtain ⟨d, ds, rfl⟩ := List.exists_cons_of_ne_nil ne
      simp only [spanCoefficient, hds.spanDecimalDigits_append digit]
      split
      · next heq => exact nomatch congrArg Prod.fst heq
      · next heq =>
        injection heq with _ heq
        injection heq with heq
        exact absurd heq hc
      · next heq =>
        injection heq with hw hr
        rw [hw, hr]
    | @point ds fs ne hds hfs =>
      obtain ⟨d, ds, rfl⟩ := List.exists_cons_of_ne_nil ne
      have span := hds.spanDecimalDigits_append (point (fs ++ c :: rest))
      have text : d :: ds ++ '.' :: fs ++ c :: rest = d :: ds ++ '.' :: (fs ++ c :: rest) :=
        List.append_assoc (d :: ds) ('.' :: fs) (c :: rest)
      rw [text]
      unfold spanCoefficient
      rw [span]
      simp only [hfs.spanDecimalDigits_append digit]
    | @fraction fs ne hfs =>
      obtain ⟨f, fs, rfl⟩ := List.exists_cons_of_ne_nil ne
      rw [List.cons_append]
      simp only [spanCoefficient, none (point _), hfs.spanDecimalDigits_append digit]

/-! ## Terms -/

namespace WrittenTerm

/-- **`t.Matched`** — `t` has the shape of a term: a sign, a coefficient in digits of any script and
a letter, of which the first two may be missing. -/
structure Matched (t : WrittenTerm) : Prop where
  sign : IsSign t.sign
  coefficient : t.coefficient = [] ∨ IsFigure t.coefficient
  letter : t.letter.isAlpha

/-- What is certain of a term that was read, also if it has no value. -/
structure Scanned (t : WrittenTerm) : Prop where
  sign : IsSign t.sign
  /-- The coefficient is digits of any script, and points. -/
  plain : ∀ c ∈ t.coefficient, isCoefficientChar c
  letter : t.letter.isAlpha

/-- A term that can be read back. -/
structure Spelled (t : WrittenTerm) : Prop where
  sign : IsSign t.sign
  coefficient : t.coefficient = [] ∨ IsNumeral t.coefficient
  letter : t.letter.isAlpha

theorem Matched.plain {t : WrittenTerm} (h : t.Matched) :
    ∀ c ∈ t.coefficient, isCoefficientChar c := by
  rcases h.coefficient with none | figure
  · rw [none]
    exact List.forall_mem_nil _
  · exact figure.isCoefficientChar

theorem Matched.scanned {t : WrittenTerm} (h : t.Matched) : t.Scanned :=
  ⟨h.sign, h.plain, h.letter⟩

theorem Spelled.matched {t : WrittenTerm} (h : t.Spelled) : t.Matched :=
  ⟨h.sign, h.coefficient.imp_right IsNumeral.isFigure, h.letter⟩

theorem matched_of_at? {cs rest : List Char} {t : WrittenTerm} (h : at? cs = some (t, rest)) :
    t.Matched := by
  have sign := isSign_spanSign cs
  have coefficient := isFigure_spanCoefficient (spanSign cs).2
  unfold at? at h
  simp only at h
  split at h
  · split_ifs at h with letter
    cases h
    exact ⟨sign, coefficient, letter⟩
  · exact nomatch h

/-- **A term is read back from its characters**, whatever follows it. -/
theorem Matched.at?_chars {t : WrittenTerm} (h : t.Matched) (rest : List Char) :
    at? (t.chars ++ rest) = some (t, rest) := by
  obtain ⟨sign, coefficient, letter⟩ := h
  have stop : ∀ c ∈ (t.coefficient ++ t.letter :: rest).head?, c ≠ '+' ∧ c ≠ '-' := by
    have head : ∀ c ∈ (t.coefficient ++ t.letter :: rest).head?,
        isCoefficientChar c ∨ c.isAlpha := by
      rcases coefficient with none | figure
      · rw [none]
        rintro _ ⟨rfl⟩
        exact .inr letter
      · obtain ⟨d, ds, heq⟩ := List.exists_cons_of_ne_nil figure.ne_nil
        rw [heq]
        rintro _ ⟨rfl⟩
        exact .inl (figure.isCoefficientChar d (heq ▸ List.mem_cons_self))
    intro c hc
    rcases head c hc with h | h <;> constructor <;> rintro rfl <;> exact absurd h (by decide)
  have text : t.chars ++ rest = t.sign ++ (t.coefficient ++ t.letter :: rest) := by
    simp [chars]
  unfold at?
  simp only [text, spanSign_append sign stop, spanCoefficient_append coefficient letter, letter,
    if_true]

/-- **What is read at the front of a text** is the only term that stands there. -/
theorem at?_eq_some_iff {cs rest : List Char} {t : WrittenTerm} :
    at? cs = some (t, rest) ↔ t.Matched ∧ cs = t.chars ++ rest := by
  constructor
  · intro h
    exact ⟨matched_of_at? h, (chars_append_of_at? h).symm⟩
  · rintro ⟨matched, rfl⟩
    exact matched.at?_chars rest

theorem scanned_of_at? {cs rest : List Char} {t : WrittenTerm} (h : at? cs = some (t, rest)) :
    t.Scanned :=
  (matched_of_at? h).scanned

/-- **A term with a value has a numeral for its coefficient**, or none: no other digits count. -/
theorem Scanned.spelled {t : WrittenTerm} {x : Float} (scanned : t.Scanned)
    (h : t.value? = some x) : t.Spelled := by
  refine ⟨scanned.sign, ?_, scanned.letter⟩
  by_cases none : t.coefficient = []
  · exact .inl none
  · simp only [value?, if_neg none, Option.map_eq_some_iff, readFinite?, Option.filter_eq_some_iff]
      at h
    obtain ⟨v, ⟨hv, -⟩, -⟩ := h
    rw [readFloat?_ofList scanned.plain, Option.map_eq_some_iff] at hv
    obtain ⟨d, hd, -⟩ := hv
    exact .inr (Decimal.isNumeral_of_read? hd scanned.plain)

end WrittenTerm

/-! ## Sequences of terms -/

theorem splitTerms_of_at? {cs rest : List Char} {t : WrittenTerm}
    (h : WrittenTerm.at? cs = some (t, rest)) :
    splitTerms cs = (t :: (splitTerms rest).1, (splitTerms rest).2) := by
  rw [splitTerms]
  split
  · next heq =>
    rw [h] at heq
    cases heq
    rfl
  · next heq =>
    rw [h] at heq
    cases heq

theorem splitTerms_of_none {cs : List Char} (h : WrittenTerm.at? cs = none) :
    splitTerms cs = ([], cs) := by
  rw [splitTerms]
  split
  · next heq =>
    rw [h] at heq
    cases heq
  · rfl

/-- The terms and what follows them make up the text. -/
theorem append_splitTerms (cs : List Char) :
    (splitTerms cs).1.flatMap WrittenTerm.chars ++ (splitTerms cs).2 = cs := by
  induction cs using splitTerms.induct with
  | case1 cs t rest hat _ _ _ _ ih =>
    rw [splitTerms_of_at? hat, List.flatMap_cons, List.append_assoc, ih]
    exact WrittenTerm.chars_append_of_at? hat
  | case2 cs hat =>
    rw [splitTerms_of_none hat]
    rfl

theorem scanned_of_mem_splitTerms (cs : List Char) : ∀ t ∈ (splitTerms cs).1, t.Scanned := by
  induction cs using splitTerms.induct with
  | case1 cs t rest hat _ _ _ _ ih =>
    rw [splitTerms_of_at? hat]
    exact List.forall_mem_cons.mpr ⟨WrittenTerm.scanned_of_at? hat, ih⟩
  | case2 cs hat =>
    rw [splitTerms_of_none hat]
    exact fun t ht => nomatch ht

/-- **Terms behind one another are read back.** -/
theorem splitTerms_flatMap {ts : List WrittenTerm} (h : ∀ t ∈ ts, t.Spelled) :
    splitTerms (ts.flatMap WrittenTerm.chars) = (ts, []) := by
  induction ts with
  | nil => exact splitTerms_of_none rfl
  | cons t ts ih =>
    obtain ⟨ht, hts⟩ := List.forall_mem_cons.mp h
    rw [List.flatMap_cons, splitTerms_of_at? (ht.matched.at?_chars _), ih hts]

end Chalkboard
