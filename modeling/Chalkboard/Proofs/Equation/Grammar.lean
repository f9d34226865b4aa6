import Mathlib.Data.List.Basic
import Chalkboard.Equation.Reader
import Chalkboard.Proofs.Equation.Term

/-!
# The grammar of equations

An equation is a sum of terms, an `=` and a number. Reading accepts these texts and no others, once
blanks are left out, and gives each unknown the sum of its coefficients (`read_eq_ok_iff`).
-/

namespace Chalkboard

universe u v

/-- Two readings in a row succeed together if each of them does. -/
theorem bind_eq_ok_iff {ε : Type u} {σ τ : Type v} {x : Except ε σ} {f : σ → Except ε τ} {t : τ} :
    x.bind f = .ok t ↔ ∃ s, x = .ok s ∧ f s = .ok t := by
  cases x with
  | error e => exact iff_of_false (fun h => nomatch h) fun ⟨_, h, _⟩ => nomatch h
  | ok s =>
    constructor
    · exact fun h => ⟨s, rfl, h⟩
    · rintro ⟨_, ⟨⟩, h⟩
      exact h

/-! ## The grammar -/

/-- **`IsCoefficient cs v`** — `cs` is the text of the coefficient `v`: a finite numeral, or nothing
for one. -/
inductive IsCoefficient : List Char → Float → Prop where
  | omitted : IsCoefficient [] 1.0
  | numeral {cs : List Char} {v : Float} :
    IsNumeral cs → readFinite? (String.ofList cs) = some v → IsCoefficient cs v

/-- **`IsTerm unknowns t x`** — `t` is a term that adds `x` to the coefficient of its letter. -/
structure IsTerm (unknowns : List Char) (t : WrittenTerm) (x : Float) : Prop where
  sign : IsSign t.sign
  /-- The coefficient is one, and the sign belongs to it. -/
  coefficient : ∃ v, IsCoefficient t.coefficient v ∧ x = if t.sign = ['-'] then -v else v
  letter : t.letter.isAlpha
  known : t.letter ∈ unknowns

/-- **`IsSum unknowns left terms`** — `left` is the text of the terms, which come with the numbers
that they add. -/
structure IsSum (unknowns : List Char) (left : List Char) (terms : List (WrittenTerm × Float)) :
    Prop where
  nonempty : terms ≠ []
  text : left = terms.flatMap fun p => p.1.chars
  each : ∀ p ∈ terms, IsTerm unknowns p.1 p.2
  signed : ∀ p ∈ terms.tail, p.1.sign ≠ []

/-! ## Terms and their values -/

theorem WrittenTerm.Scanned.value?_eq_some_iff {t : WrittenTerm} {x : Float} (scanned : t.Scanned) :
    t.value? = some x ↔
      ∃ v, IsCoefficient t.coefficient v ∧ x = if t.sign = ['-'] then -v else v := by
  constructor
  · intro h
    rcases (scanned.spelled h).coefficient with none | numeral
    · rw [value?, if_pos none, Option.map_some, Option.some.injEq] at h
      exact ⟨1.0, none ▸ .omitted, h.symm⟩
    · rw [value?, if_neg numeral.ne_nil, Option.map_eq_some_iff] at h
      obtain ⟨v, hv, hx⟩ := h
      exact ⟨v, .numeral numeral hv, hx.symm⟩
  · rintro ⟨v, coefficient, rfl⟩
    rw [value?]
    generalize t.coefficient = cs at coefficient
    cases coefficient with
    | omitted => rw [if_pos rfl, Option.map_some]
    | numeral numeral hv => rw [if_neg numeral.ne_nil, hv, Option.map_some]

theorem IsTerm.spelled {unknowns : List Char} {t : WrittenTerm} {x : Float}
    (h : IsTerm unknowns t x) : t.Spelled := by
  refine ⟨h.sign, ?_, h.letter⟩
  obtain ⟨v, coefficient, -⟩ := h.coefficient
  generalize t.coefficient = cs at coefficient
  cases coefficient with
  | omitted => exact .inl rfl
  | numeral numeral _ => exact .inr numeral

/-- The index of a letter is where it occurs first. -/
theorem finIdxOf?_eq_some_iff_idxOf {l : List Char} {c : Char} {j : Fin l.length} :
    l.finIdxOf? c = some j ↔ c ∈ l ∧ l.idxOf c = j := by
  have first := l.idxOf_eq_getD_idxOf? c
  rw [List.idxOf?_eq_map_finIdxOf?_val] at first
  cases h : l.finIdxOf? c with
  | none =>
    have absent := List.finIdxOf?_eq_none_iff.mp h
    exact iff_of_false (fun h => nomatch h) fun h => absent h.1
  | some i =>
    have present : c ∈ l := (List.finIdxOf?_eq_some_iff.mp h).1 ▸ List.getElem_mem i.isLt
    rw [h, Option.map_some, Option.getD_some] at first
    rw [Option.some.injEq, first, Fin.val_inj]
    exact (and_iff_right present).symm

/-- A sum has text. -/
theorem IsSum.ne_nil {unknowns left : List Char} {terms : List (WrittenTerm × Float)}
    (h : IsSum unknowns left terms) : left ≠ [] := by
  obtain ⟨p, rest, rfl⟩ := List.exists_cons_of_ne_nil h.nonempty
  rw [h.text, List.flatMap_cons]
  simp [WrittenTerm.chars]

namespace Equation

variable {unknowns : List Char}

/-! ## Adding terms up -/

/-- `start` and, from left to right, the numbers that terms add to the coefficient of unknown
`j`. -/
def addUp (unknowns : List Char) (terms : List (WrittenTerm × Float)) (j : Nat) (start : Float) :
    Float :=
  ((terms.filter fun p => unknowns.idxOf p.1.letter = j).map (·.2)).foldl (· + ·) start

theorem addUp_cons {p : WrittenTerm × Float} {terms : List (WrittenTerm × Float)} {j : Nat}
    {start : Float} :
    addUp unknowns (p :: terms) j start =
      addUp unknowns terms j (if unknowns.idxOf p.1.letter = j then start + p.2 else start) := by
  unfold addUp
  split_ifs with h
  · rw [List.filter_cons_of_pos (by simpa using h)]
    rfl
  · rw [List.filter_cons_of_neg (by simpa using h)]

/-- The first term, and then the others. -/
theorem addUp_cons_eq_addUp {p : WrittenTerm × Float} {terms : List (WrittenTerm × Float)}
    {j : Nat} {start : Float} :
    addUp unknowns (p :: terms) j start =
      addUp unknowns terms j (addUp unknowns [p] j start) := by
  rw [addUp_cons, addUp_cons]
  rfl

/-- The terms that need a sign, one by one. -/
theorem forall_signed_cons {first : Bool} {p : WrittenTerm × Float}
    {terms : List (WrittenTerm × Float)} :
    (∀ q ∈ if first then (p :: terms).tail else p :: terms, q.1.sign ≠ []) ↔
      (first = false → p.1.sign ≠ []) ∧ ∀ q ∈ terms, q.1.sign ≠ [] := by
  cases first <;> simp

/-- **One term.** It needs a sign if it is not the first, and adds its number. -/
theorem addTerm_eq_ok_iff {first : Bool} {row row' : Vector Float unknowns.length}
    {t : WrittenTerm} (scanned : t.Scanned) :
    addTerm unknowns first row t = .ok row' ↔
      (first = false → t.sign ≠ []) ∧ ∃ x, IsTerm unknowns t x ∧
        ∀ j : Fin unknowns.length, row'.get j = addUp unknowns [(t, x)] j (row.get j) := by
  have value {x : Float} := scanned.value?_eq_some_iff (x := x)
  unfold addTerm
  -- the checks in their order: the sign, the letter, and the coefficient
  by_cases unsigned : first = false ∧ t.sign = []
  · rw [if_pos (by simpa using unsigned)]
    exact iff_of_false (fun h => nomatch h) fun h => h.1 unsigned.1 unsigned.2
  rw [if_neg (by simpa using unsigned)]
  cases hj : unknowns.finIdxOf? t.letter with
  | none =>
    have absent := List.finIdxOf?_eq_none_iff.mp hj
    exact iff_of_false (fun h => nomatch h) fun ⟨_, _, term, _⟩ => absent term.known
  | some i =>
    obtain ⟨known, index⟩ := finIdxOf?_eq_some_iff_idxOf.mp hj
    cases hx : t.value? with
    | none =>
      refine iff_of_false (fun h => nomatch h) fun ⟨_, x, term, _⟩ => ?_
      rw [value.mpr term.coefficient] at hx
      exact nomatch hx
    | some x =>
      have entries (j : Fin unknowns.length) :
          (setAt row i (row.get i + x)).get j = addUp unknowns [(t, x)] j (row.get j) := by
        refine (getElem_setAt row i _ j j.isLt).trans ?_
        rw [addUp_cons, index]
        split_ifs with hij
        · rw [Fin.ext hij]
          rfl
        · rfl
      simp only [Except.ok.injEq]
      constructor
      · rintro rfl
        exact ⟨not_and.mp unsigned, x, ⟨scanned.sign, value.mp hx, scanned.letter, known⟩, entries⟩
      · rintro ⟨-, x', term, hrow⟩
        -- a term has one value, so what it adds is determined
        have same : x' = x := by
          rw [value.mpr term.coefficient, Option.some.injEq] at hx
          exact hx
        subst same
        apply Vector.ext
        intro j hj
        exact (entries ⟨j, hj⟩).trans (hrow ⟨j, hj⟩).symm

/-- **A sequence of terms.** -/
theorem addTerms_eq_ok_iff {ts : List WrittenTerm} (scanned : ∀ t ∈ ts, t.Scanned) {first : Bool}
    {row row' : Vector Float unknowns.length} :
    addTerms unknowns first row ts = .ok row' ↔
      ∃ terms : List (WrittenTerm × Float), terms.map Prod.fst = ts ∧
        (∀ p ∈ terms, IsTerm unknowns p.1 p.2) ∧
        (∀ p ∈ if first then terms.tail else terms, p.1.sign ≠ []) ∧
        ∀ j : Fin unknowns.length, row'.get j = addUp unknowns terms j (row.get j) := by
  -- the row grows with every term, and only the first of them can do without a sign
  induction ts generalizing first row with
  | nil =>
    constructor
    · rintro ⟨⟩
      exact ⟨[], rfl, by simp, by simp, fun _ => rfl⟩
    · rintro ⟨terms, hmap, -, -, hrow⟩
      obtain rfl := List.map_eq_nil_iff.mp hmap
      refine congrArg Except.ok (Vector.ext fun j hj => ?_)
      exact (hrow ⟨j, hj⟩).symm
  | cons t ts ih =>
    obtain ⟨ht, hts⟩ := List.forall_mem_cons.mp scanned
    rw [addTerms, bind_eq_ok_iff]
    constructor
    · rintro ⟨row₁, hstep, h⟩
      obtain ⟨signed, x, term, hrow₁⟩ := (addTerm_eq_ok_iff ht).mp hstep
      obtain ⟨terms, rfl, each, signed', hrow⟩ := (ih hts).mp h
      refine ⟨(t, x) :: terms, rfl, List.forall_mem_cons.mpr ⟨term, each⟩,
        forall_signed_cons.mpr ⟨signed, signed'⟩, fun j => ?_⟩
      rw [hrow, hrow₁, ← addUp_cons_eq_addUp]
    · rintro ⟨terms, hmap, each, signed, hrow⟩
      cases terms with
      | nil => exact nomatch hmap
      | cons p terms =>
        obtain ⟨t', x⟩ := p
        obtain ⟨rfl, rfl⟩ := List.cons.inj hmap
        obtain ⟨term, each'⟩ := List.forall_mem_cons.mp each
        obtain ⟨signed, signed'⟩ := forall_signed_cons.mp signed
        have entries (j : Fin unknowns.length) :
            (Vector.ofFn fun j : Fin unknowns.length => addUp unknowns [(t', x)] j (row.get j)).get j =
              addUp unknowns [(t', x)] j (row.get j) :=
          Vector.getElem_ofFn j.isLt
        refine ⟨_, (addTerm_eq_ok_iff ht).mpr ⟨signed, x, term, entries⟩,
          (ih hts).mpr ⟨terms, rfl, each', signed', fun j => ?_⟩⟩
        rw [hrow, entries, addUp_cons_eq_addUp]

/-! ## Sides -/

/-- **The two sides of an equation** stand around its only `=`, and the left is not empty. -/
theorem sides?_eq_some_iff {cs left right : List Char} :
    sides? cs = some (left, right) ↔
      cs = left ++ '=' :: right ∧ left ≠ [] ∧ '=' ∉ left ∧ '=' ∉ right := by
  constructor
  · intro h
    have text := List.takeWhile_append_dropWhile (p := (· ≠ '=')) (l := cs)
    have before : '=' ∉ cs.takeWhile (· ≠ '=') := fun h => by
      simpa using List.mem_takeWhile_imp h
    have after := List.head?_dropWhile_not (· ≠ '=') cs
    unfold sides? at h
    generalize cs.takeWhile (· ≠ '=') = l at text before h
    generalize cs.dropWhile (· ≠ '=') = r at text after h
    cases r with
    | nil => exact nomatch h
    | cons c r =>
      simp only at h
      split_ifs at h with bad
      cases h
      have hc : c = '=' := by simpa using after
      subst hc
      exact ⟨text.symm, fun h => bad (.inl h), before, fun h => bad (.inr h)⟩
  · rintro ⟨rfl, ne, before, after⟩
    have span : ((left ++ '=' :: right).takeWhile (· ≠ '='),
        (left ++ '=' :: right).dropWhile (· ≠ '=')) = (left, '=' :: right) :=
      span_append (fun c hc => by simpa using fun h : c = '=' => before (h ▸ hc)) (by simp)
    obtain ⟨htake, hdrop⟩ := Prod.mk.inj span
    unfold sides?
    rw [htake, hdrop]
    exact if_neg (not_or.mpr ⟨ne, after⟩)

/-- **A left side is a sum of terms.** -/
theorem readLeft_eq_ok_iff {left : List Char} {row : Vector Float unknowns.length}
    (ne : left ≠ []) :
    readLeft unknowns left = .ok row ↔
      ∃ terms, IsSum unknowns left terms ∧
        ∀ j : Fin unknowns.length, row.get j = addUp unknowns terms j 0.0 := by
  have zero (j : Fin unknowns.length) :
      (Vector.replicate unknowns.length (0.0 : Float)).get j = 0.0 :=
    Vector.getElem_replicate j.isLt
  unfold readLeft
  simp only [bind_eq_ok_iff]
  constructor
  · rintro ⟨row', hadd, h⟩
    have text := append_splitTerms left
    have scanned := scanned_of_mem_splitTerms left
    generalize splitTerms left = p at text scanned hadd h
    obtain ⟨ts, rest⟩ := p
    split_ifs at h with hrest
    cases h
    subst hrest
    obtain ⟨terms, rfl, each, signed, hrow⟩ := (addTerms_eq_ok_iff scanned).mp hadd
    rw [List.append_nil, List.flatMap_map] at text
    refine ⟨terms, ⟨?_, text.symm, each, signed⟩, fun j => (hrow j).trans (by rw [zero])⟩
    rintro rfl
    exact ne text.symm
  · rintro ⟨terms, ⟨-, rfl, each, signed⟩, hrow⟩
    have spelled : ∀ t ∈ terms.map Prod.fst, t.Spelled := by
      intro t ht
      obtain ⟨p, hp, rfl⟩ := List.mem_map.mp ht
      exact (each p hp).spelled
    have split := splitTerms_flatMap spelled
    rw [List.flatMap_map] at split
    have scanned := scanned_of_mem_splitTerms (terms.flatMap fun p => p.1.chars)
    rw [split] at scanned
    have hadd : addTerms unknowns true (Vector.replicate _ 0.0) (terms.map Prod.fst) = .ok row :=
      (addTerms_eq_ok_iff scanned).mpr
        ⟨terms, rfl, each, signed, fun j => (hrow j).trans (by rw [zero])⟩
    rw [split]
    exact ⟨row, hadd, if_pos rfl⟩

theorem readRight_eq_ok_iff {right : List Char} {v : Float} :
    readRight right = .ok v ↔ readFinite? (String.ofList right) = some v := by
  unfold readRight
  cases readFinite? (String.ofList right) with
  | none => exact iff_of_false (fun h => nomatch h) (fun h => nomatch h)
  | some v' => rw [Except.ok.injEq, Option.some.injEq]

/-- A text that is read has two sides, and they are read. -/
theorem exists_sides_of_read {text : String} {row : Vector Float unknowns.length} {constant : Float}
    (h : read unknowns text = .ok (row, constant)) :
    ∃ left right, eraseBlanks text.toList = left ++ '=' :: right ∧ left ≠ [] ∧ '=' ∉ left ∧
      '=' ∉ right ∧ readLeft unknowns left = .ok row ∧ readRight right = .ok constant := by
  unfold read at h
  cases hsides : sides? (eraseBlanks text.toList) with
  | none =>
    rw [hsides] at h
    exact nomatch h
  | some sides =>
    obtain ⟨left, right⟩ := sides
    obtain ⟨htext, ne, before, after⟩ := sides?_eq_some_iff.mp hsides
    rw [hsides] at h
    obtain ⟨row', hleft, h⟩ := bind_eq_ok_iff.mp h
    cases hright : readRight right with
    | error e =>
      rw [hright] at h
      exact nomatch h
    | ok constant' =>
      rw [hright] at h
      cases h
      exact ⟨left, right, htext, ne, before, after, hleft, hright⟩

/-- A text of the grammar is read. -/
theorem read_of_isSum {text : String} {left right : List Char} {terms : List (WrittenTerm × Float)}
    {row : Vector Float unknowns.length} {constant : Float}
    (htext : eraseBlanks text.toList = left ++ '=' :: right) (before : '=' ∉ left)
    (after : '=' ∉ right) (sum : IsSum unknowns left terms)
    (hright : readFinite? (String.ofList right) = some constant)
    (hrow : ∀ j : Fin unknowns.length, row.get j = addUp unknowns terms j 0.0) :
    read unknowns text = .ok (row, constant) := by
  have hsides : sides? (eraseBlanks text.toList) = some (left, right) :=
    sides?_eq_some_iff.mpr ⟨htext, sum.ne_nil, before, after⟩
  unfold read
  simp only [hsides, (readLeft_eq_ok_iff sum.ne_nil).mpr ⟨terms, sum, hrow⟩,
    readRight_eq_ok_iff.mpr hright]
  rfl

/-- **Reading accepts the grammar and nothing else.** Without its blanks, a text that is read is a
sum of terms, the only `=`, and a finite number; each unknown gets the sum, from left to right and
from zero, of the numbers in front of its letter. -/
theorem read_eq_ok_iff {text : String} {row : Vector Float unknowns.length} {constant : Float} :
    read unknowns text = .ok (row, constant) ↔
      ∃ left right terms, text.toList.filter (!isBlank ·) = left ++ '=' :: right ∧
        '=' ∉ left ∧ '=' ∉ right ∧
        IsSum unknowns left terms ∧ readFinite? (String.ofList right) = some constant ∧
        ∀ j : Fin unknowns.length, row.get j =
          ((terms.filter fun p => unknowns.idxOf p.1.letter = j).map (·.2)).foldl (· + ·) 0.0 := by
  constructor
  · intro h
    obtain ⟨left, right, htext, ne, before, after, hleft, hright⟩ := exists_sides_of_read h
    obtain ⟨terms, sum, hrow⟩ := (readLeft_eq_ok_iff ne).mp hleft
    exact ⟨left, right, terms, htext, before, after, sum, readRight_eq_ok_iff.mp hright, hrow⟩
  · rintro ⟨left, right, terms, htext, before, after, sum, hright, hrow⟩
    exact read_of_isSum htext before after sum hright hrow

end Equation

end Chalkboard
