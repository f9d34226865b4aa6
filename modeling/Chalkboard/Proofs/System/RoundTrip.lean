import Chalkboard.Proofs.Equation.Printing
import Chalkboard.Proofs.Grid.Matrix
import Chalkboard.Proofs.Worked.Map

/-!
# Written systems are read back

A system of finite numbers is read back from its own text, with one zero in place of two, if its
unknowns can be named in an equation and each of its equations names one. An equation of zeros does
not: nothing that is read can begin with `0` and a sign of equality.

* `variableFault?_eq_none_iff` — which unknowns can be named.
* `LinearSystem.read_of_rows` — a system is read one equation after another.
* `LinearSystem.read_equationTexts` — the round trip, and where it ends.
-/

namespace Chalkboard

namespace LinearSystem

/-! ## Unknowns -/

theorem variableFaultAfter_eq_none_iff {vs : List Char} : ∀ {seen : List Char},
    variableFaultAfter seen vs = none ↔
      (∀ v ∈ vs, v.isAlpha) ∧ vs.Nodup ∧ ∀ v ∈ vs, v ∉ seen := by
  induction vs with
  | nil => simp [variableFaultAfter]
  | cons v vs ih =>
    intro seen
    rw [variableFaultAfter, List.forall_mem_cons, List.forall_mem_cons, List.nodup_cons]
    split_ifs with other again
    · have : ¬ v.isAlpha = true := by simpa using other
      exact iff_of_false (fun h => nomatch h) fun h => this h.1.1
    · exact iff_of_false (fun h => nomatch h) fun h => h.2.2.1 again
    · have letter : v.isAlpha = true := by simpa using other
      rw [ih]
      -- an unknown after `v` is new if it is neither `v` nor before it
      have fresh : (∀ w ∈ vs, w ∉ v :: seen) ↔ v ∉ vs ∧ ∀ w ∈ vs, w ∉ seen := by
        simp only [List.mem_cons, not_or, forall_and]
        exact and_congr_left' ⟨fun h hv => h v hv rfl, fun h w hw e => h (e ▸ hw)⟩
      rw [fresh]
      tauto

/-- **Unknowns that can be named** are letters, at least one and each of them once. -/
theorem variableFault?_eq_none_iff {unknowns : List Char} :
    variableFault? unknowns = none ↔
      unknowns ≠ [] ∧ (∀ v ∈ unknowns, v.isAlpha) ∧ unknowns.Nodup := by
  unfold variableFault?
  split_ifs with empty
  · exact iff_of_false (fun h => nomatch h) fun h => h.1 empty
  · rw [variableFaultAfter_eq_none_iff]
    simp [empty]

/-! ## Reading row by row -/

/-- Equations that are read one by one are read together. -/
theorem readAll_of_forall₂ {unknowns : List Char} {texts : List String}
    {rows : List (CoefficientRow unknowns)}
    (h : List.Forall₂ (fun text row => Equation.read unknowns text = .ok row) texts rows) :
    Equation.readAll unknowns texts = .ok ⟨rows, h.length_eq.symm⟩ := by
  induction h with
  | nil => rfl
  | cons hread _ ih =>
    rw [Equation.readAll, hread, ih]
    rfl

/-- **A system is read one equation after another.** -/
theorem read_of_rows {unknowns : List Char} {texts : List String}
    {rows : List (CoefficientRow unknowns)} (named : variableFault? unknowns = none)
    (count : texts.length = unknowns.length)
    (h : List.Forall₂ (fun text row => Equation.read unknowns text = .ok row) texts rows) :
    ∃ r, read unknowns texts = .ok r ∧ r.unknowns.toList = unknowns ∧
      r.a.toRows = rows.map (·.1.toList) ∧ r.b.toList = rows.map (·.2) := by
  unfold read
  simp only [named, dif_pos count, readAll_of_forall₂ h]
  refine ⟨_, rfl, rfl, ?_, rfl⟩
  simp [Grid.toRows]

/-! ## The round trip -/

variable {n : Nat}

theorem terms_equation {α : Type*} (s : LinearSystem n α) (i : Fin n) :
    (s.equation i).terms = (List.finRange n).map fun j => (s.a.entry i j, s.unknowns.get j) := by
  apply List.ext_getElem
  · simp [equation]
  · intro j hj hj'
    simp only [equation, List.getElem_zip, List.getElem_map, List.getElem_finRange]
    rfl

/-- What the text of equation `i` is read as. -/
def readBack (s : LinearSystem n Float) (i : Fin n) : Vector Float n × Float :=
  ((s.a.row i).map plusZero, plusZero (s.b.get i))

/-- **One equation of a system is read back.** -/
theorem read_text_equation {unknowns : List Char} {s : LinearSystem unknowns.length Float}
    (names : s.unknowns.toList = unknowns) (named : variableFault? unknowns = none)
    {i : Fin unknowns.length} (finite : ∀ j, (s.a.entry i j).isFinite = true)
    (constant : (s.b.get i).isFinite = true) (nonzero : ∃ j, (s.a.entry i j == 0.0) = false) :
    Equation.read unknowns (s.equation i).text = .ok (s.readBack i) := by
  obtain ⟨-, letters, distinct⟩ := variableFault?_eq_none_iff.mp named
  have terms := s.terms_equation i
  refine Equation.read_text ?names distinct letters ?finite ?constant ?nonzero ?row
  case names =>
    rw [terms, List.map_map]
    exact (map_get_finRange s.unknowns).trans names
  case finite =>
    intro t ht
    rw [terms, List.mem_map] at ht
    obtain ⟨j, -, rfl⟩ := ht
    exact finite j
  case constant => exact constant
  case nonzero =>
    obtain ⟨j, hj⟩ := nonzero
    refine ⟨(s.a.entry i j, s.unknowns.get j), ?_, hj⟩
    rw [terms]
    exact List.mem_map_of_mem (List.mem_finRange j)
  case row =>
    rw [terms, List.map_map, Vector.toList_map, ← map_get_finRange (s.a.row i), List.map_map]
    rfl

/-- **A system of finite numbers is read back from its text**, if its unknowns can be named and no
equation has all its coefficients zero: the unknowns, the coefficients and the constants are those
of the system, with one zero in place of two. An equation whose coefficients are all zero is
refused, whatever the unknowns are. -/
theorem read_equationTexts (s : LinearSystem n Float) :
    ((∀ i j, (s.a.entry i j).isFinite = true) → (∀ i, (s.b.get i).isFinite = true) →
        variableFault? s.unknowns.toList = none →
        (∀ i, ∃ j, (s.a.entry i j == 0.0) = false) →
      ∃ r, read s.unknowns.toList s.equationTexts = .ok r ∧
        r.unknowns.toList = s.unknowns.toList ∧ r.a.toRows = (s.a.map plusZero).toRows ∧
        r.b.toList = (s.b.map plusZero).toList) ∧
    ∀ i, (∀ j, (s.a.entry i j == 0.0) = true) → ∀ unknowns,
      Equation.read unknowns (s.equation i).text = .error (.invalidTerm "0") := by
  constructor
  · intro finite constants named nonzero
    -- the size of the system is the number of its unknowns
    generalize names : s.unknowns.toList = unknowns at named ⊢
    obtain rfl : n = unknowns.length := by rw [← names, Vector.length_toList]
    have rows : List.Forall₂ (fun text row => Equation.read unknowns text = .ok row)
        s.equationTexts ((List.finRange unknowns.length).map s.readBack) := by
      rw [equationTexts, equations, List.map_map, List.forall₂_map_left_iff,
        List.forall₂_map_right_iff, List.forall₂_same]
      exact fun i _ => read_text_equation names named (finite i) (constants i) (nonzero i)
    obtain ⟨r, hr, hunknowns, ha, hb⟩ := read_of_rows named (by simp [equationTexts, equations]) rows
    refine ⟨r, hr, hunknowns, ha.trans ?_, hb.trans ?_⟩
    · rw [Grid.toRows_map, Grid.toRows_eq_map_row, List.map_map, List.map_map]
      exact List.map_congr_left fun i _ => Vector.toList_map
    · rw [Vector.toList_map, ← map_get_finRange s.b, List.map_map, List.map_map]
      rfl
  · intro i zero unknowns
    refine Equation.read_text_of_zero unknowns fun t ht => ?_
    rw [terms_equation, List.mem_map] at ht
    obtain ⟨j, -, rfl⟩ := ht
    exact zero j

/-- `-x + 0.1y = -0` and `2.5y = 1`. -/
def full : LinearSystem 2 Float where
  unknowns := .ofFn !['x', 'y']
  a := .ofFn ![![-1.0, 0.1], ![-0.0, 2.5]]
  b := .ofFn ![-0.0, 1.0]

/-- The same with an equation `0 = 1`. -/
def halfEmpty : LinearSystem 2 Float :=
  { full with a := .ofFn ![![-1.0, 0.1], ![-0.0, 0.0]] }

/-- A zero with a sign comes back without it, and `0` does not come back. -/
theorem read_equationTexts_sample :
    full.equationTexts = ["-x + 0.1y = 0", "2.5y = 1"] ∧
    (∃ r, read ['x', 'y'] full.equationTexts = .ok r ∧ r.unknowns.toList = ['x', 'y'] ∧
      r.a.toRows = (full.a.map plusZero).toRows ∧ r.b.toList = (full.b.map plusZero).toList) ∧
    (halfEmpty.equation 1).text = "0 = 1" ∧
    Equation.read ['x', 'y'] (halfEmpty.equation 1).text = .error (.invalidTerm "0") :=
  ⟨by decide +kernel,
    (read_equationTexts full).1 (by decide +kernel) (by decide +kernel) (by decide)
      (by decide +kernel),
    by decide +kernel, (read_equationTexts halfEmpty).2 1 (by decide +kernel) ['x', 'y']⟩

end LinearSystem

end Chalkboard
