import Chalkboard.Proofs.Method.Ending
import Chalkboard.Proofs.Method.Substitution
import Chalkboard.Proofs.Worked.Outcome

/-!
# What the methods write down

The steps of a solution are there to be checked by a reader, one after the other, from the numbers
that stand in them. Behind the triangular form Gaussian elimination writes down one step for each
row, from the last up: a step reads its row of the form and the values that were written down before
it, and nothing else. Cramer's Rule writes down every determinant that it divides, with the matrix
that it is of. This needs no law of arithmetic; the order of a sum and the zero that it starts from
are part of the statements.

* `Grid.substitution_leftBlock` — a row on record, read off the triangular form.
* `LinearSystem.backSubstitution_written_down` — all that stands between the triangular form and the
  solution.
* `Step.showsDet_ofDet` — a determinant with its expansion adds up.
* `LinearSystem.cramer_written_down` — all that Cramer's Rule writes down.
-/

namespace Chalkboard

universe u

variable {n : Nat} {α : Type u}

/-! ## Back substitution -/

/-- In front of the triangular form of an elimination there is none. -/
theorem LinearSystem.upperTriangularForm_notMem (s : LinearSystem n α) (b : Board n (n + 1) α)
    (rows : List (List α)) :
    .augmented "Upper triangular form" rows ∉ s.eliminationOpening ++ b.steps := by
  intro h
  rcases List.mem_append.mp h with h | h
  · simp [eliminationOpening] at h
  · obtain ⟨entry, -, heq⟩ := List.mem_map.mp h
    nomatch heq

variable [Scalar α]

namespace Grid

/-- What the unknowns behind column `i` contribute to row `i`, added from left to right. -/
theorem tailSum_leftBlock (g : Grid n (n + 1) α) (x : Vector α n) (i : Fin n) :
    (Grid.leftBlock (k := 1) g).tailSum x i =
      ((List.finRange n).filter (i < ·)).foldl
        (fun sum j => sum + g.entry i j.castSucc * x.get j) (-0) := by
  rw [Grid.tailSum, Scalar.sum, List.foldl_map]
  simp only [Grid.entry_leftBlock]
  rfl

/-- A row of the record, with the entries of the triangular form. -/
theorem substitution_leftBlock (g : Grid n (n + 1) α) (x : Vector α n) (i : Fin n) :
    (Grid.leftBlock (k := 1) g).substitution g.lastColumn x i =
      { row := i
        constant := g.entry i (Fin.last n)
        subtracted := (Grid.leftBlock (k := 1) g).tailSum x i
        pivot := g.entry i i.castSucc
        value := (g.entry i (Fin.last n) - (Grid.leftBlock (k := 1) g).tailSum x i) /
          g.entry i i.castSucc } := by
  simp only [Grid.substitution, Grid.entry_leftBlock, Grid.get_lastColumn]
  rfl

end Grid

namespace LinearSystem

/-- **A back substitution is written down row by row.** Between the triangular form and the solution
stand the steps of all rows, from the last up. The step of row `i` has the constant and the pivot of
the triangular form; what it subtracts is the sum, from `-0` and in ascending order, of the entries
behind the pivot times the values of the steps before; and its value is the difference over the
pivot. These values are the solution. -/
theorem backSubstitution_written_down {settings : Settings α} {s : LinearSystem n α}
    {solution : Solution n α} {steps : List (Step α)}
    (run : s.gauss settings = .solved solution steps) :
    ∃ (before : List (Step α)) (u : Grid n (n + 1) α) (subtracted : Fin n → α),
      steps = before ++ .augmented "Upper triangular form" u.toRows ::
        ((List.finRange n).reverse.map (fun i =>
            .backSubstitution (s.unknowns.get i) i (u.entry i (Fin.last n)) (subtracted i)
              (u.entry i i.castSucc) (solution.values.get i)) ++
          [.solution (s.unknowns.toList.zip solution.values.toList)]) ∧
      (∀ rows, .augmented "Upper triangular form" rows ∉ before) ∧
      ∀ i, subtracted i = ((List.finRange n).filter (i < ·)).foldl
            (fun sum j => sum + u.entry i j.castSucc * solution.values.get j) (-0) ∧
        solution.values.get i =
          (u.entry i (Fin.last n) - subtracted i) / u.entry i i.castSucc := by
  obtain ⟨board, x, log, -, values, rfl, rfl⟩ := exists_of_gauss run
  have recorded := (Grid.ends_backSubstitute_recorded settings.epsilon _ _).of_ok values
  have order : log = (List.finRange n).reverse.map
      ((Grid.leftBlock (k := 1) board.grid).substitution board.grid.lastColumn x) := recorded.log
  have value (i : Fin n) : x.get i = (board.grid.entry i (Fin.last n) -
      (Grid.leftBlock (k := 1) board.grid).tailSum x i) / board.grid.entry i i.castSucc := by
    have recordedValue := recorded.values i (Nat.zero_le i)
    rwa [Grid.substitution_leftBlock] at recordedValue
  refine ⟨_, board.grid, (Grid.leftBlock (k := 1) board.grid).tailSum x, ?_,
    s.upperTriangularForm_notMem board, fun i => ⟨Grid.tailSum_leftBlock board.grid x i, value i⟩⟩
  have rows : log.map s.substitutionStep = (List.finRange n).reverse.map fun i =>
      .backSubstitution (s.unknowns.get i) i (board.grid.entry i (Fin.last n))
        ((Grid.leftBlock (k := 1) board.grid).tailSum x i) (board.grid.entry i i.castSucc)
        (x.get i) := by
    rw [order, List.map_map]
    refine List.map_congr_left fun i _ => ?_
    show s.substitutionStep _ = _
    rw [Grid.substitution_leftBlock, ← value i]
    rfl
  rw [rows]
  rfl

/-- A system whose first pivot stands in the second row. -/
def ladder : LinearSystem 3 Float :=
  { unknowns := .ofFn !['x', 'y', 'z']
    a := .ofFn ![![0.0, 2.0, 1.0], ![2.0, 1.0, -1.0], ![1.0, 1.0, 3.0]]
    b := .ofFn ![7.0, 1.0, 12.0] }

theorem backSubstitution_written_down_ladder :
    ∃ steps, ladder.gauss .standard = .solved ⟨ladder.unknowns, .ofFn ![1.0, 2.0, 3.0]⟩ steps ∧
      ∃ (before : List (Step Float)) (u : Grid 3 4 Float) (subtracted : Fin 3 → Float),
        steps = before ++ .augmented "Upper triangular form" u.toRows ::
          ([.backSubstitution 'z' 2 (u.entry 2 3) (subtracted 2) (u.entry 2 2) 3.0,
            .backSubstitution 'y' 1 (u.entry 1 3) (subtracted 1) (u.entry 1 1) 2.0,
            .backSubstitution 'x' 0 (u.entry 0 3) (subtracted 0) (u.entry 0 0) 1.0] ++
          [.solution [('x', 1.0), ('y', 2.0), ('z', 3.0)]]) ∧
        subtracted 2 = -0.0 ∧ subtracted 1 = -0.0 + u.entry 1 2 * 3.0 := by
  have values : (ladder.gauss .standard).solution? =
      some ⟨ladder.unknowns, .ofFn ![1.0, 2.0, 3.0]⟩ := by
    decide +kernel
  obtain ⟨steps, run⟩ := Outcome.solution?_eq_some_iff.mp values
  obtain ⟨before, u, subtracted, written, -, rows⟩ := backSubstitution_written_down run
  exact ⟨steps, run, before, u, subtracted, written, (rows 2).1, (rows 1).1⟩

end LinearSystem

/-! ## Cramer's Rule -/

/-- **`step.ShowsDet expand label g`** — the step gives the determinant of `g` under `label`. Where
the expansion is wanted, and `g` has three rows or more, it has one term for each column, with the
entry of the top row, and the values of the terms add up to the determinant in their order. -/
def Step.ShowsDet (expand : Bool) (label : String) (g : Grid n n α) (step : Step α) : Prop :=
  if expand = true ∧ 3 ≤ n then
    ∃ terms : List (CofactorTerm α), step = .cofactorExpansion label terms g.det ∧
      terms.map CofactorTerm.column = List.range n ∧
      some (terms.map CofactorTerm.entry) = g.toRows.head? ∧
      Scalar.sum (terms.map CofactorTerm.value) = g.det
  else step = .determinant label g.det

/-- The entries that are expanded are the top row. -/
theorem Grid.entries_cofactors (g : Grid (n + 1) (n + 1) α) :
    some (g.cofactors.map CofactorTerm.entry) = g.toRows.head? := by
  rw [toRows_eq_map_row, List.finRange_succ, List.map_cons, List.head?_cons, ← map_get_finRange,
    cofactors, List.map_map]
  rfl

theorem Step.showsDet_ofDet (expand : Bool) (label : String) (g : Grid n n α) :
    (Step.ofDet expand label g).ShowsDet expand label g := by
  unfold ShowsDet ofDet
  by_cases h : expand = true ∧ 3 ≤ n
  · obtain ⟨size, rfl⟩ := Nat.exists_eq_add_of_le' h.2
    rw [if_pos h, if_pos (by simpa using h)]
    refine ⟨g.cofactors, rfl, ?_, g.entries_cofactors, g.det_eq_sum_cofactors.symm⟩
    rw [Grid.cofactors, List.map_map]
    exact List.map_coe_finRange_eq_range
  · rw [if_neg h, if_neg (by simpa using h)]

namespace LinearSystem

/-- The steps for unknown `k`, with the matrix `g` for it and its value. -/
def quotientSteps (s : LinearSystem n α) (k : Fin n) (g : Grid n n α) (value : α) :
    List (Step α) :=
  let label := "A_" ++ (s.unknowns.get k).toString
  [.matrix label g.toRows, .determinant ("det(" ++ label ++ ")") g.det,
    .quotient (s.unknowns.get k) g.det s.a.det value]

/-- **All that Cramer's Rule writes down.** Behind the system, its coefficients and its constants
stands the determinant of the coefficients. If that is refused, the reason is the only step behind
it. Otherwise there follow for each unknown, in their order, the coefficients with the constants in
its column, the determinant of that matrix, and the quotient of the two determinants, which is the
unknown's value in the solution. -/
theorem cramer_written_down (settings : Settings α) (s : LinearSystem n α) :
    ∃ det : Step α, det.ShowsDet settings.expandCofactors "det(A)" s.a ∧
      (s.cramer settings = .stopped (.zeroDeterminant s.a.det)
          [.system s.equations, .matrix "A" s.a.toRows, .vector "b" s.b.toList, det,
            .failure (Singularity.zeroDeterminant s.a.det).text] ∨
        ∃ (values : Vector α n) (g : Fin n → Grid n n α),
          s.cramer settings = .solved ⟨s.unknowns, values⟩
            ([.system s.equations, .matrix "A" s.a.toRows, .vector "b" s.b.toList, det] ++
              (List.finRange n).flatMap (fun k => s.quotientSteps k (g k) (values.get k)) ++
              [.solution (s.unknowns.toList.zip values.toList)]) ∧
          (∀ k i j, (g k).entry i j = if j = k then s.b.get i else s.a.entry i j) ∧
          ∀ k, values.get k = (g k).det / s.a.det) := by
  refine ⟨_, Step.showsDet_ofDet settings.expandCofactors "det(A)" s.a, ?_⟩
  rcases s.cramer_cases settings with ⟨-, run⟩ | ⟨-, run⟩
  · exact .inl run
  · refine .inr ⟨Vector.ofFn s.cramerValue, s.replaced, ?_, fun k i j => ?_, fun k => ?_⟩
    · rw [run]
      simp only [get_ofFn]
      rfl
    · exact Grid.entry_replaceColumn s.a k j s.b i
    · exact get_ofFn s.cramerValue k

end LinearSystem

end Chalkboard
