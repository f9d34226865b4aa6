import Chalkboard.Proofs.Method.Inverse
import Chalkboard.Proofs.Method.Pivots
import Chalkboard.Proofs.Method.Regular
import Chalkboard.Proofs.Method.Values
import Chalkboard.Proofs.Practice.Draw

/-!
# Practice systems are solved with the announced answer

Coefficients are kept if elimination beside the identity accepts all their pivots. Gaussian and
Gauss-Jordan elimination meet the same pivots, so they succeed under the same tolerance. Cramer's
Rule tests the determinant instead. That is the product of the pivots, which for a tolerance above
one is at least the tolerance; and it is a whole number other than zero, which is at least any
tolerance up to one.

* `Practice.Prepared` — what is certain of a system that was drawn.
* `Practice.Prepared.solved` — what the methods make of it.
* `Practice.practiceSystem_solved` — the two together, whatever the source of words hands out.
-/

namespace Chalkboard

namespace Practice

variable {n : Nat} {K : Type} [Field K] [LinearOrder K]

/-- **`Whole low high v`** — `v` is a whole number from `low` to `high`. -/
def Whole (low high : Int) (v : K) : Prop :=
  ∃ z : Int, low ≤ z ∧ z ≤ high ∧ v = z

/-- **`Prepared epsilon a b x`** — small whole numbers for coefficients that can be inverted under
the tolerance, and for the solution, which makes the constants. -/
structure Prepared (epsilon : K) (a : Grid n n K) (b x : Vector K n) : Prop where
  coefficients : ∀ i j, Whole (-10) 10 (a.entry i j)
  values : ∀ i, Whole (-5) 5 (x.get i)
  product : a.mulVec x = b
  invertible : ∃ m, a.inverse? epsilon = some m

/-! ## What the methods make of it -/

namespace Prepared

/-- The determinant is a whole number. -/
theorem exists_leibniz_eq {epsilon : K} {a : Grid n n K} {b x : Vector K n}
    (h : Prepared epsilon a b x) : ∃ z : Int, a.leibniz = z := by
  choose f _ _ hentry using h.coefficients
  have whole : a = (Grid.ofFn f).map Int.cast := by
    apply Grid.ext_entry
    intro i j
    rw [Grid.entry_map, Grid.entry_ofFn, hentry]
  exact ⟨(Grid.ofFn f).leibniz, by rw [whole, Grid.leibniz_map_cast]⟩

variable [IsStrictOrderedRing K] {settings : Settings K} {s : LinearSystem n K} {x : Vector K n}

/-- Forward elimination accepts the pivots that the inverse was found with. -/
theorem triangularize (pos : 0 < settings.epsilon) (h : Prepared settings.epsilon s.a s.b x) :
    ∃ board, Board.triangularize (k := 1) settings.epsilon ⟨s.augmented, []⟩ = .ok board := by
  rw [(Board.together_eliminations (k := 1) pos ⟨s.augmented, []⟩).ok_iff,
    s.diagonalize_ok_iff_inverse? Scalar.lawfulOne_exact]
  exact h.invertible

/-- **The determinant reaches the tolerance**, for a small one as a whole number and for a large one
as a product of pivots. -/
theorem epsilon_le_abs_leibniz (pos : 0 < settings.epsilon) (unknowns : n ≠ 0)
    (h : Prepared settings.epsilon s.a s.b x) : settings.epsilon ≤ |s.a.leibniz| := by
  obtain ⟨board, run⟩ := h.triangularize pos
  have pivots : settings.epsilon ^ n ≤ |s.a.leibniz| := by
    rw [← s.leftBlock_augmented]
    exact Board.pow_le_abs_leibniz (k := 1) (g := s.augmented) pos run
  rcases le_total settings.epsilon 1 with small | large
  · obtain ⟨z, hz⟩ := h.exists_leibniz_eq
    have hne : z ≠ 0 := by
      rintro rfl
      rw [hz, Int.cast_zero, abs_zero] at pivots
      exact absurd (pow_pos pos n) pivots.not_gt
    calc settings.epsilon ≤ 1 := small
      _ ≤ ((|z| : Int) : K) := by exact_mod_cast Int.one_le_abs hne
      _ = |s.a.leibniz| := by rw [hz, Int.cast_abs]
  · exact (le_self_pow₀ large unknowns).trans pivots

/-- **A prepared system is solved** by every method with exchanges, and by the fourth method if it
does not stop; and the values are those that were drawn. -/
theorem solved (pos : 0 < settings.epsilon) (unknowns : n ≠ 0)
    (h : Prepared settings.epsilon s.a s.b x) :
    (∀ m ∈ [Method.cramersRule, .gaussElimination, .gaussJordan],
      ∃ steps, m.run settings s = .solved ⟨s.unknowns, x⟩ steps) ∧
    ∀ solution steps, s.lu settings = .solved solution steps → solution.values = x := by
  obtain ⟨board, run⟩ := h.triangularize pos
  obtain ⟨hgauss, hjordan⟩ := LinearSystem.eliminations_solved_of_triangularize pos run
  have hcramer := LinearSystem.cramer_solved_of_le (h.epsilon_le_abs_leibniz pos unknowns)
  -- whichever values there are, they are the drawn ones
  have announced {m : Method} (ends : ∃ solution steps, m.run settings s = .solved solution steps) :
      ∃ steps, m.run settings s = .solved ⟨s.unknowns, x⟩ steps := by
    obtain ⟨solution, steps, ending⟩ := ends
    rw [Method.eq_solution_of_run pos ending h.product] at ending
    exact ⟨steps, ending⟩
  constructor
  · intro m hm
    rcases List.mem_cons.mp hm with rfl | hm
    · exact announced hcramer
    · rcases List.mem_cons.mp hm with rfl | hm
      · exact announced hgauss
      · rw [List.mem_singleton.mp hm]
        exact announced hjordan
  · intro solution steps ending
    exact congrArg Solution.values
      (Method.eq_solution_of_run (m := .luDecomposition) pos ending h.product)

end Prepared

/-! ## What is drawn -/

/-- A system that is put together holds the numbers that it is put together from, in the size that
the names of its unknowns give. -/
theorem prepared_of_ofTable {unknowns : List Char} {epsilon : K} {a : Grid n n K} {b x : Vector K n}
    {s : LinearSystem unknowns.length K} (h : Prepared epsilon a b x)
    (made : LinearSystem.ofTable unknowns ⟨n, n, a⟩ b.toList = .ok s) :
    unknowns.length ≠ 0 ∧ ∃ size : n = unknowns.length,
      Prepared epsilon s.a s.b (x.cast size) := by
  unfold LinearSystem.ofTable at made
  split_ifs at made with nonempty square height constants
  -- in the one size that remains nothing is renamed
  obtain rfl : n = unknowns.length := height
  cases made
  refine ⟨nonempty, rfl, ?_⟩
  have coefficients : (Grid.ofFn fun i j => a.entry (i.cast rfl) (j.cast rfl)) = a := by
    apply Grid.ext_entry
    intro i j
    rw [Grid.entry_ofFn]
    rfl
  have constants : (⟨b.toList.toArray, by simp⟩ : Vector K unknowns.length) = b := by
    apply Vector.toArray_inj.mp
    exact Array.toArray_toList
  show Prepared epsilon (Grid.ofFn fun i j => a.entry (i.cast rfl) (j.cast rfl))
    ⟨b.toList.toArray, _⟩ (x.cast rfl)
  rw [coefficients, constants]
  exact h

variable {σ : Type} [WordSource σ]

/-- **What is certain of an exercise** — it was prepared for the tolerance. -/
def Exercise.Sound (epsilon : K) (ex : Exercise n K) : Prop :=
  (LinearSystem.defaultUnknowns n).length ≠ 0 ∧
    ∃ size : n = (LinearSystem.defaultUnknowns n).length,
      Prepared epsilon ex.system.a ex.system.b (ex.solution.cast size)

/-- Whatever the source hands out, and however often it takes, what is drawn is prepared. -/
theorem yields_drawExercise (epsilon : K) (attempts : Nat) :
    Yields (fun drawn => ∀ ex : Exercise n K, drawn = .ok ex → ex.Sound epsilon)
      (drawExercise n epsilon attempts : StateM σ (Except TableError (Exercise n K))) := by
  induction attempts with
  | zero => exact Yields.pure nofun
  | succ attempts ih =>
    refine (yields_drawGrid n).bind fun a ha => ?_
    simp only
    cases found : (a.map (Scalar.ofInt : Int → K)).inverse? epsilon with
    | none => exact ih
    | some m =>
      refine (yields_drawSolution n).bind fun x hx => Yields.pure ?_
      have prepared : Prepared epsilon (a.map Scalar.ofInt)
          ((a.map Scalar.ofInt).mulVec (x.map Scalar.ofInt)) (x.map (Scalar.ofInt : Int → K)) := by
        refine ⟨fun i j => ?_, fun i => ?_, rfl, m, found⟩
        · exact ⟨a.entry i j, (ha i j).1, (ha i j).2, Grid.entry_map _ a i j⟩
        · exact ⟨x.get i, (hx i).1, (hx i).2, Vector.getElem_map _ i.isLt⟩
      intro ex hex
      cases made : named n (a.map (Scalar.ofInt : Int → K))
          ((a.map Scalar.ofInt).mulVec (x.map Scalar.ofInt)) with
      | error e =>
        rw [made] at hex
        nomatch hex
      | ok s =>
        rw [made] at hex
        cases hex
        exact prepared_of_ofTable prepared made

variable [IsStrictOrderedRing K]

/-- **A practice system is solved with the announced answer.** Whatever the source of words hands
out, if a system is drawn under a positive tolerance then its coefficients are whole numbers from
`-10` to `10`, its solution is made of whole numbers from `-5` to `5` and makes the constants; and
under the same tolerance Cramer's Rule and both eliminations end with that solution, and so does LU
decomposition unless it stops. -/
theorem practiceSystem_solved {settings : Settings K} (pos : 0 < settings.epsilon)
    {source source' : σ} {ex : Exercise n K}
    (drawn : (practiceSystem n settings.epsilon).run source = (.ok ex, source')) :
    ∃ size : n = (LinearSystem.defaultUnknowns n).length,
      (∀ i j, ∃ z : Int, -10 ≤ z ∧ z ≤ 10 ∧ ex.system.a.entry i j = z) ∧
      (∀ i, ∃ z : Int, -5 ≤ z ∧ z ≤ 5 ∧ ex.solution.get i = z) ∧
      ex.system.a.mulVec (ex.solution.cast size) = ex.system.b ∧
      (∀ m ∈ [Method.cramersRule, .gaussElimination, .gaussJordan],
        ∃ steps, m.run settings ex.system =
          .solved ⟨ex.system.unknowns, ex.solution.cast size⟩ steps) ∧
      ∀ solution steps, ex.system.lu settings = .solved solution steps →
        solution.values = ex.solution.cast size := by
  have sound : ex.Sound settings.epsilon := by
    unfold practiceSystem at drawn
    split_ifs at drawn with empty
    · nomatch drawn
    · have certain := yields_drawExercise (n := n) settings.epsilon maxAttempts source
      rw [drawn] at certain
      exact certain ex rfl
  obtain ⟨nonempty, size, prepared⟩ := sound
  obtain ⟨exchanges, factors⟩ := prepared.solved pos nonempty
  refine ⟨size, prepared.coefficients, fun i => ?_, prepared.product, exchanges, factors⟩
  exact prepared.values (i.cast size)

theorem practiceSystem_solved_sample :
    0 < Settings.sample.epsilon ∧
      ∃ (ex : Exercise 2 ℚ) (source' : Cycle),
        (practiceSystem 2 Settings.sample.epsilon).run
          (⟨[3000000000, 2000000000, 1000000000, 4000000000, 2500000000, 3500000000], 0⟩ : Cycle) =
            (.ok ex, source') ∧
        ∃ size, ∀ m ∈ [Method.cramersRule, .gaussElimination, .gaussJordan],
          ∃ steps, m.run .sample ex.system =
            .solved ⟨ex.system.unknowns, ex.solution.cast size⟩ steps := by
  let source : Cycle :=
    ⟨[3000000000, 2000000000, 1000000000, 4000000000, 2500000000, 3500000000], 0⟩
  have drawn : ((practiceSystem (α := ℚ) 2 Settings.sample.epsilon).run source).1.isOk = true := by
    decide +kernel
  cases result : (practiceSystem (α := ℚ) 2 Settings.sample.epsilon).run source with
  | mk ending source' =>
    rw [result] at drawn
    cases ending with
    | error e => nomatch drawn
    | ok ex =>
      obtain ⟨size, -, -, -, exchanges, -⟩ :=
        practiceSystem_solved Settings.sample_epsilon_pos result
      exact ⟨Settings.sample_epsilon_pos, ex, source', rfl, size, exchanges⟩

end Practice

end Chalkboard
