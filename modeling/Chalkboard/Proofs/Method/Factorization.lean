import Chalkboard.Proofs.Method.Ending
import Chalkboard.Proofs.Method.Substitution
import Chalkboard.Proofs.Worked.Outcome
import Chalkboard.Method.Factorization

/-!
# The factors multiply back

The factorisation fills a row of the upper factor and then a column of the lower one, so what is
done has the shape of an L: some rows from the top and some columns from the left. There the product
of the factors is the grid that is factored (`Factors.Covers`), and whatever is filled later does
not reach into it, because it meets a zero of the other factor.

A factorisation that halts has filled one row more than columns. One that ends well has covered the
grid; then forward substitution and back substitution give the only solution.
-/

namespace Chalkboard

universe u

open scoped BigOperators

variable {n : Nat} {K : Type u} [Field K] [LinearOrder K]

/-! ## One row and one column -/

namespace Factors

/-- **`f.Covers epsilon a rows columns`** — the factors have their shapes, the pivots are not
negligible, and in the given number of rows and columns the product of the factors is `a`. -/
structure Covers (f : Factors n K) (epsilon : K) (a : Grid n n K) (rows columns : Nat) : Prop where
  above : ∀ r c, r < c → f.lower.entry r c = 0
  diagonal : ∀ r : Fin n, (r : Nat) < rows → f.lower.entry r r = 1
  below : f.upper.Upper
  pivot : ∀ c : Fin n, (c : Nat) < columns → Scalar.negligible epsilon (f.upper.entry c c) = false
  /-- The product is right where it is complete. -/
  product : ∀ r c : Fin n, (r : Nat) < rows ∨ (c : Nat) < columns →
    ∑ l, f.lower.entry r l * f.upper.entry l c = a.entry r c

theorem partialProduct_eq (f : Factors n K) (i r c : Fin n) :
    f.partialProduct i r c = ∑ l with l < i, f.lower.entry r l * f.upper.entry l c :=
  Scalar.sum_finRange_filter (· < i) fun l => f.lower.entry r l * f.upper.entry l c

variable {epsilon : K} {a : Grid n n K} {f : Factors n K}

theorem covers_zero (epsilon : K) (a : Grid n n K) : (zero : Factors n K).Covers epsilon a 0 0 where
  above r c _ := Grid.entry_ofFn _ r c
  diagonal r hr := absurd hr (Nat.not_lt_zero _)
  below r c _ := Grid.entry_ofFn _ r c
  pivot c hc := absurd hc (Nat.not_lt_zero _)
  product r c h := absurd h (by omega)

/-- A new row of the upper factor does not reach into what is done: there it meets a zero of the
lower factor, or it is not new. -/
theorem Covers.product_fillRow_of_done {i : Fin n} (h : f.Covers epsilon a i i) {r c : Fin n}
    (hrc : r < i ∨ c < i) :
    ∑ l, (f.fillRow a i).lower.entry r l * (f.fillRow a i).upper.entry l c = a.entry r c := by
  rw [← h.product r c hrc]
  refine Finset.sum_congr rfl fun l _ => ?_
  -- only the term of index `i` reads new numbers
  by_cases hl : l = i
  · subst hl
    rcases hrc with hr | hc
    · rw [lower_fillRow, if_neg fun e => hr.ne' e.1, h.above r l hr, zero_mul, zero_mul]
    · rw [upper_fillRow, if_neg fun e => hc.not_ge e.2, h.below l c hc, mul_zero, mul_zero]
  · rw [lower_fillRow, if_neg fun e => hl e.2.symm, upper_fillRow, if_neg fun e => hl e.1]

/-- The new row completes the sums that it stands in. -/
theorem Covers.product_fillRow_of_new {i : Fin n} (h : f.Covers epsilon a i i) {c : Fin n}
    (hc : i ≤ c) :
    ∑ l, (f.fillRow a i).lower.entry i l * (f.fillRow a i).upper.entry l c = a.entry i c := by
  have habove : ∀ l, i < l →
      (f.fillRow a i).lower.entry i l * (f.fillRow a i).upper.entry l c = 0 := by
    intro l hl
    rw [lower_fillRow, if_neg fun e => hl.ne e.2, h.above i l hl, zero_mul]
  -- the new entry was computed from the terms before it
  have hrest : ∑ l with l < i,
      (f.fillRow a i).lower.entry i l * (f.fillRow a i).upper.entry l c =
        f.partialProduct i i c := by
    rw [partialProduct_eq]
    refine Finset.sum_congr rfl fun l hl => ?_
    have hli : l < i := by simpa using hl
    rw [lower_fillRow, if_neg fun e => hli.ne' e.2, upper_fillRow, if_neg fun e => hli.ne e.1]
  rw [Scalar.sum_eq_add_below i habove, hrest, lower_fillRow, if_pos ⟨rfl, rfl⟩, upper_fillRow,
    if_pos ⟨rfl, hc⟩, one_mul, sub_add_cancel]

/-- **Filling a row.** One row more is done. -/
theorem Covers.fillRow {i : Fin n} (h : f.Covers epsilon a i i) :
    (f.fillRow a i).Covers epsilon a (i + 1) i where
  above r c hrc := by
    rw [lower_fillRow, if_neg fun e => hrc.ne (e.1.symm.trans e.2)]
    exact h.above r c hrc
  diagonal r hr := by
    rw [lower_fillRow]
    split_ifs with hi
    · rfl
    · have hne : (r : Nat) ≠ i := fun e => hi ⟨Fin.ext e.symm, Fin.ext e.symm⟩
      exact h.diagonal r (by omega)
  below r c hcr := by
    rw [upper_fillRow, if_neg fun e => (e.1 ▸ hcr).not_ge e.2]
    exact h.below r c hcr
  pivot c hc := by
    have hlt : c < i := hc
    rw [upper_fillRow, if_neg fun e => hlt.ne e.1]
    exact h.pivot c hc
  product r c hrc := by
    by_cases hdone : r < i ∨ c < i
    · exact h.product_fillRow_of_done hdone
    · -- what is left is row `i` from the diagonal on
      obtain ⟨hr, hc⟩ := not_or.mp hdone
      have hri : r = i := by omega
      rw [hri]
      exact h.product_fillRow_of_new (not_lt.mp hc)

/-- A new column of the lower factor does not reach into what is done: there it meets a zero of the
upper factor, or it is not new. -/
theorem Covers.product_fillColumn_of_done {i : Fin n} (h : f.Covers epsilon a (i + 1) i)
    {r c : Fin n} (hrc : r ≤ i ∨ c < i) :
    ∑ l, (f.fillColumn a i).lower.entry r l * (f.fillColumn a i).upper.entry l c =
      a.entry r c := by
  rw [← h.product r c (hrc.imp Nat.lt_succ_of_le id)]
  refine Finset.sum_congr rfl fun l _ => ?_
  rw [upper_fillColumn]
  by_cases hl : l = i
  · subst hl
    rcases hrc with hr | hc
    · rw [lower_fillColumn, if_neg fun e => hr.not_gt e.2]
    · rw [h.below l c hc, mul_zero, mul_zero]
  · rw [lower_fillColumn, if_neg fun e => hl e.1]

/-- The new column completes the sums that it stands in. -/
theorem Covers.product_fillColumn_of_new {i : Fin n} (h : f.Covers epsilon a (i + 1) i)
    (hp : f.upper.entry i i ≠ 0) {r : Fin n} (hr : i < r) :
    ∑ l, (f.fillColumn a i).lower.entry r l * (f.fillColumn a i).upper.entry l i =
      a.entry r i := by
  have habove : ∀ l, i < l →
      (f.fillColumn a i).lower.entry r l * (f.fillColumn a i).upper.entry l i = 0 := by
    intro l hl
    rw [upper_fillColumn, h.below l i hl, mul_zero]
  have hrest : ∑ l with l < i,
      (f.fillColumn a i).lower.entry r l * (f.fillColumn a i).upper.entry l i =
        f.partialProduct i r i := by
    rw [partialProduct_eq]
    refine Finset.sum_congr rfl fun l hl => ?_
    have hli : l < i := by simpa using hl
    rw [lower_fillColumn, if_neg fun e => hli.ne e.1, upper_fillColumn]
  rw [Scalar.sum_eq_add_below i habove, hrest, lower_fillColumn, if_pos ⟨rfl, hr⟩,
    upper_fillColumn, div_mul_cancel₀ _ hp, sub_add_cancel]

section Pivot

variable [IsStrictOrderedRing K]

/-- **Filling a column.** One column more is done, if its pivot is not negligible. -/
theorem Covers.fillColumn (pos : 0 < epsilon) {i : Fin n} (h : f.Covers epsilon a (i + 1) i)
    (hp : Scalar.negligible epsilon (f.upper.entry i i) = false) :
    (f.fillColumn a i).Covers epsilon a (i + 1) (i + 1) where
  above r c hrc := by
    rw [lower_fillColumn, if_neg fun e => (e.1 ▸ hrc).not_gt e.2]
    exact h.above r c hrc
  diagonal r hr := by
    rw [lower_fillColumn, if_neg fun e => e.2.ne' e.1]
    exact h.diagonal r hr
  below := h.below
  pivot c hc := by
    rw [upper_fillColumn]
    rcases Nat.lt_succ_iff_lt_or_eq.mp hc with hlt | heq
    · exact h.pivot c hlt
    · rw [Fin.ext heq]
      exact hp
  product r c hrc := by
    by_cases hdone : r ≤ i ∨ c < i
    · exact h.product_fillColumn_of_done hdone
    · -- what is left is column `i` below the diagonal
      obtain ⟨hr, hc⟩ := not_or.mp hdone
      have hci : c = i := by omega
      rw [hci]
      exact h.product_fillColumn_of_new (Scalar.ne_zero_of_not_negligible pos hp) (not_le.mp hr)

/-! ## The whole grid -/

/-- **One row and one column.** A halt leaves one row more than columns. -/
theorem ends_extend (pos : 0 < epsilon) {i : Fin n} (h : f.Covers epsilon a i i) :
    Ends (fun halt => halt.factors.Covers epsilon a (halt.column + 1) halt.column)
      (fun f' => f'.Covers epsilon a (i + 1) (i + 1)) (f.extend epsilon a i) := by
  have hrow := h.fillRow
  simp only [extend]
  cases hp : Scalar.negligible epsilon ((f.fillRow a i).upper.entry i i) with
  | true => exact hrow
  | false => exact hrow.fillColumn pos hp

/-- **A factorisation** covers the grid, or it halts having covered a part of it. -/
theorem ends_of (pos : 0 < epsilon) (a : Grid n n K) :
    Ends (fun halt => halt.factors.Covers epsilon a (halt.column + 1) halt.column)
      (fun f => f.Covers epsilon a n n) (Factors.of epsilon a) :=
  ends_foldlM_finRange (fun i (f : Factors n K) => f.Covers epsilon a i i)
    (covers_zero epsilon a) fun _ _ h => ends_extend pos h

end Pivot

theorem Covers.unitLower (h : f.Covers epsilon a n n) : f.lower.UnitLower :=
  ⟨fun i => h.diagonal i i.isLt, h.above⟩

theorem Covers.mul (h : f.Covers epsilon a n n) : f.lower.mul f.upper = a := by
  apply Grid.ext_entry
  intro r c
  rw [Grid.entry_mul]
  exact h.product r c (.inl r.isLt)

/-- The determinant is the product of the pivots. -/
theorem Covers.leibniz (h : f.Covers epsilon a n n) : a.leibniz = ∏ i, f.upper.entry i i := by
  rw [← h.mul, Grid.leibniz_mul, h.unitLower.leibniz, one_mul, h.below.leibniz]

/-- None of the pivots is zero. -/
theorem Covers.not_singular [IsStrictOrderedRing K] (pos : 0 < epsilon)
    (h : f.Covers epsilon a n n) : ¬ a.Singular := by
  rw [Grid.Singular, h.leibniz]
  exact Finset.prod_ne_zero_iff.mpr fun i _ =>
    Scalar.ne_zero_of_not_negligible pos (h.pivot i i.isLt)

end Factors

/-! ## The method -/

namespace LinearSystem

variable [IsStrictOrderedRing K]

/-- A complete factorisation leaves a solvable system: the second substitution does not halt. -/
theorem backSubstitute_of_covers {epsilon : K} (pos : 0 < epsilon) {s : LinearSystem n K}
    {f : Factors n K} (h : f.Covers epsilon s.a n n) :
    ∃ x log, f.upper.backSubstitute epsilon (f.lower.forwardSubstitute s.b) = .ok (x, log) ∧
      f.upper.mulVec x = f.lower.forwardSubstitute s.b ∧ s.HasUniqueSolution x := by
  have backward := Grid.ends_backSubstitute pos f.upper (f.lower.forwardSubstitute s.b)
  have hpivot (i : Fin n) := h.pivot i i.isLt
  cases run : f.upper.backSubstitute epsilon (f.lower.forwardSubstitute s.b) with
  | error halt =>
    -- the factorisation has refused this pivot already
    have hneg := backward.of_error run
    rw [hpivot] at hneg
    nomatch hneg
  | ok result =>
    obtain ⟨x, log⟩ := result
    have hx := (backward.of_ok run).mulVec h.below
    refine ⟨x, log, rfl, hx, hasUniqueSolution_of_not_singular (h.not_singular pos) ?_⟩
    rw [← h.mul, Grid.mul_mulVec, hx, Grid.mulVec_forwardSubstitute h.unitLower]

/-- **LU decomposition is sound.** If it ends with values, the factors on record have their shapes
and multiply to the coefficients, the columns on record solve the two triangular systems, and the
values are the only solution. If it stops, then in the factorisation, and the partial factors on
record multiply back in the rows up to the index where it stopped and in the columns before it. -/
theorem lu_sound {settings : Settings K} (pos : 0 < settings.epsilon) (s : LinearSystem n K) :
    (∀ solution steps, s.lu settings = .solved solution steps →
      ∃ (l u : Grid n n K) (y : Vector K n),
        Records (Step.matrix "L") l.toRows steps ∧ Records (Step.matrix "U") u.toRows steps ∧
        Records (Step.vector "y") y.toList steps ∧
        Records (Step.vector "x") solution.values.toList steps ∧
        l.UnitLower ∧ u.Upper ∧ l.mul u = s.a ∧
        l.mulVec y = s.b ∧ u.mulVec solution.values = y ∧ s.HasUniqueSolution solution.values) ∧
    (∀ reason steps, s.lu settings = .stopped reason steps →
      ∃ (i : Fin n) (pivot : K) (l u : Grid n n K),
        reason = .zeroPivot i pivot .decomposition ∧
        Records (Step.matrix "L (partial)") l.toRows steps ∧
        Records (Step.matrix "U (partial)") u.toRows steps ∧
        ∀ r c, r ≤ i ∨ c < i → (l.mul u).entry r c = s.a.entry r c) := by
  have factors := Factors.ends_of pos s.a
  unfold lu
  cases hf : Factors.of settings.epsilon s.a with
  | error halt =>
    have covers := factors.of_error hf
    refine ⟨fun solution steps run => (nomatch run), fun reason steps run => ?_⟩
    cases run
    refine ⟨halt.column, halt.pivot, halt.factors.lower, halt.factors.upper, rfl, ?_, ?_, ?_⟩
    · simp [Records]
    · simp [Records]
    · intro r c hrc
      rw [Grid.entry_mul]
      exact covers.product r c (hrc.imp Nat.lt_succ_of_le id)
  | ok f =>
    have covers := factors.of_ok hf
    obtain ⟨x, log, run', hx, unique⟩ := backSubstitute_of_covers pos covers
    simp only [run']
    refine ⟨fun solution steps run => ?_, fun reason steps run => nomatch run⟩
    cases run
    refine ⟨f.lower, f.upper, f.lower.forwardSubstitute s.b, ?_, ?_, ?_, ?_, covers.unitLower,
      covers.below, covers.mul, Grid.mulVec_forwardSubstitute covers.unitLower s.b, hx, unique⟩
    · simp [Records]
    · simp [Records]
    · simp [Records]
    · simp [Records]

theorem lu_sound_sample :
    0 < Settings.sample.epsilon ∧
      sample.HasUniqueSolution #v[2, 3, -1] ∧
      ∃ steps, singularSample.lu .sample = .stopped (.zeroPivot 1 0 .decomposition) steps ∧
        ∃ l u : Grid 3 3 ℚ, Records (Step.matrix "L (partial)") l.toRows steps ∧
          Records (Step.matrix "U (partial)") u.toRows steps ∧
          ∀ r c : Fin 3, r ≤ 1 ∨ c < 1 → (l.mul u).entry r c = singularSample.a.entry r c := by
  have values : (sample.lu .sample).solution? = some ⟨sample.unknowns, #v[2, 3, -1]⟩ := by
    decide +kernel
  obtain ⟨steps, run⟩ := Outcome.solution?_eq_some_iff.mp values
  obtain ⟨l, u, y, -, -, -, -, -, -, -, -, -, unique⟩ :=
    (lu_sound Settings.sample_epsilon_pos sample).1 _ _ run
  have reason : (singularSample.lu .sample).reason? = some (.zeroPivot 1 0 .decomposition) := by
    decide +kernel
  obtain ⟨steps', run'⟩ := Outcome.reason?_eq_some_iff.mp reason
  obtain ⟨i, pivot, l', u', heq, hl, hu, product⟩ :=
    (lu_sound Settings.sample_epsilon_pos singularSample).2 _ _ run'
  obtain rfl : 1 = i := Fin.ext (Singularity.zeroPivot.inj heq).1
  exact ⟨Settings.sample_epsilon_pos, unique, steps', run', l', u', hl, hu, product⟩

end LinearSystem

end Chalkboard
