import Chalkboard.Proofs.Method.Factorization
import Chalkboard.Proofs.Method.Lockstep

/-!
# Elimination without exchanges is a factorisation

Gaussian elimination changes all the rows that are left, column by column; LU decomposition computes
each number once, from the factors that it has so far. As long as every pivot is found in its place
the two go together: the finished rows of the board are those of the upper factor, the lower factor
times them, with what is left of the board beside, is the grid at the start, and the multiples that
were added to the rows are on record as the lower factor with its sign changed.

A pivot that elimination brings up from another row is on record as an exchange. So a record without
one says that the best pivot always stood on the diagonal, where the factorisation looks for it.

* `Step.factors` — the multiples of one row that were added to another.
* `Factors.Mirrors` — factors and a board that have come equally far.
* `Board.leads_factors` — elimination without exchanges leads the factorisation.
-/

namespace Chalkboard

universe u

open scoped BigOperators

variable {n k : Nat} {α : Type u}

/-! ## The multiples on record -/

/-- The factor of an operation that adds a multiple of the row `source` to the row `target`. -/
def RowOp.factor? (target source : Nat) : RowOp α → Option α
  | .addScaled target' source' factor =>
    if target' = target ∧ source' = source then some factor else none
  | _ => none

/-- The factors with which the row `source` was added to the row `target`, in their order. -/
def Step.factors (steps : List (Step α)) (target source : Nat) : List α :=
  (steps.filterMap Step.rowOp?).filterMap (RowOp.factor? target source)

section Clearing

variable {K : Type u} [Field K] [LinearOrder K] {i target source : Fin n}

/-- Clearing one row adds row `i` to it once, unless the factor is zero. -/
theorem RowOp.factors_singleton (r : Fin n) (factor : K) :
    (if Scalar.eq factor 0 then [] else [addScaled r i (-factor)]).filterMap
        (factor? target source) =
      if target = r ∧ source = i ∧ factor ≠ 0 then [-factor] else [] := by
  by_cases hf : factor = 0
  · rw [if_pos (Scalar.eq_iff.mpr hf), if_neg fun h => h.2.2 hf, List.filterMap_nil]
  · rw [if_neg (mt Scalar.eq_iff.mp hf)]
    by_cases h : target = r ∧ source = i
    · obtain ⟨rfl, rfl⟩ := h
      rw [if_pos ⟨rfl, rfl, hf⟩]
      exact List.filterMap_cons_some (if_pos ⟨rfl, rfl⟩)
    · rw [if_neg fun e => h ⟨e.1, e.2.1⟩]
      exact List.filterMap_cons_none (if_neg fun e => h ⟨Fin.ext e.1.symm, Fin.ext e.2.symm⟩)

/-- A clearing adds row `i` to each of its rows once, unless the factor is zero. -/
theorem RowOp.factors_clearing {factor : Fin n → K} {rows : List (Fin n)} (nodup : rows.Nodup) :
    (clearing i factor rows).filterMap (factor? target source) =
      if target ∈ rows ∧ source = i ∧ factor target ≠ 0 then [-factor target] else [] := by
  induction rows with
  | nil =>
    rw [if_neg fun h => List.not_mem_nil h.1]
    rfl
  | cons r rows ih =>
    obtain ⟨hr, nodup'⟩ := List.nodup_cons.mp nodup
    rw [clearing_cons, List.filterMap_append, factors_singleton, ih nodup']
    by_cases h : target = r
    · subst h
      simp only [hr, false_and, if_false, List.append_nil, List.mem_cons, true_or, true_and]
    · simp only [h, false_and, if_false, List.nil_append, List.mem_cons, false_or]

end Clearing

namespace Board

/-- The factors on record with which the row `source` was added to the row `target`. -/
def factors (b : Board n k α) (target source : Nat) : List α :=
  b.ops.filterMap (RowOp.factor? target source)

section Clear

variable {K : Type u} [Field K] [LinearOrder K]

/-- **What clearing a column records**: for each row below, the factor that clears it there. -/
theorem factors_clearBelow (b : Board n (n + k) K) (i : Fin n) {target source : Fin n}
    (h : source < target) :
    (b.clearBelow i).factors target source = b.factors target source ++
      if source = i ∧ b.grid.entry target (i.castAdd k) / b.grid.entry i (i.castAdd k) ≠ 0 then
        [-(b.grid.entry target (i.castAdd k) / b.grid.entry i (i.castAdd k))] else [] := by
  have hmem : target ∈ (List.finRange n).filter (i < ·) ↔ i < target := by simp
  rw [factors, (b.performs_clearBelow i).ops_eq, List.filterMap_append,
    RowOp.factors_clearing ((List.nodup_finRange n).filter _)]
  refine congrArg (b.factors target source ++ ·) (if_congr ?_ rfl rfl)
  rw [hmem]
  exact ⟨fun e => e.2, fun e => ⟨e.1 ▸ h, e⟩⟩

end Clear

/-! ## Pivots in their place -/

section Pivot

variable {K : Type u} [Field K] [LinearOrder K] [IsStrictOrderedRing K]

/-- **Bringing up a pivot that is in its place.** A halt says that the entry on the diagonal is
negligible too. Where no exchange is on record afterwards, none was before, the board is as it was,
and the entry on the diagonal is not negligible. -/
theorem ends_bringUp_plain (epsilon : K) (b : Board n (n + k) K) (i : Fin n) :
    Ends
      (fun halt => halt.column = i ∧ halt.board = b ∧ |b.grid.entry i (i.castAdd k)| < epsilon)
      (fun b' => b'.swaps = [] →
        b.swaps = [] ∧ b' = b ∧ epsilon ≤ |b.grid.entry i (i.castAdd k)|)
      (b.bringUp epsilon i) := by
  refine (ends_bringUp epsilon b i).imp ?_ ?_
  · rintro halt ⟨hcolumn, hboard, r, hpivot, hentry, hlt⟩
    exact ⟨hcolumn, hboard, (hpivot.largest i le_rfl).trans_lt (hentry ▸ hlt)⟩
  · rintro ⟨grid, log⟩ ⟨r, -, hge, rfl, rfl⟩ plain
    rw [swaps_of_log (b := b) rfl] at plain
    obtain ⟨before, here⟩ := List.append_eq_nil_iff.mp plain
    by_cases hri : r = i
    · rw [hri, if_pos rfl, List.append_nil, Grid.swapRows_self]
      exact ⟨before, rfl, hri ▸ hge⟩
    · rw [if_neg hri] at here
      nomatch here

end Pivot

end Board

/-! ## Factors beside a board -/

namespace Factors

section Extended

variable [Scalar α] (a : Grid n n α) (f : Factors n α)

/-- The factors with one row and one column more. -/
def extended (i : Fin n) : Factors n α :=
  (f.fillRow a i).fillColumn a i

/-- That is what a step comes to if its pivot is not negligible. -/
theorem extend_of_accepted {epsilon : α} {i : Fin n}
    (h : Scalar.negligible epsilon ((f.fillRow a i).upper.entry i i) = false) :
    f.extend epsilon a i = .ok (f.extended a i) := by
  simp only [extend, h]
  rfl

theorem extend_of_refused {epsilon : α} {i : Fin n}
    (h : Scalar.negligible epsilon ((f.fillRow a i).upper.entry i i) = true) :
    f.extend epsilon a i = .error ⟨i, (f.fillRow a i).upper.entry i i, f.fillRow a i⟩ :=
  if_pos h

/-- The columns before are as they were. -/
theorem lower_extended_of_lt {i r c : Fin n} (hc : c < i) :
    (f.extended a i).lower.entry r c = f.lower.entry r c := by
  rw [extended, lower_fillColumn, if_neg fun e => hc.ne e.1, lower_fillRow,
    if_neg fun e => hc.ne' e.2]

/-- The rows before are as they were. -/
theorem upper_extended_of_lt {i r c : Fin n} (hr : r < i) :
    (f.extended a i).upper.entry r c = f.upper.entry r c := by
  rw [extended, upper_fillColumn, upper_fillRow, if_neg fun e => hr.ne e.1]

end Extended

section Sum

variable {K : Type u} [Field K]

/-- What the first `i` rows of the board, times the lower factor, come to in row `r` and column
`j`. -/
def finishedSum (f : Factors n K) (b : Board n k K) (i : Nat) (r : Fin n) (j : Fin k) : K :=
  ∑ l ∈ Finset.univ.filter fun l : Fin n => (l : Nat) < i, f.lower.entry r l * b.grid.entry l j

/-- One row more. -/
theorem finishedSum_succ (f : Factors n K) (b : Board n k K) (i r : Fin n) (j : Fin k) :
    f.finishedSum b (i + 1) r j =
      f.finishedSum b i r j + f.lower.entry r i * b.grid.entry i j := by
  have rows : (Finset.univ.filter fun l : Fin n => (l : Nat) < i + 1) =
      insert i (Finset.univ.filter fun l : Fin n => (l : Nat) < i) := by
    ext l
    simp only [Finset.mem_insert, Finset.mem_filter, Finset.mem_univ, true_and, Fin.ext_iff]
    omega
  rw [finishedSum, rows, Finset.sum_insert (by simp), add_comm]
  rfl

theorem finishedSum_all (f : Factors n K) (b : Board n k K) (r : Fin n) (j : Fin k) :
    f.finishedSum b n r j = ∑ l, f.lower.entry r l * b.grid.entry l j :=
  Finset.sum_congr (Finset.filter_true_of_mem fun l _ => l.isLt) fun _ _ => rfl

end Sum

variable {K : Type u} [Field K] [LinearOrder K]

/-- **`f.Mirrors g b i`** — after `i` columns the factors `f` and the board `b` have come equally
far from the grid `g`. -/
structure Mirrors (f : Factors n K) (g : Grid n (n + k) K) (b : Board n (n + k) K) (i : Nat) :
    Prop where
  /-- The finished rows of the board are those of the upper factor. -/
  upper : ∀ r c : Fin n, (r : Nat) < i → r ≤ c →
    f.upper.entry r c = b.grid.entry r (c.castAdd k)
  /-- The lower factor times the finished rows is the grid in these rows. -/
  product : ∀ (r : Fin n) j, (r : Nat) < i →
    f.finishedSum b i r j = g.entry r j
  /-- In the other rows it is what the board has no longer. -/
  rest : ∀ (r : Fin n) j, i ≤ (r : Nat) →
    f.finishedSum b i r j = g.entry r j - b.grid.entry r j
  factors : ∀ r c : Fin n, c < r → b.factors r c =
    if (c : Nat) < i ∧ f.lower.entry r c ≠ 0 then [-f.lower.entry r c] else []

theorem mirrors_zero (g : Grid n (n + k) K) : (zero : Factors n K).Mirrors g ⟨g, []⟩ 0 where
  upper r c hr := absurd hr (Nat.not_lt_zero _)
  product r j hr := absurd hr (Nat.not_lt_zero _)
  rest r j _ := by simp [finishedSum]
  factors r c _ := by
    rw [if_neg fun h => Nat.not_lt_zero _ h.1]
    rfl

variable {f : Factors n K} {g : Grid n (n + k) K} {b : Board n (n + k) K} {i : Fin n}

/-- What LU decomposition sums up is what elimination has subtracted so far. -/
theorem Mirrors.sub_partialProduct (h : f.Mirrors g b i) {r c : Fin n} (hr : i ≤ r) (hc : i ≤ c) :
    g.leftBlock.entry r c - f.partialProduct i r c = b.grid.entry r (c.castAdd k) := by
  have sum : f.partialProduct i r c = g.entry r (c.castAdd k) - b.grid.entry r (c.castAdd k) := by
    rw [partialProduct_eq, ← h.rest r (c.castAdd k) hr]
    refine Finset.sum_congr rfl fun l hl => ?_
    have hli : l < i := by simpa using hl
    rw [h.upper l c hli (hli.le.trans hc)]
  rw [sum, Grid.entry_leftBlock, sub_sub_cancel]

/-- The new row of the upper factor is that of the board. -/
theorem Mirrors.upper_fillRow (h : f.Mirrors g b i) {c : Fin n} (hc : i ≤ c) :
    (f.fillRow g.leftBlock i).upper.entry i c = b.grid.entry i (c.castAdd k) := by
  rw [Factors.upper_fillRow, if_pos ⟨rfl, hc⟩, h.sub_partialProduct le_rfl hc]

/-- The new column of the lower factor has the factors that clear the column of the board. -/
theorem Mirrors.lower_extended (h : f.Mirrors g b i) {r : Fin n} (hr : i < r) :
    (f.extended g.leftBlock i).lower.entry r i =
      b.grid.entry r (i.castAdd k) / b.grid.entry i (i.castAdd k) := by
  -- the sum behind it does not read the new row of the upper factor
  have partialProduct :
      (f.fillRow g.leftBlock i).partialProduct i r i = f.partialProduct i r i := by
    rw [partialProduct_eq, partialProduct_eq]
    refine Finset.sum_congr rfl fun l hl => ?_
    have hli : l < i := by simpa using hl
    rw [lower_fillRow, if_neg fun e => hr.ne e.1, Factors.upper_fillRow, if_neg fun e => hli.ne e.1]
  rw [extended, lower_fillColumn, if_pos ⟨rfl, hr⟩, partialProduct,
    h.sub_partialProduct hr.le le_rfl, h.upper_fillRow le_rfl]

/-- With one row more on both sides the sum has one term more: what was filled does not reach into
the terms before, and clearing leaves the rows that they read. -/
theorem finishedSum_extended (a : Grid n n K) (f : Factors n K) (b : Board n (n + k) K)
    (i r : Fin n) (j : Fin (n + k)) :
    (f.extended a i).finishedSum (b.clearBelow i) (i + 1) r j =
      f.finishedSum b i r j + (f.extended a i).lower.entry r i * b.grid.entry i j := by
  rw [finishedSum_succ, b.entry_clearBelow_of_le le_rfl]
  congr 1
  refine Finset.sum_congr rfl fun l hl => ?_
  have hli : l < i := by simpa using hl
  rw [lower_extended_of_lt a f hli, b.entry_clearBelow_of_le hli.le]

/-- One finished row more. -/
theorem Mirrors.upper_extended (h : f.Mirrors g b i) {r c : Fin n} (hr : r ≤ i) (hrc : r ≤ c) :
    (f.extended g.leftBlock i).upper.entry r c =
      (b.clearBelow i).grid.entry r (c.castAdd k) := by
  rw [b.entry_clearBelow_of_le hr]
  rcases hr.lt_or_eq with hlt | rfl
  · rw [upper_extended_of_lt _ f hlt]
    exact h.upper r c hlt hrc
  · exact h.upper_fillRow hrc

/-- One recorded column more. -/
theorem Mirrors.factors_extended (h : f.Mirrors g b i) {r c : Fin n} (hcr : c < r) :
    (b.clearBelow i).factors r c =
      if (c : Nat) < i + 1 ∧ (f.extended g.leftBlock i).lower.entry r c ≠ 0 then
        [-(f.extended g.leftBlock i).lower.entry r c] else [] := by
  rw [b.factors_clearBelow i hcr, h.factors r c hcr]
  rcases lt_trichotomy c i with hlt | rfl | hgt
  · -- a finished column: nothing is added
    rw [if_neg fun e : c = i ∧ _ => hlt.ne e.1, List.append_nil, lower_extended_of_lt _ f hlt]
    refine if_congr (and_congr_left' ?_) rfl rfl
    exact iff_of_true hlt (Nat.lt_succ_of_lt hlt)
  · -- the column that was cleared: nothing was there
    rw [h.lower_extended hcr, if_neg fun e => lt_irrefl _ e.1, List.nil_append]
    refine if_congr (and_congr_left' ?_) rfl rfl
    exact iff_of_true rfl (Nat.lt_succ_self _)
  · -- a later column: neither
    rw [if_neg fun e => hgt.not_gt e.1, if_neg fun e => hgt.ne' e.1,
      if_neg fun e => (Nat.le_of_lt_succ e.1).not_gt hgt]
    rfl

/-- **One column of both.** Behind a pivot that stands in its place and is not zero, the factors and
the board come equally far again. -/
theorem Mirrors.extended {epsilon : K} (h : f.Mirrors g b i)
    (hp : b.grid.entry i (i.castAdd k) ≠ 0)
    (covers : (f.extended g.leftBlock i).Covers epsilon g.leftBlock (i + 1) (i + 1)) :
    (f.extended g.leftBlock i).Mirrors g (b.clearBelow i) (i + 1) where
  upper r c hr hrc := h.upper_extended (Nat.le_of_lt_succ hr) hrc
  product r j hr := by
    rw [finishedSum_extended]
    rcases Nat.lt_succ_iff_lt_or_eq.mp hr with hlt | heq
    · -- the new column is zero above the diagonal
      rw [covers.above r i hlt, zero_mul, add_zero]
      exact h.product r j hlt
    · obtain rfl : r = i := Fin.ext heq
      rw [covers.diagonal r hr, one_mul, h.rest r j le_rfl, sub_add_cancel]
  rest r j hr := by
    have hir : i < r := hr
    rw [finishedSum_extended, h.rest r j hir.le, h.lower_extended hir, b.grid_clearBelow i hp,
      Grid.entry_subtractRows, if_pos hir]
    ring
  factors r c hcr := h.factors_extended hcr

end Factors

/-! ## The two runs -/

namespace Board

variable {K : Type u} [Field K] [LinearOrder K] [IsStrictOrderedRing K] {epsilon : K}

/-- **One column of an elimination leads one of the factorisation.** -/
theorem leads_extend (pos : 0 < epsilon) {g : Grid n (n + k) K} {b : Board n (n + k) K}
    {f : Factors n K} {i : Fin n} (covers : f.Covers epsilon g.leftBlock i i)
    (h : f.Mirrors g b i) :
    Leads (fun halt => halt.board.swaps = []) (fun b' => b'.swaps = [])
      (fun halt halt' => halt.column = halt'.column)
      (fun b' f' => f'.Covers epsilon g.leftBlock (i + 1) (i + 1) ∧ f'.Mirrors g b' (i + 1))
      ((b.bringUp epsilon i).map (·.clearBelow i)) (f.extend epsilon g.leftBlock i) := by
  have pivot := h.upper_fillRow le_rfl
  refine Ends.map ((ends_bringUp_plain epsilon b i).imp ?_ fun _ h' => h') ?_
  · rintro halt ⟨hcolumn, -, hlt⟩ -
    have hneg : Scalar.negligible epsilon ((f.fillRow g.leftBlock i).upper.entry i i) = true := by
      rw [pivot]
      exact Scalar.negligible_iff.mpr hlt
    exact ⟨_, f.extend_of_refused g.leftBlock hneg, hcolumn⟩
  · intro b' plain hb'
    rw [swaps_clearBelow] at hb'
    obtain ⟨-, rfl, hge⟩ := plain hb'
    have hpos := Scalar.not_negligible_iff.mpr hge
    have accepted :
        Scalar.negligible epsilon ((f.fillRow g.leftBlock i).upper.entry i i) = false := by
      rw [pivot, hpos]
    have covers' := covers.fillRow.fillColumn pos accepted
    exact ⟨_, f.extend_of_accepted g.leftBlock accepted, covers',
      h.extended (Scalar.ne_zero_of_not_negligible pos hpos) covers'⟩

/-- **Elimination without exchanges leads the factorisation**: it halts in a column only where the
factorisation does, and where it ends well, so does the factorisation. -/
theorem leads_factors (pos : 0 < epsilon) (g : Grid n (n + k) K) :
    Leads (fun halt => halt.board.swaps = []) (fun b => b.swaps = [])
      (fun halt halt' => halt.column = halt'.column)
      (fun b f => f.Covers epsilon g.leftBlock n n ∧ f.Mirrors g b n)
      (Board.triangularize epsilon ⟨g, []⟩) (Factors.of epsilon g.leftBlock) := by
  refine leads_foldlM_finRange
    (fun i (b : Board n (n + k) K) (f : Factors n K) =>
      f.Covers epsilon g.leftBlock i i ∧ f.Mirrors g b i)
    ⟨Factors.covers_zero epsilon g.leftBlock, Factors.mirrors_zero g⟩ (fun b i => ?_)
    fun i b f h => leads_extend pos h.1 h.2
  refine ((ends_bringUp_plain epsilon b i).imp ?_ fun _ h => h).map ?_
  · rintro halt ⟨-, rfl, -⟩ plain
    exact plain
  · intro b' h plain
    rw [swaps_clearBelow] at plain
    exact (h plain).1

end Board

/-! ## Worked solutions -/

namespace Factors

variable {K : Type u} [Field K] [LinearOrder K] {epsilon : K} {f : Factors n K}
  {g : Grid n (n + k) K} {b : Board n (n + k) K}

/-- With all columns done the upper factor is the left block of the board. -/
theorem Mirrors.upper_eq (h : f.Mirrors g b n) (upper : f.upper.Upper)
    (triangular : b.grid.Triangular n) : f.upper = b.grid.leftBlock := by
  apply Grid.ext_entry
  intro r c
  rcases lt_or_ge c r with hcr | hrc
  · rw [upper r c hcr, triangular.upper r c hcr]
  · rw [h.upper r c r.isLt hrc, Grid.entry_leftBlock]

/-- An entry of the lower factor is on record with its sign changed, unless it is zero. -/
theorem Mirrors.factors_cases (h : f.Mirrors g b n) {r c : Fin n} (hcr : c < r) :
    (b.factors r c = [] ∧ f.lower.entry r c = 0) ∨
      ∃ factor, b.factors r c = [factor] ∧ f.lower.entry r c = -factor := by
  by_cases hl : f.lower.entry r c = 0
  · refine .inl ⟨?_, hl⟩
    rw [h.factors r c hcr, if_neg fun e => e.2 hl]
  · refine .inr ⟨-f.lower.entry r c, ?_, (neg_neg _).symm⟩
    rw [h.factors r c hcr, if_pos ⟨c.isLt, hl⟩]

end Factors

namespace LinearSystem

variable {K : Type u} [Field K] [LinearOrder K]

/-- The right sides that elimination leaves are the solution of the lower triangular system. -/
theorem forwardSubstitute_of_mirrors {epsilon : K} {s : LinearSystem n K} {f : Factors n K}
    {b : Board n (n + 1) K} (covers : f.Covers epsilon s.a n n)
    (h : f.Mirrors (k := 1) s.augmented b n) :
    f.lower.forwardSubstitute s.b = b.grid.lastColumn := by
  have solves : f.lower.mulVec b.grid.lastColumn = s.b := by
    rw [Grid.mulVec_eq_iff, ← lastColumn_augmented]
    intro r
    have product := h.product r (Fin.last n) r.isLt
    rw [Factors.finishedSum_all] at product
    calc ∑ j, f.lower.entry r j * b.grid.lastColumn.get j
        = ∑ j, f.lower.entry r j * b.grid.entry j (Fin.last n) :=
          Finset.sum_congr rfl fun j _ => congrArg _ (b.grid.get_lastColumn j)
      _ = s.augmented.lastColumn.get r :=
          product.trans (s.augmented.get_lastColumn r).symm
  have regular : ¬ f.lower.Singular := by
    rw [Grid.Singular, covers.unitLower.leibniz]
    exact one_ne_zero
  have unique := hasUniqueSolution_of_not_singular (s := ⟨s.unknowns, f.lower, s.b⟩) regular
    (Grid.mulVec_forwardSubstitute covers.unitLower s.b)
  exact (unique.unique _ solves).symm

variable [IsStrictOrderedRing K]

/-- What Gaussian elimination writes down as exchanges is on record on its board. -/
theorem swaps_gauss (settings : Settings K) (s : LinearSystem n K) :
    Ends (fun halt => Step.swaps (s.gauss settings).steps = halt.board.swaps)
      (fun board => Step.swaps (s.gauss settings).steps = board.swaps)
      (Board.triangularize (k := 1) settings.epsilon ⟨s.augmented, []⟩) := by
  refine (s.rowOps_gauss settings abs_abs).imp (fun halt ops => ?_) fun board ops => ?_
  · rw [Step.swaps, ops, Board.swaps_eq]
  · rw [Step.swaps, ops, Board.swaps_eq]

/-- **Behind a triangular form without exchanges** the factorisation ends well. Its upper factor and
the solution of the lower triangular system are the triangular form, left block and right side. -/
theorem factors_of_triangularize {settings : Settings K} (pos : 0 < settings.epsilon)
    {s : LinearSystem n K} {board : Board n (n + 1) K}
    (run : Board.triangularize (k := 1) settings.epsilon ⟨s.augmented, []⟩ = .ok board)
    (plain : board.swaps = []) :
    ∃ f, Factors.of settings.epsilon s.a = .ok f ∧ f.Mirrors (k := 1) s.augmented board n ∧
      f.upper = Grid.leftBlock (k := 1) board.grid ∧
      f.lower.forwardSubstitute s.b = board.grid.lastColumn := by
  have leads := Board.leads_factors (k := 1) pos s.augmented
  rw [leftBlock_augmented] at leads
  obtain ⟨f, hf, covers, mirrors⟩ := leads.of_ok run plain
  have triangular := ((Board.ends_triangularize (k := 1) pos ⟨s.augmented, []⟩).of_ok run).1
  exact ⟨f, hf, mirrors, mirrors.upper_eq covers.below triangular,
    forwardSubstitute_of_mirrors covers mirrors⟩

/-- **Without exchanges, Gaussian elimination and LU decomposition are one computation.** If
Gaussian elimination writes down no exchange and ends with values, LU decomposition ends with the
same ones. Its upper factor is the triangular form, its `y` the right side beside it, and below the
diagonal its lower factor has the multiples on record, with the sign changed and zero where none is.
If Gaussian elimination stops, LU decomposition stops in the same column. -/
theorem gauss_lu_without_exchanges {settings : Settings K} (pos : 0 < settings.epsilon)
    (s : LinearSystem n K) (plain : Step.swaps (s.gauss settings).steps = []) :
    (∀ solution steps, s.gauss settings = .solved solution steps →
      ∃ (g : Grid n (n + 1) K) (l u : Grid n n K) (y : Vector K n) (steps' : List (Step K)),
        s.lu settings = .solved solution steps' ∧
        Records (Step.augmented "Upper triangular form") g.toRows steps ∧
        Records (Step.matrix "L") l.toRows steps' ∧ Records (Step.matrix "U") u.toRows steps' ∧
        Records (Step.vector "y") y.toList steps' ∧
        u = Grid.leftBlock (k := 1) g ∧ y = g.lastColumn ∧
        ∀ r c : Fin n, c < r →
          (Step.factors steps r c = [] ∧ l.entry r c = 0) ∨
            ∃ factor, Step.factors steps r c = [factor] ∧ l.entry r c = -factor) ∧
    (∀ reason steps, s.gauss settings = .stopped reason steps →
      ∃ (column : Fin n) (pivot pivot' : K) (steps' : List (Step K)),
        reason = .zeroPivot column pivot .elimination ∧
        s.lu settings = .stopped (.zeroPivot column pivot' .decomposition) steps') := by
  cases hb : Board.triangularize (k := 1) settings.epsilon ⟨s.augmented, []⟩ with
  | error halt =>
    have leads := Board.leads_factors (k := 1) pos s.augmented
    rw [leftBlock_augmented] at leads
    have noSwap := ((s.swaps_gauss settings).of_error hb).symm.trans plain
    obtain ⟨halt', hf, hcolumn⟩ := leads.of_error hb noSwap
    obtain ⟨steps, run⟩ := (s.gauss_reports settings abs_abs).of_error hb
    obtain ⟨steps', run'⟩ := (s.lu_reports settings).of_error hf
    refine ⟨fun _ _ h => (nomatch run.symm.trans h), fun reason _ h => ?_⟩
    cases run.symm.trans h
    exact ⟨halt.column, halt.pivot, halt'.pivot, steps', rfl, hcolumn ▸ run'⟩
  | ok board =>
    have noSwap := ((s.swaps_gauss settings).of_ok hb).symm.trans plain
    obtain ⟨f, hf, mirrors, upper, y⟩ := factors_of_triangularize pos hb noSwap
    obtain ⟨-, x, log, values, run⟩ := gauss_of_triangularize abs_abs settings hb
    refine ⟨fun solution steps h => ?_, fun _ _ h => (nomatch run.symm.trans h)⟩
    rcases s.lu_cases settings with ⟨halt, hf', -⟩ | ⟨f', x', log', hf', values', run'⟩
    · nomatch hf'.symm.trans hf
    · cases hf'.symm.trans hf
      -- the second substitution is the back substitution of the elimination
      rw [upper, y] at values'
      cases values'.symm.trans values
      have ops := (s.rowOps_gauss settings abs_abs).of_ok hb
      rw [run] at ops
      cases run.symm.trans h
      refine ⟨board.grid, f.lower, f.upper, f.lower.forwardSubstitute s.b, _, run', ?_, ?_, ?_, ?_,
        upper, y, fun r c hcr => ?_⟩
      · simp [Records, eliminationOpening, Board.augmented_notMem_steps, substitutionStep]
      · simp [Records]
      · simp [Records]
      · simp [Records]
      · have recorded : Step.factors _ r c = board.factors r c :=
          congrArg (List.filterMap (RowOp.factor? r c)) ops
        simp only [Outcome.steps] at recorded
        rw [recorded]
        exact mirrors.factors_cases hcr

/-- A system in which every pivot is in its place, and one place is clear from the beginning. -/
def dominantSample : LinearSystem 3 ℚ :=
  { unknowns := .ofFn !['x', 'y', 'z']
    a := .ofFn ![![4, 2, 1], ![2, 4, 1], ![0, 1, 2]]
    b := .ofFn ![11, 13, 8] }

/-- A system whose second equation has half the left side of the first. -/
def halvedSample : LinearSystem 2 ℚ :=
  { unknowns := .ofFn !['x', 'y']
    a := .ofFn ![![2, 4], ![1, 2]]
    b := .ofFn ![1, 1] }

theorem gauss_lu_without_exchanges_sample :
    0 < Settings.sample.epsilon ∧
      (Step.swaps (dominantSample.gauss .sample).steps = [] ∧ ∃ steps',
        dominantSample.lu .sample = .solved ⟨dominantSample.unknowns, #v[1, 2, 3]⟩ steps' ∧
        ∃ l : Grid 3 3 ℚ, Records (Step.matrix "L") l.toRows steps' ∧ l.entry 2 0 = 0) ∧
      Step.swaps (halvedSample.gauss .sample).steps = [] ∧ ∃ pivot' steps',
        halvedSample.lu .sample = .stopped (.zeroPivot 1 pivot' .decomposition) steps' := by
  have plain : Step.swaps (dominantSample.gauss .sample).steps = [] := by decide +kernel
  have plain' : Step.swaps (halvedSample.gauss .sample).steps = [] := by decide +kernel
  have clear : Step.factors (dominantSample.gauss .sample).steps 2 0 = [] := by decide +kernel
  have values : (dominantSample.gauss .sample).solution? =
      some ⟨dominantSample.unknowns, #v[1, 2, 3]⟩ := by
    decide +kernel
  have reason : (halvedSample.gauss .sample).reason? = some (.zeroPivot 1 0 .elimination) := by
    decide +kernel
  obtain ⟨steps, run⟩ := Outcome.solution?_eq_some_iff.mp values
  obtain ⟨steps', run'⟩ := Outcome.reason?_eq_some_iff.mp reason
  obtain ⟨-, l, -, -, lu, hlu, -, hl, -, -, -, -, factors⟩ :=
    (gauss_lu_without_exchanges Settings.sample_epsilon_pos dominantSample plain).1 _ _ run
  obtain ⟨column, _, pivot', lu', heq, hlu'⟩ :=
    (gauss_lu_without_exchanges Settings.sample_epsilon_pos halvedSample plain').2 _ _ run'
  obtain rfl : 1 = column := Fin.ext (Singularity.zeroPivot.inj heq).1
  rw [run] at clear
  refine ⟨Settings.sample_epsilon_pos, ⟨plain, lu, hlu, l, hl, ?_⟩, plain', pivot', lu', hlu'⟩
  rcases factors 2 0 (by decide) with ⟨-, zero⟩ | ⟨factor, recorded, -⟩
  · exact zero
  · nomatch clear.symm.trans recorded

end LinearSystem

end Chalkboard
