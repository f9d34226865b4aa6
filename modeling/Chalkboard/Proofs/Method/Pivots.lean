import Mathlib.Algebra.Order.BigOperators.Ring.Finset
import Chalkboard.Proofs.Grid.Determinant
import Chalkboard.Proofs.Method.Lockstep

/-!
# Pivots and the determinant

On the way to triangular form a board keeps its determinant, up to a sign that its exchanges count.
At the end the determinant is the product of the pivots, and each of these was accepted: so the
magnitude of the determinant is at least a power of the tolerance. On the way to the identity each
division multiplies the determinant by a factor that is on record, and at the end it is one.

So the determinant by cofactor expansion can be read off what either elimination writes down.

* `Step.pivots`, `Step.scales` — the pivots of back substitution, and the factors of rows.
* `Board.signedLeibniz` — the determinant of a board with the sign of its exchanges.
* `Board.ends_triangularize_signedLeibniz`, `Board.ends_diagonalize_signedLeibniz` — what becomes of
  it in a whole elimination.
* `Grid.ends_backSubstitute_pivots` — back substitution writes down the diagonal.
-/

namespace Chalkboard

universe u

open scoped BigOperators

/-! ## What is written down -/

section Records

variable {n k : Nat} {α : Type u}

/-- The factor of an operation that multiplies a row. -/
def RowOp.scale? : RowOp α → Option α
  | .scale _ factor => some factor
  | _ => none

/-- The factors by which rows were multiplied, in their order. -/
def Step.scales (steps : List (Step α)) : List α :=
  (steps.filterMap Step.rowOp?).filterMap RowOp.scale?

/-- The factors on record. -/
def Board.scales (b : Board n k α) : List α :=
  b.ops.filterMap RowOp.scale?

/-- The pivot of a row of back substitution. -/
def Step.pivot? : Step α → Option α
  | .backSubstitution _ _ _ _ pivot _ => some pivot
  | _ => none

/-- The pivots that back substitution divided by, in their order. -/
def Step.pivots (steps : List (Step α)) : List α :=
  steps.filterMap Step.pivot?

end Records

/-! ## The determinant under a step -/

variable {n k : Nat} {K : Type u} [Field K] [LinearOrder K]

namespace Board

/-- **The determinant of a board** — that of its left block, with the sign of the exchanges on
record. -/
def signedLeibniz (b : Board n (n + k) K) : K :=
  (-1) ^ b.swaps.length * b.grid.leftBlock.leibniz

/-- Up to the sign, this is the determinant of the left block. -/
theorem abs_signedLeibniz [IsStrictOrderedRing K] (b : Board n (n + k) K) :
    |b.signedLeibniz| = |b.grid.leftBlock.leibniz| := by
  rw [signedLeibniz, abs_mul, abs_pow, abs_neg, abs_one, one_pow, one_mul]

/-- Clearing a column below its pivot subtracts multiples of one row. -/
theorem signedLeibniz_clearBelow (b : Board n (n + k) K) {i : Fin n}
    (hp : b.grid.entry i (i.castAdd k) ≠ 0) : (b.clearBelow i).signedLeibniz = b.signedLeibniz := by
  have hclear : (b.clearBelow i).grid = b.grid.subtractRows i (b.grid.factorsBelow i) :=
    b.grid_clearBelow i hp
  rw [signedLeibniz, signedLeibniz, swaps_clearBelow, hclear, Grid.leftBlock_subtractRows,
    Grid.leibniz_subtractRows _ (Grid.factorsBelow_of_le le_rfl)]

/-- Dividing a row by its pivot divides the determinant. -/
theorem signedLeibniz_normalize (b : Board n (n + k) K) {i : Fin n}
    (hp : b.grid.entry i (i.castAdd k) ≠ 0) :
    (b.normalize i).signedLeibniz = b.signedLeibniz * (1 / b.grid.entry i (i.castAdd k)) := by
  rw [signedLeibniz, signedLeibniz, swaps_normalize, b.grid_normalize i hp,
    Grid.leftBlock_scaleRow, Grid.leibniz_scaleRow, mul_assoc]

/-- The factor of a division is on record, unless it is one. -/
theorem prod_scales_normalize (b : Board n (n + k) K) (i : Fin n) :
    (b.normalize i).scales.prod = b.scales.prod * (1 / b.grid.entry i (i.castAdd k)) := by
  rw [scales, (b.performs_normalize i).ops_eq, List.filterMap_append, List.prod_append, ← scales]
  congr 1
  by_cases hone : b.grid.entry i (i.castAdd k) = 1
  · rw [if_pos (Scalar.eq_iff.mpr hone), hone, div_one]
    rfl
  · rw [if_neg (mt Scalar.eq_iff.mp hone)]
    exact List.prod_singleton

/-- Clearing a column in the other rows subtracts multiples of one row. -/
theorem signedLeibniz_clearOthers (b : Board n (n + k) K) {i : Fin n}
    (hone : b.grid.entry i (i.castAdd k) = 1) : (b.clearOthers i).signedLeibniz = b.signedLeibniz := by
  have hclear : (b.clearOthers i).grid = b.grid.subtractRows i (b.grid.factorsBeside i) :=
    b.grid_clearOthers i hone
  rw [signedLeibniz, signedLeibniz, swaps_clearOthers, hclear, Grid.leftBlock_subtractRows,
    Grid.leibniz_subtractRows _ (Grid.factorsBeside_self _ i)]

variable [IsStrictOrderedRing K]

/-- Bringing a pivot up exchanges two rows and records it, or does nothing. -/
theorem ends_bringUp_signedLeibniz {epsilon : K} (pos : 0 < epsilon) (b : Board n (n + k) K)
    (i : Fin n) :
    Ends (fun _ => True)
      (fun b' => b'.grid.entry i (i.castAdd k) ≠ 0 ∧ b'.signedLeibniz = b.signedLeibniz)
      (b.bringUp epsilon i) := by
  refine (ends_bringUp epsilon b i).imp (fun _ _ => trivial) ?_
  rintro b' ⟨r, -, hge, hgrid, hlog⟩
  refine ⟨hgrid ▸ pivot_ne_zero pos hge, ?_⟩
  rw [signedLeibniz, signedLeibniz, swaps_of_log hlog, hgrid, Grid.leftBlock_swapRows]
  by_cases hri : r = i
  · subst hri
    rw [if_pos rfl, Grid.swapRows_self, List.filterMap_nil, List.append_nil]
  · -- the sign of the determinant turns, and so does that of the record
    rw [if_neg hri, Grid.leibniz_swapRows _ (Ne.symm hri)]
    show (-1) ^ (b.swaps ++ [((i : Nat), (r : Nat))]).length * -b.grid.leftBlock.leibniz = _
    rw [List.length_append, List.length_singleton, pow_succ]
    ring

/-! ## On the way to triangular form -/

/-- **A board keeps its determinant** on the way to triangular form. -/
theorem ends_triangularize_signedLeibniz {epsilon : K} (pos : 0 < epsilon)
    (b : Board n (n + k) K) :
    Ends (fun _ => True) (fun b' => b'.signedLeibniz = b.signedLeibniz)
      (b.triangularize epsilon) := by
  refine ends_foldlM_finRange
    (fun _ (b' : Board n (n + k) K) => b'.signedLeibniz = b.signedLeibniz) rfl
    fun i b' h => ?_
  refine (ends_bringUp_signedLeibniz pos b' i).map ?_
  rintro b'' ⟨hp, same⟩
  rw [signedLeibniz_clearBelow b'' hp, same, h]

/-- **The determinant of what is triangularized.** Its magnitude is the product of the magnitudes of
the pivots, none of which is under the tolerance. -/
theorem pow_le_abs_leibniz {epsilon : K} (pos : 0 < epsilon) {g : Grid n (n + k) K}
    {b : Board n (n + k) K} (run : Board.triangularize epsilon ⟨g, []⟩ = .ok b) :
    epsilon ^ n ≤ |g.leftBlock.leibniz| := by
  obtain ⟨triangular, -⟩ := (ends_triangularize pos ⟨g, []⟩).of_ok run
  have accepted := (ends_triangularize_accepted abs_abs epsilon ⟨g, []⟩).of_ok run
  have same := (ends_triangularize_signedLeibniz pos ⟨g, []⟩).of_ok run
  calc epsilon ^ n = ∏ _i : Fin n, epsilon := by rw [Finset.prod_const, Finset.card_fin]
    _ ≤ ∏ i, |b.grid.leftBlock.entry i i| := by
        refine Finset.prod_le_prod (fun _ _ => pos.le) fun i _ => ?_
        rw [Grid.entry_leftBlock]
        exact Scalar.not_negligible_iff.mp (accepted i i.isLt)
    _ = |g.leftBlock.leibniz| := by
        rw [← Finset.abs_prod, ← triangular.upper.leibniz, ← abs_signedLeibniz, same,
          abs_signedLeibniz]

/-! ## On the way to the identity -/

/-- An exchange is no factor. -/
theorem ends_bringUp_scales (epsilon : K) (b : Board n (n + k) K) (i : Fin n) :
    Ends (fun _ => True) (fun b' => b'.scales = b.scales) (b.bringUp epsilon i) := by
  refine (ends_bringUp epsilon b i).imp (fun _ _ => trivial) ?_
  rintro b' ⟨r, -, -, -, hlog⟩
  rw [scales, scales, ops, hlog]
  split_ifs
  · rw [List.append_nil, ops]
  · rw [List.map_append, List.filterMap_append]
    exact List.append_nil _

/-- **One column on the way to the identity** multiplies the determinant by the factor that it
records. -/
theorem ends_diagonalColumn_signedLeibniz {epsilon : K} (pos : 0 < epsilon) {d : K}
    (b : Board n (n + k) K) (i : Fin n) (h : b.signedLeibniz = d * b.scales.prod) :
    Ends (fun _ => True) (fun b' => b'.signedLeibniz = d * b'.scales.prod)
      ((b.bringUp epsilon i).map fun b => (b.normalize i).clearOthers i) := by
  have raised := (ends_bringUp_signedLeibniz pos b i).and (ends_bringUp_scales epsilon b i)
  refine (raised.imp (fun _ _ => trivial) fun _ h => h).map ?_
  rintro b' ⟨⟨hp, same⟩, recorded⟩
  have hone : (b'.normalize i).grid.entry i (i.castAdd k) = 1 := by
    rw [b'.grid_normalize i hp, Grid.entry_scaleRow, if_pos rfl, mul_one_div_cancel hp]
  have cleared : ((b'.normalize i).clearOthers i).scales = (b'.normalize i).scales :=
    read_clearOthers (fun _ _ _ => rfl) _ i
  calc ((b'.normalize i).clearOthers i).signedLeibniz
      = b.signedLeibniz * (1 / b'.grid.entry i (i.castAdd k)) := by
        rw [signedLeibniz_clearOthers _ hone, signedLeibniz_normalize _ hp, same]
    _ = d * ((b'.normalize i).clearOthers i).scales.prod := by
        rw [cleared, prod_scales_normalize, recorded, h, mul_assoc]

/-- **The factors on record** are what the determinant of a board has been multiplied by. -/
theorem ends_diagonalize_signedLeibniz {epsilon : K} (pos : 0 < epsilon)
    (g : Grid n (n + k) K) :
    Ends (fun _ => True) (fun b' => b'.signedLeibniz = g.leftBlock.leibniz * b'.scales.prod)
      (Board.diagonalize epsilon ⟨g, []⟩) := by
  refine ends_foldlM_finRange (fun _ (b' : Board n (n + k) K) =>
    b'.signedLeibniz = g.leftBlock.leibniz * b'.scales.prod) ?_
    fun i b' h => ends_diagonalColumn_signedLeibniz pos b' i h
  show (-1) ^ 0 * g.leftBlock.leibniz = g.leftBlock.leibniz * 1
  rw [pow_zero, one_mul, mul_one]

end Board

/-! ## Back substitution -/

namespace Grid

variable {α : Type u} [Scalar α]

/-- **The pivots of a back substitution** are the diagonal, from the last row up. -/
theorem ends_backSubstitute_pivots (epsilon : α) (u : Grid n n α) (b : Vector α n) :
    Ends (fun _ => True)
      (fun result => result.2.map (·.pivot) =
        (List.finRange n).reverse.map fun i => u.entry i i)
      (u.backSubstitute epsilon b) := by
  refine (u.ends_backSubstitute_recorded epsilon b).imp (fun _ _ => trivial) ?_
  intro result recorded
  rw [recorded.log, List.map_map]
  rfl

end Grid

/-! ## The two eliminations -/

namespace LinearSystem

section Steps

variable {α : Type u}

/-- The factors that an elimination writes down are those on record. -/
theorem scales_elimination (s : LinearSystem n α) (b : Board n (n + 1) α) {rest : List (Step α)}
    (h : ∀ step ∈ rest, step.rowOp? = none) :
    Step.scales (s.eliminationOpening ++ b.steps ++ rest) = b.scales := by
  rw [Step.scales, s.rowOps_elimination b h, Board.scales]

/-- The pivots that Gaussian elimination writes down are those of its back substitution. -/
theorem pivots_gauss (s : LinearSystem n α) (b : Board n (n + 1) α)
    (log : List (Substitution n α)) (solution : Solution n α) :
    Step.pivots (s.eliminationOpening ++ b.steps ++
      .augmented "Upper triangular form" b.grid.toRows :: (log.map s.substitutionStep ++
        [.solution solution.assignments])) = log.map (·.pivot) := by
  have opening : s.eliminationOpening.filterMap Step.pivot? = [] := rfl
  have forward : b.steps.filterMap Step.pivot? = [] := by
    rw [Board.steps, List.filterMap_map]
    exact List.filterMap_eq_nil_iff.mpr fun _ _ => rfl
  have backward : (log.map s.substitutionStep).filterMap Step.pivot? = log.map (·.pivot) := by
    rw [List.filterMap_map, ← List.filterMap_eq_map]
    rfl
  rw [Step.pivots, List.filterMap_append, List.filterMap_append, opening, forward,
    List.filterMap_cons_none rfl, List.filterMap_append, backward]
  exact List.append_nil _

end Steps

variable [IsStrictOrderedRing K]

/-- **The determinant of what Gaussian elimination solves** is the product of the pivots that it
writes down, with the sign of the exchanges. -/
theorem det_of_gauss {settings : Settings K} (pos : 0 < settings.epsilon) {s : LinearSystem n K}
    {solution : Solution n K} {steps : List (Step K)}
    (run : s.gauss settings = .solved solution steps) :
    s.a.det = (-1) ^ (Step.swaps steps).length * (Step.pivots steps).prod := by
  obtain ⟨board, x, log, hb, values, rfl, rfl⟩ := exists_of_gauss run
  obtain ⟨triangular, -⟩ := (Board.ends_triangularize (k := 1) pos _).of_ok hb
  have same := (Board.ends_triangularize_signedLeibniz (k := 1) pos _).of_ok hb
  have diagonal := (Grid.ends_backSubstitute_pivots settings.epsilon _ _).of_ok values
  have product : (log.map (·.pivot)).prod = (Grid.leftBlock (k := 1) board.grid).leibniz := by
    rw [diagonal, triangular.upper.leibniz, Fin.prod_univ_def, List.map_reverse]
    exact (List.reverse_perm _).prod_eq
  have start : Board.signedLeibniz (k := 1) ⟨s.augmented, []⟩ = s.a.leibniz := by
    show (-1) ^ 0 * (Grid.leftBlock (k := 1) s.augmented).leibniz = _
    rw [pow_zero, one_mul, leftBlock_augmented]
  rw [swaps_elimination s board s.rowOp?_of_mem_closing, pivots_gauss, product,
    Grid.det_eq_leibniz, ← start, ← same, Board.signedLeibniz]

/-- **The determinant of what Gauss-Jordan elimination solves** is the sign of the exchanges, but
for the factors by which rows were multiplied. -/
theorem det_of_gaussJordan {settings : Settings K} (pos : 0 < settings.epsilon)
    {s : LinearSystem n K} {solution : Solution n K} {steps : List (Step K)}
    (run : s.gaussJordan settings = .solved solution steps) :
    s.a.det * (Step.scales steps).prod = (-1) ^ (Step.swaps steps).length := by
  rcases s.gaussJordan_cases settings with ⟨halt, -, ending⟩ | ⟨board, hb, ending⟩ <;>
    cases ending.symm.trans run
  obtain ⟨columns, -⟩ := (Board.ends_diagonalize (k := 1) pos _).of_ok hb
  have product := (Board.ends_diagonalize_signedLeibniz (k := 1) pos _).of_ok hb
  have one : (Grid.leftBlock (k := 1) board.grid).leibniz = 1 := by
    rw [columns.leftBlock, Grid.leibniz_identity]
  rw [Board.signedLeibniz, one, mul_one, leftBlock_augmented] at product
  rw [swaps_elimination s board (by simp [Step.rowOp?]),
    scales_elimination s board (by simp [Step.rowOp?]), Grid.det_eq_leibniz, product]

/-- **The determinant can be read off both eliminations.** What the expansion by cofactors computes
is the product of the pivots of back substitution with the sign of the exchanges; and with the
factors of Gauss-Jordan elimination it multiplies to the sign of the exchanges alone. -/
theorem det_of_eliminations {settings : Settings K} (pos : 0 < settings.epsilon)
    (s : LinearSystem n K) :
    (∀ solution steps, s.gauss settings = .solved solution steps →
      s.a.det = (-1) ^ (Step.swaps steps).length * (Step.pivots steps).prod) ∧
    ∀ solution steps, s.gaussJordan settings = .solved solution steps →
      s.a.det * (Step.scales steps).prod = (-1) ^ (Step.swaps steps).length :=
  ⟨fun _ _ run => det_of_gauss pos run, fun _ _ run => det_of_gaussJordan pos run⟩

theorem det_of_eliminations_sample :
    0 < Settings.sample.epsilon ∧
      (∃ solution steps, sample.gauss .sample = .solved solution steps ∧
        Step.swaps steps = [(0, 1), (1, 2)] ∧ Step.pivots steps = [1 / 5, 5 / 3, -3] ∧
        sample.a.det = (-1) ^ (Step.swaps steps).length * (Step.pivots steps).prod) ∧
      ∃ solution steps, sample.gaussJordan .sample = .solved solution steps ∧
        Step.swaps steps = [(0, 1), (1, 2)] ∧ Step.scales steps = [-1 / 3, 3 / 5, 5] ∧
        sample.a.det * (Step.scales steps).prod = (-1) ^ (Step.swaps steps).length := by
  have gauss : (sample.gauss .sample).solution? = some ⟨sample.unknowns, #v[2, 3, -1]⟩ := by
    decide +kernel
  have jordan : (sample.gaussJordan .sample).solution? =
      some ⟨sample.unknowns, #v[2, 3, -1]⟩ := by
    decide +kernel
  obtain ⟨steps, run⟩ := Outcome.solution?_eq_some_iff.mp gauss
  obtain ⟨steps', run'⟩ := Outcome.solution?_eq_some_iff.mp jordan
  have written : (sample.gauss .sample).steps = steps := by rw [run]; rfl
  have written' : (sample.gaussJordan .sample).steps = steps' := by rw [run']; rfl
  have both := det_of_eliminations Settings.sample_epsilon_pos sample
  refine ⟨Settings.sample_epsilon_pos, ⟨_, steps, run, ?_, ?_, both.1 _ steps run⟩,
    _, steps', run', ?_, ?_, both.2 _ steps' run'⟩
  · rw [← written]
    decide +kernel
  · rw [← written]
    decide +kernel
  · rw [← written']
    decide +kernel
  · rw [← written']
    decide +kernel

end LinearSystem

end Chalkboard
