import Chalkboard.Proofs.Grid.Matrix
import Chalkboard.Proofs.Method.Ending
import Chalkboard.Proofs.Method.Growth
import Chalkboard.Proofs.Settings.Check
import Chalkboard.Proofs.Worked.Outcome

/-!
# How large the values of a method can be

If the numbers of a system are within a power of two, and the tolerance reaches one, the values of a
method are within a power of two that follows from these, as long as that is a finite number. The
exponent grows with the square of the number of unknowns for three of the methods. It doubles with
every unknown for the factorization, which does not look for large pivots.

* `Grid.within_det` — determinants.
* `Grid.ends_backSubstitute_within` — back substitution.
* `Factors.ends_of_bounded`, `Factors.Bounded.forwardSubstitute` — the factors, and what lies
  between them and back substitution.
* `Method.values_within` — the values of each method, by `Method.reach`.
-/

namespace Chalkboard

open Binary64 (Within Reaches Threshold)

variable {n : Nat} {j : Nat} {epsilon : Float}

/-- **A sum over some of the indices** of numbers within `2 ^ e`. -/
theorem Scalar.within_sum_filter {e : Int} (p : Fin n → Prop) [DecidablePred p] {f : Fin n → Float}
    (low : -1074 ≤ e) (terms : ∀ l, p l → Within e (f l)) (high : e + n ≤ 1023) :
    Within (e + n) (Scalar.sum (((List.finRange n).filter p).map f)) := by
  have size : (((List.finRange n).filter p).map f).length ≤ n := by
    rw [List.length_map]
    exact (List.length_filter_le _ _).trans_eq (List.length_finRange)
  refine (within_sum low (fun x hx => ?_) (by omega)).mono (by omega)
  obtain ⟨l, hl, rfl⟩ := List.mem_map.mp hx
  exact terms l (by simpa using hl)

namespace Grid

/-! ## Determinants -/

theorem within_cofactorSign (c : Nat) : Within 0 (cofactorSign c : Float) := by
  unfold cofactorSign
  split_ifs
  · exact Binary64.within_one
  · exact Binary64.within_one.neg

/-- **A determinant** is at most as many times as large as there are rows: a factor from each of
them, and the number of terms that are added. -/
theorem within_det {e : Nat} : {n : Nat} → (g : Grid n n Float) → (∀ r c, Within e (g.entry r c)) →
    n * (e + n) ≤ 1023 → Within (n * (e + n) : Nat) g.det
  | 0, _, _, _ => Binary64.within_one.mono (by omega)
  | 1, g, entries, _ => (entries 0 0).mono (by omega)
  | 2, g, entries, high => by
    have product (r c r' c' : Fin 2) := (entries r c).mul (entries r' c') (by omega) (by omega)
      (by omega) (by omega)
    exact ((product 0 0 1 1).sub (product 0 1 1 0) (by omega) (by omega)).mono (by omega)
  | n + 3, g, entries, high => by
    have split : (n + 3) * (e + (n + 3)) = (n + 2) * (e + (n + 2)) + e + (2 * n + 5) := by ring
    have terms (c : Fin (n + 3)) : Within ((n + 2) * (e + (n + 2)) + e : Nat)
        (cofactorSign c * g.entry 0 c * (g.minor 0 c).det) := by
      have minor := within_det (g.minor 0 c) (fun r c' => by simpa using entries _ _) (by omega)
      have signed := (within_cofactorSign c).mul (entries 0 c) (by omega) (by omega) (by omega)
        (by omega)
      exact (signed.mul minor (by omega) (by omega) (by omega) (by omega)).mono (by omega)
    let summands := (List.finRange (n + 3)).map fun (c : Fin (n + 3)) =>
      cofactorSign c * g.entry 0 c * (g.minor 0 c).det
    have size : summands.length = n + 3 := by
      rw [List.length_map, List.length_finRange]
    have sum : Within _ (Scalar.sum summands) := Scalar.within_sum (by omega)
      (List.forall_mem_map.mpr fun c _ => terms c) (by omega)
    exact sum.mono (by omega)

/-! ## Back substitution -/

/-- The exponent of the unknowns from row `i` on, where those of row `l` in the grid and on the right
side are within `2 ^ rows l`: each row adds its own, the places of a sum and those of the tolerance.
-/
def substitutionReach (n j : Nat) (rows : Nat → Nat) (i : Nat) : Nat :=
  ∑ l ∈ Finset.Ico i n, (rows l + n + 1 + j)

theorem substitutionReach_step (rows : Nat → Nat) (i : Fin n) :
    substitutionReach n j rows i =
      rows i + n + 1 + j + substitutionReach n j rows (i + 1) :=
  Finset.sum_eq_sum_Ico_succ_bot i.isLt _

theorem substitutionReach_le (rows : Nat → Nat) (i : Nat) :
    substitutionReach n j rows i ≤ substitutionReach n j rows 0 :=
  Finset.sum_le_sum_of_subset (Finset.Ico_subset_Ico_left (Nat.zero_le i))

/-- A column of zeros. -/
theorem within_replicate_zero (e : Int) (r : Fin n) :
    Within e ((Vector.replicate n (0 : Float)).get r) :=
  (show (Vector.replicate n (0.0 : Float)).get r = 0.0 from Vector.getElem_replicate r.isLt) ▸
    Binary64.within_zero

/-- **Back substitution.** -/
theorem ends_backSubstitute_within {u : Grid n n Float} {b : Vector Float n} {rows : Nat → Nat}
    (threshold : Threshold j epsilon) (coefficients : ∀ r c : Fin n, Within (rows r) (u.entry r c))
    (constants : ∀ r : Fin n, Within (rows r) (b.get r))
    (high : substitutionReach n j rows 0 ≤ 1023) :
    Ends (fun _ => True) (fun result => ∀ r, Within (substitutionReach n j rows 0) (result.1.get r))
      (u.backSubstitute epsilon b) := by
  unfold backSubstitute
  refine ends_foldlM_finRange_reverse (fun i (state : Vector Float n × List (Substitution n Float)) =>
    ∀ r, Within (substitutionReach n j rows i) (state.1.get r)) ?_ ?_
  · exact within_replicate_zero _
  · rintro i ⟨x, log⟩ known
    have step := substitutionReach_step (j := j) rows i
    have top := substitutionReach_le (n := n) (j := j) rows i
    simp only [substituteRow]
    cases accepted : Scalar.negligible epsilon (u.entry i i) with
    | true => trivial
    | false =>
      have pivot := threshold.reaches_of_not_negligible (coefficients i i) accepted
      have terms (c : Fin n) : Within (rows i + substitutionReach n j rows (i + 1))
          (u.entry i c * x.get c) :=
        (coefficients i c).mul (known c) (by omega) (by omega) (by omega) (by omega)
      have sum : Within _ (u.tailSum x i) :=
        Scalar.within_sum_filter (i < ·) (by omega) (fun c _ => terms c) (by omega)
      have difference := ((constants i).mono (by omega)).sub sum (by omega) (by omega)
      have value := difference.div pivot (by omega) (by omega) (by omega) (by omega)
      intro r
      show Within _ ((setAt x i _).get r)
      rw [get_setAt]
      split_ifs
      · exact value.mono (by omega)
      · exact (known r).mono (by omega)

end Grid

/-! ## Factors -/

/-- The exponent of row `i` of the upper factor, if the numbers of the system are within `2 ^ k`: a
column of the lower factor is as large as the row of the upper one up to the tolerance, and their
products are subtracted from the rows behind. -/
def factorReach (n j k : Nat) : Nat → Nat
  | 0 => k + 1
  | i + 1 => 2 * factorReach n j k i + j + n + 1

theorem factorReach_le {k i l : Nat} (h : i ≤ l) : factorReach n j k i ≤ factorReach n j k l :=
  monotone_nat_of_le_succ (fun i => by simp only [factorReach]; omega) h

/-- What is subtracted in row `i` has room in it. -/
theorem factorReach_lt (n j k : Nat) {i l : Nat} (h : i < l) :
    2 * factorReach n j k i + j + n + 1 ≤ factorReach n j k l :=
  factorReach_le (k := k) (Nat.succ_le_of_lt h)

/-- Back substitution through the upper factor adds what the factorization left of its reach. -/
theorem factorReach_eq_add_substitutionReach (n j k : Nat) :
    factorReach n j k n = k + 1 + Grid.substitutionReach n j (factorReach n j k) 0 := by
  have sums (m : Nat) : factorReach n j k m =
      k + 1 + ∑ l ∈ Finset.range m, (factorReach n j k l + n + 1 + j) := by
    induction m with
    | zero => rfl
    | succ m ih =>
      rw [Finset.sum_range_succ, factorReach]
      omega
  rw [Grid.substitutionReach, ← Finset.range_eq_Ico]
  exact sums n

section Factors

variable {k : Nat}

/-- **What remains in place `i`** when the products of all places before it are subtracted. -/
theorem within_remainder {i : Fin n} {x : Float} {f g : Fin n → Float} (hx : Within k x)
    (hf : ∀ l : Fin n, Within (factorReach n j k l + j) (f l))
    (hg : ∀ l : Fin n, Within (factorReach n j k l) (g l)) (high : factorReach n j k i ≤ 1023) :
    Within (factorReach n j k i)
      (x - Scalar.sum (((List.finRange n).filter (· < i)).map fun l => f l * g l)) := by
  have start : k + 1 ≤ factorReach n j k i := factorReach_le (Nat.zero_le i)
  rcases Nat.eq_zero_or_pos i with zero | pos
  · -- nothing has been subtracted
    have none : (List.finRange n).filter (· < i) = [] :=
      List.filter_eq_nil_iff.mpr fun l _ => by simp [Fin.lt_def, zero]
    rw [none]
    exact (hx.sub Binary64.within_zero.neg (by omega) (by omega)).mono (by omega)
  · have room := factorReach_lt n j k pos
    have terms (l : Fin n) (hl : l < i) :
        Within (factorReach n j k i - n - 1 : Int) (f l * g l) := by
      have next := factorReach_lt n j k hl
      exact ((hf l).mul (hg l) (by omega) (by omega) (by omega) (by omega)).mono (by omega)
    have sum := Scalar.within_sum_filter (· < i) (by omega) terms (by omega)
    exact ((hx.mono (by omega)).sub sum (by omega) (by omega)).mono (by omega)

/-- **`f.Bounded j k`** — every row of the upper factor and every column of the lower one keeps to its
exponent, whether it has been filled or not. -/
structure Factors.Bounded (j k : Nat) (f : Factors n Float) : Prop where
  upper : ∀ r c : Fin n, Within (factorReach n j k r) (f.upper.entry r c)
  lower : ∀ r c : Fin n, Within (factorReach n j k c + j) (f.lower.entry r c)

namespace Factors

variable {a : Grid n n Float} {f : Factors n Float} {i : Fin n}

theorem bounded_zero : (zero : Factors n Float).Bounded j k where
  upper r c := by
    exact (show (zero : Factors n Float).upper.entry r c = 0.0 from Grid.entry_ofFn _ r c) ▸
      Binary64.within_zero
  lower r c := by
    exact (show (zero : Factors n Float).lower.entry r c = 0.0 from Grid.entry_ofFn _ r c) ▸
      Binary64.within_zero

theorem Bounded.fillRow (h : f.Bounded j k) (entries : ∀ r c, Within k (a.entry r c))
    (high : factorReach n j k i ≤ 1023) : (f.fillRow a i).Bounded j k where
  upper r c := by
    rw [upper_fillRow]
    split_ifs with here
    · rw [here.1]
      exact within_remainder (entries i c) (h.lower i) (fun l => h.upper l c) high
    · exact h.upper r c
  lower r c := by
    rw [lower_fillRow]
    split_ifs
    · exact (show Within 0 1 from Binary64.within_one).mono (by omega)
    · exact h.lower r c

theorem Bounded.fillColumn (h : f.Bounded j k) (entries : ∀ r c, Within k (a.entry r c))
    (pivot : Reaches (-j) (f.upper.entry i i)) (high : factorReach n j k i + j ≤ 1023) :
    (f.fillColumn a i).Bounded j k where
  upper := h.upper
  lower r c := by
    rw [lower_fillColumn]
    split_ifs with here
    · have remainder := within_remainder (i := i) (entries r i) (h.lower r) (fun l => h.upper l i)
        (by omega)
      have quotient := remainder.div pivot (by omega) (by omega) (by omega) (by omega)
      rw [here.1]
      exact quotient.mono (by omega)
    · exact h.lower r c

/-- **The factors** keep to their exponents. -/
theorem ends_of_bounded (threshold : Threshold j epsilon)
    (entries : ∀ r c, Within k (a.entry r c)) (high : factorReach n j k n ≤ 1023) :
    Ends (fun _ => True) (·.Bounded j k) (Factors.of epsilon a) := by
  refine ends_foldlM_finRange (fun _ (f : Factors n Float) => f.Bounded j k) bounded_zero ?_
  intro i f h
  have room := factorReach_lt n j k i.isLt
  have filled := h.fillRow (i := i) entries (by omega)
  simp only [extend]
  cases accepted : Scalar.negligible epsilon ((f.fillRow a i).upper.entry i i) with
  | true => trivial
  | false =>
    exact filled.fillColumn entries
      (threshold.reaches_of_not_negligible (filled.upper i i) accepted) (by omega)

/-- **The right side behind the lower factor** is as large as the rows of the upper one. -/
theorem Bounded.forwardSubstitute (h : f.Bounded j k) {b : Vector Float n}
    (constants : ∀ r, Within k (b.get r)) (high : factorReach n j k n ≤ 1023) :
    ∀ r : Fin n, Within (factorReach n j k r) ((f.lower.forwardSubstitute b).get r) := by
  unfold Grid.forwardSubstitute
  refine foldl_finRange
    (fun _ (y : Vector Float n) => ∀ r : Fin n, Within (factorReach n j k r) (y.get r)) ?_ ?_
  · exact fun r => Grid.within_replicate_zero _ r
  · intro i y known r
    rw [get_setAt]
    split_ifs with here
    · have room := factorReach_lt n j k i.isLt
      rw [← here]
      exact within_remainder (constants i) (h.lower i) known (by omega)
    · exact known r

end Factors

end Factors

/-! ## The methods -/

/-- The exponent of the values of a method, for numbers within `2 ^ k` and a tolerance that reaches
`2 ^ -j`. -/
def Method.reach (m : Method) (n k j : Nat) : Nat :=
  match m with
  | .cramersRule => n * (k + n) + j
  | .gaussElimination => n * (k + n + n + 1 + j)
  | .gaussJordan => k + n * (k + 2 * n + j + 2)
  | .luDecomposition => factorReach n j k n

namespace LinearSystem

variable {s : LinearSystem n Float} {k : Nat}

theorem within_augmented (coefficients : ∀ r c, Within k (s.a.entry r c))
    (constants : ∀ r, Within k (s.b.get r)) (r : Fin n) (c : Fin (n + 1)) :
    Within k (s.augmented.entry r c) := by
  unfold augmented
  induction c using Fin.lastCases with
  | last =>
    rw [Grid.entry_augment_last]
    exact constants r
  | cast c =>
    rw [Grid.entry_augment_castSucc]
    exact coefficients r c

theorem within_replaced (coefficients : ∀ r c, Within k (s.a.entry r c))
    (constants : ∀ r, Within k (s.b.get r)) (i r c : Fin n) :
    Within k ((s.replaced i).entry r c) := by
  unfold replaced
  rw [Grid.entry_replaceColumn]
  split_ifs
  · exact constants r
  · exact coefficients r c

variable {settings : Settings Float} {solution : Solution n Float} {steps : List (Step Float)}

/-- Cramer's Rule divides one determinant by another. -/
theorem within_cramer (threshold : Threshold j settings.epsilon)
    (coefficients : ∀ r c, Within k (s.a.entry r c)) (constants : ∀ r, Within k (s.b.get r))
    (small : Method.cramersRule.reach n k j ≤ 1023)
    (run : s.cramer settings = .solved solution steps) (i : Fin n) :
    Within (Method.cramersRule.reach n k j) (solution.values.get i) := by
  rcases s.cramer_cases settings with ⟨-, ending⟩ | ⟨accepted, ending⟩ <;>
    cases ending.symm.trans run
  simp only [Method.reach] at small ⊢
  have det := Grid.within_det s.a coefficients (by omega)
  have pivot := threshold.reaches_of_not_negligible det accepted
  have replaced := Grid.within_det (s.replaced i) (s.within_replaced coefficients constants i)
    (by omega)
  rw [get_ofFn]
  exact (replaced.div pivot (by omega) (by omega) (by omega) (by omega)).mono (by omega)

/-- Gaussian elimination: back substitution on a triangular form that is not much larger than the
system. -/
theorem within_gauss (threshold : Threshold j settings.epsilon)
    (coefficients : ∀ r c, Within k (s.a.entry r c)) (constants : ∀ r, Within k (s.b.get r))
    (small : Method.gaussElimination.reach n k j ≤ 1023)
    (run : s.gauss settings = .solved solution steps) (i : Fin n) :
    Within (Method.gaussElimination.reach n k j) (solution.values.get i) := by
  rcases s.gauss_cases Binary64.abs_abs settings with
    ⟨halt, -, ending⟩ | ⟨board, -, -, hboard, -⟩
  · cases ending.symm.trans run
  obtain ⟨-, x, log, values, ending⟩ := gauss_of_triangularize Binary64.abs_abs settings hboard
  cases ending.symm.trans run
  have reach : Method.gaussElimination.reach n k j =
      Grid.substitutionReach n j (fun _ => k + n) 0 := by
    simp [Method.reach, Grid.substitutionReach]
  rw [reach] at small ⊢
  have row := Grid.substitutionReach_step (j := j) (fun _ => k + n) i
  have top := Grid.substitutionReach_le (n := n) (j := j) (fun _ => k + n) i
  have bounded := (Board.ends_triangularize_within (k := 1) (b := ⟨s.augmented, []⟩) (e := k) threshold
    (by omega) (by omega) (s.within_augmented coefficients constants)).of_ok hboard
  refine (Grid.ends_backSubstitute_within threshold (fun r c => ?_) (fun r => ?_) small).of_ok
    values i
  · rw [Grid.entry_leftBlock]
    exact bounded r _
  · rw [Grid.get_lastColumn]
    exact bounded r _

/-- Gauss-Jordan elimination has its values on the board. -/
theorem within_gaussJordan (threshold : Threshold j settings.epsilon)
    (coefficients : ∀ r c, Within k (s.a.entry r c)) (constants : ∀ r, Within k (s.b.get r))
    (small : Method.gaussJordan.reach n k j ≤ 1023)
    (run : s.gaussJordan settings = .solved solution steps) (i : Fin n) :
    Within (Method.gaussJordan.reach n k j) (solution.values.get i) := by
  rcases s.gaussJordan_cases settings with ⟨halt, -, ending⟩ | ⟨board, hboard, ending⟩ <;>
    cases ending.symm.trans run
  simp only [Method.reach] at small ⊢
  push_cast
  have bounded := (Board.ends_diagonalize_within (k := 1) (b := ⟨s.augmented, []⟩) (e := k) threshold
    (by omega) (by exact_mod_cast small) (s.within_augmented coefficients constants)).of_ok hboard
  rw [Grid.get_lastColumn]
  exact bounded i _

/-- LU decomposition: two substitutions behind the factors. -/
theorem within_lu (threshold : Threshold j settings.epsilon)
    (coefficients : ∀ r c, Within k (s.a.entry r c)) (constants : ∀ r, Within k (s.b.get r))
    (small : Method.luDecomposition.reach n k j ≤ 1023)
    (run : s.lu settings = .solved solution steps) (i : Fin n) :
    Within (Method.luDecomposition.reach n k j) (solution.values.get i) := by
  rcases s.lu_cases settings with ⟨halt, -, ending⟩ | ⟨f, x, log, hf, values, ending⟩ <;>
    cases ending.symm.trans run
  simp only [Method.reach] at small ⊢
  have bounded := (Factors.ends_of_bounded threshold coefficients small).of_ok hf
  have sum := factorReach_eq_add_substitutionReach n j k
  exact ((Grid.ends_backSubstitute_within threshold bounded.upper
    (bounded.forwardSubstitute constants small) (by omega)).of_ok values i).mono (by omega)

end LinearSystem

/-! ## Finite values -/

namespace Method

variable {settings : Settings Float} {s : LinearSystem n Float} {k : Nat}

/-- What a method ends with if the system is not too large. -/
theorem solve_eq_ok {m : Method} {outcome : Outcome n Float}
    (run : m.solve settings s = .ok outcome) :
    n ≤ settings.maxSize ∧ m.run settings s = outcome := by
  unfold solve at run
  split_ifs at run with large
  exact ⟨Nat.not_lt.mp large, Except.ok.inj run⟩

/-- **The values of any method** are within a power of two that depends on its way to them. -/
theorem values_within (threshold : Threshold j settings.epsilon)
    (coefficients : ∀ r c, Within k (s.a.entry r c)) (constants : ∀ r, Within k (s.b.get r))
    {m : Method} (small : m.reach n k j ≤ 1023) {solution : Solution n Float}
    {steps : List (Step Float)} (run : m.run settings s = .solved solution steps) (i : Fin n) :
    Within (m.reach n k j) (solution.values.get i) := by
  cases m with
  | cramersRule => exact s.within_cramer threshold coefficients constants small run i
  | gaussElimination => exact s.within_gauss threshold coefficients constants small run i
  | gaussJordan => exact s.within_gaussJordan threshold coefficients constants small run i
  | luDecomposition => exact s.within_lu threshold coefficients constants small run i

/-- Under the standard settings numbers within `2 ^ 64` are small enough, unless the system is
factored without exchanges. -/
theorem isFinite_of_solve_standard (coefficients : ∀ r c, Within (64 : Nat) (s.a.entry r c))
    (constants : ∀ r, Within (64 : Nat) (s.b.get r)) {m : Method} (exchanges : m ≠ .luDecomposition)
    {solution : Solution n Float} {steps : List (Step Float)}
    (run : m.solve .standard s = .ok (.solved solution steps)) (i : Fin n) :
    (solution.values.get i).isFinite = true := by
  have threshold : Threshold 34 Settings.standard.epsilon := ⟨by decide +kernel, by decide +kernel⟩
  obtain ⟨few, run⟩ := solve_eq_ok run
  have small : m.reach n 64 34 ≤ 1023 := by
    have few : n ≤ 8 := few
    cases m with
    | cramersRule =>
      have := Nat.mul_le_mul few (show 64 + n ≤ 72 by omega)
      exact (Nat.add_le_add_right this 34).trans (by decide)
    | gaussElimination =>
      exact (Nat.mul_le_mul few (show 64 + n + n + 1 + 34 ≤ 115 by omega)).trans (by decide)
    | gaussJordan =>
      have := Nat.mul_le_mul few (show 64 + 2 * n + 34 + 2 ≤ 116 by omega)
      exact (Nat.add_le_add_left this 64).trans (by decide)
    | luDecomposition => exact absurd rfl exchanges
  exact (values_within threshold coefficients constants small run i).isFinite

/-- **Finite values.** Whatever settings are admitted, no method overflows on the way to its values,
unless the numbers of the system and the tolerance let it reach past the largest finite number. -/
theorem solved_finite (checked : settings.check = .ok settings)
    (tolerance : Reaches (-j) settings.epsilon) (coefficients : ∀ r c, Within k (s.a.entry r c))
    (constants : ∀ r, Within k (s.b.get r)) {m : Method} (small : m.reach n k j ≤ 1023)
    {solution : Solution n Float} {steps : List (Step Float)}
    (run : m.solve settings s = .ok (.solved solution steps)) (i : Fin n) :
    (solution.values.get i).isFinite = true :=
  (values_within ⟨Settings.epsilon_pos_of_check checked, tolerance⟩ coefficients constants small
    (solve_eq_ok run).2 i).isFinite

/-- A system whose pivots are far apart in size. -/
def steep : LinearSystem 2 Float :=
  { unknowns := .ofFn !['x', 'y']
    a := .ofFn ![![1e-9, 1e9], ![1e9, 1.0]]
    b := .ofFn ![1e9, 1e-9] }

theorem solved_finite_sample :
    Settings.standard.check = .ok .standard ∧
      Reaches (-(34 : Nat)) Settings.standard.epsilon ∧
      (∀ r c, Within (30 : Nat) (steep.a.entry r c)) ∧ (∀ r, Within (30 : Nat) (steep.b.get r)) ∧
      luDecomposition.reach 2 30 34 ≤ 1023 ∧
      ∃ solution steps, luDecomposition.solve .standard steep = .ok (.solved solution steps) ∧
        ∀ i, (solution.values.get i).isFinite = true := by
  have checked : Settings.standard.check = .ok .standard := by decide +kernel
  have tolerance : Reaches (-(34 : Nat)) Settings.standard.epsilon := by decide +kernel
  have coefficients : ∀ r c, Within (30 : Nat) (steep.a.entry r c) := by decide +kernel
  have constants : ∀ r, Within (30 : Nat) (steep.b.get r) := by decide +kernel
  have small : luDecomposition.reach 2 30 34 ≤ 1023 := by decide
  have solved : (luDecomposition.run .standard steep).solution?.isSome = true := by decide +kernel
  obtain ⟨solution, values⟩ := Option.isSome_iff_exists.mp solved
  obtain ⟨steps, run⟩ := Outcome.solution?_eq_some_iff.mp values
  have ending : luDecomposition.solve .standard steep = .ok (.solved solution steps) :=
    congrArg Except.ok run
  exact ⟨checked, tolerance, coefficients, constants, small, solution, steps, ending,
    solved_finite checked tolerance coefficients constants small ending⟩

/-- A regular system whose determinant is past the largest number. -/
def overflowing : LinearSystem 2 Float :=
  { unknowns := .ofFn !['x', 'y']
    a := .ofFn ![![1e200, 0.0], ![0.0, 1e200]]
    b := .ofFn ![1e200, 1e200] }

/-- **Values need not be finite**, however finite the system is. -/
theorem solved_not_finite :
    ¬ ∀ (n : Nat) (settings : Settings Float) (s : LinearSystem n Float),
      settings.check = .ok settings →
      (∀ r c, (s.a.entry r c).isFinite = true) → (∀ r, (s.b.get r).isFinite = true) →
      ∀ (m : Method) (solution : Solution n Float) (steps : List (Step Float)),
        m.solve settings s = .ok (.solved solution steps) →
        ∀ i, (solution.values.get i).isFinite = true := by
  intro h
  rcases overflowing.cramer_cases .standard with ⟨refused, -⟩ | ⟨-, ending⟩
  · exact absurd refused (by decide +kernel)
  · have finite := h 2 .standard overflowing (by decide +kernel) (by decide +kernel)
      (by decide +kernel) .cramersRule _ _ (congrArg Except.ok ending) 0
    rw [get_ofFn] at finite
    exact absurd finite (by decide +kernel)

end Method

end Chalkboard
