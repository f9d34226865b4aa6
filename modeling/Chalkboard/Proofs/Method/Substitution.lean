import Chalkboard.Proofs.Grid.Triangular
import Chalkboard.Proofs.Loop
import Chalkboard.Method.BackSubstitution
import Chalkboard.Method.Factorization

/-!
# Triangular systems are solved by substitution

One unknown follows from another, upwards through an upper triangular grid and downwards through a
lower one. A row that is done is never touched again: it reads only unknowns that were known before
it. So what a back substitution has on record can be computed from its result, row by row, whatever
the numbers are. Over a field every equation holds with all rows done.

* `Grid.ends_backSubstitute_recorded` — the record of a back substitution, in any arithmetic.
* `Grid.ends_backSubstitute` — from the last row up; it halts only before a negligible pivot.
* `Grid.mulVec_forwardSubstitute` — from the first row down; it never halts.
-/

namespace Chalkboard

universe u

open scoped BigOperators

namespace Grid

variable {n : Nat}

/-! ## The record of a back substitution -/

section Record

variable {α : Type u} [Scalar α]

/-- A row does not read the unknowns up to its own. -/
theorem tailSum_setAt (u : Grid n n α) (x : Vector α n) {i r : Fin n} (h : i ≤ r) (v : α) :
    u.tailSum (setAt x i v) r = u.tailSum x r := by
  unfold tailSum
  refine congrArg Scalar.sum (List.map_congr_left fun j hj => ?_)
  have hrj : r < j := by simpa using (List.mem_filter.mp hj).2
  rw [get_setAt, if_neg (h.trans_lt hrj).ne]

/-- Row `i` of the system `u · x = b` as a back substitution that ends with `x` does it. -/
def substitution (u : Grid n n α) (b x : Vector α n) (i : Fin n) : Substitution n α where
  row := i
  constant := b.get i
  subtracted := u.tailSum x i
  pivot := u.entry i i
  value := (b.get i - u.tailSum x i) / u.entry i i

/-- An unknown that is set later does not change what a row reads. -/
theorem substitution_setAt (u : Grid n n α) (b x : Vector α n) {i r : Fin n} (h : i ≤ r) (v : α) :
    u.substitution b (setAt x i v) r = u.substitution b x r := by
  simp only [substitution, u.tailSum_setAt x h]

/-- **`u.RecordedFrom epsilon b i state`** — the rows from `i` on are done: no pivot in them is
negligible, they are on record from the last up, and each unknown has the value of its row. -/
structure RecordedFrom (u : Grid n n α) (epsilon : α) (b : Vector α n) (i : Nat)
    (state : Vector α n × List (Substitution n α)) : Prop where
  accepted : ∀ r : Fin n, i ≤ (r : Nat) → Scalar.negligible epsilon (u.entry r r) = false
  log : state.2 = ((List.finRange n).drop i).reverse.map (u.substitution b state.1)
  values : ∀ r : Fin n, i ≤ (r : Nat) → state.1.get r = (u.substitution b state.1 r).value

/-- The rows from `i` on are row `i` and those behind it. -/
theorem rows_from (i : Fin n) : (List.finRange n).drop i = i :: (List.finRange n).drop (i + 1) := by
  rw [List.drop_eq_getElem_cons (by rw [List.length_finRange]; exact i.isLt),
    List.getElem_finRange]
  rfl

theorem lt_of_mem_rows_from {i r : Fin n} (h : r ∈ (List.finRange n).drop (i + 1)) : i < r := by
  have sorted := (List.pairwise_lt_finRange n).sublist (List.drop_sublist i _)
  rw [rows_from] at sorted
  exact (List.pairwise_cons.mp sorted).1 r h

/-- **One row of a back substitution.** It halts before a negligible pivot. Otherwise its unknown is
set from those behind it, and they do not read it. -/
theorem RecordedFrom.ends_substituteRow {epsilon : α} {u : Grid n n α} {b : Vector α n} {i : Fin n}
    {state : Vector α n × List (Substitution n α)} (h : u.RecordedFrom epsilon b (i + 1) state) :
    Ends (fun halt => Scalar.negligible epsilon (u.entry halt.row halt.row) = true)
      (u.RecordedFrom epsilon b i) (u.substituteRow epsilon b state i) := by
  obtain ⟨x, log⟩ := state
  simp only [substituteRow]
  cases hneg : Scalar.negligible epsilon (u.entry i i) with
  | true => exact hneg
  | false =>
    let x' := setAt x i (u.substitution b x i).value
    have same {r : Fin n} (hr : i ≤ r) : u.substitution b x' r = u.substitution b x r :=
      u.substitution_setAt b x hr _
    constructor
    · intro r hr
      have hir : i ≤ r := hr
      rcases hir.eq_or_lt with rfl | hlt
      · exact hneg
      · exact h.accepted r hlt
    · have behind : ((List.finRange n).drop (i + 1)).reverse.map (u.substitution b x') = log := by
        refine (List.map_congr_left fun r hr => ?_).trans h.log.symm
        exact same (lt_of_mem_rows_from (List.mem_reverse.mp hr)).le
      show log ++ [u.substitution b x i] =
        ((List.finRange n).drop i).reverse.map (u.substitution b x')
      rw [rows_from, List.reverse_cons, List.map_append, List.map_singleton, behind, same le_rfl]
    · intro r hr
      have hir : i ≤ r := hr
      show x'.get r = (u.substitution b x' r).value
      rw [same hir, get_setAt]
      rcases hir.eq_or_lt with rfl | hlt
      · exact if_pos rfl
      · rw [if_neg hlt.ne]
        exact h.values r hlt

/-- **The record of a back substitution.** It halts only before a negligible pivot; otherwise all
rows are on record. -/
theorem ends_backSubstitute_recorded (epsilon : α) (u : Grid n n α) (b : Vector α n) :
    Ends (fun halt => Scalar.negligible epsilon (u.entry halt.row halt.row) = true)
      (u.RecordedFrom epsilon b 0) (u.backSubstitute epsilon b) := by
  refine ends_foldlM_finRange_reverse (u.RecordedFrom epsilon b) ?_
    fun i state h => h.ends_substituteRow
  have none (r : Fin n) : ¬ n ≤ (r : Nat) := not_le.mpr r.isLt
  refine ⟨fun r hr => absurd hr (none r), ?_, fun r hr => absurd hr (none r)⟩
  rw [List.drop_eq_nil_of_le (Nat.le_of_eq List.length_finRange)]
  rfl

end Record

variable {K : Type u} [Field K] [LinearOrder K]

/-! ## Upwards -/

theorem tailSum_eq (u : Grid n n K) (x : Vector K n) (i : Fin n) :
    u.tailSum x i = ∑ j with i < j, u.entry i j * x.get j :=
  Scalar.sum_finRange_filter (i < ·) fun j => u.entry i j * x.get j

/-- **`u.HoldsFrom b i x`** — the equations of the rows from `i` on hold of `x`. -/
def HoldsFrom (u : Grid n n K) (b : Vector K n) (i : Nat) (x : Vector K n) : Prop :=
  ∀ r : Fin n, i ≤ (r : Nat) → u.entry r r * x.get r + u.tailSum x r = b.get r

/-- With all rows done, an upper triangular grid takes the unknowns to the right side. -/
theorem HoldsFrom.mulVec {u : Grid n n K} {b x : Vector K n} (upper : u.Upper)
    (h : u.HoldsFrom b 0 x) : u.mulVec x = b := by
  rw [mulVec_eq_iff]
  intro r
  rw [Scalar.sum_eq_add_above r fun j hj => by rw [upper r j hj, zero_mul], ← tailSum_eq]
  exact h r (Nat.zero_le _)

/-! ## Downwards -/

theorem headSum_eq (l : Grid n n K) (y : Vector K n) (i : Fin n) :
    l.headSum y i = ∑ j with j < i, l.entry i j * y.get j :=
  Scalar.sum_finRange_filter (· < i) fun j => l.entry i j * y.get j

/-- A row does not read the unknowns from its own on. -/
theorem headSum_setAt (l : Grid n n K) (y : Vector K n) {i r : Fin n} (h : r ≤ i) (v : K) :
    l.headSum (setAt y i v) r = l.headSum y r := by
  rw [headSum_eq, headSum_eq]
  refine Finset.sum_congr rfl fun j hj => ?_
  have hjr : j < r := by simpa using hj
  rw [get_setAt, if_neg (hjr.trans_le h).ne']

/-- **Forward substitution solves a unit lower triangular system.** -/
theorem mulVec_forwardSubstitute {l : Grid n n K} (lower : l.UnitLower) (b : Vector K n) :
    l.mulVec (l.forwardSubstitute b) = b := by
  have run : ∀ r : Fin n, (r : Nat) < n →
      (l.forwardSubstitute b).get r + l.headSum (l.forwardSubstitute b) r = b.get r := by
    unfold forwardSubstitute
    -- the rows below `i` hold; row `i` is made to hold by the value that is set in it
    refine foldl_finRange
      (fun i y => ∀ r : Fin n, (r : Nat) < i → y.get r + l.headSum y r = b.get r)
      (fun r hr => absurd hr (Nat.not_lt_zero _)) fun i y h r hr => ?_
    have hri : r ≤ i := Nat.le_of_lt_succ hr
    rw [headSum_setAt l y hri, get_setAt]
    rcases hri.lt_or_eq with hlt | rfl
    · rw [if_neg hlt.ne']
      exact h r hlt
    · rw [if_pos rfl, sub_add_cancel]
  rw [mulVec_eq_iff]
  intro r
  rw [Scalar.sum_eq_add_below r fun j hj => by rw [lower.above r j hj, zero_mul], ← headSum_eq,
    lower.diagonal, one_mul]
  exact run r r.isLt

/-! ## Back substitution -/

variable [IsStrictOrderedRing K]

/-- **A back substitution** halts only before a negligible pivot, and otherwise leaves unknowns of
which every row holds. -/
theorem ends_backSubstitute {epsilon : K} (pos : 0 < epsilon) (u : Grid n n K) (b : Vector K n) :
    Ends (fun halt => Scalar.negligible epsilon (u.entry halt.row halt.row) = true)
      (fun result => u.HoldsFrom b 0 result.1) (u.backSubstitute epsilon b) := by
  refine (u.ends_backSubstitute_recorded epsilon b).imp (fun _ h => h) ?_
  intro result recorded r hr
  have hp : u.entry r r ≠ 0 := Scalar.ne_zero_of_not_negligible pos (recorded.accepted r hr)
  have value : result.1.get r = (b.get r - u.tailSum result.1 r) / u.entry r r :=
    recorded.values r hr
  rw [value, mul_div_cancel₀ _ hp, sub_add_cancel]

end Grid

end Chalkboard
