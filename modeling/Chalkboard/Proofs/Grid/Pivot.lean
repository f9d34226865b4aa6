import Mathlib.Order.Basic
import Chalkboard.Proofs.Scalar.Exact
import Chalkboard.Grid.RowOp

/-!
# The pivot search finds the first largest entry

`Grid.pivotBelow` compares magnitudes with the scalar test `lt`. Wherever that test is the strict
order of some linearly ordered sizes, the row that it returns is the first of largest size
(`IsPivot`). Over an ordered field the sizes are the absolute values.
-/

namespace Chalkboard

universe u v

variable {m n : Nat} {α : Type u} {β : Type v} [LinearOrder β]

/-- **`IsPivot size top r`** — among the rows from `top` on, `r` is the first of largest size. -/
structure IsPivot (size : Fin m → β) (top r : Fin m) : Prop where
  below : top ≤ r
  largest : ∀ i, top ≤ i → size i ≤ size r
  first : ∀ i, top ≤ i → i < r → size i < size r

/-- There is no other such row. -/
theorem IsPivot.unique {size : Fin m → β} {top r r' : Fin m} (h : IsPivot size top r)
    (h' : IsPivot size top r') : r = r' := by
  rcases lt_trichotomy r r' with lt | eq | lt
  · exact absurd (h'.first r h.below lt) (not_lt_of_ge (h.largest r' h'.below))
  · exact eq
  · exact absurd (h.first r' h'.below lt) (not_lt_of_ge (h'.largest r h.below))

/-- **`IsPivotAmong size l r`** — among the rows of an ascending list, `r` is the first of largest
size. -/
structure IsPivotAmong (size : Fin m → β) (l : List (Fin m)) (r : Fin m) : Prop where
  mem : r ∈ l
  largest : ∀ i ∈ l, size i ≤ size r
  first : ∀ i ∈ l, i < r → size i < size r

namespace IsPivotAmong

variable {size : Fin m → β} {l : List (Fin m)} {r best x : Fin m}

theorem singleton (size : Fin m → β) (r : Fin m) : IsPivotAmong size [r] r where
  mem := List.mem_singleton_self r
  largest i hi := by rw [List.mem_singleton.mp hi]
  first i hi hlt := by
    rw [List.mem_singleton.mp hi] at hlt
    exact absurd hlt (lt_irrefl r)

/-- A smaller row may stand before all others. -/
theorem cons_of_lt (h : IsPivotAmong size l r) (hlt : size best < size r) :
    IsPivotAmong size (best :: l) r where
  mem := List.mem_cons_of_mem best h.mem
  largest := List.forall_mem_cons.mpr ⟨hlt.le, h.largest⟩
  first := List.forall_mem_cons.mpr ⟨fun _ => hlt, h.first⟩

/-- A row that is not larger than the one before it changes nothing: it is smaller than a winner
behind it because the one before it already is. -/
theorem insert (h : IsPivotAmong size (best :: l) r) (hx : best < x)
    (hle : size x ≤ size best) : IsPivotAmong size (best :: x :: l) r := by
  obtain ⟨largest, largest'⟩ := List.forall_mem_cons.mp h.largest
  obtain ⟨first, first'⟩ := List.forall_mem_cons.mp h.first
  refine ⟨?_, ?_, ?_⟩
  · exact ((List.sublist_cons_self x l).cons_cons best).subset h.mem
  · exact List.forall_mem_cons.mpr
      ⟨largest, List.forall_mem_cons.mpr ⟨hle.trans largest, largest'⟩⟩
  · exact List.forall_mem_cons.mpr ⟨first, List.forall_mem_cons.mpr
      ⟨fun hxr => hle.trans_lt (first (hx.trans hxr)), first'⟩⟩

end IsPivotAmong

namespace Grid

variable [Scalar α]

/-- One comparison of the pivot search. -/
def keepLarger (g : Grid m n α) (col : Fin n) (best : Fin m × α) (i : Fin m) : Fin m × α :=
  let magnitude := Scalar.abs (g.entry i col)
  if Scalar.lt best.2 magnitude then (i, magnitude) else best

/-- **`g.Found col top best`** — `best` is a row from `top` on and the magnitude of its entry. -/
def Found (g : Grid m n α) (col : Fin n) (top : Fin m) (best : Fin m × α) : Prop :=
  top ≤ best.1 ∧ best.2 = Scalar.abs (g.entry best.1 col)

theorem Found.keepLarger {g : Grid m n α} {col : Fin n} {top : Fin m} {best : Fin m × α}
    (h : g.Found col top best) {i : Fin m} (hi : top ≤ i) :
    g.Found col top (g.keepLarger col best i) := by
  unfold Grid.keepLarger
  simp only
  split_ifs
  · exact ⟨hi, rfl⟩
  · exact h

/-- Whatever the numbers are, the search ends in a row from `top` on, with the magnitude of its
entry. -/
theorem found_pivotBelow (g : Grid m n α) (col : Fin n) (top : Fin m) :
    g.Found col top (g.pivotBelow col top) := by
  have start : g.Found col top (top, Scalar.abs (g.entry top col)) := ⟨le_rfl, rfl⟩
  refine List.foldlRecOn _ (g.keepLarger col) start fun best hbest i hi => hbest.keepLarger ?_
  exact (by simpa using (List.mem_filter.mp hi).2 : top < i).le

/-- The search reads one column, from `top` on. -/
theorem pivotBelow_congr {n' : Nat} {g : Grid m n α} {h : Grid m n' α} {col : Fin n}
    {col' : Fin n'} {top : Fin m} (same : ∀ i, top ≤ i → g.entry i col = h.entry i col') :
    g.pivotBelow col top = h.pivotBelow col' top := by
  show ((List.finRange m).filter (top < ·)).foldl (g.keepLarger col) (top, _) =
    ((List.finRange m).filter (top < ·)).foldl (h.keepLarger col') (top, _)
  rw [same top le_rfl]
  refine List.foldl_ext _ _ _ fun best i hi => ?_
  have hlt : top < i := by simpa using (List.mem_filter.mp hi).2
  rw [keepLarger, keepLarger, same i hlt.le]

/-- The search over any ascending list of rows, from a row above them all. -/
theorem foldl_keepLarger (g : Grid m n α) (col : Fin n) (size : Fin m → β) (l : List (Fin m)) :
    ∀ best, (best :: l).Pairwise (· < ·) →
      (∀ i ∈ best :: l, ∀ i' ∈ best :: l, Scalar.lt (Scalar.abs (g.entry i col))
        (Scalar.abs (g.entry i' col)) = decide (size i < size i')) →
      ∃ r, l.foldl (g.keepLarger col) (best, Scalar.abs (g.entry best col)) =
          (r, Scalar.abs (g.entry r col)) ∧ IsPivotAmong size (best :: l) r := by
  induction l with
  | nil => exact fun best _ _ => ⟨best, rfl, .singleton size best⟩
  | cons x l ih =>
    intro best sorted order
    obtain ⟨above, sorted'⟩ := List.pairwise_cons.mp sorted
    rw [List.foldl_cons, keepLarger, order best (by simp) x (by simp)]
    by_cases hlt : size best < size x
    · rw [if_pos (by simpa using hlt)]
      obtain ⟨r, run, h⟩ := ih x sorted' fun i hi i' hi' =>
        order i (List.mem_cons_of_mem _ hi) i' (List.mem_cons_of_mem _ hi')
      exact ⟨r, run, h.cons_of_lt (hlt.trans_le (h.largest x (by simp)))⟩
    · rw [if_neg (by simpa using hlt)]
      have keep : (best :: l).Sublist (best :: x :: l) :=
        (List.sublist_cons_self x l).cons_cons best
      obtain ⟨r, run, h⟩ := ih best (sorted.sublist keep) fun i hi i' hi' =>
        order i (keep.subset hi) i' (keep.subset hi')
      exact ⟨r, run, h.insert (above x (by simp)) (not_lt.mp hlt)⟩

/-- **The pivot search** returns the first row of largest size and the magnitude of its entry,
wherever the scalar test on magnitudes is the order of sizes. -/
theorem isPivot_pivotBelow (g : Grid m n α) (col : Fin n) (top : Fin m) (size : Fin m → β)
    (order : ∀ i i', top ≤ i → top ≤ i' → Scalar.lt (Scalar.abs (g.entry i col))
      (Scalar.abs (g.entry i' col)) = decide (size i < size i')) :
    (g.pivotBelow col top).2 = Scalar.abs (g.entry (g.pivotBelow col top).1 col) ∧
      IsPivot size top (g.pivotBelow col top).1 := by
  have mem (i : Fin m) : i ∈ top :: (List.finRange m).filter (top < ·) ↔ top ≤ i := by
    rw [List.mem_cons, List.mem_filter, decide_eq_true_iff, le_iff_eq_or_lt, eq_comm]
    simp [List.mem_finRange]
  have sorted : (top :: (List.finRange m).filter (top < ·)).Pairwise (· < ·) := by
    refine List.pairwise_cons.mpr ⟨fun i hi => ?_, (List.pairwise_lt_finRange m).filter _⟩
    simpa using (List.mem_filter.mp hi).2
  obtain ⟨r, run, h⟩ := foldl_keepLarger g col size _ top sorted
    fun i hi i' hi' => order i i' ((mem i).mp hi) ((mem i').mp hi')
  have found : g.pivotBelow col top = (r, Scalar.abs (g.entry r col)) := run
  rw [found]
  exact ⟨rfl, (mem r).mp h.mem, fun i hi => h.largest i ((mem i).mpr hi),
    fun i hi => h.first i ((mem i).mpr hi)⟩

end Grid

section Field

variable {K : Type u} [Field K] [LinearOrder K]

/-- Over an ordered field the search goes by absolute value. -/
theorem Grid.isPivot_pivotBelow_abs (g : Grid m n K) (col : Fin n) (top : Fin m) :
    (g.pivotBelow col top).2 = |g.entry (g.pivotBelow col top).1 col| ∧
      IsPivot (fun i => |g.entry i col|) top (g.pivotBelow col top).1 :=
  g.isPivot_pivotBelow col top _ fun _ _ _ _ => rfl

end Field

end Chalkboard
