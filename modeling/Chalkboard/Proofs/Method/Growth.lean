import Chalkboard.Proofs.Decimal.Magnitude
import Chalkboard.Proofs.Grid.Largest
import Chalkboard.Proofs.Method.Ending

/-!
# How large the numbers of an elimination become

Bounds on the numbers that stand on a board, from a bound on those that it began with. They hold of
rounded arithmetic, and they need no more than that no accepted pivot is smaller than the tolerance
and that the pivot is the largest entry of its column.

* `Board.ends_triangularize_within` — on the way to triangular form a column doubles the entries at
  most, because no factor is larger than one.
* `Board.ends_diagonalize_within` — on the way to the identity this is so, up to another factor of
  two, only of the rows that have not had their pivot; the others grow with the inverse of the
  tolerance.
-/

namespace Chalkboard

open Binary64 (Within Reaches Threshold order)

universe u

variable {n k : Nat}

/-! ## Sums -/

namespace Scalar

/-- A sum that goes on from a number within `2 ^ e`. -/
theorem within_foldl_add {e : Int} (low : -1074 ≤ e) (xs : List Float) :
    ∀ acc : Float, Within e acc → (∀ x ∈ xs, Within e x) → e + xs.length ≤ 1023 →
      Within (e + xs.length) (xs.foldl (· + ·) acc) := by
  induction xs generalizing e with
  | nil =>
    intro acc start _ _
    exact start.mono (by simp)
  | cons x xs ih =>
    intro acc start terms high
    rw [List.length_cons, Nat.cast_succ] at high ⊢
    have first := start.add (terms x List.mem_cons_self) low (by omega)
    have rest := ih (e := e + 1) (by omega) (acc + x) first
      (fun y hy => (terms y (List.mem_cons_of_mem _ hy)).mono (by omega)) (by omega)
    exact rest.mono (by omega)

/-- **A sum** of numbers within `2 ^ e` is not more than doubled by each of them. -/
theorem within_sum {e : Int} (low : -1074 ≤ e) {xs : List Float} (terms : ∀ x ∈ xs, Within e x)
    (high : e + xs.length ≤ 1023) : Within (e + xs.length) (Scalar.sum xs) :=
  within_foldl_add low xs _ Binary64.within_zero.neg terms high

end Scalar

/-! ## Clearing in several rows -/

namespace Board

variable {α : Type u} [Scalar α]

/-- **`g.Cleared i factor r g'`** — each entry in row `r` of `g'` is that of `g`, or it is overwritten
by zero, or a multiple of row `i` has been added to it, in another column than that of the pivot. -/
def Cleared (g : Grid n (n + k) α) (i : Fin n) (factor : α) (r : Fin n) (g' : Grid n (n + k) α) :
    Prop :=
  ∀ c, g'.entry r c = g.entry r c ∨ g'.entry r c = 0 ∨
    c ≠ i.castAdd k ∧ g'.entry r c = g.entry r c + -factor * g.entry i c

theorem cleared_clear (b : Board n (n + k) α) (i r : Fin n) (factor : α) :
    Cleared b.grid i factor r (b.clear i r factor).grid := by
  intro c
  rw [entry_clear_self]
  split_ifs with _ hc
  · exact .inl rfl
  · exact .inr (.inl rfl)
  · exact .inr (.inr ⟨hc, rfl⟩)

/-- Clearing in several rows clears each as it stood. -/
theorem cleared_foldl {i : Fin n} (factor : α → α) (rows : List (Fin n)) (b : Board n (n + k) α)
    (nodup : rows.Nodup) (hi : i ∉ rows) :
    let b' := rows.foldl (fun b r => b.clear i r (factor (b.grid.entry r (i.castAdd k)))) b
    (∀ r ∉ rows, b'.grid.entry r = b.grid.entry r) ∧
      ∀ r ∈ rows, Cleared b.grid i (factor (b.grid.entry r (i.castAdd k))) r b'.grid := by
  obtain ⟨others, cleared⟩ := rows_foldl_clear (k := k) (i := i) factor rows b nodup hi
  refine ⟨others, fun r hr c => ?_⟩
  rw [cleared r hr]
  exact b.cleared_clear i r _ c

/-- **What dividing a row does**: nothing, if the pivot is one already. Otherwise the pivot becomes
one and the rest of its row is multiplied by the inverse. -/
theorem normalize_cases (b : Board n (n + k) α) (i : Fin n) :
    Scalar.eq (b.grid.entry i (i.castAdd k)) 1 = true ∧ b.normalize i = b ∨
      (∀ r ≠ i, (b.normalize i).grid.entry r = b.grid.entry r) ∧
        (b.normalize i).grid.entry i (i.castAdd k) = 1 ∧
        ∀ c, c ≠ i.castAdd k → (b.normalize i).grid.entry i c =
          b.grid.entry i c * (1 / b.grid.entry i (i.castAdd k)) := by
  simp only [normalize]
  split_ifs with one
  · exact .inl ⟨one, rfl⟩
  · refine .inr ⟨fun r hr => ?_, ?_, fun c hc => ?_⟩
    · funext c
      simp only [record, Grid.entry_setEntry, Grid.entry_scaleRow, hr.symm, false_and, if_false]
    · simp only [record, Grid.entry_setEntry, and_self, if_true]
    · simp only [record, Grid.entry_setEntry, Grid.entry_scaleRow, Ne.symm hc, and_false, if_false,
        if_true]

/-! ## Columns -/

section Columns

variable {b : Board n (n + k) Float} {i : Fin n} {epsilon : Float} {e : Int} {j : Nat}

/-- **`Raised j e i g`** — the pivot of column `i` is in its place: it reaches `2 ^ -j` and is the
largest of its column from row `i` on, and the entries of these rows are within `2 ^ e`. -/
structure Raised (j : Nat) (e : Int) (i : Fin n) (g : Grid n (n + k) Float) : Prop where
  rows : ∀ r, i ≤ r → ∀ c, Within e (g.entry r c)
  pivot : Reaches (-j) (g.entry i (i.castAdd k))
  largest : ∀ r, i ≤ r → order (g.entry r (i.castAdd k)).abs ≤ order (g.entry i (i.castAdd k)).abs

/-- Bringing a pivot up leaves the rows before it. -/
theorem ends_bringUp_raised (threshold : Threshold j epsilon)
    (rows : ∀ r, i ≤ r → ∀ c, Within e (b.grid.entry r c)) :
    Ends (fun _ => True) (fun b' => Raised j e i b'.grid ∧ ∀ r < i, b'.grid.entry r = b.grid.entry r)
      (b.bringUp epsilon i) := by
  obtain ⟨-, below, largest, -⟩ :=
    b.grid.isPivot_pivotBelow_order (i.castAdd k) i fun r hr => (rows r hr _).isNaN
  refine (ends_bringUp_found epsilon b rfl).imp (fun _ _ => trivial) ?_
  generalize (b.grid.pivotBelow (i.castAdd k) i).1 = p at *
  rintro b' ⟨large, hgrid, -⟩
  have accepted : Scalar.negligible epsilon (b.grid.entry p (i.castAdd k)) = false := by
    unfold Scalar.negligible at large ⊢
    rwa [show Scalar.abs (Scalar.abs _) = _ from Binary64.abs_abs _] at large
  rw [hgrid]
  refine ⟨⟨fun r hr c => ?_, ?_, fun r hr => ?_⟩, fun r hr => ?_⟩
  · rw [Grid.entry_swapRows]
    split_ifs
    · exact rows p below c
    · exact rows i le_rfl c
    · exact rows r hr c
  · rw [Grid.entry_swapRows, if_pos rfl]
    exact threshold.reaches_of_not_negligible (rows p below _) accepted
  · rw [Grid.entry_swapRows, Grid.entry_swapRows, if_pos rfl]
    split_ifs
    · exact le_rfl
    · exact largest i le_rfl
    · exact largest r hr
  · funext c
    rw [Grid.entry_swapRows, if_neg hr.ne, if_neg (hr.trans_le below).ne]

/-- **Clearing below a pivot** doubles the entries at most: no factor is larger than one. -/
theorem Raised.within_clearBelow (h : Raised j e i b.grid) (all : ∀ r c, Within e (b.grid.entry r c))
    (low : 0 ≤ e) (high : e + 1 ≤ 1023) (r : Fin n) (c : Fin (n + k)) :
    Within (e + 1) ((b.clearBelow i).grid.entry r c) := by
  obtain ⟨others, cleared⟩ := cleared_foldl (k := k) (i := i)
    (fun x => x / b.grid.entry i (i.castAdd k)) ((List.finRange n).filter (i < ·)) b
    ((List.nodup_finRange n).filter _) (by simp)
  by_cases hr : i < r
  · have mem : r ∈ (List.finRange n).filter (i < ·) := by simpa using hr
    rcases cleared r mem c with same | zero | ⟨-, sum⟩
    · exact (show Within e _ from same ▸ all r c).mono (by omega)
    · exact (show Within e _ from zero ▸ Binary64.within_zero).mono (by omega)
    · have factor : Within 0 (b.grid.entry r (i.castAdd k) / b.grid.entry i (i.castAdd k)) :=
        (all r _).quotient h.pivot (h.largest r hr.le)
      have product := factor.neg.mul (all i c) (by omega) (by omega) (by omega) (by omega)
      rw [zero_add] at product
      exact (show (b.clearBelow i).grid.entry r c = _ from sum) ▸
        (all r c).add product (by omega) high
  · have mem : r ∉ (List.finRange n).filter (i < ·) := by simpa using hr
    have same : (b.clearBelow i).grid.entry r = b.grid.entry r := others r mem
    rw [same]
    exact (all r c).mono (by omega)

/-- **On the way to triangular form** each column doubles the entries at most. -/
theorem ends_triangularize_within (threshold : Threshold j epsilon) (low : 0 ≤ e)
    (high : e + n ≤ 1023) (start : ∀ r c, Within e (b.grid.entry r c)) :
    Ends (fun _ => True) (fun b' => ∀ r c, Within (e + n) (b'.grid.entry r c))
      (b.triangularize epsilon) := by
  unfold triangularize
  refine ends_foldlM_finRange (fun i (b' : Board n (n + k) Float) =>
    ∀ r c, Within (e + i) (b'.grid.entry r c)) ?_ ?_
  · intro r c
    exact (start r c).mono (by omega)
  · intro i b' all
    have raised := ends_bringUp_raised (i := i) threshold fun r _ c => all r c
    refine raised.map fun b'' h r c => ?_
    have keep (r : Fin n) (c : Fin (n + k)) : Within (e + i) (b''.grid.entry r c) := by
      rcases lt_or_ge r i with hr | hr
      · rw [h.2 r hr]
        exact all r c
      · exact h.1.rows r hr c
    have := i.isLt
    exact (h.1.within_clearBelow keep (by omega) (by omega) r c).mono (by omega)

/-- **`Divided j e i g`** — row `i` has been divided by its pivot. Its entries may be as large as the
inverse of the tolerance makes them, but a factor no larger than the pivot takes that away again. -/
structure Divided (j : Nat) (e : Int) (i : Fin n) (pivot : Float) (g : Grid n (n + k) Float) :
    Prop where
  row : ∀ c, Within (e + j) (g.entry i c)
  product : ∀ c, c ≠ i.castAdd k → ∀ (l : Int) (f : Float), Within l f →
    order f.abs ≤ order pivot.abs → Within (e + 1) (f * g.entry i c)

/-- Dividing a row leaves the others. -/
theorem Raised.divided_normalize (h : Raised j e i b.grid) (low : 0 ≤ e) (high : e + j ≤ 1022) :
    Divided j e i (b.grid.entry i (i.castAdd k)) (b.normalize i).grid ∧
      ∀ r ≠ i, (b.normalize i).grid.entry r = b.grid.entry r := by
  have row (c : Fin (n + k)) := h.rows i le_rfl c
  rcases b.normalize_cases i with ⟨one, same⟩ | ⟨others, pivot, entry⟩
  · rw [same]
    have pivot : Within 0 (b.grid.entry i (i.castAdd k)) := by
      rw [Binary64.eq_one_of_beq one]
      exact Binary64.within_one
    refine ⟨⟨fun c => (row c).mono (by omega), fun c _ l f hf le => ?_⟩, fun _ _ => rfl⟩
    have factor : Within 0 f := hf.of_order_abs_le pivot le
    exact (factor.mul (row c) (by omega) (by omega) (by omega) (by omega)).mono (by omega)
  · have inverse : Within (0 - -j) (1.0 / b.grid.entry i (i.castAdd k)) :=
      Binary64.within_one.div h.pivot (by omega) (by omega) (by omega) (by omega)
    refine ⟨⟨fun c => ?_, fun c hc l f hf le => ?_⟩, others⟩
    · by_cases hc : c = i.castAdd k
      · rw [hc, pivot]
        exact (show Within 0 1 from Binary64.within_one).mono (by omega)
      · rw [entry c hc]
        exact ((row c).mul inverse (by omega) (by omega) (by omega) (by omega)).mono (by omega)
    · rw [entry c hc]
      exact Within.cleared h.pivot hf le (row c) low (by omega) high

/-- **One column on the way to the identity.** The rows that are still to come grow by two places
at most, all others by what the tolerance allows. -/
theorem Raised.within_clearOthers {u : Int} (h : Raised j e i b.grid)
    (all : ∀ r c, Within u (b.grid.entry r c)) (low : 0 ≤ e) (order : e ≤ u)
    (high : u + e + j + 2 ≤ 1023) :
    (∀ r, i < r → ∀ c, Within (e + 2) (((b.normalize i).clearOthers i).grid.entry r c)) ∧
      ∀ r c, Within (u + e + j + 2) (((b.normalize i).clearOthers i).grid.entry r c) := by
  obtain ⟨divided, others⟩ := h.divided_normalize low (by omega)
  obtain ⟨rest, cleared⟩ := cleared_foldl (k := k) (i := i) (fun x => x)
    ((List.finRange n).filter (· ≠ i)) (b.normalize i) ((List.nodup_finRange n).filter _) (by simp)
  have mem {r : Fin n} (hr : r ≠ i) : r ∈ (List.finRange n).filter (· ≠ i) := by simpa using hr
  refine ⟨fun r hr c => ?_, fun r c => ?_⟩
  · have entry := cleared r (mem hr.ne') c
    rw [others r hr.ne'] at entry
    rcases entry with same | zero | ⟨hc, sum⟩
    · exact (show Within e _ from same ▸ h.rows r hr.le c).mono (by omega)
    · exact (show Within e _ from zero ▸ Binary64.within_zero).mono (by omega)
    · have factor := h.rows r hr.le (i.castAdd k)
      have product := divided.product c hc _ _ factor.neg
        (factor.order_abs_neg.trans_le (h.largest r hr.le))
      have grown := ((h.rows r hr.le c).mono (by omega)).add product (by omega) (by omega)
      exact ((show _ = _ from sum) ▸ grown).mono (by omega)
  · by_cases hr : r = i
    · subst hr
      have same : ((b.normalize r).clearOthers r).grid.entry r = (b.normalize r).grid.entry r :=
        rest r (by simp)
      rw [same]
      exact (divided.row c).mono (by omega)
    · have entry := cleared r (mem hr) c
      rw [others r hr] at entry
      rcases entry with same | zero | ⟨-, sum⟩
      · exact (show Within u _ from same ▸ all r c).mono (by omega)
      · exact (show Within u _ from zero ▸ Binary64.within_zero).mono (by omega)
      · have product := (all r (i.castAdd k)).neg.mul (divided.row c) (by omega) (by omega)
          (by omega) (by omega)
        have grown := ((all r c).mono (by omega)).add product (by omega) (by omega)
        exact ((show _ = _ from sum) ▸ grown).mono (by omega)

/-- One column on the way to the identity, from the search for its pivot on. -/
theorem ends_diagonalColumn_within (threshold : Threshold j epsilon) {u : Int}
    (rows : ∀ r, i ≤ r → ∀ c, Within e (b.grid.entry r c))
    (all : ∀ r c, Within u (b.grid.entry r c)) (low : 0 ≤ e) (order : e ≤ u)
    (high : u + e + j + 2 ≤ 1023) :
    Ends (fun _ => True)
      (fun b' => (∀ r, i < r → ∀ c, Within (e + 2) (b'.grid.entry r c)) ∧
        ∀ r c, Within (u + e + j + 2) (b'.grid.entry r c))
      ((b.bringUp epsilon i).map fun b => (b.normalize i).clearOthers i) := by
  refine (ends_bringUp_raised threshold rows).map fun b' h => ?_
  refine h.1.within_clearOthers (fun r c => ?_) low order high
  rcases lt_or_ge r i with hr | hr
  · rw [h.2 r hr]
    exact all r c
  · exact (h.1.rows r hr c).mono order

/-- **On the way to the identity** each column adds to the exponent what it was at first, the places
of the tolerance, and two places for every unknown. -/
theorem ends_diagonalize_within (threshold : Threshold j epsilon) (low : 0 ≤ e)
    (high : e + n * (e + 2 * n + j + 2) ≤ 1023) (start : ∀ r c, Within e (b.grid.entry r c)) :
    Ends (fun _ => True)
      (fun b' => ∀ r c, Within (e + n * (e + 2 * n + j + 2)) (b'.grid.entry r c))
      (b.diagonalize epsilon) := by
  have run : Ends (fun _ => True) (fun b' : Board n (n + k) Float =>
      (∀ r : Fin n, n ≤ (r : Nat) → ∀ c, Within (e + 2 * n) (b'.grid.entry r c)) ∧
        ∀ r c, Within (e + n * (e + 2 * n + j + 2)) (b'.grid.entry r c)) (b.diagonalize epsilon) := by
    unfold diagonalize
    -- the rows that are to come stay small, or the next pivot would not bound what follows
    refine ends_foldlM_finRange (fun i (b' : Board n (n + k) Float) =>
      (∀ r : Fin n, i ≤ (r : Nat) → ∀ c, Within (e + 2 * i) (b'.grid.entry r c)) ∧
        ∀ r c, Within (e + i * (e + 2 * n + j + 2)) (b'.grid.entry r c)) ?_ ?_
    · exact ⟨fun r _ c => (start r c).mono (by omega), fun r c => (start r c).mono (by simp)⟩
    · rintro i b' ⟨rows, all⟩
      have hi : (i : Int) + 1 ≤ n := by exact_mod_cast i.isLt
      generalize growth : e + 2 * n + j + 2 = d at *
      have twice : (i : Int) * 2 ≤ i * d := Int.mul_le_mul_of_nonneg_left (by omega) (by omega)
      have next : (i + 1 : Int) * d = i * d + d := by ring
      have most : (i + 1 : Int) * d ≤ n * d := Int.mul_le_mul_of_nonneg_right hi (by omega)
      refine (ends_diagonalColumn_within threshold rows all (by omega) (by omega) (by omega)).imp
        (fun _ h => h) fun b'' h => ⟨fun r hr c => (h.1 r hr c).mono ?_, fun r c => (h.2 r c).mono ?_⟩
      · push_cast
        omega
      · push_cast
        omega
  exact run.imp (fun _ h => h) fun _ h => h.2

end Columns

end Board

end Chalkboard
