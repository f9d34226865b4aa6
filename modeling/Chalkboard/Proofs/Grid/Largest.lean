import Chalkboard.Proofs.Decimal.Pattern
import Chalkboard.Proofs.Grid.Pivot

/-!
# The pivot search among binary64 numbers

Numbers are compared as they are, infinite ones included, with two zeros that are equal. As long as
none of the entries that the search compares is not a number, magnitudes are ordered like the whole
numbers that count them, and the search finds the first of the largest.

* `Grid.isPivot_pivotBelow_order` — the search goes by the places of the magnitudes among all
  numbers.
* `Grid.IsFirstLargest` — what it finds, in the comparisons of the numbers themselves.
* `Grid.pivotBelow_first_largest` — it finds such a row, and there is no other.
-/

namespace Chalkboard

open Binary64 (order isNaN_abs lt_iff_order le_iff_order)

variable {m n : Nat}

namespace Grid

variable {g : Grid m n Float} {col : Fin n} {top : Fin m}

/-- Among numbers the search goes by the places of the magnitudes. -/
theorem isPivot_pivotBelow_order (g : Grid m n Float) (col : Fin n) (top : Fin m)
    (numbers : ∀ i, top ≤ i → (g.entry i col).isNaN = false) :
    (g.pivotBelow col top).2 = (g.entry (g.pivotBelow col top).1 col).abs ∧
      IsPivot (fun i => order (g.entry i col).abs) top (g.pivotBelow col top).1 := by
  have magnitudes (i : Fin m) (hi : top ≤ i) : (g.entry i col).abs.isNaN = false :=
    (isNaN_abs _).trans (numbers i hi)
  refine g.isPivot_pivotBelow col top _ fun i i' hi hi' => ?_
  exact decide_eq_decide.mpr (lt_iff_order (magnitudes i hi) (magnitudes i' hi'))

/-- **`g.IsFirstLargest col top r`** — among the rows from `top` on, `r` is the first whose entry in
column `col` has the largest magnitude. -/
structure IsFirstLargest (g : Grid m n Float) (col : Fin n) (top r : Fin m) : Prop where
  below : top ≤ r
  largest : ∀ i, top ≤ i → (g.entry i col).abs ≤ (g.entry r col).abs
  first : ∀ i, top ≤ i → i < r → (g.entry i col).abs < (g.entry r col).abs

/-- The comparisons of numbers are those of their places. -/
theorem isFirstLargest_iff (numbers : ∀ i, top ≤ i → (g.entry i col).isNaN = false) (r : Fin m) :
    g.IsFirstLargest col top r ↔ IsPivot (fun i => order (g.entry i col).abs) top r := by
  have magnitudes (i : Fin m) (hi : top ≤ i) : (g.entry i col).abs.isNaN = false :=
    (isNaN_abs _).trans (numbers i hi)
  constructor
  · intro h
    have hr := magnitudes r h.below
    refine ⟨h.below, fun i hi => ?_, fun i hi hir => ?_⟩
    · exact (le_iff_order (magnitudes i hi) hr).mp (h.largest i hi)
    · exact (lt_iff_order (magnitudes i hi) hr).mp (h.first i hi hir)
  · intro h
    have hr := magnitudes r h.below
    refine ⟨h.below, fun i hi => ?_, fun i hi hir => ?_⟩
    · exact (le_iff_order (magnitudes i hi) hr).mpr (h.largest i hi)
    · exact (lt_iff_order (magnitudes i hi) hr).mpr (h.first i hi hir)

/-- The search finds such a row, and returns it with the magnitude of its entry. -/
theorem isFirstLargest_pivotBelow (g : Grid m n Float) (col : Fin n) (top : Fin m)
    (numbers : ∀ i, top ≤ i → (g.entry i col).isNaN = false) :
    (g.pivotBelow col top).2 = (g.entry (g.pivotBelow col top).1 col).abs ∧
      g.IsFirstLargest col top (g.pivotBelow col top).1 := by
  obtain ⟨magnitude, pivot⟩ := g.isPivot_pivotBelow_order col top numbers
  exact ⟨magnitude, (isFirstLargest_iff numbers _).mpr pivot⟩

theorem IsFirstLargest.unique {r r' : Fin m}
    (numbers : ∀ i, top ≤ i → (g.entry i col).isNaN = false) (h : g.IsFirstLargest col top r)
    (h' : g.IsFirstLargest col top r') : r = r' :=
  ((isFirstLargest_iff numbers r).mp h).unique ((isFirstLargest_iff numbers r').mp h')

/-- **The pivot search finds the first largest entry** and returns its row with its magnitude,
whatever the numbers above `top` and in the other columns are. No other row is the first with a
largest entry. -/
theorem pivotBelow_first_largest (numbers : ∀ i, top ≤ i → (g.entry i col).isNaN = false) :
    ∃ r, g.pivotBelow col top = (r, (g.entry r col).abs) ∧ g.IsFirstLargest col top r ∧
      ∀ r', g.IsFirstLargest col top r' → r' = r := by
  obtain ⟨magnitude, found⟩ := g.isFirstLargest_pivotBelow col top numbers
  exact ⟨_, Prod.ext rfl magnitude, found, fun r' h => h.unique numbers found⟩

/-- Two entries of the same magnitude, and one above that is not a number. -/
def tiedColumn : Grid 5 1 Float :=
  .ofFn ![![0.0 / 0.0], ![1.0], ![-3.0], ![3.0], ![-2.0]]

theorem pivotBelow_first_largest_tied :
    (∀ i, 1 ≤ i → (tiedColumn.entry i 0).isNaN = false) ∧ tiedColumn.pivotBelow 0 1 = (2, 3.0) ∧
      tiedColumn.IsFirstLargest 0 1 2 := by
  have numbers : ∀ i, 1 ≤ i → (tiedColumn.entry i 0).isNaN = false := by decide +kernel
  have found : tiedColumn.pivotBelow 0 1 = (2, 3.0) := by decide +kernel
  obtain ⟨r, run, first, -⟩ := pivotBelow_first_largest numbers
  obtain rfl : 2 = r := congrArg Prod.fst (found.symm.trans run)
  exact ⟨numbers, found, first⟩

end Grid

end Chalkboard
