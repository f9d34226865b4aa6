import Mathlib.Data.Matrix.Mul
import Mathlib.Tactic.Ring
import Chalkboard.Proofs.Grid.Matrix
import Chalkboard.Grid.RowOp

/-!
# Row operations keep the solutions

A grid of `n` unknowns with `k` right sides beside it is read as one system without right sides: the
columns of numbers that it takes to zero. An operation on rows keeps them all, provided that it can
be undone: a swap always, a scaling by another factor than zero, a subtraction from other rows.

* `Grid.Annihilates`, `Grid.SameSolutions` — a column that all rows take to zero, and two grids with
  the same such columns.
* `Grid.subtractRows` — multiples of one row subtracted from the others, all at once: what one
  column of an elimination comes to.
* `Grid.annihilates_append_iff` — with a right side beside the coefficients, `(x, -y)` is taken to
  zero exactly if the left block takes `x` to what the right block takes `y` to.
* `Grid.solutions` — the solutions of the system whose constants are the last column.
-/

namespace Chalkboard

universe u

open scoped BigOperators Matrix

namespace Grid

variable {m n k : Nat} {α : Type u}

/-! ## Swaps -/

theorem row_swapRows (g : Grid m n α) (i i' r : Fin m) :
    (g.swapRows i i').entry r =
      if r = i then g.entry i' else if r = i' then g.entry i else g.entry r := by
  funext j
  rw [entry_swapRows]
  split_ifs <;> rfl

theorem swapRows_self (g : Grid m n α) (i : Fin m) : g.swapRows i i = g := by
  apply ext_entry
  intro r j
  rw [entry_swapRows]
  split_ifs with h
  · rw [h]
  · rfl

theorem swapRows_swapRows (g : Grid m n α) (i i' : Fin m) :
    (g.swapRows i i').swapRows i i' = g := by
  apply ext_entry
  intro r j
  simp only [entry_swapRows]
  by_cases hi : r = i
  · subst hi
    by_cases hi' : i' = r <;> simp [hi']
  · by_cases hi' : r = i'
    · subst hi'
      simp [hi]
    · simp [hi, hi']

/-! ## Annihilated columns -/

variable {K : Type u} [Field K]

/-- **`g.Annihilates v`** — every row of `g` takes `v` to zero. -/
def Annihilates (g : Grid m n K) (v : Fin n → K) : Prop :=
  ∀ i, g.entry i ⬝ᵥ v = 0

/-- **`g.SameSolutions h`** — `g` and `h` annihilate the same columns. -/
def SameSolutions (g h : Grid m n K) : Prop :=
  ∀ v, g.Annihilates v ↔ h.Annihilates v

theorem SameSolutions.refl (g : Grid m n K) : g.SameSolutions g :=
  fun _ => Iff.rfl

theorem SameSolutions.trans {f g h : Grid m n K} (hfg : f.SameSolutions g)
    (hgh : g.SameSolutions h) : f.SameSolutions h :=
  fun v => (hfg v).trans (hgh v)

theorem Annihilates.swapRows {g : Grid m n K} {v : Fin n → K} (h : g.Annihilates v)
    (i i' : Fin m) : (g.swapRows i i').Annihilates v := by
  intro r
  rw [row_swapRows]
  split_ifs
  · exact h i'
  · exact h i
  · exact h r

theorem sameSolutions_swapRows (g : Grid m n K) (i i' : Fin m) :
    (g.swapRows i i').SameSolutions g := by
  intro v
  constructor
  · intro h
    rw [← swapRows_swapRows g i i']
    exact h.swapRows i i'
  · exact fun h => h.swapRows i i'

/-! ## Scalings -/

theorem row_scaleRow (g : Grid m n K) (i r : Fin m) (factor : K) :
    (g.scaleRow i factor).entry r = if i = r then factor • g.entry i else g.entry r := by
  funext j
  rw [entry_scaleRow]
  split_ifs
  · exact mul_comm _ _
  · rfl

theorem sameSolutions_scaleRow (g : Grid m n K) (i : Fin m) {factor : K} (h : factor ≠ 0) :
    (g.scaleRow i factor).SameSolutions g := by
  intro v
  refine forall_congr' fun r => ?_
  rw [row_scaleRow]
  split_ifs with hr
  · subst hr
    rw [smul_dotProduct, smul_eq_mul, mul_eq_zero, or_iff_right h]
  · rfl

/-! ## Subtractions -/

/-- `g` with row `i` subtracted from all rows, `c r` times from row `r`. -/
def subtractRows (g : Grid m n K) (i : Fin m) (c : Fin m → K) : Grid m n K :=
  ofFn fun r j => g.entry r j - c r * g.entry i j

@[simp] theorem entry_subtractRows (g : Grid m n K) (i r : Fin m) (c : Fin m → K) (j : Fin n) :
    (g.subtractRows i c).entry r j = g.entry r j - c r * g.entry i j := by
  rw [subtractRows, entry_ofFn]

theorem row_subtractRows (g : Grid m n K) (i r : Fin m) (c : Fin m → K) :
    (g.subtractRows i c).entry r = g.entry r - c r • g.entry i := by
  funext j
  rw [entry_subtractRows]
  rfl

theorem subtractRows_zero (g : Grid m n K) (i : Fin m) : g.subtractRows i 0 = g := by
  apply ext_entry
  intro r j
  rw [entry_subtractRows, Pi.zero_apply, zero_mul, sub_zero]

/-- One row operation subtracts from one row. -/
theorem addScaledRow_neg (g : Grid m n K) (target source : Fin m) (factor : K) :
    g.addScaledRow target source (-factor) = g.subtractRows source (Pi.single target factor) := by
  apply ext_entry
  intro r j
  rw [entry_addScaledRow, entry_subtractRows]
  split_ifs with h
  · subst h
    rw [Pi.single_eq_same]
    ring
  · rw [Pi.single_eq_of_ne (Ne.symm h)]
    ring

/-- A row that keeps itself can be added back. -/
theorem sameSolutions_subtractRows (g : Grid m n K) (i : Fin m) {c : Fin m → K} (h : c i = 0) :
    (g.subtractRows i c).SameSolutions g := by
  intro v
  have row (r : Fin m) :
      (g.subtractRows i c).entry r ⬝ᵥ v = g.entry r ⬝ᵥ v - c r * (g.entry i ⬝ᵥ v) := by
    rw [row_subtractRows, sub_dotProduct, smul_dotProduct, smul_eq_mul]
  constructor
  · intro hv
    -- row `i` is the same in both grids
    have hi : g.entry i ⬝ᵥ v = 0 := by
      have := hv i
      rwa [row, h, zero_mul, sub_zero] at this
    intro r
    have := hv r
    rwa [row, hi, mul_zero, sub_zero] at this
  · intro hv r
    rw [row, hv r, hv i, mul_zero, sub_zero]

/-! ## Right sides -/

/-- A row on numbers for the left block and for the right block. -/
theorem entry_dotProduct_append (g : Grid m (n + k) K) (i : Fin m) (x : Fin n → K)
    (y : Fin k → K) :
    g.entry i ⬝ᵥ Fin.append x y = g.leftBlock.entry i ⬝ᵥ x + g.rightBlock.entry i ⬝ᵥ y := by
  show ∑ j, g.entry i j * Fin.append x y j = _
  rw [Fin.sum_univ_add]
  refine congrArg₂ (· + ·) (Finset.sum_congr rfl fun j _ => ?_) (Finset.sum_congr rfl fun j _ => ?_)
  · rw [Fin.append_left, entry_leftBlock]
  · rw [Fin.append_right, entry_rightBlock]

theorem annihilates_append_iff (g : Grid m (n + k) K) (x : Fin n → K) (y : Fin k → K) :
    g.Annihilates (Fin.append x (-y)) ↔
      g.leftBlock.toMatrix *ᵥ x = g.rightBlock.toMatrix *ᵥ y := by
  rw [funext_iff]
  refine forall_congr' fun i => ?_
  rw [entry_dotProduct_append, dotProduct_neg, ← sub_eq_add_neg, sub_eq_zero]
  rfl

theorem annihilates_append_zero_iff (g : Grid m (n + k) K) (v : Fin n → K) :
    g.Annihilates (Fin.append v 0) ↔ g.leftBlock.toMatrix *ᵥ v = 0 := by
  have h := g.annihilates_append_iff v 0
  rwa [neg_zero, Matrix.mulVec_zero] at h

/-! ## Solutions -/

/-- The numbers that satisfy the equations of a grid whose last column holds the constants. -/
def solutions (g : Grid m (n + 1) K) : Set (Fin n → K) :=
  {x | ∀ i, ∑ j : Fin n, g.entry i j.castSucc * x j = g.entry i (Fin.last n)}

/-- A solution, with `-1` for the constants, is a column that all rows take to zero. -/
theorem annihilates_append_iff_mem_solutions (g : Grid m (n + 1) K) (x : Fin n → K) :
    Annihilates (n := n + 1) g (Fin.append x (-1)) ↔ x ∈ g.solutions := by
  rw [annihilates_append_iff, funext_iff]
  refine forall_congr' fun i => ?_
  show ∑ j, (leftBlock (k := 1) g).entry i j * x j =
    ∑ j : Fin 1, (rightBlock (k := 1) g).entry i j * 1 ↔ _
  rw [Fin.sum_univ_one, mul_one, entry_rightBlock]
  simp only [entry_leftBlock]
  rfl

theorem SameSolutions.solutions_eq {g h : Grid m (n + 1) K} (same : g.SameSolutions h) :
    g.solutions = h.solutions := by
  ext x
  rw [← annihilates_append_iff_mem_solutions, ← annihilates_append_iff_mem_solutions]
  exact same _

theorem mem_solutions_augment {a : Grid m n K} {b : Vector K m} {x : Fin n → K} :
    x ∈ (a.augment b).solutions ↔ a.toMatrix *ᵥ x = b.get := by
  rw [funext_iff]
  refine forall_congr' fun i => ?_
  simp only [entry_augment_castSucc, entry_augment_last]
  rfl

end Grid

end Chalkboard
