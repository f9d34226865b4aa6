import Mathlib.Data.Fin.Tuple.Basic
import Chalkboard.Proofs.Grid.Pivot

/-!
# Choosing columns

A row operation does the same to every column, and the pivot search reads one of them. So both may
be carried out on a choice of columns: what comes out is the same choice of what would have come
out.

* `Grid.columns` — any choice of columns, in any order.
* `Grid.chooseRight` — the left block whole, and beside it a choice of the right sides.
* `Grid.beside_chooseRight`, `Grid.lastColumn_chooseRight` — one right side is a column of constants.
-/

namespace Chalkboard

universe u

variable {m n k k' w w' : Nat} {α : Type u}

namespace Grid

/-! ## Any columns -/

/-- The grid whose column `j` is column `f j` of `g`. -/
def columns (g : Grid m w α) (f : Fin w' → Fin w) : Grid m w' α :=
  ofFn fun i j => g.entry i (f j)

@[simp] theorem entry_columns (g : Grid m w α) (f : Fin w' → Fin w) (i : Fin m) (j : Fin w') :
    (g.columns f).entry i j = g.entry i (f j) := by
  rw [columns, entry_ofFn]

theorem swapRows_columns (g : Grid m w α) (f : Fin w' → Fin w) (i i' : Fin m) :
    (g.columns f).swapRows i i' = (g.swapRows i i').columns f := by
  apply ext_entry
  intro r j
  simp only [entry_swapRows, entry_columns]

/-- An entry is set in one column of the choice only. -/
theorem setEntry_columns (g : Grid m w α) {f : Fin w' → Fin w} {j : Fin w'}
    (once : ∀ j', f j' = f j ↔ j' = j) (i : Fin m) (v : α) :
    (g.columns f).setEntry i j v = (g.setEntry i (f j) v).columns f := by
  apply ext_entry
  intro r j'
  simp only [entry_setEntry, entry_columns, eq_comm (a := f j), eq_comm (a := j), once]

section Arithmetic

variable [Scalar α]

theorem scaleRow_columns (g : Grid m w α) (f : Fin w' → Fin w) (i : Fin m) (factor : α) :
    (g.columns f).scaleRow i factor = (g.scaleRow i factor).columns f := by
  apply ext_entry
  intro r j
  simp only [entry_scaleRow, entry_columns]

theorem addScaledRow_columns (g : Grid m w α) (f : Fin w' → Fin w) (target source : Fin m)
    (factor : α) :
    (g.columns f).addScaledRow target source factor =
      (g.addScaledRow target source factor).columns f := by
  apply ext_entry
  intro r j
  simp only [entry_addScaledRow, entry_columns]

theorem pivotBelow_columns (g : Grid m w α) (f : Fin w' → Fin w) (j : Fin w') (top : Fin m) :
    (g.columns f).pivotBelow j top = g.pivotBelow (f j) top :=
  pivotBelow_congr fun i _ => entry_columns g f i j

end Arithmetic

/-! ## The left block and some right sides -/

/-- The columns of the left block, and of the right sides those that `p` names. -/
def withRight (p : Fin k' → Fin k) : Fin (n + k') → Fin (n + k) :=
  Fin.append (Fin.castAdd k) fun c => (p c).natAdd n

theorem withRight_castAdd (p : Fin k' → Fin k) (i : Fin n) :
    withRight p (i.castAdd k') = i.castAdd k :=
  Fin.append_left _ _ i

theorem withRight_natAdd (p : Fin k' → Fin k) (c : Fin k') :
    withRight p (c.natAdd n) = (p c).natAdd n :=
  Fin.append_right _ _ c

/-- No column of the left block is chosen twice. -/
theorem withRight_eq_iff (p : Fin k' → Fin k) (i : Fin n) (j : Fin (n + k')) :
    withRight p j = withRight p (i.castAdd k') ↔ j = i.castAdd k' := by
  rw [withRight_castAdd]
  refine Fin.addCases (fun c => ?_) (fun c => ?_) j
  · rw [withRight_castAdd, Fin.castAdd_inj, Fin.castAdd_inj]
  · -- a right side is behind the left block on both sides
    rw [withRight_natAdd]
    constructor <;> intro h <;> have := congrArg Fin.val h <;>
      simp only [Fin.val_natAdd, Fin.val_castAdd] at this <;> omega

/-- The left block, and of the right sides those that `p` names. -/
def chooseRight (p : Fin k' → Fin k) (g : Grid m (n + k) α) : Grid m (n + k') α :=
  g.columns (withRight p)

theorem entry_chooseRight (p : Fin k' → Fin k) (g : Grid m (n + k) α) (i : Fin m) (j : Fin n) :
    (g.chooseRight p).entry i (j.castAdd k') = g.entry i (j.castAdd k) := by
  rw [chooseRight, entry_columns, withRight_castAdd]

theorem entry_chooseRight_natAdd (p : Fin k' → Fin k) (g : Grid m (n + k) α) (i : Fin m)
    (c : Fin k') : (g.chooseRight p).entry i (c.natAdd n) = g.entry i ((p c).natAdd n) := by
  rw [chooseRight, entry_columns, withRight_natAdd]

theorem setEntry_chooseRight (p : Fin k' → Fin k) (g : Grid m (n + k) α) (i : Fin m) (j : Fin n)
    (v : α) :
    (g.chooseRight p).setEntry i (j.castAdd k') v =
      (g.setEntry i (j.castAdd k) v).chooseRight p := by
  rw [chooseRight, setEntry_columns g (withRight_eq_iff p j), withRight_castAdd]
  rfl

theorem pivotBelow_chooseRight [Scalar α] (p : Fin k' → Fin k) (g : Grid m (n + k) α) (i : Fin n)
    (top : Fin m) :
    (g.chooseRight p).pivotBelow (i.castAdd k') top = g.pivotBelow (i.castAdd k) top := by
  rw [chooseRight, pivotBelow_columns, withRight_castAdd]

/-! ## One right side -/

/-- Of two grids side by side, the left one with a column of the right one. -/
theorem beside_chooseRight (g : Grid m n α) (h : Grid m k α) (j : Fin k) :
    (g.beside h).chooseRight (fun _ : Fin 1 => j) = g.augment (h.column j) := by
  apply ext_entry
  intro i c
  refine Fin.lastCases ?_ (fun c => ?_) c
  · show ((g.beside h).chooseRight fun _ : Fin 1 => j).entry i ((0 : Fin 1).natAdd n) = _
    rw [entry_chooseRight_natAdd, entry_beside_natAdd, entry_augment_last]
    exact (h.getElem_column j i i.isLt).symm
  · show ((g.beside h).chooseRight fun _ : Fin 1 => j).entry i (c.castAdd 1) = _
    rw [entry_chooseRight, entry_beside_castAdd, entry_augment_castSucc]

/-- The only right side that was chosen. -/
theorem lastColumn_chooseRight (g : Grid m (n + k) α) (j : Fin k) :
    lastColumn (g.chooseRight fun _ : Fin 1 => j) = g.rightBlock.column j := by
  ext i hi
  rw [getElem_lastColumn, getElem_column, entry_rightBlock]
  exact g.entry_chooseRight_natAdd (fun _ : Fin 1 => j) ⟨i, hi⟩ 0

end Grid

end Chalkboard
