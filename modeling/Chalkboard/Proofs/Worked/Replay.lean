import Chalkboard.System.Basic
import Chalkboard.Worked.Outcome

/-!
# Replaying row operations

The row operations of a worked solution can be carried out once more, on the matrix that stands
before the first of them. An elimination does not trust its arithmetic everywhere: where it makes a
pivot one or clears an entry it writes the exact number over the result. So there are two ways to
replay an operation.

* `RowOp.replay` — the operation, and then the exact number over the entry that it is meant for.
* `RowOp.apply` — the operation alone.
* `Replays act g steps h` — from `g` on, every step is a row operation with the matrix that `act`
  makes of the one before, and the last is `h`.
* `LinearSystem.Traced` — an ending whose steps can be replayed.
-/

namespace Chalkboard

universe u

variable {m n k : Nat} {α : Type u}

/-- `g` with `v` in row `i` and column `j`, if there is such an entry. -/
def Grid.put (g : Grid m n α) (i j : Nat) (v : α) : Grid m n α :=
  if h : i < m ∧ j < n then g.setEntry ⟨i, h.1⟩ ⟨j, h.2⟩ v else g

theorem Grid.setEntry_eq_self {g : Grid m n α} {i : Fin m} {j : Fin n} {v : α}
    (h : g.entry i j = v) : g.setEntry i j v = g := by
  apply ext_entry
  intro i' j'
  rw [entry_setEntry]
  by_cases hij : i = i' ∧ j = j'
  · rw [if_pos hij, ← hij.1, ← hij.2, h]
  · rw [if_neg hij]

/-! ## One operation -/

namespace RowOp

variable [Scalar α]

/-- Writes the exact number over the entry that an operation is meant for: one over the pivot of a
scaled row, zero over the entry that a subtraction clears. -/
def overwrite (op : RowOp α) (g : Grid m n α) : Grid m n α :=
  match op with
  | .swap _ _ => g
  | .scale row _ => g.put row row 1
  | .addScaled target source _ => g.put target source 0

/-- An operation as an elimination carries it out. -/
def replay (op : RowOp α) (g : Grid m n α) : Grid m n α :=
  op.overwrite (op.apply g)

theorem replay_swap (g : Grid m n α) (i j : Fin m) :
    (RowOp.swap i j : RowOp α).replay g = g.swapRows i j :=
  apply_swap g i j

theorem replay_scale (g : Grid n (n + k) α) (i : Fin n) (factor : α) :
    (RowOp.scale i factor).replay g = (g.scaleRow i factor).setEntry i (i.castAdd k) 1 := by
  rw [replay, apply_scale]
  exact dif_pos ⟨i.isLt, (i.castAdd k).isLt⟩

theorem replay_addScaled (g : Grid n (n + k) α) (r i : Fin n) (factor : α) :
    (RowOp.addScaled r i factor).replay g =
      (g.addScaledRow r i factor).setEntry r (i.castAdd k) 0 := by
  rw [replay, apply_addScaled]
  exact dif_pos ⟨r.isLt, (i.castAdd k).isLt⟩

end RowOp

/-! ## A record of operations -/

/-- The matrix with a right side that a step shows. -/
def Step.snapshot? : Step α → Option (List (List α))
  | .augmented _ rows => some rows
  | .rowOperation _ rows => some rows
  | _ => none

/-- A step that shows no matrix is no row operation. -/
theorem Step.rowOp?_of_snapshot? {step : Step α} (h : step.snapshot? = none) :
    step.rowOp? = none := by
  cases step with
  | rowOperation op rows => exact nomatch h
  | _ => rfl

/-- **`Replays act g steps h`** — the steps are row operations, each with the matrix that `act`
makes of the one before it. The first is carried out on `g`, and the last leaves `h`. -/
inductive Replays (act : RowOp α → Grid m n α → Grid m n α) :
    Grid m n α → List (Step α) → Grid m n α → Prop where
  | done (g : Grid m n α) : Replays act g [] g
  | step (op : RowOp α) {g : Grid m n α} {steps : List (Step α)} {h : Grid m n α} :
    Replays act (act op g) steps h →
      Replays act g (.rowOperation op (act op g).toRows :: steps) h

namespace Replays

variable {act : RowOp α → Grid m n α → Grid m n α} {f g h : Grid m n α}
  {steps steps' : List (Step α)}

theorem trans (first : Replays act f steps g) (rest : Replays act g steps' h) :
    Replays act f (steps ++ steps') h := by
  induction first with
  | done f => exact rest
  | step op _ ih => exact .step op (ih rest)

/-- The last matrix is what the operations on record make of the first. -/
theorem last_eq (h : Replays act f steps g) :
    g = (steps.filterMap Step.rowOp?).foldl (fun f op => act op f) f := by
  induction h with
  | done f => rfl
  | step op _ ih => exact ih

end Replays

/-! ## Whole endings -/

namespace LinearSystem

/-- **`s.Traced act outcome last`** — the steps of an ending begin with the matrix of the system.
Row operations follow, each with the matrix that `act` makes of the one before, and they lead to
`last`. If there is a solution then `last` is shown once more. No other matrix with a right side is
shown. -/
def Traced (s : LinearSystem n α) (act : RowOp α → Grid n (n + 1) α → Grid n (n + 1) α)
    (outcome : Outcome n α) (last : Grid n (n + 1) α) : Prop :=
  ∃ closing operations remarks,
    outcome.steps = .system s.equations ::
      .augmented "Augmented matrix [A | b]" s.augmented.toRows :: (operations ++
        (if outcome.isSolved then [.augmented closing last.toRows] else []) ++ remarks) ∧
    Replays act s.augmented operations last ∧ ∀ step ∈ remarks, step.snapshot? = none

/-- The last matrix of a traced ending is what its operations make of the first. -/
theorem Traced.last_eq {s : LinearSystem n α} {act : RowOp α → Grid n (n + 1) α → Grid n (n + 1) α}
    {outcome : Outcome n α} {last : Grid n (n + 1) α} (h : s.Traced act outcome last) :
    last = (outcome.steps.filterMap Step.rowOp?).foldl (fun g op => act op g) s.augmented := by
  obtain ⟨closing, operations, remarks, hsteps, replays, silent⟩ := h
  have hremarks : remarks.filterMap Step.rowOp? = [] :=
    List.filterMap_eq_nil_iff.mpr fun step hstep => Step.rowOp?_of_snapshot? (silent step hstep)
  have hclosing : (if outcome.isSolved then [Step.augmented closing last.toRows]
      else []).filterMap Step.rowOp? = [] := by
    cases outcome.isSolved <;> rfl
  rw [hsteps, List.filterMap_cons_none rfl, List.filterMap_cons_none rfl, List.filterMap_append,
    List.filterMap_append, hremarks, hclosing, List.append_nil, List.append_nil]
  exact replays.last_eq

end LinearSystem

end Chalkboard
