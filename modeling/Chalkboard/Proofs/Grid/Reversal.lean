import Chalkboard.Proofs.System.Solution

/-!
# Sequences of row operations

Whatever row operations are carried out one after the other, nothing that the rows say is lost: the
operations can be taken back in reverse order, and every matrix on the way has the same solutions.
Two operations are excluded, a scaling by zero and a row that is added to itself.

* `RowOp.within_or_outside` — all that one operation can do.
* `RowOp.Reversible`, `RowOp.inverse` — the operations that can be taken back, and by which one.
* `RowOp.apply_inverse`, `RowOp.sameSolutions_apply`, `RowOp.entry_apply_of_notMem` — what one
  operation keeps.
* `Grid.operate` — a sequence of operations, carried out from the first to the last.
* `Grid.operate_reversible` — the three statements for a sequence.
-/

namespace Chalkboard

universe u

open scoped BigOperators Matrix

variable {m n : Nat} {α : Type u} {K : Type u} [Field K]

/-! ## The way back from one operation -/

namespace Grid

theorem scaleRow_scaleRow_one_div (g : Grid m n K) (i : Fin m) {factor : K} (h : factor ≠ 0) :
    (g.scaleRow i factor).scaleRow i (1 / factor) = g := by
  apply ext_entry
  intro r j
  simp only [entry_scaleRow, if_true]
  split_ifs with hr
  · rw [mul_assoc, mul_one_div_cancel h, mul_one, hr]
  · rfl

theorem addScaledRow_addScaledRow_neg (g : Grid m n K) {target source : Fin m}
    (h : target ≠ source) (factor : K) :
    (g.addScaledRow target source factor).addScaledRow target source (-factor) = g := by
  apply ext_entry
  intro r j
  simp only [entry_addScaledRow, if_true, if_neg h]
  split_ifs with hr
  · rw [neg_mul, add_neg_cancel_right, hr]
  · rfl

theorem sameSolutions_addScaledRow (g : Grid m n K) {target source : Fin m} (h : target ≠ source)
    (factor : K) : (g.addScaledRow target source factor).SameSolutions g := by
  have subtraction : g.addScaledRow target source factor =
      g.subtractRows source (Pi.single target (-factor)) := by
    rw [← addScaledRow_neg, neg_neg]
  rw [subtraction]
  exact sameSolutions_subtractRows g source (Pi.single_eq_of_ne h.symm _)

end Grid

namespace RowOp

/-- The rows that an operation names. -/
def rows : RowOp α → List Nat
  | .swap first second => [first, second]
  | .scale row _ => [row]
  | .addScaled target source _ => [target, source]

/-- **What an operation can do** — it exchanges, scales or adds rows of the grid, or else it names a
row that the grid does not have. -/
theorem within_or_outside (op : RowOp α) (m : Nat) :
    (∃ first second : Fin m, op = .swap first second) ∨
      (∃ (row : Fin m) (factor : α), op = .scale row factor) ∨
      (∃ (target source : Fin m) (factor : α), op = .addScaled target source factor) ∨
      ∃ r ∈ op.rows, m ≤ r := by
  by_cases within : ∀ r ∈ op.rows, r < m
  · cases op with
    | swap first second =>
      have hfirst : first < m := within first (by simp [rows])
      have hsecond : second < m := within second (by simp [rows])
      exact .inl ⟨⟨first, hfirst⟩, ⟨second, hsecond⟩, rfl⟩
    | scale row factor =>
      have hrow : row < m := within row (by simp [rows])
      exact .inr (.inl ⟨⟨row, hrow⟩, factor, rfl⟩)
    | addScaled target source factor =>
      have htarget : target < m := within target (by simp [rows])
      have hsource : source < m := within source (by simp [rows])
      exact .inr (.inr (.inl ⟨⟨target, htarget⟩, ⟨source, hsource⟩, factor, rfl⟩))
  · push Not at within
    exact .inr (.inr (.inr within))

section Outside

variable [Add α] [Mul α]

/-- An operation that names a row which the grid does not have changes nothing. -/
theorem apply_of_outside {op : RowOp α} (outside : ∃ r ∈ op.rows, m ≤ r) (g : Grid m n α) :
    op.apply g = g := by
  obtain ⟨r, named, hr⟩ := outside
  cases op with
  | swap first second =>
    refine dif_neg fun within => ?_
    simp only [rows, List.mem_cons, List.not_mem_nil, or_false] at named
    omega
  | scale row factor =>
    refine dif_neg fun within => ?_
    rw [rows, List.mem_singleton] at named
    omega
  | addScaled target source factor =>
    refine dif_neg fun within => ?_
    simp only [rows, List.mem_cons, List.not_mem_nil, or_false] at named
    omega

/-- **One operation leaves the rows that it does not name.** -/
theorem entry_apply_of_notMem {op : RowOp α} (g : Grid m n α) {r : Fin m}
    (unnamed : (r : Nat) ∉ op.rows) : (op.apply g).entry r = g.entry r := by
  rcases op.within_or_outside m with
    ⟨first, second, rfl⟩ | ⟨row, factor, rfl⟩ | ⟨target, source, factor, rfl⟩ | outside
  · have hfirst : r ≠ first := fun e => unnamed (by simp [rows, e])
    have hsecond : r ≠ second := fun e => unnamed (by simp [rows, e])
    rw [apply_swap, Grid.row_swapRows, if_neg hfirst, if_neg hsecond]
  · have hrow : row ≠ r := fun e => unnamed (by simp [rows, e])
    funext j
    rw [apply_scale, Grid.entry_scaleRow, if_neg hrow]
  · have htarget : target ≠ r := fun e => unnamed (by simp [rows, e])
    funext j
    rw [apply_addScaled, Grid.entry_addScaledRow, if_neg htarget]
  · rw [apply_of_outside outside]

end Outside

/-- The operation that takes another one back. -/
def inverse : RowOp K → RowOp K
  | .swap first second => .swap first second
  | .scale row factor => .scale row (1 / factor)
  | .addScaled target source factor => .addScaled target source (-factor)

/-- **`op.Reversible`** — no row is multiplied by zero, and none is added to itself. -/
def Reversible : RowOp K → Prop
  | .swap _ _ => True
  | .scale _ factor => factor ≠ 0
  | .addScaled target source _ => target ≠ source

instance [DecidableEq K] : DecidablePred (Reversible (K := K))
  | .swap _ _ => inferInstanceAs (Decidable True)
  | .scale _ factor => inferInstanceAs (Decidable (factor ≠ 0))
  | .addScaled target source _ => inferInstanceAs (Decidable (target ≠ source))

theorem rows_inverse (op : RowOp K) : op.inverse.rows = op.rows := by
  cases op <;> rfl

variable {op : RowOp K}

/-- The way back can be taken back. -/
theorem Reversible.inverse (h : op.Reversible) : op.inverse.Reversible := by
  cases op with
  | swap first second => trivial
  | scale row factor => exact one_div_ne_zero h
  | addScaled target source factor => exact h

/-- **One operation is taken back** by its inverse. -/
theorem apply_inverse (h : op.Reversible) (g : Grid m n K) : op.inverse.apply (op.apply g) = g := by
  rcases op.within_or_outside m with
    ⟨first, second, rfl⟩ | ⟨row, factor, rfl⟩ | ⟨target, source, factor, rfl⟩ | outside
  · rw [RowOp.inverse, apply_swap, apply_swap, Grid.swapRows_swapRows]
  · rw [RowOp.inverse, apply_scale, apply_scale, Grid.scaleRow_scaleRow_one_div g row h]
  · have ne : target ≠ source := fun e => h (congrArg Fin.val e)
    rw [RowOp.inverse, apply_addScaled, apply_addScaled, Grid.addScaledRow_addScaledRow_neg g ne]
  · rw [apply_of_outside outside, apply_of_outside (op.rows_inverse.symm ▸ outside)]

/-- **One operation keeps the solutions.** -/
theorem sameSolutions_apply (h : op.Reversible) (g : Grid m n K) :
    (op.apply g).SameSolutions g := by
  rcases op.within_or_outside m with
    ⟨first, second, rfl⟩ | ⟨row, factor, rfl⟩ | ⟨target, source, factor, rfl⟩ | outside
  · rw [apply_swap]
    exact g.sameSolutions_swapRows first second
  · rw [apply_scale]
    exact g.sameSolutions_scaleRow row h
  · have ne : target ≠ source := fun e => h (congrArg Fin.val e)
    rw [apply_addScaled]
    exact g.sameSolutions_addScaledRow ne factor
  · rw [apply_of_outside outside]
    exact .refl g

end RowOp

/-! ## Sequences -/

namespace Grid

section Operate

variable [Add α] [Mul α]

/-- `g` after the operations, from the first to the last. -/
def operate (g : Grid m n α) (ops : List (RowOp α)) : Grid m n α :=
  ops.foldl (fun g op => op.apply g) g

@[simp] theorem operate_nil (g : Grid m n α) : g.operate [] = g :=
  rfl

@[simp] theorem operate_cons (g : Grid m n α) (op : RowOp α) (ops : List (RowOp α)) :
    g.operate (op :: ops) = (op.apply g).operate ops :=
  rfl

theorem operate_append (g : Grid m n α) (ops ops' : List (RowOp α)) :
    g.operate (ops ++ ops') = (g.operate ops).operate ops' :=
  List.foldl_append

end Operate

/-- **A sequence is taken back** by the inverse operations in reverse order. -/
theorem operate_inverse {ops : List (RowOp K)} (h : ∀ op ∈ ops, op.Reversible) (g : Grid m n K) :
    (g.operate ops).operate (ops.reverse.map RowOp.inverse) = g := by
  induction ops generalizing g with
  | nil => rfl
  | cons op ops ih =>
    -- the first operation is the last one to be taken back
    rw [List.reverse_cons, List.map_append, operate_append, operate_cons,
      ih (fun op' hop' => h op' (List.mem_cons_of_mem op hop'))]
    exact RowOp.apply_inverse (h op List.mem_cons_self) g

theorem sameSolutions_operate {ops : List (RowOp K)} (h : ∀ op ∈ ops, op.Reversible)
    (g : Grid m n K) : (g.operate ops).SameSolutions g := by
  induction ops generalizing g with
  | nil => exact .refl g
  | cons op ops ih =>
    have first : (op.apply g).SameSolutions g :=
      RowOp.sameSolutions_apply (h op List.mem_cons_self) g
    have rest := ih (fun op' hop' => h op' (List.mem_cons_of_mem op hop')) (op.apply g)
    exact rest.trans first

/-- **Row operations keep the solutions, and can be taken back.** Whatever sequence of them is
carried out on `[A | b]`, the solutions stay those of `A x = b`. A row that an operation does not name
is the same before and after it. And the inverse operations, themselves of this kind, lead back in
reverse order to the matrix that stood at the beginning. -/
theorem operate_reversible {ops : List (RowOp K)} (h : ∀ op ∈ ops, op.Reversible)
    (a : Grid m n K) (b : Vector K m) :
    ((a.augment b).operate ops).solutions = {x | a.toMatrix *ᵥ x = b.get} ∧
      (∀ before op after, ops = before ++ op :: after → ∀ r : Fin m, (r : Nat) ∉ op.rows →
        ((a.augment b).operate (before ++ [op])).row r = ((a.augment b).operate before).row r) ∧
      (∀ op ∈ ops.reverse.map RowOp.inverse, op.Reversible) ∧
      ((a.augment b).operate ops).operate (ops.reverse.map RowOp.inverse) = a.augment b := by
  refine ⟨?_, fun before op after _ r unnamed => ?_, fun op hop => ?_, operate_inverse h _⟩
  · rw [(sameSolutions_operate h _).solutions_eq]
    exact Set.ext fun x => mem_solutions_augment
  · rw [operate_append]
    ext j hj
    exact congrFun (RowOp.entry_apply_of_notMem ((a.augment b).operate before) unnamed) ⟨j, hj⟩
  · obtain ⟨op', hop', rfl⟩ := List.mem_map.mp hop
    exact (h op' (List.mem_reverse.mp hop')).inverse

/-- A row is exchanged with itself, and the row that was added is changed afterwards. -/
def sampleOperations : List (RowOp ℚ) :=
  [.swap 0 2, .addScaled 1 0 (3 / 2), .scale 0 (-1 / 2), .swap 1 1, .addScaled 0 1 (-4)]

theorem operate_reversible_sample :
    (∀ op ∈ sampleOperations, op.Reversible) ∧
      ![2, 3, -1] ∈ (LinearSystem.sample.augmented.operate sampleOperations).solutions ∧
      (LinearSystem.sample.augmented.operate sampleOperations).operate
        (sampleOperations.reverse.map RowOp.inverse) = LinearSystem.sample.augmented := by
  have reversible : ∀ op ∈ sampleOperations, op.Reversible := by decide +kernel
  obtain ⟨same, -, -, back⟩ :=
    operate_reversible reversible LinearSystem.sample.a LinearSystem.sample.b
  refine ⟨reversible, ?_, back⟩
  have solves : LinearSystem.sample.a.toMatrix *ᵥ ![2, 3, -1] = LinearSystem.sample.b.get := by
    funext i
    revert i
    decide +kernel
  exact same ▸ solves

end Grid

end Chalkboard
