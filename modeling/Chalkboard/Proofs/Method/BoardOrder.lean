import Chalkboard.Proofs.Decimal.Pattern
import Chalkboard.Proofs.Method.Elimination
import Chalkboard.Proofs.Method.Ending
import Chalkboard.Proofs.System.Solution

/-!
# The order of the operations on record

An elimination goes through its columns from the left, and what it puts on record goes with it. The
record of a column is at most one exchange that brings the pivot up, the division of the pivot row
where there is one to be made, and the multiples of that row that clear the column, from the top
down. No row is exchanged with itself or divided by one, and no multiple by zero is added. All this
holds of rounded numbers as well, and of an elimination that halts; over an ordered field the pivots
are the largest entries, so Gaussian elimination never adds more than a row itself.

* `Sweep`, `ColumnGroup` — what an elimination may do in a column, and the record of one column.
* `InColumns` — a record that falls into the groups of its columns.
* `Board.ends_hasColumns` — the rule of an elimination: each of its columns needs to be a group.
* `Board.ends_triangularize_moderate` — no factor of Gaussian elimination is larger than one.
-/

namespace Chalkboard

universe u

variable {n k : Nat} {α : Type u}

/-! ## Columns -/

/-- **`IsExchange i ops`** — at most one exchange, of row `i` with a later one. -/
def RowOp.IsExchange (i : Fin n) (ops : List (RowOp α)) : Prop :=
  ops = [] ∨ ∃ r : Fin n, i < r ∧ ops = [.swap i r]

variable [Scalar α]

/-- **`IsClearing cleared i ops`** — multiples of row `i` are added to rows that may be cleared,
from the top down and to each of them once. No factor is zero. -/
def RowOp.IsClearing (cleared : Fin n → Prop) (i : Fin n) (ops : List (RowOp α)) : Prop :=
  ∃ (targets : List (Fin n)) (factor : Fin n → α),
    ops = targets.map (fun r : Fin n => .addScaled r i (factor r)) ∧ targets.Pairwise (· < ·) ∧
      ∀ r ∈ targets, cleared r ∧ Scalar.eq (factor r) 0 = false

/-- What an elimination does in column `i` behind the exchange. -/
structure Sweep (n : Nat) (α : Type u) where
  /-- The division of row `i` by its pivot. -/
  divided : Fin n → α → List (RowOp α)
  cleared : Fin n → Fin n → Prop

namespace Sweep

/-- Gaussian elimination divides no row and clears the rows below the pivot. -/
def below : Sweep n α where
  divided _ _ := []
  cleared i r := i < r

/-- Gauss-Jordan elimination divides the pivot row, unless the pivot is one, and clears all other
rows. -/
def beside : Sweep n α where
  divided i pivot := if Scalar.eq pivot 1 then [] else [.scale i (1 / pivot)]
  cleared i r := r ≠ i

end Sweep

/-- **`ColumnGroup sweep i g entries`** — `entries` is the record of column `i` of a sweep, from the
grid `g` on: at most one exchange, then the division that the pivot then asks for, then the
clearing. -/
def ColumnGroup (sweep : Sweep n α) (i : Fin n) (g : Grid n (n + k) α)
    (entries : List (RowOp α × Grid n (n + k) α)) : Prop :=
  ∃ exchange division clearing, entries = exchange ++ division ++ clearing ∧
    RowOp.IsExchange i (exchange.map Prod.fst) ∧
    division.map Prod.fst = sweep.divided i ((g.after exchange).entry i (i.castAdd k)) ∧
    RowOp.IsClearing (sweep.cleared i) i (clearing.map Prod.fst)

/-- **`InColumns sweep g c entries`** — from the grid `g` on, `entries` falls into the groups of the
first `c` columns, one behind the other. -/
inductive InColumns (sweep : Sweep n α) (g : Grid n (n + k) α) :
    Nat → List (RowOp α × Grid n (n + k) α) → Prop
  | start : InColumns sweep g 0 []
  | column {i : Fin n} {entries group : List (RowOp α × Grid n (n + k) α)}
      (before : InColumns sweep g i entries)
      (next : ColumnGroup sweep i (g.after entries) group) :
      InColumns sweep g (i + 1) (entries ++ group)

/-- A clearing of ascending rows is one, if no opposite of a number but zero is zero. -/
theorem RowOp.isClearing_clearing
    (nonzero : ∀ x : α, Scalar.eq x 0 = false → Scalar.eq (-x) 0 = false) (cleared : Fin n → Prop)
    [DecidablePred cleared] (i : Fin n) (factor : Fin n → α) :
    RowOp.IsClearing cleared i
      (RowOp.clearing i factor ((List.finRange n).filter (cleared ·))) := by
  refine ⟨_, fun r => -factor r, rfl, ((List.pairwise_lt_finRange n).filter _).filter _, ?_⟩
  intro r hr
  obtain ⟨hmem, hfactor⟩ := List.mem_filter.mp hr
  refine ⟨of_decide_eq_true (List.mem_filter.mp hmem).2, nonzero _ ?_⟩
  simpa using hfactor

namespace Board

variable {epsilon : α}

/-! ## Eliminations -/

/-- Bringing the pivot up is one exchange with a later row, or nothing. -/
theorem ends_bringUp_performs (b : Board n (n + k) α) (i : Fin n) :
    Ends (fun halt => halt.column = i ∧ halt.board = b)
      (fun b' => ∃ ops, RowOp.IsExchange i ops ∧ b.Performs ops b') (b.bringUp epsilon i) := by
  have below := (b.grid.found_pivotBelow (i.castAdd k) i).1
  refine (ends_bringUp_found epsilon b rfl).imp ?_ ?_
  · rintro _ ⟨-, rfl⟩
    exact ⟨rfl, rfl⟩
  · rintro b' ⟨-, hgrid, hlog⟩
    rcases eq_or_eq_record_swap hgrid hlog with rfl | ⟨hr, rfl⟩
    · exact ⟨[], .inl rfl, .refl b'⟩
    · have later := lt_of_le_of_ne below (Ne.symm hr)
      exact ⟨_, .inr ⟨_, later, rfl⟩, b.performs_record _ _⟩

/-- **`b.HasColumns sweep g c`** — the record of `b` leads from the grid `g` to that of `b`, and it
falls into the groups of the first `c` columns. -/
structure HasColumns (sweep : Sweep n α) (g : Grid n (n + k) α) (c : Nat)
    (b : Board n (n + k) α) : Prop where
  columns : InColumns sweep g c b.log
  grid : b.grid = g.after b.log

/-- **One column** is one group more: an exchange, then a division and a clearing. -/
theorem HasColumns.column {sweep : Sweep n α} {g : Grid n (n + k) α} {i : Fin n}
    {b b' b'' : Board n (n + k) α} {ops clearing : List (RowOp α)} (h : b.HasColumns sweep g i)
    (isExchange : RowOp.IsExchange i ops) (raised : b.Performs ops b')
    (isClearing : RowOp.IsClearing (sweep.cleared i) i clearing)
    (reduced : b'.Performs (sweep.divided i (b'.grid.entry i (i.castAdd k)) ++ clearing) b'') :
    b''.HasColumns sweep g (i + 1) := by
  obtain ⟨exchange, hlog, hgrid, rfl⟩ := raised
  obtain ⟨entries, hlog', hgrid', hops⟩ := reduced
  obtain ⟨division, clearing, rfl, hdivision, rfl⟩ := List.map_eq_append_iff.mp hops
  have log : b''.log = b.log ++ (exchange ++ division ++ clearing) := by
    rw [hlog', hlog, List.append_assoc, List.append_assoc]
  constructor
  · rw [log]
    refine .column h.columns ⟨exchange, division, clearing, rfl, isExchange, ?_, isClearing⟩
    rw [hdivision, hgrid, h.grid]
  · rw [log, hgrid', hgrid, h.grid]
    simp only [Grid.after_append]

/-- **The rule of an elimination.** Its record falls into the groups of the columns that are done,
if what it does behind an exchange is the division and the clearing of its sweep. -/
theorem ends_hasColumns {sweep : Sweep n α}
    {reduce : Board n (n + k) α → Fin n → Board n (n + k) α}
    (column : ∀ (b : Board n (n + k) α) (i : Fin n),
      ∃ clearing, RowOp.IsClearing (sweep.cleared i) i clearing ∧
        b.Performs (sweep.divided i (b.grid.entry i (i.castAdd k)) ++ clearing) (reduce b i))
    (g : Grid n (n + k) α) :
    Ends (fun halt => halt.board.HasColumns sweep g halt.column) (HasColumns sweep g n)
      ((List.finRange n).foldlM
        (fun b i => (b.bringUp epsilon i).map fun b => reduce b i) ⟨g, []⟩) := by
  refine ends_foldlM_finRange (HasColumns sweep g) ⟨.start, rfl⟩ fun i b h => ?_
  have raised : Ends (fun halt => halt.board.HasColumns sweep g halt.column)
      (fun b' => ∃ ops, RowOp.IsExchange i ops ∧ b.Performs ops b') (b.bringUp epsilon i) := by
    refine (b.ends_bringUp_performs i).imp ?_ fun _ done => done
    rintro halt ⟨hcolumn, hboard⟩
    rw [hcolumn, hboard]
    exact h
  refine raised.map ?_
  rintro b' ⟨ops, isExchange, performs⟩
  obtain ⟨clearing, isClearing, reduced⟩ := column b' i
  exact h.column isExchange performs isClearing reduced

/-- **Eliminations go through their columns.** -/
theorem ends_eliminations_hasColumns (epsilon : α)
    (nonzero : ∀ x : α, Scalar.eq x 0 = false → Scalar.eq (-x) 0 = false)
    (g : Grid n (n + k) α) :
    Ends (fun halt => halt.board.HasColumns .below g halt.column) (HasColumns .below g n)
        (Board.triangularize epsilon ⟨g, []⟩) ∧
      Ends (fun halt => halt.board.HasColumns .beside g halt.column) (HasColumns .beside g n)
        (Board.diagonalize epsilon ⟨g, []⟩) := by
  constructor
  · refine ends_hasColumns (fun b i => ?_) g
    exact ⟨_, RowOp.isClearing_clearing nonzero (i < ·) i _, b.performs_clearBelow i⟩
  · refine ends_hasColumns (fun b i => ?_) g
    exact ⟨_, RowOp.isClearing_clearing nonzero (· ≠ i) i _,
      (b.performs_normalize i).trans ((b.normalize i).performs_clearOthers i)⟩

end Board

/-! ## Over an ordered field -/

section Field

variable {K : Type u} [Field K] [LinearOrder K]

namespace RowOp

/-- **`Moderate ops`** — no more than a row itself is added to another. -/
def Moderate (ops : List (RowOp K)) : Prop :=
  ∀ target source factor, RowOp.addScaled target source factor ∈ ops → |factor| ≤ 1

theorem Moderate.append {ops ops' : List (RowOp K)} (h : Moderate ops) (h' : Moderate ops') :
    Moderate (ops ++ ops') := by
  intro target source factor hmem
  rcases List.mem_append.mp hmem with hmem | hmem
  · exact h target source factor hmem
  · exact h' target source factor hmem

theorem IsExchange.moderate {i : Fin n} {ops : List (RowOp K)} (h : IsExchange i ops) :
    Moderate ops := by
  intro target source factor hmem
  rcases h with rfl | ⟨r, -, rfl⟩
  · nomatch hmem
  · nomatch List.mem_singleton.mp hmem

theorem moderate_clearing [IsStrictOrderedRing K] {i : Fin n} {factor : Fin n → K}
    {rows : List (Fin n)} (h : ∀ r ∈ rows, |factor r| ≤ 1) :
    Moderate (clearing i factor rows) := by
  intro target source value hmem
  obtain ⟨r, hr, heq⟩ := List.mem_map.mp hmem
  cases heq
  rw [abs_neg]
  exact h r (List.mem_filter.mp hr).1

end RowOp

namespace Board

variable [IsStrictOrderedRing K]

/-- **One column** adds no more than a row itself: the pivot is the largest entry from its row on,
and the exchange leaves it so. Below a pivot that is zero there is nothing to be cleared. -/
theorem ends_column_moderate (epsilon : K) {b : Board n (n + k) K} (i : Fin n)
    (h : RowOp.Moderate b.ops) :
    Ends (fun halt : Halt n (n + k) K => RowOp.Moderate halt.board.ops)
      (fun b' : Board n (n + k) K => RowOp.Moderate b'.ops)
      ((b.bringUp epsilon i).map (·.clearBelow i)) := by
  have raised : Ends (fun halt : Halt n (n + k) K => RowOp.Moderate halt.board.ops)
      (fun b' : Board n (n + k) K => RowOp.Moderate b'.ops ∧ ∀ r, i < r →
        |b'.grid.entry r (i.castAdd k)| ≤ |b'.grid.entry i (i.castAdd k)|)
      (b.bringUp epsilon i) := by
    refine ((ends_bringUp epsilon b i).and (b.ends_bringUp_performs i)).imp ?_ ?_
    · rintro halt ⟨-, -, hboard⟩
      rw [hboard]
      exact h
    · rintro b' ⟨⟨r, hpivot, -, hgrid, -⟩, ops, isExchange, performs⟩
      refine ⟨?_, fun r' below => ?_⟩
      · rw [performs.ops_eq]
        exact h.append isExchange.moderate
      · rw [hgrid, Grid.row_swapRows, Grid.row_swapRows, if_pos rfl, if_neg below.ne']
        split_ifs
        · exact hpivot.largest i le_rfl
        · exact hpivot.largest r' below.le
  refine raised.map fun b' ⟨moderate, largest⟩ => ?_
  rw [(b'.performs_clearBelow i).ops_eq]
  refine moderate.append (RowOp.moderate_clearing fun r hr => ?_)
  have below : i < r := of_decide_eq_true (List.mem_filter.mp hr).2
  rw [abs_div]
  exact div_le_one_of_le₀ (largest r below) (abs_nonneg _)

/-- **Gaussian elimination adds no more than a row itself**, also where it halts. -/
theorem ends_triangularize_moderate (epsilon : K) (g : Grid n (n + k) K) :
    Ends (fun halt : Halt n (n + k) K => RowOp.Moderate halt.board.ops)
      (fun b : Board n (n + k) K => RowOp.Moderate b.ops)
      (Board.triangularize epsilon ⟨g, []⟩) := by
  have start : RowOp.Moderate (⟨g, []⟩ : Board n (n + k) K).ops := fun _ _ _ h => nomatch h
  exact ends_foldlM_finRange (fun _ (b : Board n (n + k) K) => RowOp.Moderate b.ops) start
    fun i _ h => ends_column_moderate epsilon i h

end Board

end Field

/-! ## Worked solutions -/

/-- The number of columns that an elimination is done with at its ending. -/
def Outcome.columnsDone : Outcome n α → Nat
  | .solved _ _ => n
  | .stopped (.zeroPivot column _ _) _ => column
  | .stopped (.zeroDeterminant _) _ => 0

namespace LinearSystem

/-- **`s.InBoardOrder sweep o`** — the row operations that are written down in `o`, each with the
grid that it left, stand together behind the opening, and they fall into the groups of the columns
that are done. -/
def InBoardOrder (s : LinearSystem n α) (sweep : Sweep n α) (o : Outcome n α) : Prop :=
  ∃ log rest,
    o.steps = s.eliminationOpening ++
      log.map (fun entry => .rowOperation entry.1 entry.2.toRows) ++ rest ∧
    (∀ step ∈ rest, step.rowOp? = none) ∧ InColumns (k := 1) sweep s.augmented o.columnsDone log

/-- **Both eliminations go through their columns**, to the last one or to the one that stops them.
-/
theorem inBoardOrder_eliminations (idem : ∀ x : α, Scalar.abs (Scalar.abs x) = Scalar.abs x)
    (nonzero : ∀ x : α, Scalar.eq x 0 = false → Scalar.eq (-x) 0 = false)
    (settings : Settings α) (s : LinearSystem n α) :
    s.InBoardOrder .below (s.gauss settings) ∧
      s.InBoardOrder .beside (s.gaussJordan settings) := by
  obtain ⟨triangular, diagonal⟩ := Board.ends_eliminations_hasColumns (k := 1)
    settings.epsilon nonzero s.augmented
  constructor
  · rcases s.gauss_cases idem settings with ⟨halt, hb, run⟩ | ⟨board, x, log, hb, run⟩ <;> rw [run]
    · exact ⟨halt.board.log, _, rfl, by simp [Step.rowOp?], (triangular.of_error hb).columns⟩
    · exact ⟨board.log, _, rfl, s.rowOp?_of_mem_closing, (triangular.of_ok hb).columns⟩
  · rcases s.gaussJordan_cases settings with ⟨halt, hb, run⟩ | ⟨board, hb, run⟩ <;> rw [run]
    · exact ⟨halt.board.log, _, rfl, by simp [Step.rowOp?], (diagonal.of_error hb).columns⟩
    · exact ⟨board.log, _, rfl, by simp [Step.rowOp?], (diagonal.of_ok hb).columns⟩

/-- The factors that Gaussian elimination writes down over an ordered field. -/
theorem moderate_gauss {K : Type u} [Field K] [LinearOrder K] [IsStrictOrderedRing K]
    (settings : Settings K) (s : LinearSystem n K) :
    RowOp.Moderate ((s.gauss settings).steps.filterMap Step.rowOp?) := by
  have written := s.rowOps_gauss settings abs_abs
  have moderate := Board.ends_triangularize_moderate (k := 1) settings.epsilon s.augmented
  cases run : Board.triangularize (k := 1) settings.epsilon ⟨s.augmented, []⟩ with
  | error halt =>
    rw [written.of_error run]
    exact moderate.of_error run
  | ok board =>
    rw [written.of_ok run]
    exact moderate.of_ok run

end LinearSystem

namespace Method

/-- **Row operations are written down in the order of the board.** In the numbers as they are, the
record of Gaussian elimination and that of Gauss-Jordan elimination fall into the groups of their
columns, and no factor in them is zero. Over an ordered field no factor of Gaussian elimination is
larger than one; this holds for any tolerance, as there a quotient by zero is zero. -/
theorem operations_in_board_order :
    (∀ (settings : Settings Float) (s : LinearSystem n Float),
      s.InBoardOrder .below (gaussElimination.run settings s) ∧
        s.InBoardOrder .beside (gaussJordan.run settings s)) ∧
    ∀ {K : Type u} [Field K] [LinearOrder K] [IsStrictOrderedRing K] (settings : Settings K)
      (s : LinearSystem n K),
      (s.InBoardOrder .below (gaussElimination.run settings s) ∧
        s.InBoardOrder .beside (gaussJordan.run settings s)) ∧
      ∀ target source factor, RowOp.addScaled target source factor ∈
        (gaussElimination.run settings s).steps.filterMap Step.rowOp? → |factor| ≤ 1 := by
  constructor
  · intro settings s
    refine s.inBoardOrder_eliminations Binary64.abs_abs (fun x hx => ?_) settings
    exact (Binary64.neg_beq_zero x).trans hx
  · intro K _ _ _ settings s
    refine ⟨s.inBoardOrder_eliminations abs_abs (fun x hx => ?_) settings,
      s.moderate_gauss settings⟩
    rw [← Bool.not_eq_true, Scalar.eq_iff] at hx ⊢
    exact neg_ne_zero.mpr hx

theorem operations_in_board_order_sample :
    LinearSystem.sample.InBoardOrder .below (gaussElimination.run .sample LinearSystem.sample) ∧
      RowOp.addScaled 1 0 (2 / 3) ∈
        (gaussElimination.run .sample LinearSystem.sample).steps.filterMap Step.rowOp? ∧
      |(2 / 3 : ℚ)| ≤ 1 := by
  obtain ⟨⟨order, -⟩, moderate⟩ :=
    operations_in_board_order.{0}.2 Settings.sample LinearSystem.sample
  have recorded : RowOp.addScaled 1 0 (2 / 3) ∈
      (gaussElimination.run .sample LinearSystem.sample).steps.filterMap Step.rowOp? := by
    decide +kernel
  exact ⟨order, recorded, moderate 1 0 (2 / 3) recorded⟩

end Method

end Chalkboard
