import Chalkboard.Proofs.Decimal.Zero
import Chalkboard.Proofs.Method.Ending

/-!
# What rounded elimination leaves below the diagonal

Elimination passes over a row whose quotient by the pivot is zero. In exact arithmetic there is
nothing to clear in such a row. A rounded quotient may be zero of an entry that is not, and then the
entry stays where it is; a quotient that is not finite spoils the columns that were cleared before.
Nothing else goes wrong, and what has gone wrong is not repaired by later columns.

* `Grid.Faithful` — the quotients of one column tell the entries to be cleared, and are finite.
* `LinearSystem.upperTriangularForm_iff` — the recorded triangular form has nothing but zeros below
  the diagonal exactly if the quotients of every column are faithful.
* `LinearSystem.upperTriangularForm_not_clear` — a finite system for which it has something else.
-/

namespace Chalkboard

open Binary64

variable {n k : Nat}

namespace Grid

/-- **`g.ClearBelow c`** — everything below the diagonal in column `c` equals zero. -/
def ClearBelow (g : Grid n (n + k) Float) (c : Fin n) : Prop :=
  ∀ r, c < r → (g.entry r (c.castAdd k) == 0.0) = true

/-- The multiple of row `i` that is subtracted from row `r`. -/
def quotient (g : Grid n (n + k) Float) (i r : Fin n) : Float :=
  g.entry r (i.castAdd k) / g.entry i (i.castAdd k)

/-- **`g.Faithful i`** — with the pivot of column `i` in its place, the quotients below it are zero
only of entries that are zero. Behind the first column they are finite besides. -/
structure Faithful (g : Grid n (n + k) Float) (i : Fin n) : Prop where
  /-- A row that is passed over has nothing to be cleared. -/
  exact : ∀ r, i < r → (g.quotient i r == 0.0) = true → (g.entry r (i.castAdd k) == 0.0) = true
  /-- Nothing is spoiled in earlier columns. -/
  finite : 0 < (i : Nat) → ∀ r, i < r → (g.quotient i r).isFinite = true

/-- Rows behind a column may be exchanged. -/
theorem ClearBelow.swapRows {g : Grid n (n + k) Float} {c i r : Fin n} (h : g.ClearBelow c)
    (hi : c < i) (hr : c < r) : (g.swapRows i r).ClearBelow c := by
  intro r' hr'
  rw [entry_swapRows]
  split_ifs
  · exact h r hr
  · exact h i hi
  · exact h r' hr'

theorem clearBelow_swapRows_iff {g : Grid n (n + k) Float} {c i r : Fin n} (hi : c < i)
    (hr : c < r) : (g.swapRows i r).ClearBelow c ↔ g.ClearBelow c := by
  constructor
  · intro h
    have back := h.swapRows hi hr
    rwa [swapRows_swapRows] at back
  · intro h
    exact h.swapRows hi hr

end Grid

namespace Board

variable {b : Board n (n + k) Float} {i : Fin n}

/-! ## One column -/

/-- A quotient that is zero is finite. -/
theorem isFinite_of_beq_zero {x : Float} (h : (x == 0.0) = true) : x.isFinite = true := by
  obtain ⟨s, rfl⟩ := exists_zero_of_beq h
  cases s <;> decide +kernel

/-- **A row that is cleared** has zero in an earlier column exactly if it had, and the quotient is
finite, provided that the pivot row has zero there. -/
theorem entry_clear_beq_zero_iff {r c : Fin n} (hc : c < i) {q : Float}
    (pivotRow : (b.grid.entry i (c.castAdd k) == 0.0) = true) :
    ((b.clear i r q).grid.entry r (c.castAdd k) == 0.0) = true ↔
      (b.grid.entry r (c.castAdd k) == 0.0) = true ∧ q.isFinite = true := by
  have other : c.castAdd k ≠ i.castAdd k := fun h => hc.ne (Fin.castAdd_injective n k h)
  rw [entry_clear_self, if_neg other]
  split_ifs with skipped
  · have finite : q.isFinite = true := isFinite_of_beq_zero skipped
    rw [finite]
    exact (and_iff_left rfl).symm
  · rw [add_mul_beq_zero_iff pivotRow, isFinite_neg]

/-- **An earlier column** stays clear exactly if all quotients are finite. -/
theorem clearBelow_iff_of_lt {c : Fin n} (hc : c < i) :
    (b.clearBelow i).grid.ClearBelow c ↔
      b.grid.ClearBelow c ∧ ∀ r, i < r → (b.grid.quotient i r).isFinite = true := by
  -- rows up to the pivot row are left alone, so that row has its zero before and after
  have upper {r : Fin n} (hr : r ≤ i) :
      (b.clearBelow i).grid.entry r = b.grid.entry r := entry_clearBelow_of_le b hr
  constructor
  · intro h
    have pivotRow : (b.grid.entry i (c.castAdd k) == 0.0) = true := by
      have here := h i hc
      rwa [upper le_rfl] at here
    have lower {r : Fin n} (hr : i < r) :
        (b.grid.entry r (c.castAdd k) == 0.0) = true ∧ (b.grid.quotient i r).isFinite = true := by
      have here := h r (hc.trans hr)
      rwa [row_clearBelow b hr, entry_clear_beq_zero_iff hc pivotRow] at here
    refine ⟨fun r hr => ?_, fun r hr => (lower hr).2⟩
    rcases le_or_gt r i with le | lt
    · have here := h r hr
      rwa [upper le] at here
    · exact (lower lt).1
  · rintro ⟨h, finite⟩ r hr
    rcases le_or_gt r i with le | lt
    · rw [upper le]
      exact h r hr
    · rw [row_clearBelow b lt, entry_clear_beq_zero_iff hc (h i hc)]
      exact ⟨h r hr, finite r lt⟩

/-- **The column in work** is clear afterwards exactly if no row was passed over that had something
to be cleared. -/
theorem clearBelow_iff_self :
    (b.clearBelow i).grid.ClearBelow i ↔
      ∀ r, i < r → (b.grid.quotient i r == 0.0) = true →
        (b.grid.entry r (i.castAdd k) == 0.0) = true := by
  have zero : ((0 : Float) == 0.0) = true := by decide +kernel
  -- a row that is passed over keeps its entry, any other has it written
  have entry {r : Fin n} (hr : i < r) :
      (b.clearBelow i).grid.entry r (i.castAdd k) =
        if (b.grid.quotient i r == 0.0) = true then b.grid.entry r (i.castAdd k) else 0 := by
    rw [row_clearBelow b hr, entry_clear_self, if_pos rfl]
    rfl
  constructor
  · intro h r hr skipped
    have here := h r hr
    rwa [entry hr, if_pos skipped] at here
  · intro h r hr
    rw [entry hr]
    split_ifs with skipped
    · exact h r hr skipped
    · exact zero

/-- **One column.** With the pivot in its place, the columns up to `i` are clear afterwards exactly
if those before were and the quotients are faithful. -/
theorem clearBelow_upTo_iff :
    (∀ c : Fin n, (c : Nat) < i + 1 → (b.clearBelow i).grid.ClearBelow c) ↔
      (∀ c : Fin n, (c : Nat) < i → b.grid.ClearBelow c) ∧ b.grid.Faithful i := by
  constructor
  · intro h
    have before (c : Fin n) (hc : (c : Nat) < i) := (clearBelow_iff_of_lt hc).mp (h c (by omega))
    refine ⟨fun c hc => (before c hc).1, clearBelow_iff_self.mp (h i (Nat.lt_succ_self i)), ?_⟩
    intro later
    -- the first column bears witness
    exact (before ⟨0, i.pos⟩ later).2
  · rintro ⟨before, faithful⟩ c hc
    rcases Nat.lt_succ_iff_lt_or_eq.mp hc with lt | eq
    · exact (clearBelow_iff_of_lt lt).mpr
        ⟨before c lt, faithful.finite (Nat.zero_lt_of_lt lt)⟩
    · obtain rfl : c = i := Fin.ext eq
      exact clearBelow_iff_self.mpr faithful.exact

/-! ## All columns -/

/-- The board on which column `i` is about to be cleared: the columns before are done, and the pivot
is in its place. -/
def poised (epsilon : Float) (b : Board n (n + k) Float) (i : Fin n) :
    Except (Halt n (n + k) Float) (Board n (n + k) Float) :=
  ((List.finRange n).take i).foldlM (fun b i => (b.bringUp epsilon i).map (·.clearBelow i)) b >>=
    (·.bringUp epsilon i)

/-- Bringing a pivot up keeps the columns before. -/
theorem ends_bringUp_clearBelow_iff (epsilon : Float) (b : Board n (n + k) Float) (i : Fin n) :
    Ends (fun _ => True)
      (fun b' => ∀ c, c < i → (b'.grid.ClearBelow c ↔ b.grid.ClearBelow c))
      (b.bringUp epsilon i) := by
  have hir := (b.grid.found_pivotBelow (i.castAdd k) i).1
  refine (ends_bringUp_found epsilon b rfl).imp (fun _ _ => trivial) ?_
  rintro b' ⟨-, hgrid, -⟩ c hc
  rw [hgrid]
  exact Grid.clearBelow_swapRows_iff hc (hc.trans_le hir)

/-- **`Settled epsilon b m b'`** — the run from `b` has come to `b'` after `m` columns, and what it
has left in them is known from their quotients. -/
structure Settled (epsilon : Float) (b : Board n (n + k) Float) (m : Nat)
    (b' : Board n (n + k) Float) : Prop where
  run : ((List.finRange n).take m).foldlM
    (fun b i => (b.bringUp epsilon i).map (·.clearBelow i)) b = .ok b'
  clear_iff : (∀ c : Fin n, (c : Nat) < m → b'.grid.ClearBelow c) ↔
    ∀ i : Fin n, (i : Nat) < m →
      ∃ poisedAt, b.poised epsilon i = .ok poisedAt ∧ poisedAt.grid.Faithful i

theorem settled_zero (epsilon : Float) (b : Board n (n + k) Float) : Settled epsilon b 0 b :=
  ⟨rfl, iff_of_true (fun c hc => absurd hc (Nat.not_lt_zero c))
    fun i hi => absurd hi (Nat.not_lt_zero i)⟩

/-- One more column. -/
theorem Settled.ends_column {epsilon : Float} {b' : Board n (n + k) Float}
    (h : Settled epsilon b i b') :
    Ends (fun _ => True) (Settled epsilon b (i + 1))
      ((b'.bringUp epsilon i).map (·.clearBelow i)) := by
  have next := foldlM_take_succ i h.run
  have keeps := ends_bringUp_clearBelow_iff epsilon b' i
  cases raised : b'.bringUp epsilon i with
  | error halt => exact trivial
  | ok b'' =>
    rw [raised] at next
    refine ⟨next, ?_⟩
    have reached : b.poised epsilon i = .ok b'' := by
      rw [poised, h.run]
      exact raised
    have before : (∀ c : Fin n, (c : Nat) < i → b''.grid.ClearBelow c) ↔
        ∀ c : Fin n, (c : Nat) < i → b'.grid.ClearBelow c :=
      forall_congr' fun c => forall_congr' fun hc => keeps.of_ok raised c hc
    rw [clearBelow_upTo_iff, before, h.clear_iff]
    constructor
    · rintro ⟨earlier, faithful⟩ j hj
      rcases Nat.lt_succ_iff_lt_or_eq.mp hj with lt | eq
      · exact earlier j lt
      · obtain rfl : j = i := Fin.ext eq
        exact ⟨b'', reached, faithful⟩
    · intro all
      refine ⟨fun j hj => all j (by omega), ?_⟩
      obtain ⟨poisedAt, same, faithful⟩ := all i (Nat.lt_succ_self i)
      rw [reached, Except.ok.injEq] at same
      rwa [same]

/-- **All columns.** A triangular form is clear below the diagonal exactly if the quotients of every
column were faithful. -/
theorem ends_triangularize_clear_iff (epsilon : Float) (b : Board n (n + k) Float) :
    Ends (fun _ => True)
      (fun b' => (∀ c, b'.grid.ClearBelow c) ↔
        ∀ i, ∃ poisedAt, b.poised epsilon i = .ok poisedAt ∧ poisedAt.grid.Faithful i)
      (b.triangularize epsilon) := by
  have run : Ends (fun _ => True) (Settled epsilon b n) (b.triangularize epsilon) :=
    ends_foldlM_finRange (Settled epsilon b) (settled_zero epsilon b)
      fun _ _ settled => settled.ends_column
  refine run.imp (fun _ _ => trivial) ?_
  intro b' settled
  have clear := settled.clear_iff
  simpa only [Fin.is_lt, true_implies] using clear

end Board

/-! ## The recorded form -/

namespace LinearSystem

variable {settings : Settings Float}

/-- The triangular form on record is that of the board. -/
theorem upperTriangularForm_recorded_iff {s : LinearSystem n Float} {rows : List (List Float)} :
    .augmented "Upper triangular form" rows ∈ (s.gauss settings).steps ↔
      ∃ board, Board.triangularize (k := 1) settings.epsilon ⟨s.augmented, []⟩ = .ok board ∧
        rows = board.grid.toRows := by
  have idem : ∀ x : Float, Scalar.abs (Scalar.abs x) = Scalar.abs x := Binary64.abs_abs
  rcases s.gauss_cases idem settings with ⟨halt, run, ending⟩ | ⟨board, x, log, run, ending⟩
  · rw [ending, run]
    simp [Outcome.steps, eliminationOpening, Board.steps]
  · rw [ending, run]
    simp [Outcome.steps, eliminationOpening, Board.steps, substitutionStep]

/-- **The recorded triangular form** has nothing but zeros below the diagonal exactly if, in every
column, the quotients by the pivot are zero only of zeros and, behind the first column, finite. -/
theorem upperTriangularForm_iff {s : LinearSystem n Float} {rows : List (List Float)}
    (recorded : .augmented "Upper triangular form" rows ∈ (s.gauss settings).steps) :
    ∃ g : Grid n (n + 1) Float, rows = g.toRows ∧
      ((∀ r c : Fin n, c < r → (g.entry r c.castSucc == 0.0) = true) ↔
        ∀ i, ∃ board, Board.poised (k := 1) settings.epsilon ⟨s.augmented, []⟩ i = .ok board ∧
          board.grid.Faithful i) := by
  obtain ⟨board, run, rfl⟩ := upperTriangularForm_recorded_iff.mp recorded
  have clear := (Board.ends_triangularize_clear_iff (k := 1) settings.epsilon
    ⟨s.augmented, []⟩).of_ok run
  refine ⟨board.grid, rfl, ?_⟩
  rw [← clear]
  constructor
  · intro h c r hr
    exact h r c hr
  · intro h r c hr
    exact h c r hr

/-- A system with a quotient that is too small for a number, although no coefficient is. -/
def graded : LinearSystem 2 Float :=
  { unknowns := .ofFn !['x', 'y']
    a := .ofFn ![![1e200, 0.0], ![1e-200, 1.0]]
    b := .ofFn ![1e200, 1.0] }

/-- The triangular form of `graded` is on record. -/
theorem upperTriangularForm_iff_sample :
    ∃ rows, .augmented "Upper triangular form" rows ∈ (graded.gauss .standard).steps ∧
      ∃ g : Grid 2 3 Float, rows = g.toRows ∧
        ((∀ r c : Fin 2, c < r → (g.entry r c.castSucc == 0.0) = true) ↔
          ∀ i, ∃ board,
            Board.poised (k := 1) Settings.standard.epsilon ⟨graded.augmented, []⟩ i = .ok board ∧
              board.grid.Faithful i) := by
  have reached : (Board.triangularize (k := 1) Settings.standard.epsilon
      ⟨graded.augmented, []⟩).toOption.isSome = true := by decide +kernel
  cases run : Board.triangularize (k := 1) Settings.standard.epsilon ⟨graded.augmented, []⟩ with
  | error halt =>
    rw [run] at reached
    exact absurd reached nofun
  | ok board =>
    have recorded : .augmented "Upper triangular form" board.grid.toRows ∈
        (graded.gauss .standard).steps :=
      upperTriangularForm_recorded_iff.mpr ⟨board, run, rfl⟩
    exact ⟨_, recorded, upperTriangularForm_iff recorded⟩

/-- **The triangular form need not be triangular**, not even if all numbers are finite. -/
theorem upperTriangularForm_not_clear :
    ¬ ∀ (n : Nat) (settings : Settings Float) (s : LinearSystem n Float),
      settings.check = .ok settings →
      (∀ r c, (s.a.entry r c).isFinite = true) → (∀ r, (s.b.get r).isFinite = true) →
      ∀ g : Grid n (n + 1) Float,
        .augmented "Upper triangular form" g.toRows ∈ (s.gauss settings).steps →
        ∀ r c : Fin n, c < r → (g.entry r c.castSucc == 0.0) = true := by
  intro h
  have left : ((Board.triangularize (k := 1) Settings.standard.epsilon
      ⟨graded.augmented, []⟩).toOption.map fun board =>
        board.grid.entry 1 (0 : Fin 2).castSucc == 0.0) = some false := by decide +kernel
  cases run : Board.triangularize (k := 1) Settings.standard.epsilon ⟨graded.augmented, []⟩ with
  | error halt =>
    rw [run] at left
    exact absurd left nofun
  | ok board =>
    rw [run] at left
    have clear := h 2 .standard graded (by decide +kernel) (by decide +kernel) (by decide +kernel)
      board.grid (upperTriangularForm_recorded_iff.mpr ⟨board, run, rfl⟩) 1 0 Fin.zero_lt_one
    have stays : (board.grid.entry 1 (0 : Fin 2).castSucc == 0.0) = false := Option.some.inj left
    rw [stays] at clear
    exact absurd clear nofun

end LinearSystem

end Chalkboard
