import Chalkboard.Proofs.Method.Factorization

/-!
# Leading minors decide where a factorisation halts

The factors of a grid restrict to factors of its leading blocks, because the lower one has zeros
above its diagonal. So the leading minors are the products of the first pivots, and a pivot is the
quotient of two leading minors that follow each other: it is negligible exactly if the larger minor
is, in magnitude, below the tolerance times the smaller one.

* `Grid.leadingMinor` — the determinant of a leading block.
* `Grid.Drops`, `Grid.FirstDrop` — where the leading minors fall by more than the tolerance allows.
* `Factors.ends_of_leadingMinors` — a factorisation halts at the first drop, and only there.
-/

namespace Chalkboard

universe u

open scoped BigOperators

variable {n : Nat}

/-! ## Leading blocks -/

namespace Grid

section Leading

variable {α : Type u}

/-- The first `k` rows and columns. -/
def leading (g : Grid n n α) (k : Fin (n + 1)) : Grid k k α :=
  ofFn fun i j => g.entry (i.castLE k.is_le) (j.castLE k.is_le)

theorem entry_leading (g : Grid n n α) (k : Fin (n + 1)) (i j : Fin k) :
    (g.leading k).entry i j = g.entry (i.castLE k.is_le) (j.castLE k.is_le) :=
  entry_ofFn _ i j

/-- **`g.leadingMinor k`** — the determinant of the first `k` rows and columns. -/
def leadingMinor [Scalar α] (g : Grid n n α) (k : Fin (n + 1)) : α :=
  (g.leading k).det

end Leading

variable {K : Type u} [Field K] [LinearOrder K]

/-- **`g.Drops epsilon i`** — from size `i` to size `i + 1` the magnitude of the leading minors
falls by more than the factor `epsilon`. -/
def Drops (g : Grid n n K) (epsilon : K) (i : Fin n) : Prop :=
  |g.leadingMinor i.succ| < epsilon * |g.leadingMinor i.castSucc|

/-- **`g.FirstDrop epsilon i`** — the leading minors drop there, and not before. -/
structure FirstDrop (g : Grid n n K) (epsilon : K) (i : Fin n) : Prop where
  drops : g.Drops epsilon i
  before : ∀ j, j < i → ¬ g.Drops epsilon j

theorem FirstDrop.unique {g : Grid n n K} {epsilon : K} {i j : Fin n} (hi : g.FirstDrop epsilon i)
    (hj : g.FirstDrop epsilon j) : i = j := by
  rcases lt_trichotomy i j with h | h | h
  · exact absurd hi.drops (hj.before i h)
  · exact h
  · exact absurd hj.drops (hi.before j h)

/-- A leading block of a product is the product of the leading blocks, if the first factor has zeros
above the diagonal and the product is known in the rows of the block. -/
theorem leading_mul_leading {l u g : Grid n n K} {k : Fin (n + 1)}
    (above : ∀ r c, r < c → l.entry r c = 0)
    (product : ∀ r c : Fin n, (r : Nat) < k → ∑ j, l.entry r j * u.entry j c = g.entry r c) :
    (l.leading k).mul (u.leading k) = g.leading k := by
  apply ext_entry
  intro r c
  rw [entry_mul, entry_leading, ← product _ _ r.isLt]
  refine Fintype.sum_of_injective (Fin.castLE k.is_le) (Fin.castLE_injective _) _ _ ?_ fun j => ?_
  · -- the columns behind the block meet zeros of the first factor
    intro j hj
    have hrj : r.castLE k.is_le < j := by
      by_contra hle
      have hjr : (j : Nat) ≤ r := not_lt.mp hle
      exact hj ⟨⟨j, hjr.trans_lt r.isLt⟩, rfl⟩
    rw [above _ j hrj, zero_mul]
  · rw [entry_leading, entry_leading]

end Grid

variable {K : Type u} [Field K] [LinearOrder K] {epsilon : K} {a : Grid n n K} {f : Factors n K}
  {rows columns : Nat}

namespace Factors

/-! ## Minors and pivots -/

/-- **A leading minor is the product of the first pivots.** -/
theorem Covers.leadingMinor_eq (h : f.Covers epsilon a rows columns) {k : Fin (n + 1)}
    (hk : (k : Nat) ≤ rows) :
    a.leadingMinor k =
      ∏ j : Fin k, f.upper.entry (j.castLE k.is_le) (j.castLE k.is_le) := by
  have unitLower : (f.lower.leading k).UnitLower := by
    refine ⟨fun i => ?_, fun r c hrc => ?_⟩
    · rw [Grid.entry_leading]
      exact h.diagonal _ (i.isLt.trans_le hk)
    · rw [Grid.entry_leading]
      exact h.above _ _ hrc
  have upper : (f.upper.leading k).Upper := by
    intro r c hcr
    rw [Grid.entry_leading]
    exact h.below _ _ hcr
  have mul : (f.lower.leading k).mul (f.upper.leading k) = a.leading k :=
    Grid.leading_mul_leading h.above fun r c hr => h.product r c (.inl (hr.trans_le hk))
  rw [Grid.leadingMinor, Grid.det_eq_leibniz, ← mul, Grid.leibniz_mul, unitLower.leibniz, one_mul,
    upper.leibniz]
  exact Finset.prod_congr rfl fun j _ => Grid.entry_leading _ k j j

/-- One size more, one pivot more. -/
theorem Covers.leadingMinor_succ (h : f.Covers epsilon a rows columns) {i : Fin n}
    (hi : (i : Nat) < rows) :
    a.leadingMinor i.succ = a.leadingMinor i.castSucc * f.upper.entry i i := by
  have hsucc : ((i.succ : Fin (n + 1)) : Nat) ≤ rows := hi
  have hcast : ((i.castSucc : Fin (n + 1)) : Nat) ≤ rows := hi.le
  rw [h.leadingMinor_eq hsucc, h.leadingMinor_eq hcast]
  exact Fin.prod_univ_castSucc fun j : Fin (i + 1) =>
    f.upper.entry (j.castLE i.succ.is_le) (j.castLE i.succ.is_le)

variable [IsStrictOrderedRing K]

theorem Covers.leadingMinor_ne_zero (pos : 0 < epsilon) (h : f.Covers epsilon a rows columns)
    {k : Fin (n + 1)} (hr : (k : Nat) ≤ rows) (hc : (k : Nat) ≤ columns) :
    a.leadingMinor k ≠ 0 := by
  rw [h.leadingMinor_eq hr]
  exact Finset.prod_ne_zero_iff.mpr fun j _ =>
    Scalar.ne_zero_of_not_negligible pos (h.pivot _ (j.isLt.trans_le hc))

/-- **A pivot is the quotient of two leading minors.** -/
theorem Covers.pivot_eq_div (pos : 0 < epsilon) (h : f.Covers epsilon a rows columns) {i : Fin n}
    (hr : (i : Nat) < rows) (hc : (i : Nat) ≤ columns) :
    f.upper.entry i i = a.leadingMinor i.succ / a.leadingMinor i.castSucc := by
  have hne : a.leadingMinor i.castSucc ≠ 0 := h.leadingMinor_ne_zero pos hr.le hc
  rw [h.leadingMinor_succ hr, mul_div_cancel_left₀ _ hne]

/-- **The leading minors drop where a pivot is negligible.** -/
theorem Covers.drops_iff (pos : 0 < epsilon) (h : f.Covers epsilon a rows columns) {i : Fin n}
    (hr : (i : Nat) < rows) (hc : (i : Nat) ≤ columns) :
    a.Drops epsilon i ↔ Scalar.negligible epsilon (f.upper.entry i i) = true := by
  have hne : a.leadingMinor i.castSucc ≠ 0 := h.leadingMinor_ne_zero pos hr.le hc
  rw [Scalar.negligible_iff, Grid.Drops, h.leadingMinor_succ hr, abs_mul, mul_comm epsilon,
    mul_lt_mul_iff_right₀ (abs_pos.mpr hne)]

/-- Before the pivots that were accepted there is no drop. -/
theorem Covers.not_drops (pos : 0 < epsilon) (h : f.Covers epsilon a rows columns) {i : Fin n}
    (hr : (i : Nat) < rows) (hc : (i : Nat) < columns) : ¬ a.Drops epsilon i := by
  rw [h.drops_iff pos hr hc.le, h.pivot i hc]
  exact Bool.false_ne_true

/-- **A factorisation halts at the first drop, and only there.** The pivot that it refuses is the
quotient of the two leading minors. -/
theorem ends_of_leadingMinors (pos : 0 < epsilon) (a : Grid n n K) :
    Ends (fun halt => a.FirstDrop epsilon halt.column ∧
        halt.pivot = a.leadingMinor halt.column.succ / a.leadingMinor halt.column.castSucc)
      (fun f => (∀ i, ¬ a.Drops epsilon i) ∧ a.det = ∏ i, f.upper.entry i i)
      (Factors.of epsilon a) := by
  refine ((ends_of pos a).and (ends_of_accepted epsilon a)).imp ?_ ?_
  · rintro halt ⟨covers, pivot, negligible⟩
    have last : (halt.column : Nat) < halt.column + 1 := Nat.lt_succ_self _
    refine ⟨⟨?_, fun j hj => covers.not_drops pos (last.trans' hj) hj⟩, ?_⟩
    · rw [covers.drops_iff pos last le_rfl, ← pivot, negligible]
    · rw [pivot, covers.pivot_eq_div pos last le_rfl]
  · rintro f ⟨covers, -⟩
    refine ⟨fun i => covers.not_drops pos i.isLt i.isLt, ?_⟩
    rw [Grid.det_eq_leibniz, covers.leibniz]

end Factors

/-! ## The method -/

namespace LinearSystem

variable [IsStrictOrderedRing K]

/-- **The leading minors decide LU decomposition.** It stops in a column exactly if the leading
minors drop there for the first time, and the pivot that it refuses is the quotient of the two. It
ends with values exactly if they never drop; then the determinant is the product of the diagonal of
the upper factor on record. -/
theorem lu_decided_by_leadingMinors {settings : Settings K} (pos : 0 < settings.epsilon)
    (s : LinearSystem n K) :
    (∀ (i : Fin n) (pivot : K),
      (∃ steps, s.lu settings = .stopped (.zeroPivot i pivot .decomposition) steps) ↔
        s.a.FirstDrop settings.epsilon i ∧
          pivot = s.a.leadingMinor i.succ / s.a.leadingMinor i.castSucc) ∧
    ((∃ solution steps, s.lu settings = .solved solution steps) ↔
      ∀ i, ¬ s.a.Drops settings.epsilon i) ∧
    ∀ solution steps, s.lu settings = .solved solution steps →
      ∃ u : Grid n n K, Records (Step.matrix "U") u.toRows steps ∧
        s.a.det = ∏ i, u.entry i i := by
  have minors := Factors.ends_of_leadingMinors pos s.a
  have reports := s.lu_reports settings
  refine ⟨fun i pivot => ?_, ?_, fun solution steps run => ?_⟩
  · rw [reports.stopped_iff]
    cases hf : Factors.of settings.epsilon s.a with
    | error halt =>
      obtain ⟨first, quotient⟩ := minors.of_error hf
      constructor
      · rintro ⟨halt', he, heq⟩
        cases he
        obtain ⟨hcolumn, hpivot, -⟩ := Singularity.zeroPivot.inj heq
        obtain rfl : i = halt.column := Fin.ext hcolumn
        exact ⟨first, hpivot.trans quotient⟩
      · rintro ⟨first', rfl⟩
        obtain rfl := first'.unique first
        exact ⟨halt, rfl, by rw [quotient]⟩
    | ok f =>
      obtain ⟨noDrop, -⟩ := minors.of_ok hf
      constructor
      · rintro ⟨halt, he, -⟩
        nomatch he
      · rintro ⟨first, -⟩
        exact absurd first.drops (noDrop i)
  · rw [reports.solved_iff]
    cases hf : Factors.of settings.epsilon s.a with
    | error halt =>
      obtain ⟨first, -⟩ := minors.of_error hf
      constructor
      · rintro ⟨f, he⟩
        nomatch he
      · exact fun noDrop => absurd first.drops (noDrop halt.column)
    | ok f => exact ⟨fun _ => (minors.of_ok hf).1, fun _ => ⟨f, rfl⟩⟩
  · rcases s.lu_cases settings with ⟨halt, -, run'⟩ | ⟨f, x, log, hf, -, run'⟩
    · nomatch run'.symm.trans run
    · cases run'.symm.trans run
      exact ⟨f.upper, by simp [Records], (minors.of_ok hf).2⟩

theorem lu_decided_by_leadingMinors_sample :
    0 < Settings.sample.epsilon ∧ singularSample.a.FirstDrop Settings.sample.epsilon 1 ∧
      (∀ i, ¬ sample.a.Drops Settings.sample.epsilon i) ∧
      ∃ steps, sample.lu .sample = .solved ⟨sample.unknowns, #v[2, 3, -1]⟩ steps ∧
        ∃ u : Grid 3 3 ℚ, Records (Step.matrix "U") u.toRows steps ∧
          sample.a.det = ∏ i, u.entry i i := by
  have reason : (singularSample.lu .sample).reason? = some (.zeroPivot 1 0 .decomposition) := by
    decide +kernel
  have values : (sample.lu .sample).solution? = some ⟨sample.unknowns, #v[2, 3, -1]⟩ := by
    decide +kernel
  obtain ⟨steps, run⟩ := Outcome.solution?_eq_some_iff.mp values
  obtain ⟨-, solved, det⟩ := lu_decided_by_leadingMinors Settings.sample_epsilon_pos sample
  exact ⟨Settings.sample_epsilon_pos,
    (((lu_decided_by_leadingMinors Settings.sample_epsilon_pos singularSample).1 1 0).mp
      (Outcome.reason?_eq_some_iff.mp reason)).1,
    solved.mp ⟨_, steps, run⟩, steps, run, det _ _ run⟩

end LinearSystem

end Chalkboard
