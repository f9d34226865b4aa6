import Chalkboard.Proofs.Grid.Triangular
import Chalkboard.Proofs.Method.Frame

/-!
# Elimination over an ordered field

What the steps on a board do to its grid, and what they keep from the first column to the last.

* `Board.ends_bringUp` — all that bringing a pivot up can do.
* `Board.grid_clearBelow`, `Board.grid_clearOthers` — clearing a column subtracts multiples of its
  pivot row; the exact zeros that are written change nothing, and neither do the rows left alone.
* `Board.ends_triangularize`, `Board.ends_diagonalize` — a whole elimination keeps the solutions and
  leaves a triangular left block, or the identity.
-/

namespace Chalkboard

universe u

open scoped Matrix

variable {n k : Nat} {K : Type u} [Field K] [LinearOrder K]

namespace Board

/-! ## Clearing and dividing -/

/-- Clearing one place subtracts one multiple of the pivot row, also where it is left out. -/
theorem grid_clear (b : Board n (n + k) K) {i r : Fin n} {factor : K}
    (h : factor * b.grid.entry i (i.castAdd k) = b.grid.entry r (i.castAdd k)) :
    (b.clear i r factor).grid = b.grid.subtractRows i (Pi.single r factor) := by
  unfold clear
  by_cases hf : factor = 0
  · rw [if_pos (Scalar.eq_iff.mpr hf), hf, Pi.single_zero, Grid.subtractRows_zero]
  · rw [if_neg (mt Scalar.eq_iff.mp hf)]
    show (Grid.setEntry (b.grid.addScaledRow r i (-factor)) r (i.castAdd k) 0) = _
    rw [Grid.addScaledRow_neg]
    apply Grid.ext_entry
    intro r' j
    rw [Grid.entry_setEntry]
    split_ifs with hrj
    · -- the entry that is overwritten is zero already
      obtain ⟨rfl, rfl⟩ := hrj
      rw [Grid.entry_subtractRows, Pi.single_eq_same, h, sub_self]
    · rfl

/-- Clearing places in several rows, with factors that depend on the entry to be cleared. -/
theorem grid_foldl_clear (i : Fin n) (factor : K → K) (rows : List (Fin n)) :
    ∀ b : Board n (n + k) K, rows.Nodup → i ∉ rows →
      (∀ x, factor x * b.grid.entry i (i.castAdd k) = x) →
      (rows.foldl (fun b r => b.clear i r (factor (b.grid.entry r (i.castAdd k)))) b).grid =
        b.grid.subtractRows i
          fun r => if r ∈ rows then factor (b.grid.entry r (i.castAdd k)) else 0 := by
  induction rows with
  | nil =>
    intro b _ _ _
    simp only [List.foldl_nil, List.not_mem_nil, if_false]
    exact (Grid.subtractRows_zero b.grid i).symm
  | cons r rows ih =>
    intro b nodup hi exact
    obtain ⟨hr, nodup'⟩ := List.nodup_cons.mp nodup
    have hri : r ≠ i := fun h => hi (h ▸ List.mem_cons_self)
    have hstep := b.grid_clear (exact (b.grid.entry r (i.castAdd k)))
    -- the pivot row and the rows still to come are as they were
    have hkeep {r' : Fin n} (h : r' ≠ r) (j : Fin (n + k)) :
        (b.clear i r (factor (b.grid.entry r (i.castAdd k)))).grid.entry r' j =
          b.grid.entry r' j := by
      rw [hstep, Grid.entry_subtractRows, Pi.single_eq_of_ne h, zero_mul, sub_zero]
    rw [List.foldl_cons, ih _ nodup' (fun h => hi (List.mem_cons_of_mem _ h))
      (by rw [hkeep (Ne.symm hri)]; exact exact)]
    apply Grid.ext_entry
    intro r' j
    rw [Grid.entry_subtractRows, Grid.entry_subtractRows, hkeep (Ne.symm hri)]
    by_cases h : r' = r
    · subst h
      rw [if_neg hr, if_pos List.mem_cons_self, hstep, Grid.entry_subtractRows,
        Pi.single_eq_same, zero_mul, sub_zero]
    · rw [hkeep h, hkeep h]
      simp only [List.mem_cons, h, false_or]

/-- **Clearing a column below its pivot.** -/
theorem grid_clearBelow (b : Board n (n + k) K) (i : Fin n)
    (h : b.grid.entry i (i.castAdd k) ≠ 0) :
    (b.clearBelow i).grid = b.grid.subtractRows i fun r =>
      if i < r then b.grid.entry r (i.castAdd k) / b.grid.entry i (i.castAdd k) else 0 := by
  have run := grid_foldl_clear (k := k) i (fun x => x / b.grid.entry i (i.castAdd k))
    ((List.finRange n).filter (i < ·)) b ((List.nodup_finRange n).filter _) (by simp)
    fun x => div_mul_cancel₀ x h
  simp only [List.mem_filter, List.mem_finRange, true_and, decide_eq_true_eq] at run
  exact run

/-- **Clearing a column in all rows but that of its pivot**, which is `1`. -/
theorem grid_clearOthers (b : Board n (n + k) K) (i : Fin n)
    (h : b.grid.entry i (i.castAdd k) = 1) :
    (b.clearOthers i).grid = b.grid.subtractRows i fun r =>
      if r ≠ i then b.grid.entry r (i.castAdd k) else 0 := by
  have run := grid_foldl_clear (k := k) i id ((List.finRange n).filter (· ≠ i)) b
    ((List.nodup_finRange n).filter _) (by simp) fun x => by rw [h, id, mul_one]
  simp only [List.mem_filter, List.mem_finRange, true_and, decide_eq_true_eq] at run
  exact run

/-- **Dividing a row by its pivot**, also where the pivot is `1` and nothing is done. -/
theorem grid_normalize (b : Board n (n + k) K) (i : Fin n)
    (h : b.grid.entry i (i.castAdd k) ≠ 0) :
    (b.normalize i).grid = b.grid.scaleRow i (1 / b.grid.entry i (i.castAdd k)) := by
  simp only [normalize]
  by_cases hp : b.grid.entry i (i.castAdd k) = 1
  · rw [if_pos (Scalar.eq_iff.mpr hp), hp, div_one]
    apply Grid.ext_entry
    intro r j
    rw [Grid.entry_scaleRow]
    split_ifs with hr
    · rw [hr, mul_one]
    · rfl
  · rw [if_neg (mt Scalar.eq_iff.mp hp)]
    apply Grid.ext_entry
    intro r j
    show (Grid.setEntry _ i (i.castAdd k) 1).entry r j = _
    rw [Grid.entry_setEntry]
    split_ifs with hrj
    · -- the pivot becomes one by itself
      obtain ⟨rfl, rfl⟩ := hrj
      rw [Grid.entry_scaleRow, if_pos rfl, mul_one_div_cancel h]
    · rfl

/-! ## Bringing the pivot up -/

variable [IsStrictOrderedRing K]

/-- **Bringing the pivot up.** It halts exactly before a negligible pivot, with the board as it
stands. Otherwise the pivot is not negligible and its row is exchanged with row `i`, on record only
if they differ. -/
theorem ends_bringUp (epsilon : K) (b : Board n (n + k) K) (i : Fin n) :
    Ends
      (fun halt => halt.column = i ∧ halt.board = b ∧
        ∃ r, IsPivot (fun r => |b.grid.entry r (i.castAdd k)|) i r ∧
          halt.pivot = b.grid.entry r (i.castAdd k) ∧ |halt.pivot| < epsilon)
      (fun b' => ∃ r, IsPivot (fun r => |b.grid.entry r (i.castAdd k)|) i r ∧
        epsilon ≤ |b.grid.entry r (i.castAdd k)| ∧
        b'.grid = b.grid.swapRows i r ∧
        b'.log = b.log ++ if r = i then [] else [(.swap i r, b.grid.swapRows i r)])
      (b.bringUp epsilon i) := by
  obtain ⟨-, hpivot⟩ := b.grid.isPivot_pivotBelow_abs (i.castAdd k) i
  refine (ends_bringUp_found epsilon b rfl).imp ?_ ?_
  · rintro _ ⟨hneg, rfl⟩
    have hlt := Scalar.negligible_iff.mp hneg
    exact ⟨rfl, rfl, _, hpivot, rfl, abs_abs (α := K) _ ▸ hlt⟩
  · rintro b' ⟨hneg, hgrid, hlog⟩
    have hge := Scalar.not_negligible_iff.mp hneg
    exact ⟨_, hpivot, abs_abs (α := K) _ ▸ hge, hgrid, hlog⟩

/-- What a pivot that was brought up is: not zero, by the tolerance. -/
theorem pivot_ne_zero {epsilon : K} (pos : 0 < epsilon) {g : Grid n (n + k) K} {i r : Fin n}
    (h : epsilon ≤ |g.entry r (i.castAdd k)|) :
    (g.swapRows i r).entry i (i.castAdd k) ≠ 0 := by
  rw [Grid.entry_swapRows, if_pos rfl]
  exact abs_pos.mp (pos.trans_le h)

/-- Bringing the pivot up keeps the solutions, and all that the exchange with a later row keeps. -/
theorem ends_bringUp_keep {epsilon : K} (pos : 0 < epsilon) {g : Grid n (n + k) K}
    (b : Board n (n + k) K) (i : Fin n) (P : Grid n (n + k) K → Prop)
    (keep : ∀ r, i ≤ r → P (b.grid.swapRows i r)) (same : b.grid.SameSolutions g) :
    Ends (fun _ => True)
      (fun b' => P b'.grid ∧ b'.grid.SameSolutions g ∧ b'.grid.entry i (i.castAdd k) ≠ 0)
      (b.bringUp epsilon i) := by
  refine (ends_bringUp epsilon b i).imp (fun _ _ => trivial) ?_
  rintro b' ⟨r, hpivot, hge, hgrid, -⟩
  rw [hgrid]
  exact ⟨keep r hpivot.below, (b.grid.sameSolutions_swapRows i r).trans same,
    pivot_ne_zero pos hge⟩

/-! ## Columns -/

omit [IsStrictOrderedRing K] in
/-- Clearing a column below a pivot that is not zero finishes it and keeps the solutions. -/
theorem triangular_clearBelow {b : Board n (n + k) K} {i : Fin n} (h : b.grid.Triangular i)
    (hp : b.grid.entry i (i.castAdd k) ≠ 0) :
    (b.clearBelow i).grid.Triangular (i + 1) ∧
      (b.clearBelow i).grid.SameSolutions b.grid := by
  have hclear : (b.clearBelow i).grid = b.grid.subtractRows i (b.grid.factorsBelow i) :=
    b.grid_clearBelow i hp
  rw [hclear]
  exact ⟨h.subtractRows hp,
    b.grid.sameSolutions_subtractRows i (Grid.factorsBelow_of_le le_rfl)⟩

/-- **One column on the way to triangular form.** -/
theorem ends_triangularColumn {epsilon : K} (pos : 0 < epsilon) {g : Grid n (n + k) K}
    (b : Board n (n + k) K) (i : Fin n) (h : b.grid.Triangular i ∧ b.grid.SameSolutions g) :
    Ends (fun _ => True) (fun b' => b'.grid.Triangular (i + 1) ∧ b'.grid.SameSolutions g)
      ((b.bringUp epsilon i).map (·.clearBelow i)) := by
  refine (ends_bringUp_keep pos b i (·.Triangular i) (fun r hr => h.1.swapRows hr) h.2).map ?_
  rintro b' ⟨htri, hsame, hp⟩
  obtain ⟨htri', hsame'⟩ := triangular_clearBelow htri hp
  exact ⟨htri', hsame'.trans hsame⟩

/-- **One column on the way to the identity.** -/
theorem ends_diagonalColumn {epsilon : K} (pos : 0 < epsilon) {g : Grid n (n + k) K}
    (b : Board n (n + k) K) (i : Fin n) (h : b.grid.UnitColumns i ∧ b.grid.SameSolutions g) :
    Ends (fun _ => True) (fun b' => b'.grid.UnitColumns (i + 1) ∧ b'.grid.SameSolutions g)
      ((b.bringUp epsilon i).map fun b => (b.normalize i).clearOthers i) := by
  refine (ends_bringUp_keep pos b i (·.UnitColumns i) (fun r hr => h.1.swapRows hr) h.2).map ?_
  rintro b' ⟨hunit, hsame, hp⟩
  -- first the pivot becomes one, ...
  have hscale := b'.grid_normalize i hp
  have hone : (b'.normalize i).grid.entry i (i.castAdd k) = 1 := by
    rw [hscale, Grid.entry_scaleRow, if_pos rfl, mul_one_div_cancel hp]
  have hunit' : (b'.normalize i).grid.UnitColumns i := hscale ▸ hunit.scaleRow _
  have hsame' : (b'.normalize i).grid.SameSolutions b'.grid :=
    hscale ▸ b'.grid.sameSolutions_scaleRow i (one_div_ne_zero hp)
  -- ... then it clears its column
  have hclear : ((b'.normalize i).clearOthers i).grid =
      (b'.normalize i).grid.subtractRows i ((b'.normalize i).grid.factorsBeside i) :=
    (b'.normalize i).grid_clearOthers i hone
  rw [hclear]
  refine ⟨hunit'.subtractRows hone, ?_⟩
  exact ((b'.normalize i).grid.sameSolutions_subtractRows i
    (Grid.factorsBeside_self _ i)).trans (hsame'.trans hsame)

/-! ## Whole eliminations -/

/-- **Triangular form.** If no pivot is negligible, the left block becomes triangular and the
solutions stay the same. -/
theorem ends_triangularize {epsilon : K} (pos : 0 < epsilon) (b : Board n (n + k) K) :
    Ends (fun _ => True) (fun b' => b'.grid.Triangular n ∧ b'.grid.SameSolutions b.grid)
      (b.triangularize epsilon) :=
  ends_foldlM_finRange (fun i b' => b'.grid.Triangular i ∧ b'.grid.SameSolutions b.grid)
    ⟨b.grid.triangular_zero, .refl b.grid⟩ fun i b' h => ends_triangularColumn pos b' i h

/-- **The identity.** If no pivot is negligible, the left block becomes the identity and the
solutions stay the same. -/
theorem ends_diagonalize {epsilon : K} (pos : 0 < epsilon) (b : Board n (n + k) K) :
    Ends (fun _ => True) (fun b' => b'.grid.UnitColumns n ∧ b'.grid.SameSolutions b.grid)
      (b.diagonalize epsilon) :=
  ends_foldlM_finRange (fun i b' => b'.grid.UnitColumns i ∧ b'.grid.SameSolutions b.grid)
    ⟨b.grid.unitColumns_zero, .refl b.grid⟩ fun i b' h => ends_diagonalColumn pos b' i h

end Board

end Chalkboard
