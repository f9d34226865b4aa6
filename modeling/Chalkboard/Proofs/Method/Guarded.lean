import Chalkboard.Proofs.Method.Elimination
import Chalkboard.Proofs.Scalar.Guarded
import Chalkboard.Proofs.Worked.Map
import Chalkboard.Method.Gauss

/-!
# Gaussian elimination never divides by zero

The method is run a second time, on guarded numbers, where a quotient by zero fails and the failure
spreads to whatever is computed from it. Every quotient that the method forms is the factor of a row
operation or the value of an unknown. A failed factor is not equal to zero, so its operation is
recorded, and the values of the unknowns are recorded anyway. Hence a single division by zero would
show in the worked solution. `LinearSystem.gauss_num` says that there is none: the guarded run
writes down the same numbers, all the way.
-/

namespace Chalkboard

universe u

open Guarded (num)

variable {m n k : Nat} {K : Type u} [Field K] [LinearOrder K]

namespace Grid

theorem addScaledRow_num (g : Grid m n K) (target source : Fin m) (factor : K) :
    (g.map num).addScaledRow target source (num factor) =
      (g.addScaledRow target source factor).map num := by
  apply ext_entry
  intro r j
  simp only [entry_addScaledRow, entry_map]
  split_ifs <;> rfl

theorem keepLarger_num (g : Grid m n K) (col : Fin n) (best : Fin m × K) (i : Fin m) :
    (g.map num).keepLarger col (Prod.map id num best) i =
      Prod.map id num (g.keepLarger col best i) := by
  unfold keepLarger
  rw [entry_map]
  have hlt : Scalar.lt (num best.2) (Scalar.abs (num (g.entry i col))) =
      Scalar.lt best.2 (Scalar.abs (g.entry i col)) := rfl
  simp only [Prod.map_snd, hlt]
  cases Scalar.lt best.2 (Scalar.abs (g.entry i col)) <;> rfl

theorem pivotBelow_num (g : Grid m n K) (col : Fin n) (top : Fin m) :
    (g.map num).pivotBelow col top = Prod.map id num (g.pivotBelow col top) := by
  have hstart : (top, Scalar.abs ((g.map num).entry top col)) =
      Prod.map id num (top, Scalar.abs (g.entry top col)) := by
    rw [entry_map]
    rfl
  show List.foldl ((g.map num).keepLarger col) _ _ = _
  rw [hstart]
  exact List.foldl_hom (Prod.map id num) (g.keepLarger_num col)

end Grid

namespace Board

theorem bringUp_num (epsilon : K) (b : Board n (n + k) K) (i : Fin n) :
    (b.map num).bringUp (num epsilon) i =
      mapEndings (Halt.map num) (map num) (b.bringUp epsilon i) := by
  simp only [bringUp, map, Grid.pivotBelow_num, Prod.map, id_eq, Guarded.negligible_num, Grid.entry_map]
  cases Scalar.negligible epsilon (b.grid.pivotBelow (i.castAdd k) i).2 with
  | true => rfl
  | false =>
    by_cases hr : (b.grid.pivotBelow (i.castAdd k) i).1 = i
    · simp only [if_pos hr]
      rfl
    · simp only [if_neg hr, Grid.map_swapRows]
      exact congrArg Except.ok (map_record num b (.swap i _) _)

theorem clear_num (b : Board n (n + k) K) (i r : Fin n) (factor : K) :
    (b.map num).clear i r (num factor) = (b.clear i r factor).map num := by
  unfold clear
  have hgrid : ((b.map num).grid.addScaledRow r i (-num factor)).setEntry r (i.castAdd k) 0 =
      ((b.grid.addScaledRow r i (-factor)).setEntry r (i.castAdd k) 0).map num := by
    rw [← Grid.map_setEntry, ← Grid.addScaledRow_num]
    rfl
  rw [hgrid]
  show (if Scalar.eq factor 0 then b.map num else _) = _
  cases Scalar.eq factor 0 with
  | true => rfl
  | false => exact map_record num b (.addScaled r i (-factor)) _

/-- The factors are quotients by the pivot. -/
theorem clearBelow_num (b : Board n (n + k) K) (i : Fin n)
    (h : b.grid.entry i (i.castAdd k) ≠ 0) :
    (b.map num).clearBelow i = (b.clearBelow i).map num := by
  unfold clearBelow
  refine List.foldl_hom (map num) fun b' r => ?_
  show (b'.map num).clear i r ((b'.grid.map num).entry r (i.castAdd k) /
    (b.grid.map num).entry i (i.castAdd k)) = _
  rw [Grid.entry_map, Grid.entry_map, ← Guarded.num_div h, clear_num]

variable [IsStrictOrderedRing K]

theorem triangularize_num {epsilon : K} (pos : 0 < epsilon) (b : Board n (n + k) K) :
    (b.map num).triangularize (num epsilon) =
      mapEndings (Halt.map num) (map num) (b.triangularize epsilon) := by
  refine foldlM_mapEndings (Halt.map num) (map num) (fun b i => ?_) _ b
  rw [bringUp_num]
  -- a board that comes out of bringing up has a pivot that may be divided by
  have hend := ends_bringUp epsilon b i
  cases hrun : b.bringUp epsilon i with
  | error halt => rfl
  | ok b' =>
    obtain ⟨r, -, hge, hgrid, -⟩ := hend.of_ok hrun
    have hp := pivot_ne_zero pos hge
    rw [← hgrid] at hp
    exact congrArg Except.ok (b'.clearBelow_num i hp)

end Board

namespace Grid

/-- A state of a back substitution with other numbers. -/
def mapState (state : Vector K n × List (Substitution n K)) :
    Vector (Guarded K) n × List (Substitution n (Guarded K)) :=
  (state.1.map num, state.2.map (Substitution.map num))

theorem tailSum_num (u : Grid n n K) (x : Vector K n) (i : Fin n) :
    (u.map num).tailSum (x.map num) i = num (u.tailSum x i) := by
  unfold tailSum
  rw [← Guarded.sum_num, List.map_map]
  refine congrArg Scalar.sum (List.map_congr_left fun j _ => ?_)
  rw [entry_map, get_map]
  rfl

variable [IsStrictOrderedRing K]

theorem substituteRow_num {epsilon : K} (pos : 0 < epsilon) (u : Grid n n K) (b : Vector K n)
    (state : Vector K n × List (Substitution n K)) (i : Fin n) :
    (u.map num).substituteRow (num epsilon) (b.map num) (mapState state) i =
      mapEndings (SubstitutionHalt.map num) mapState (u.substituteRow epsilon b state i) := by
  obtain ⟨x, log⟩ := state
  simp only [substituteRow, mapState, entry_map, tailSum_num, get_map, Guarded.negligible_num]
  cases hneg : Scalar.negligible epsilon (u.entry i i) with
  | true => rfl
  | false =>
    have hp := Scalar.ne_zero_of_not_negligible pos hneg
    have hvalue : (num (b.get i) - num (u.tailSum x i)) / num (u.entry i i) =
        num ((b.get i - u.tailSum x i) / u.entry i i) := by
      rw [Guarded.num_div hp, Guarded.num_sub]
    simp only [hvalue, setAt_map]
    show _ = Except.ok (_, List.map (Substitution.map num) (log ++ [_]))
    rw [List.map_append]
    rfl

theorem backSubstitute_num {epsilon : K} (pos : 0 < epsilon) (u : Grid n n K) (b : Vector K n) :
    (u.map num).backSubstitute (num epsilon) (b.map num) =
      mapEndings (SubstitutionHalt.map num) mapState (u.backSubstitute epsilon b) := by
  unfold backSubstitute
  have hstart : ((Vector.replicate n 0, []) : Vector (Guarded K) n × List (Substitution n _)) =
      mapState (Vector.replicate n (0 : K), []) := by
    rw [mapState, Vector.map_replicate]
    rfl
  rw [hstart]
  exact foldlM_mapEndings (SubstitutionHalt.map num) mapState
    (fun state i => substituteRow_num pos u b state i) _ _

end Grid

namespace LinearSystem

variable [IsStrictOrderedRing K]

/-- **No division by zero.** With guarded numbers the method writes down the same solution. -/
theorem gauss_num {settings : Settings K} (pos : 0 < settings.epsilon) (s : LinearSystem n K) :
    (s.map num).gauss (settings.map num) = (s.gauss settings).map num := by
  have hboard : (⟨(s.map num).augmented, []⟩ : Board n (n + 1) (Guarded K)) =
      Board.map num ⟨s.augmented, []⟩ := by
    rw [augmented_map]
    rfl
  unfold gauss
  rw [hboard, show (settings.map num).epsilon = num settings.epsilon from rfl,
    Board.triangularize_num pos, eliminationOpening_map]
  cases Board.triangularize (k := 1) settings.epsilon ⟨s.augmented, []⟩ with
  | error halt =>
    simp only [mapEndings, Outcome.map_stop, List.map_append, ← Board.steps_map]
    rfl
  | ok board =>
    simp only [mapEndings]
    have hleft : Grid.leftBlock (k := 1) (board.map num).grid =
        (Grid.leftBlock (k := 1) board.grid).map num := Grid.map_leftBlock num board.grid
    have hright : (board.map num).grid.lastColumn = board.grid.lastColumn.map num :=
      Grid.map_lastColumn num board.grid
    rw [hleft, hright, Grid.backSubstitute_num pos]
    cases Grid.backSubstitute settings.epsilon (Grid.leftBlock (k := 1) board.grid)
        board.grid.lastColumn with
    | error halt =>
      simp only [mapEndings, Outcome.map_stop, List.map_append, ← Board.steps_map,
        ← substitutionSteps_map, List.map_cons, List.map_nil, Step.map, ← Grid.toRows_map]
      rfl
    | ok result =>
      simp only [mapEndings, Outcome.map_close, List.map_append, ← Board.steps_map,
        ← substitutionSteps_map, List.map_cons, List.map_nil, Step.map, ← Grid.toRows_map]
      rfl

end LinearSystem

end Chalkboard
