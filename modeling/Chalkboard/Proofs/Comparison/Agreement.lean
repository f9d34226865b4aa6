import Chalkboard.Comparison
import Chalkboard.Proofs.Method.Reach

/-!
# What agreement says of the values

The largest difference is a running maximum that starts at a number and passes over everything that
is not one. So it never leaves the numbers, and it stays within a bound exactly when every
difference that is a number does.

* `Tracks` — a running maximum within a bound, and which elements keep it there.
* `agree_iff_pairwise` — agreement of any attempts, in terms of their values.
* `ofSystem_agree_iff` — agreement of the methods on one system, in terms of single unknowns;
  `ofSystem_agree_iff_of_finite` if all values are finite.
* `agree_not_sufficient` — where Cramer's Rule ends with what is not a number, agreement holds all
  the same: it is no statement about such values.
-/

namespace Chalkboard

universe u

namespace Comparison

open Binary64

/-! ## Running maxima -/

section Tracks

variable {α : Type u} {t : Float} {step : Float → α → Float} {P : α → Prop}

/-- **A running maximum within `t`** — a step never leaves the numbers, and its result lies within
`t` exactly if the maximum so far does and the element satisfies `P`. -/
def Tracks (t : Float) (step : Float → α → Float) (P : α → Prop) : Prop :=
  ∀ worst a, worst.isNaN = false →
    (step worst a).isNaN = false ∧ (step worst a ≤ t ↔ worst ≤ t ∧ P a)

/-- Of two numbers the larger one is tracked; what is not a number stays out. -/
theorem tracks_larger : Tracks t larger fun y => y.isNaN = true ∨ y ≤ t := by
  intro x y hx
  show _ ∧ (_ ↔ x ≤ t ∧ (y.isNaN = true ∨ y ≤ t))
  unfold larger
  split_ifs with hxy
  · have hy := (isNaN_of_lt hxy).2
    refine ⟨hy, fun hyt => ⟨?_, .inr hyt⟩, fun h => ?_⟩
    · have ht := (isNaN_of_le hyt).2
      rw [lt_iff_order hx hy] at hxy
      rw [le_iff_order hy ht] at hyt
      exact (le_iff_order hx ht).mpr (hxy.le.trans hyt)
    · rw [hy] at h
      exact h.2.resolve_left Bool.false_ne_true
  · refine ⟨hx, fun hxt => ⟨hxt, ?_⟩, And.left⟩
    by_cases hy : y.isNaN = true
    · exact .inl hy
    · rw [Bool.not_eq_true] at hy
      have ht := (isNaN_of_le hxt).2
      rw [lt_iff_order hx hy, not_lt] at hxy
      rw [le_iff_order hx ht] at hxt
      exact .inr ((le_iff_order hy ht).mpr (hxy.trans hxt))

/-- A whole list is tracked if each of its elements is. -/
theorem Tracks.foldl (h : Tracks t step P) : Tracks t (List.foldl step) fun l => ∀ a ∈ l, P a := by
  intro worst l
  induction l generalizing worst with
  | nil =>
    intro number
    exact ⟨number, fun hle => ⟨hle, fun a ha => absurd ha List.not_mem_nil⟩, And.left⟩
  | cons a l ih =>
    intro number
    obtain ⟨next, head⟩ := h worst a number
    obtain ⟨last, tail⟩ := ih (step worst a) next
    refine ⟨last, tail.trans ?_⟩
    show _ ↔ worst ≤ t ∧ ∀ a' ∈ a :: l, P a'
    rw [head, and_assoc, List.forall_mem_cons]

end Tracks

/-! ## Differences -/

/-- **Near** — two lists of values lie within `t` of one another at every place where their
difference is a number. -/
def Near (t : Float) (xs ys : List Float) : Prop :=
  ∀ p ∈ xs.zip ys, (p.1 - p.2).isNaN = true ∨ (p.1 - p.2).abs ≤ t

theorem tracks_deviate (t : Float) (xs : List Float) :
    Tracks t (fun worst ys => deviate worst xs ys) (Near t xs) := by
  have difference : Tracks t (fun worst (p : Float × Float) => larger worst (p.1 - p.2).abs)
      fun p => (p.1 - p.2).isNaN = true ∨ (p.1 - p.2).abs ≤ t := by
    intro worst p number
    show _ ∧ (_ ↔ worst ≤ t ∧ ((p.1 - p.2).isNaN = true ∨ (p.1 - p.2).abs ≤ t))
    rw [← isNaN_abs (p.1 - p.2)]
    exact tracks_larger worst (p.1 - p.2).abs number
  intro worst ys number
  exact difference.foldl worst (xs.zip ys) number

/-- Any two of several lists of values are compared. -/
theorem tracks_deviateAll (t : Float) : Tracks t deviateAll (List.Pairwise (Near t)) := by
  intro worst solutions
  induction solutions generalizing worst with
  | nil =>
    intro number
    exact ⟨number, fun hle => ⟨hle, .nil⟩, And.left⟩
  | cons xs rest ih =>
    intro number
    obtain ⟨next, head⟩ := (tracks_deviate t xs).foldl worst rest number
    obtain ⟨last, tail⟩ := ih _ next
    refine ⟨last, tail.trans ?_⟩
    rw [head, and_assoc, List.pairwise_cons]

/-! ## Agreement -/

/-- **Agreement of any attempts** — the values of any two of them are near. -/
theorem agree_iff_pairwise (c : Comparison) :
    c.agree = true ↔ c.solutions.Pairwise (Near tolerance) := by
  have zero : (0.0 : Float).isNaN = false := by decide +kernel
  have within : 0.0 ≤ tolerance := by decide +kernel
  unfold agree maxDeviation?
  match c.solutions with
  | [] => exact iff_of_true rfl .nil
  | [xs] => exact iff_of_true rfl (List.pairwise_singleton _ xs)
  | xs :: ys :: rest =>
    rw [decide_eq_true_iff, (tracks_deviateAll tolerance 0.0 _ zero).2]
    exact and_iff_right within

/-! ## The methods on one system -/

variable {n : Nat}

/-- What a method adds to the solutions of a comparison. -/
theorem values?_solve {m : Method} {settings : Settings Float} {s : LinearSystem n Float}
    {xs : List Float} :
    Attempt.values? ⟨m, n, m.solve settings s⟩ = some xs ↔
      ∃ solution steps, m.solve settings s = .ok (.solved solution steps) ∧
        solution.values.toList = xs := by
  unfold Attempt.values?
  cases hsolve : m.solve settings s with
  | error e => simp
  | ok outcome => cases outcome <;> simp [Outcome.solution?]

/-- Values are near if they are so for every unknown. -/
theorem near_toList_iff {t : Float} {x y : Vector Float n} :
    Near t x.toList y.toList ↔
      ∀ i, (x.get i - y.get i).isNaN = true ∨ (x.get i - y.get i).abs ≤ t := by
  unfold Near
  rw [List.forall_mem_iff_getElem, Fin.forall_iff]
  simp only [List.length_zip, Vector.length_toList, min_self, List.getElem_zip,
    Vector.getElem_toList]
  rfl

/-- The methods on a system agree exactly if any two that end with values end with near ones. -/
theorem ofSystem_agree_iff_near (settings : Settings Float) (s : LinearSystem n Float) :
    (ofSystem settings s).agree = true ↔
      Method.all.Pairwise fun m m' => ∀ x xsteps y ysteps,
        m.solve settings s = .ok (.solved x xsteps) →
        m'.solve settings s = .ok (.solved y ysteps) →
        Near tolerance x.values.toList y.values.toList := by
  rw [agree_iff_pairwise]
  unfold solutions ofSystem
  rw [List.filterMap_map, List.pairwise_filterMap]
  refine List.Pairwise.iff fun m m' => ⟨?_, ?_⟩
  · intro near x xsteps y ysteps hx hy
    exact near _ (values?_solve.mpr ⟨x, xsteps, hx, rfl⟩) _ (values?_solve.mpr ⟨y, ysteps, hy, rfl⟩)
  · intro near xs hxs ys hys
    obtain ⟨x, xsteps, hx, rfl⟩ := values?_solve.mp hxs
    obtain ⟨y, ysteps, hy, rfl⟩ := values?_solve.mp hys
    exact near x xsteps y ysteps hx hy

/-- If all values are finite, agreement promises that any two are within the tolerance. -/
theorem ofSystem_agree_iff_of_finite {settings : Settings Float} {s : LinearSystem n Float}
    (finite : ∀ (m : Method) x steps, m.solve settings s = .ok (.solved x steps) →
      ∀ i, (x.values.get i).isFinite = true) :
    (ofSystem settings s).agree = true ↔
      Method.all.Pairwise fun m m' => ∀ x xsteps y ysteps,
        m.solve settings s = .ok (.solved x xsteps) →
        m'.solve settings s = .ok (.solved y ysteps) →
        ∀ i, (x.values.get i - y.values.get i).abs ≤ tolerance := by
  rw [ofSystem_agree_iff_near]
  refine List.Pairwise.iff fun m m' => forall_congr' fun x => forall_congr' fun xsteps =>
    forall_congr' fun y => forall_congr' fun ysteps => forall_congr' fun hx => forall_congr' fun hy =>
      near_toList_iff.trans (forall_congr' fun i => or_iff_right ?_)
  rw [Bool.not_eq_true]
  exact isNaN_sub_of_isFinite (finite m x xsteps hx i) (finite m' y ysteps hy i)

/-- **Agreement of the methods.** The methods on a system agree exactly if for any two that end with
values, and for every unknown, the difference of the two values is within the tolerance or is not a
number. -/
theorem ofSystem_agree_iff (settings : Settings Float) (s : LinearSystem n Float) :
    (ofSystem settings s).agree = true ↔
      Method.all.Pairwise fun m m' => ∀ x xsteps y ysteps,
        m.solve settings s = .ok (.solved x xsteps) →
        m'.solve settings s = .ok (.solved y ysteps) →
        ∀ i, (x.values.get i - y.values.get i).isNaN = true ∨
          (x.values.get i - y.values.get i).abs ≤ tolerance := by
  rw [ofSystem_agree_iff_near]
  simp only [near_toList_iff]

/-- **Agreement alone promises nothing** of two values: here Gaussian elimination finds that both
unknowns are `1`, Cramer's Rule ends with what is not a number, and the methods agree. -/
theorem agree_not_sufficient :
    ¬ ∀ (n : Nat) (settings : Settings Float) (s : LinearSystem n Float),
      settings.check = .ok settings → (ofSystem settings s).agree = true →
      ∀ (m m' : Method) (x y : Solution n Float) (xsteps ysteps : List (Step Float)),
        m.solve settings s = .ok (.solved x xsteps) →
        m'.solve settings s = .ok (.solved y ysteps) →
        ∀ i, (x.values.get i - y.values.get i).abs ≤ tolerance := by
  intro h
  have cramer : Attempt.values?
      ⟨.cramersRule, 2, Method.cramersRule.solve .standard Method.overflowing⟩ =
      some [0.0 / 0.0, 0.0 / 0.0] := by decide +kernel
  have gauss : Attempt.values?
      ⟨.gaussElimination, 2, Method.gaussElimination.solve .standard Method.overflowing⟩ =
      some [1.0, 1.0] := by decide +kernel
  obtain ⟨x, xsteps, hx, xs⟩ := values?_solve.mp cramer
  obtain ⟨y, ysteps, hy, ys⟩ := values?_solve.mp gauss
  have near := h 2 .standard Method.overflowing (by decide +kernel) (by decide +kernel) _ _ x y
    xsteps ysteps hx hy 0
  have hx0 : x.values = #v[0.0 / 0.0, 0.0 / 0.0] := Vector.toList_inj.mp xs
  have hy0 : y.values = #v[1.0, 1.0] := Vector.toList_inj.mp ys
  rw [hx0, hy0] at near
  exact absurd near (by decide +kernel)

end Comparison

end Chalkboard
