import Chalkboard.Practice.System

/-!
# What can be drawn

A drawing takes words from a source, and the words may be any. `Yields` says what is certain of the
result all the same: a number below a bound, a whole number between two bounds, a vector or a grid
of such numbers.
-/

namespace Chalkboard

namespace Practice

variable {σ : Type} {β γ : Type}

/-- **`Yields P x`** — whatever the source hands out, `P` holds of what `x` gives. -/
def Yields (P : β → Prop) (x : StateM σ β) : Prop :=
  ∀ s, P (x.run s).1

namespace Yields

variable {P : β → Prop} {Q : γ → Prop}

theorem pure {b : β} (h : P b) : Yields P (Pure.pure b : StateM σ β) :=
  fun _ => h

/-- One drawing after another. -/
theorem bind {x : StateM σ β} {f : β → StateM σ γ} (h : Yields P x)
    (next : ∀ b, P b → Yields Q (f b)) : Yields Q (x >>= f) :=
  fun s => next _ (h s) (x.run s).2

/-- Less is certain as well. -/
theorem imp {P' : β → Prop} {x : StateM σ β} (h : Yields P x) (weaker : ∀ b, P b → P' b) :
    Yields P' x :=
  fun s => weaker _ (h s)

/-- Several drawings, one for each element of a list. -/
theorem mapM_list {α : Type} {f : α → StateM σ β} (h : ∀ a, Yields P (f a)) (l : List α) :
    Yields (fun bs : List β => ∀ b ∈ bs, P b) (l.mapM f) := by
  induction l with
  | nil =>
    rw [List.mapM_nil]
    refine Yields.pure ?_
    intro b hb
    exact absurd hb List.not_mem_nil
  | cons a l ih =>
    rw [List.mapM_cons]
    refine (h a).bind fun b hb => ih.bind fun bs hbs => Yields.pure ?_
    intro b' hb'
    rcases List.mem_cons.mp hb' with rfl | hb'
    · exact hb
    · exact hbs b' hb'

/-- Several drawings, one for each element of a vector. -/
theorem mapM {α : Type} {f : α → StateM σ β} (h : ∀ a, Yields P (f a)) {n : Nat}
    (xs : Vector α n) : Yields (fun v : Vector β n => ∀ i, P (v.get i)) (xs.mapM f) := by
  intro s i
  -- the same drawings, element by element of a list
  have lists : Array.toList <$> Vector.toArray <$> xs.mapM f = xs.toArray.toList.mapM f := by
    rw [Vector.toArray_mapM, Array.toList_mapM]
  have all := mapM_list h xs.toArray.toList s
  rw [← lists] at all
  exact all _ (Array.getElem_mem_toList _)

end Yields

/-! ## Numbers -/

variable [WordSource σ]

/-- Scaling a word down to a bound: the part before the point is below the bound, and a carry from
the part behind it is only asked for where it does not reach the bound. -/
theorem scaled_lt (w : UInt32) {span : Nat} (pos : 0 < span) :
    w.toNat * span / UInt32.size < span ∧
      (UInt32.size - span < w.toNat * span % UInt32.size →
        w.toNat * span / UInt32.size + 1 < span) := by
  have hword : w.toNat ≤ UInt32.size - 1 := Nat.le_pred_of_lt w.toNat_lt_size
  have hproduct : w.toNat * span ≤ (UInt32.size - 1) * span := Nat.mul_le_mul_right span hword
  have hsplit := Nat.div_add_mod (w.toNat * span) UInt32.size
  have hsize : UInt32.size = 4294967296 := rfl
  rw [hsize] at hproduct hsplit ⊢
  constructor
  · omega
  · intro hlow
    omega

/-- **A number below a bound** is below it, also where the second word carries. -/
theorem yields_drawBelow {span : Nat} (pos : 0 < span) :
    Yields (· < span) (WordSource.drawBelow span : StateM σ Nat) := by
  have anyWord : Yields (fun _ => True) (WordSource.take : StateM σ UInt32) := fun _ => trivial
  refine anyWord.bind fun w _ => ?_
  obtain ⟨hhigh, hcarry⟩ := scaled_lt w pos
  by_cases hlow : UInt32.size - span < w.toNat * span % UInt32.size
  · rw [if_pos hlow]
    refine anyWord.bind fun w' _ => Yields.pure ?_
    show (if _ then _ else _) < span
    split
    · exact hcarry hlow
    · exact hhigh
  · rw [if_neg hlow]
    exact Yields.pure hhigh

/-- A whole number in a range. -/
theorem yields_drawFrom (low : Int) {span : Nat} (pos : 0 < span) :
    Yields (fun z => low ≤ z ∧ z < low + span) (WordSource.drawFrom low span : StateM σ Int) := by
  refine (yields_drawBelow pos).bind fun m hm => Yields.pure ?_
  omega

/-! ## Grids and vectors -/

/-- Coefficients are whole numbers from `-10` to `10`. -/
theorem yields_drawGrid (n : Nat) :
    Yields (fun a : Grid n n Int => ∀ i j, -10 ≤ a.entry i j ∧ a.entry i j ≤ 10)
      (drawGrid n : StateM σ (Grid n n Int)) := by
  have entry : Yields (fun z : Int => -10 ≤ z ∧ z ≤ 10) (drawEntry : StateM σ Int) := by
    refine (yields_drawFrom (-10) (by omega)).imp fun z hz => ?_
    omega
  refine (Yields.mapM (fun _ => Yields.mapM (fun _ => entry) _) _).bind fun rows hrows =>
    Yields.pure fun i j => hrows i j

/-- A solution is made of whole numbers from `-5` to `5`. -/
theorem yields_drawSolution (n : Nat) :
    Yields (fun x : Vector Int n => ∀ i, -5 ≤ x.get i ∧ x.get i ≤ 5)
      (drawVector drawValue n : StateM σ (Vector Int n)) := by
  have value : Yields (fun z : Int => -5 ≤ z ∧ z ≤ 5) (drawValue : StateM σ Int) := by
    refine (yields_drawFrom (-5) (by omega)).imp fun z hz => ?_
    omega
  exact Yields.mapM (fun _ => value) _

end Practice

end Chalkboard
