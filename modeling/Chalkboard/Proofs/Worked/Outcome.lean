import Chalkboard.Worked.Outcome

/-!
# What an ending shows

An ending is read through its parts: the solution or the reason, and the steps. `Records` says which
numbers a reader of the steps finds under a label.
-/

namespace Chalkboard

universe u v

variable {n : Nat} {α : Type u} {β : Type v}

namespace Outcome

theorem solution?_eq_some_iff {o : Outcome n α} {solution : Solution n α} :
    o.solution? = some solution ↔ ∃ steps, o = .solved solution steps := by
  cases o with
  | solved solution' steps' => simp [solution?]
  | stopped reason steps' => simp [solution?]

theorem reason?_eq_some_iff {o : Outcome n α} {reason : Singularity α} :
    o.reason? = some reason ↔ ∃ steps, o = .stopped reason steps := by
  cases o with
  | solved solution steps' => simp [reason?]
  | stopped reason' steps' => simp [reason?]

end Outcome

/-- **`Records entry v steps`** — `entry v` is a step, and `entry w` is one for no other `w`. -/
def Records (entry : β → Step α) (v : β) (steps : List (Step α)) : Prop :=
  ∀ w, entry w ∈ steps ↔ w = v

end Chalkboard
