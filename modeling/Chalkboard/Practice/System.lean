import Chalkboard.Practice.WordSource
import Chalkboard.System.Basic

/-!
# Systems to practise on

Systems with whole numbers from `-10` to `10`. `randomSystem` draws coefficients and constants as
they come, so the system may be singular. `practiceSystem` draws coefficients until they can be
inverted, and then a solution of whole numbers from `-5` to `5`, which makes the constants.
-/

namespace Chalkboard

namespace Practice

variable {σ : Type} [WordSource σ] {α : Type} [Scalar α]

/-- Draws a coefficient or a constant. -/
def drawEntry : StateM σ Int :=
  WordSource.drawFrom (-10) 21

/-- Draws the value of an unknown. -/
def drawValue : StateM σ Int :=
  WordSource.drawFrom (-5) 11

/-- Draws several numbers, one after another. -/
def drawVector (draw : StateM σ Int) (n : Nat) : StateM σ (Vector Int n) :=
  (Vector.replicate n ()).mapM fun _ => draw

/-- Draws coefficients row by row. -/
def drawGrid (n : Nat) : StateM σ (Grid n n Int) := do
  return ⟨← (Vector.replicate n ()).mapM fun _ => drawVector drawEntry n⟩

/-- A system of a given size under the default names of its unknowns. -/
def named (n : Nat) (a : Grid n n α) (b : Vector α n) :
    Except TableError (LinearSystem (LinearSystem.defaultUnknowns n).length α) :=
  LinearSystem.ofTable (LinearSystem.defaultUnknowns n) ⟨n, n, a⟩ b.toList

/-- A system of whole numbers. -/
def randomSystem (n : Nat) :
    StateM σ (Except TableError (LinearSystem (LinearSystem.defaultUnknowns n).length α)) := do
  let a ← drawGrid n
  let b ← drawVector drawEntry n
  return named n (a.map Scalar.ofInt) (b.map Scalar.ofInt)

/-- A practice system and its solution. -/
structure Exercise (n : Nat) (α : Type) where
  system : LinearSystem (LinearSystem.defaultUnknowns n).length α
  solution : Vector α n

/-- Draws coefficients, at most `attempts` times, until they can be inverted, and then a solution. -/
def drawExercise (n : Nat) (epsilon : α) :
    (attempts : Nat) → StateM σ (Except TableError (Exercise n α))
  | 0 => return .error .singular
  | attempts + 1 => do
    let a : Grid n n α := (← drawGrid n).map Scalar.ofInt
    match a.inverse? epsilon with
    | none => drawExercise n epsilon attempts
    | some _ =>
      let x : Vector α n := (← drawVector drawValue n).map Scalar.ofInt
      return (named n a (a.mulVec x)).map (⟨·, x⟩)

/-- How often coefficients are drawn. -/
def maxAttempts : Nat := 1000

/-- A system with a solution of whole numbers. -/
def practiceSystem (n : Nat) (epsilon : α) : StateM σ (Except TableError (Exercise n α)) :=
  if n = 0 then return .error .empty else drawExercise n epsilon maxAttempts

end Practice

end Chalkboard
