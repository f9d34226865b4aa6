import Chalkboard.Method.BackSubstitution
import Chalkboard.Method.Elimination
import Chalkboard.Settings
import Chalkboard.System.Basic

/-!
# Gaussian elimination

The coefficients with the constants beside them are brought to upper triangular form with partial
pivoting; then the unknowns follow from the last row up.
-/

namespace Chalkboard

universe u

namespace LinearSystem

variable {n : Nat} {α : Type u} [Scalar α]

/-- How both elimination methods begin. -/
def eliminationOpening (s : LinearSystem n α) : List (Step α) :=
  [.system s.equations, .augmented "Augmented matrix [A | b]" s.augmented.toRows]

/-- The row of a back substitution as a step. -/
def substitutionStep (s : LinearSystem n α) (r : Substitution n α) : Step α :=
  .backSubstitution (s.unknowns.get r.row) r.row r.constant r.subtracted r.pivot r.value

/-- Solves a system by Gaussian elimination with partial pivoting and back substitution. -/
def gauss (settings : Settings α) (s : LinearSystem n α) : Outcome n α :=
  let opening := s.eliminationOpening
  match Board.triangularize (k := 1) settings.epsilon ⟨s.augmented, []⟩ with
  | .error halt =>
    .stop (.zeroPivot halt.column halt.pivot .elimination) (opening ++ halt.board.steps)
  | .ok board =>
    let forward :=
      opening ++ board.steps ++ [.augmented "Upper triangular form" board.grid.toRows]
    match board.grid.leftBlock.backSubstitute settings.epsilon board.grid.lastColumn with
    | .error halt =>
      .stop (.zeroPivot halt.row halt.pivot .backSubstitution)
        (forward ++ halt.log.map s.substitutionStep)
    | .ok (x, log) => .close s.unknowns x (forward ++ log.map s.substitutionStep)

end LinearSystem

end Chalkboard
