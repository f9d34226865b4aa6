import Chalkboard.Method.Gauss

/-!
# Gauss-Jordan elimination

Each pivot row is divided by its pivot and its column is cleared in every other row, so the left
block becomes the identity and the last column the solution.
-/

namespace Chalkboard

universe u

namespace LinearSystem

variable {n : Nat} {α : Type u} [Scalar α]

/-- Solves a system by Gauss-Jordan elimination with partial pivoting. -/
def gaussJordan (settings : Settings α) (s : LinearSystem n α) : Outcome n α :=
  let opening := s.eliminationOpening
  match Board.diagonalize (k := 1) settings.epsilon ⟨s.augmented, []⟩ with
  | .error halt =>
    .stop (.zeroPivot halt.column halt.pivot .elimination) (opening ++ halt.board.steps)
  | .ok board =>
    .close s.unknowns board.grid.lastColumn
      (opening ++ board.steps ++ [.augmented "Reduced row echelon form" board.grid.toRows])

end LinearSystem

end Chalkboard
