import Chalkboard.Settings
import Chalkboard.System.Basic
import Chalkboard.Worked.Outcome

/-!
# Cramer's Rule

Each unknown is the quotient of two determinants: that of the coefficients with the unknown's column
replaced by the constants, and that of the coefficients.
-/

namespace Chalkboard

universe u

namespace LinearSystem

variable {n : Nat} {α : Type u} [Scalar α]

/-- The coefficients with column `k` replaced by the constants. -/
def replaced (s : LinearSystem n α) (k : Fin n) : Grid n n α :=
  s.a.replaceColumn k s.b

/-- The value of unknown `k` by Cramer's Rule. -/
def cramerValue (s : LinearSystem n α) (k : Fin n) : α :=
  (s.replaced k).det / s.a.det

/-- The steps for unknown `k`. -/
def cramerSteps (s : LinearSystem n α) (k : Fin n) : List (Step α) :=
  let label := "A_" ++ (s.unknowns.get k).toString
  let det := (s.replaced k).det
  [.matrix label (s.replaced k).toRows,
   .determinant ("det(" ++ label ++ ")") det,
   .quotient (s.unknowns.get k) det s.a.det (det / s.a.det)]

/-- Solves a system by Cramer's Rule. -/
def cramer (settings : Settings α) (s : LinearSystem n α) : Outcome n α :=
  let det := s.a.det
  let opening : List (Step α) :=
    [.system s.equations, .matrix "A" s.a.toRows, .vector "b" s.b.toList,
     .ofDet settings.expandCofactors "det(A)" s.a]
  if Scalar.negligible settings.epsilon det then
    .stop (.zeroDeterminant det) opening
  else
    .close s.unknowns (Vector.ofFn s.cramerValue)
      (opening ++ (List.finRange n).flatMap s.cramerSteps)

end LinearSystem

end Chalkboard
