import Chalkboard.Method.BackSubstitution
import Chalkboard.Settings
import Chalkboard.System.Basic
import Chalkboard.Worked.Outcome

/-!
# LU decomposition

The coefficients are factored into a lower triangular grid with ones on the diagonal and an upper
triangular grid: for each index a row of the upper factor, then a column of the lower one. Rows are
never exchanged, so a negligible diagonal entry ends the method even where an exchange would have
avoided it. The system then falls into two triangular ones.
-/

namespace Chalkboard

universe u

/-- Two factors, complete up to some row and column. -/
structure Factors (n : Nat) (α : Type u) where
  lower : Grid n n α
  upper : Grid n n α

/-- A factorisation that met a negligible diagonal entry. -/
structure FactorHalt (n : Nat) (α : Type u) where
  column : Fin n
  pivot : α
  factors : Factors n α

namespace Factors

variable {n : Nat} {α : Type u} [Scalar α]

/-- Two grids of zeros. -/
def zero : Factors n α :=
  ⟨.ofFn fun _ _ => 0, .ofFn fun _ _ => 0⟩

/-- What the first `i` columns of the lower and rows of the upper factor contribute to the product
in row `r` and column `c`. -/
def partialProduct (f : Factors n α) (i r c : Fin n) : α :=
  Scalar.sum (((List.finRange n).filter (· < i)).map fun k => f.lower.entry r k * f.upper.entry k c)

/-- Fills row `i` of the upper factor from the diagonal on, and the diagonal of the lower factor. -/
def fillRow (a : Grid n n α) (f : Factors n α) (i : Fin n) : Factors n α :=
  ⟨f.lower.setEntry i i 1, .ofFn fun r c =>
    if r = i ∧ i ≤ c then a.entry i c - f.partialProduct i i c else f.upper.entry r c⟩

/-- Fills column `i` of the lower factor below the diagonal. -/
def fillColumn (a : Grid n n α) (f : Factors n α) (i : Fin n) : Factors n α :=
  let pivot := f.upper.entry i i
  ⟨.ofFn fun r c =>
    if c = i ∧ i < r then (a.entry r i - f.partialProduct i r i) / pivot else f.lower.entry r c,
   f.upper⟩

/-- Fills one row and one column. -/
def extend (epsilon : α) (a : Grid n n α) (f : Factors n α) (i : Fin n) :
    Except (FactorHalt n α) (Factors n α) :=
  let f := f.fillRow a i
  let pivot := f.upper.entry i i
  if Scalar.negligible epsilon pivot then .error ⟨i, pivot, f⟩ else .ok (f.fillColumn a i)

/-- The factors of `a`, if no diagonal entry of the upper one is negligible. -/
def of (epsilon : α) (a : Grid n n α) : Except (FactorHalt n α) (Factors n α) :=
  (List.finRange n).foldlM (extend epsilon a) zero

end Factors

namespace Grid

variable {n : Nat} {α : Type u} [Scalar α]

/-- What the unknowns before column `i` contribute to row `i`. -/
def headSum (l : Grid n n α) (y : Vector α n) (i : Fin n) : α :=
  Scalar.sum (((List.finRange n).filter (· < i)).map fun k => l.entry i k * y.get k)

/-- The solution of the lower triangular system `l · y = b` with ones on the diagonal. -/
def forwardSubstitute (l : Grid n n α) (b : Vector α n) : Vector α n :=
  (List.finRange n).foldl (fun y i => setAt y i (b.get i - l.headSum y i)) (Vector.replicate n 0)

end Grid

namespace LinearSystem

variable {n : Nat} {α : Type u} [Scalar α]

/-- Solves a system by factorisation and two substitutions. -/
def lu (settings : Settings α) (s : LinearSystem n α) : Outcome n α :=
  let opening : List (Step α) :=
    [.system s.equations, .matrix "A" s.a.toRows, .vector "b" s.b.toList]
  match Factors.of settings.epsilon s.a with
  | .error halt =>
    .stop (.zeroPivot halt.column halt.pivot .decomposition)
      (opening ++ [.matrix "L (partial)" halt.factors.lower.toRows,
        .matrix "U (partial)" halt.factors.upper.toRows])
  | .ok f =>
    let y := f.lower.forwardSubstitute s.b
    let forward := opening ++ [.matrix "L" f.lower.toRows, .matrix "U" f.upper.toRows,
      .vector "y" y.toList]
    match f.upper.backSubstitute settings.epsilon y with
    | .error halt => .stop (.zeroPivot halt.row halt.pivot .backSubstitution) forward
    | .ok (x, _) => .close s.unknowns x (forward ++ [.vector "x" x.toList])

end LinearSystem

end Chalkboard
