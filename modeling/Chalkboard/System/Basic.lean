import Chalkboard.Equation.Basic
import Chalkboard.Table
import Chalkboard.TableError

/-!
# Square linear systems

A `LinearSystem n α` has `n` unknowns, an `n` by `n` grid of coefficients and `n` constants: row
`i` and constant `i` come from equation `i`, column `j` belongs to unknown `j`. The sizes are in
the type, so a system cannot be ill-shaped; `LinearSystem.ofTable` and `LinearSystem.ofRows` say
what becomes of numbers whose shape is not known beforehand.
-/

namespace Chalkboard

universe u

/-- The system `A · x = b` over named unknowns. -/
structure LinearSystem (n : Nat) (α : Type u) where
  /-- The unknowns, one for each column. -/
  unknowns : Vector Char n
  /-- The coefficients. -/
  a : Grid n n α
  /-- The right side. -/
  b : Vector α n

namespace LinearSystem

variable {n : Nat} {α : Type u}

/-- A system from a table of coefficients and a column of constants. -/
def ofTable (unknowns : List Char) (a : Table α) (b : List α) :
    Except TableError (LinearSystem unknowns.length α) :=
  if unknowns.length = 0 then
    .error .empty
  else if square : a.height = a.width then
    if height : a.height = unknowns.length then
      if constants : b.length = unknowns.length then
        .ok
          { unknowns := ⟨unknowns.toArray, List.size_toArray⟩
            a := .ofFn fun i j => a.grid.entry (i.cast height.symm)
              (j.cast (height.symm.trans square))
            b := ⟨b.toArray, by simpa using constants⟩ }
      else
        .error (.sizeMismatch unknowns.length b.length)
    else
      .error (.sizeMismatch unknowns.length a.height)
  else
    .error (.notSquare a.height a.width)

/-- A system from rows of coefficients, which may be uneven, and a column of constants. -/
def ofRows (unknowns : List Char) (rows : List (List α)) (constants : List α) :
    Except TableError (LinearSystem unknowns.length α) :=
  if rows.length = unknowns.length then
    match Grid.ofRows unknowns.length rows with
    | .error length => .error (.sizeMismatch unknowns.length length)
    | .ok a => ofTable unknowns ⟨rows.length, unknowns.length, a⟩ constants
  else
    .error (.sizeMismatch unknowns.length rows.length)

/-- Names that come first when none are given. -/
def preferredUnknowns : List Char :=
  ['x', 'y', 'z', 'd', 'e', 'f', 'g', 'h']

/-- The letters from `a` to `w`. -/
def lettersToW : List Char :=
  (List.range 23).map fun i => Char.ofNat ('a'.toNat + i)

/-- Names for `n` unknowns when none are given: `x`, `y`, `z`, `d` to `h`, then the letters left
before `x`. There are 26 in all. -/
def defaultUnknowns (n : Nat) : List Char :=
  (preferredUnknowns ++ lettersToW.filter (· ∉ preferredUnknowns)).take n

/-- Equation `i`. -/
def equation (s : LinearSystem n α) (i : Fin n) : Equation α :=
  { terms := (s.a.row i).toList.zip s.unknowns.toList, constant := s.b.get i }

/-- All equations, in their order. -/
def equations (s : LinearSystem n α) : List (Equation α) :=
  (List.finRange n).map s.equation

/-- The coefficients with the constants beside them. -/
def augmented (s : LinearSystem n α) : Grid n (n + 1) α :=
  s.a.augment s.b

/-- All equations as lines of text. -/
def equationTexts (s : LinearSystem n Float) : List String :=
  s.equations.map Equation.text

end LinearSystem

end Chalkboard
