import Chalkboard.Method.Factorization
import Chalkboard.Proofs.Checked.Access

/-!
# Substitution with checked access

Back substitution takes its coefficients and its constants from wherever they stand: behind an
elimination both are columns of one table, behind a factorisation they are the upper factor and a
column of its own. Forward substitution takes them from the lower factor and from the constants.

* `backSubstitute?_eq`, `forwardSubstitute?_eq` — both have the result of their counterparts on
  grids, if what they take is there for every index of the grid.
-/

namespace Chalkboard

universe u

variable {n : Nat} {α : Type u}

/-- The reason for which a method is left, and the steps that it has written by then. -/
abbrev Refusal (α : Type u) : Type u :=
  Singularity α × List (Step α)

variable [Scalar α]

/-- The sum of the terms of some indices. -/
def sumOf? (indices : List Nat) (term? : Nat → Option α) : Option α := do
  return Scalar.sum (← indices.mapM term?)

theorem sumOf?_map_val {term? : Nat → Option α} {term : Fin n → α}
    (h : ∀ i : Fin n, term? i = some (term i)) (l : List (Fin n)) :
    sumOf? (l.map Fin.val) term? = some (Scalar.sum (l.map term)) := by
  rw [sumOf?, mapM_map_val h]
  rfl

/-! ## Back substitution -/

/-- What a back substitution takes its numbers from, and what it writes down. -/
structure Triangle (α : Type u) where
  coefficient? : Nat → Nat → Option α
  constant? : Nat → Option α
  /-- The steps for a row, its right side, what is subtracted from it, the pivot and the value. -/
  steps? : Nat → α → α → α → α → Option (List (Step α))

/-- One row of a back substitution: the values so far, and the steps. -/
def Triangle.substituteRow? (t : Triangle α) (n : Nat) (epsilon : α)
    (state : List α × List (Step α)) (i : Nat) :
    Option (Except (Refusal α) (List α × List (Step α))) := do
  let (x, steps) := state
  let pivot ← t.coefficient? i i
  if Scalar.negligible epsilon pivot then
    return .error (.zeroPivot i pivot .backSubstitution, steps)
  else
    let constant ← t.constant? i
    let subtracted ← sumOf? (List.range' (i + 1) (n - (i + 1))) fun j => do
      return (← t.coefficient? i j) * (← x[j]?)
    let x ← setAt? x i ((constant - subtracted) / pivot)
    return .ok (x, steps ++ (← t.steps? i constant subtracted pivot (← x[i]?)))

/-- A back substitution from the last of `n` rows up. -/
def Triangle.backSubstitute? (t : Triangle α) (n : Nat) (epsilon : α) :
    Option (Except (Refusal α) (List α × List (Step α))) :=
  loop? (t.substituteRow? n epsilon) (List.range n).reverse (List.replicate n 0, [])

/-- **`t.Reads u b steps`** — the coefficients and the constants are those of `u` and `b`, and
`steps` is what is written down for a row. -/
structure Triangle.Reads (t : Triangle α) (u : Grid n n α) (b : Vector α n)
    (steps : Substitution n α → List (Step α)) : Prop where
  coefficient (i j : Fin n) : t.coefficient? i j = some (u.entry i j)
  constant (i : Fin n) : t.constant? i = some (b.get i)
  steps (r : Substitution n α) :
    t.steps? r.row r.constant r.subtracted r.pivot r.value = some (steps r)

/-- The values and the steps of a back substitution. -/
def substituted (steps : Substitution n α → List (Step α))
    (state : Vector α n × List (Substitution n α)) : List α × List (Step α) :=
  (state.1.toList, state.2.flatMap steps)

/-- What a method returns that is left with a halt of its back substitution. -/
def SubstitutionHalt.refusal (steps : Substitution n α → List (Step α))
    (halt : SubstitutionHalt n α) : Refusal α :=
  (.zeroPivot halt.row halt.pivot .backSubstitution, halt.log.flatMap steps)

namespace Triangle.Reads

variable {t : Triangle α} {u : Grid n n α} {b : Vector α n}
  {steps : Substitution n α → List (Step α)}

theorem substituteRow?_eq (h : t.Reads u b steps) (epsilon : α)
    (state : Vector α n × List (Substitution n α)) (i : Fin n) :
    t.substituteRow? n epsilon (substituted steps state) i =
      some (mapEndings (SubstitutionHalt.refusal steps) (substituted steps)
        (u.substituteRow epsilon b state i)) := by
  obtain ⟨x, log⟩ := state
  have subtracted : sumOf? (List.range' (i + 1) (n - (i + 1))) (fun j => do
      return (← t.coefficient? i j) * (← x.toList[j]?)) = some (u.tailSum x i) := by
    rw [above_eq_map]
    refine sumOf?_map_val (fun j => ?_) _
    rw [h.coefficient i j, getElem?_toList]
    rfl
  simp only [substituteRow?, substituted, h.coefficient i i, Grid.substituteRow,
    Option.bind_eq_bind, Option.bind_some]
  cases refused : Scalar.negligible epsilon (u.entry i i) with
  | true => rfl
  | false =>
    have written := h.steps ⟨i, b.get i, u.tailSum x i, u.entry i i,
      (b.get i - u.tailSum x i) / u.entry i i⟩
    simp only [Option.bind_eq_bind] at subtracted
    simp only [Bool.false_eq_true, if_false, h.constant i, subtracted, setAt?_toList,
      getElem?_setAt, written, Option.bind_some, mapEndings, substituted,
      List.flatMap_append, List.flatMap_singleton]
    rfl

/-- **Back substitution** takes no number that is not there. -/
theorem backSubstitute?_eq (h : t.Reads u b steps) (epsilon : α) :
    t.backSubstitute? n epsilon =
      some (mapEndings (SubstitutionHalt.refusal steps) (substituted steps)
        (u.backSubstitute epsilon b)) := by
  have start : (List.replicate n (0 : α), ([] : List (Step α))) =
      substituted steps (Vector.replicate n 0, []) := by
    rw [substituted, Vector.toList_replicate]
    rfl
  rw [backSubstitute?, range_eq_map, ← List.map_reverse, start]
  exact loop?_map_val _ _ (h.substituteRow?_eq epsilon) _ _

end Triangle.Reads

/-! ## Forward substitution -/

/-- A forward substitution from the first of `n` rows down. -/
def forwardSubstitute? (n : Nat) (l : Table α) (b : List α) : Option (List α) :=
  (List.range n).foldlM (fun y i => do
    let sum ← sumOf? (List.range i) fun k => do return (← l.entry? i k) * (← y[k]?)
    setAt? y i ((← b[i]?) - sum)) (List.replicate n 0)

/-- **Forward substitution** takes no number that is not there. -/
theorem forwardSubstitute?_eq (l : Grid n n α) (b : Vector α n) :
    forwardSubstitute? n l.table b.toList = some (l.forwardSubstitute b).toList := by
  rw [forwardSubstitute?, range_eq_map, ← Vector.toList_replicate]
  refine foldlM_map_val Vector.toList (fun y i => ?_) _ _
  have sum : sumOf? (List.range i) (fun k => do return (← l.table.entry? i k) * (← y.toList[k]?)) =
      some (l.headSum y i) := by
    rw [below_eq_map]
    refine sumOf?_map_val (fun k => ?_) _
    rw [Grid.entry?_table, getElem?_toList]
    rfl
  rw [sum, getElem?_toList, Option.bind_eq_bind, Option.bind_some, Option.bind_some]
  exact setAt?_toList y i _

end Chalkboard
