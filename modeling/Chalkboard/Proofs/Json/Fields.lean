import Chalkboard.Proofs.Json.Number

/-!
# Taking written values apart

A caller who gets a JSON value looks up its members by their names and makes something of each. A
number that was not finite was written as `null`, so all that can be had of a quantity is the number
or the news that there is none.

* `Json.field?`, `Json.list?` — what is made of a member, and of all items.
* `Json.quantity?` — a number again, or none; it gives back what was `carried`.
-/

namespace Chalkboard

namespace Json

variable {β γ : Type}

/-- What is made of the first member with the given name. -/
def field? (name : String) (read : Json → Option β) : Json → Option β
  | .object members => (members.find? (·.1 = some name)).bind fun m => read m.2
  | _ => none

/-- What is made of the items of an array. -/
def list? (read : Json → Option β) : Json → Option (List β)
  | .array items => items.mapM read
  | _ => none

/-- A truth value. -/
def truth? : Json → Option Bool
  | .bool b => some b
  | _ => none

/-- A number without sign, point and exponent. -/
def count? : Json → Option Nat
  | .number x => if !x.negative && x.isInteger then some (digitsValue x.whole) else none
  | _ => none

/-- The number nearest to a numeral, or the news that there is none. -/
def quantity? : Json → Option (Option Float)
  | .null => some none
  | .number x => some (some x.nearest)
  | _ => none

/-- What is told of a number: nothing unless it is finite. -/
def carried (x : Float) : Option Float :=
  if x.isFinite then some x else none

/-! ## What was written is had again -/

@[simp] theorem field?_ofFields_cons (name other : String) (read : Json → Option β) (v : Json)
    (fields : List (String × Json)) :
    (ofFields ((other, v) :: fields)).field? name read =
      if other = name then read v else (ofFields fields).field? name read := by
  by_cases same : other = name
  · simp [field?, ofFields, same]
  · simp [field?, ofFields, same]

/-- Items that were written one by one are read one by one. -/
theorem list?_array_map {read : Json → Option β} {write : γ → Json} {told : γ → β}
    (h : ∀ x, read (write x) = some (told x)) (xs : List γ) :
    (Json.array (xs.map write)).list? read = some (xs.map told) := by
  show (xs.map write).mapM read = _
  induction xs with
  | nil => rfl
  | cons x xs ih =>
    rw [List.map_cons, List.mapM_cons, h x, ih]
    rfl

@[simp] theorem text?_ofString (s : String) : (ofString s).text? = some s :=
  rfl

@[simp] theorem list?_ofStrings (xs : List String) : (ofStrings xs).list? text? = some xs := by
  have read := list?_array_map text?_ofString xs
  rwa [List.map_id'] at read

@[simp] theorem truth?_bool (b : Bool) : (Json.bool b).truth? = some b :=
  rfl

@[simp] theorem count?_ofNat (n : Nat) : (ofNat n).count? = some n :=
  congrArg some (Decimal.digitsValue_digits n)

/-- **A finite number is had again**, and of any other that it was none. -/
@[simp] theorem quantity?_ofFloat (x : Float) : (ofFloat x).quantity? = some (carried x) := by
  unfold ofFloat carried
  cases finite : x.isFinite with
  | true =>
    obtain ⟨numeral, written, -, nearest⟩ := exists_ofFloat? finite
    rw [written, if_pos rfl]
    exact congrArg (fun y => some (some y)) nearest
  | false =>
    rw [ofFloat?_eq_none finite]
    rfl

@[simp] theorem list?_ofFloats (xs : List Float) :
    (ofFloats xs).list? quantity? = some (xs.map carried) :=
  list?_array_map quantity?_ofFloat xs

theorem writable_ofFloats (xs : List Float) : (ofFloats xs).Writable :=
  writable_map writable_ofFloat xs

end Json

end Chalkboard
