import Chalkboard.Proofs.Json.Fields
import Chalkboard.Proofs.Request.Written
import Chalkboard.Proofs.Worked.Data

/-!
# Steps are read back from their written form

Whoever gets a worked solution can tell from the kind of each step which members it has, and gets
back all it holds: every text as it was, every count, every finite number, and for the others that
they were none. The equations of a step are told as lines; a caption is part of the step's own line.

* `Step.told` — what is told of a step.
* `StepData.ofJson?_json` — the data of a step is read back.
* `Singularity.ofJson?_json` — so is the reason for a failure.
-/

namespace Chalkboard

open Json (ofFields ofFloat ofFloats ofNat ofString ofStrings text? field? list? count? quantity?
  carried writable_ofFields writable_ofFloat writable_ofFloats writable_ofNat writable_ofString
  writable_ofStrings writable_map)

/-! ## Reading -/

/-- Rows of quantities. -/
def rowsOfJson? : Json → Option (List (List (Option Float))) :=
  list? (list? quantity?)

/-- A row operation. -/
def RowOp.ofJson? (v : Json) : Option (RowOp (Option Float)) := do
  match ← v.field? "op" text? with
  | "swap" => return .swap (← v.field? "first" count?) (← v.field? "second" count?)
  | "scale" => return .scale (← v.field? "row" count?) (← v.field? "factor" quantity?)
  | "add_scaled" =>
    return .addScaled (← v.field? "target" count?) (← v.field? "source" count?)
      (← v.field? "factor" quantity?)
  | _ => none

/-- A term of an expansion. -/
def CofactorTerm.ofJson? (v : Json) : Option (CofactorTerm (Option Float)) := do
  return { column := ← v.field? "column" count?, sign := ← v.field? "sign" quantity?,
           entry := ← v.field? "entry" quantity?,
           minorDet := ← v.field? "minor_determinant" quantity? }

/-- An unknown and its value. -/
def assignmentOfJson? : Json → Option (Char × Option Float)
  | .array [name, value] => do return (← Request.letterOfJson? name, ← value.quantity?)
  | _ => none

/-- The data of a step. -/
def StepData.ofJson? (v : Json) : Option (StepData (Option Float)) := do
  match ← v.field? "kind" text? with
  | "system" => return .system (← v.field? "equations" (list? text?))
  | "matrix" => return .matrix (← v.field? "label" text?) (← v.field? "matrix" rowsOfJson?)
  | "augmented" => return .augmented (← v.field? "matrix" rowsOfJson?)
  | "vector" => return .vector (← v.field? "label" text?) (← v.field? "values" (list? quantity?))
  | "determinant" =>
    return .determinant (← v.field? "label" text?) (← v.field? "value" quantity?)
  | "cofactor_expansion" =>
    return .cofactorExpansion (← v.field? "label" text?)
      (← v.field? "terms" (list? CofactorTerm.ofJson?)) (← v.field? "value" quantity?)
  | "row_operation" =>
    return .rowOperation (← v.field? "op" RowOp.ofJson?) (← v.field? "matrix" rowsOfJson?)
  | "quotient" =>
    return .quotient (← v.field? "variable" Request.letterOfJson?)
      (← v.field? "numerator" quantity?) (← v.field? "denominator" quantity?)
      (← v.field? "value" quantity?)
  | "back_substitution" =>
    return .backSubstitution (← v.field? "variable" Request.letterOfJson?) (← v.field? "row" count?)
      (← v.field? "constant" quantity?) (← v.field? "subtracted" quantity?)
      (← v.field? "pivot" quantity?) (← v.field? "value" quantity?)
  | "solution" => return .solution (← v.field? "assignments" (list? assignmentOfJson?))
  | "failure" => return .failure (← v.field? "reason" text?)
  | "note" => return .note (← v.field? "message" text?)
  | _ => none

/-- The data of a step and its line. -/
def stepOfJson? (v : Json) : Option (StepData (Option Float) × String) := do
  return (← StepData.ofJson? v, ← v.field? "text" text?)

/-- A phase. -/
def Stage.ofJson? (v : Json) : Option Stage :=
  v.text?.bind fun text =>
    [Stage.elimination, .decomposition, .backSubstitution].find? (·.id = text)

/-- The reason for a failure. -/
def Singularity.ofJson? (v : Json) : Option (Singularity (Option Float)) := do
  match ← v.field? "kind" text? with
  | "zero_determinant" => return .zeroDeterminant (← v.field? "determinant" quantity?)
  | "zero_pivot" =>
    return .zeroPivot (← v.field? "column" count?) (← v.field? "pivot" quantity?)
      (← v.field? "stage" Stage.ofJson?)
  | _ => none

/-! ## What is told -/

/-- What is told of a step: its data and its line. -/
def Step.told (precision : Nat) (s : Step Float) : StepData (Option Float) × String :=
  (s.data carried, s.text precision)

@[simp] theorem letterOfJson?_ofString (c : Char) :
    Request.letterOfJson? (ofString (String.singleton c)) = some c :=
  Request.letterOfJson?_eq_some_iff.mpr rfl

@[simp] theorem rowsOfJson?_rowsJson (rows : List (List Float)) :
    rowsOfJson? (rowsJson rows) = some (rows.map (List.map carried)) :=
  Json.list?_array_map Json.list?_ofFloats rows

@[simp] theorem RowOp.ofJson?_json (op : RowOp Float) :
    ofJson? op.json = some (op.map carried) := by
  cases op <;> simp [ofJson?, json, map]

theorem CofactorTerm.ofJson?_json (t : CofactorTerm Float) :
    ofJson? t.json = some (t.map carried) := by
  simp [ofJson?, json, map]

theorem assignmentOfJson?_assignmentJson (p : Char × Float) :
    assignmentOfJson? (assignmentJson p) = some (p.1, carried p.2) := by
  simp [assignmentOfJson?, assignmentJson]

/-- **The data of a step is read back**, each kind by its own members. -/
theorem StepData.ofJson?_json (precision : Nat) (s : Step Float) :
    ofJson? (s.json precision) = some (s.data carried) := by
  cases s <;> simp [ofJson?, Step.json, Step.fields, Step.data,
    Json.list?_array_map CofactorTerm.ofJson?_json,
    Json.list?_array_map assignmentOfJson?_assignmentJson]

/-- The line of a step stands behind its data, whatever its kind. -/
theorem text?_json (precision : Nat) (s : Step Float) :
    (s.json precision).field? "text" text? = some (s.text precision) := by
  cases s <;> simp [Step.json, Step.fields]

theorem stepOfJson?_json (precision : Nat) (s : Step Float) :
    stepOfJson? (s.json precision) = some (s.told precision) := by
  simp only [stepOfJson?, StepData.ofJson?_json, text?_json]
  rfl

@[simp] theorem list?_listJson (precision : Nat) (steps : List (Step Float)) :
    (Step.listJson precision steps).list? stepOfJson? = some (steps.map (Step.told precision)) :=
  Json.list?_array_map (stepOfJson?_json precision) steps

theorem Stage.ofJson?_id (stage : Stage) : ofJson? (ofString stage.id) = some stage := by
  cases stage <;> decide

/-- **The reason for a failure is read back.** -/
@[simp] theorem Singularity.ofJson?_json (reason : Singularity Float) :
    ofJson? reason.json = some (reason.map carried) := by
  cases reason <;> simp [ofJson?, json, map, Stage.ofJson?_id]

/-! ## All of it can be written -/

theorem writable_rowsJson (rows : List (List Float)) : (rowsJson rows).Writable :=
  writable_map writable_ofFloats rows

theorem RowOp.writable_json (op : RowOp Float) : op.json.Writable := by
  cases op <;>
    exact writable_ofFields (by simp [writable_ofString, writable_ofNat, writable_ofFloat])

theorem CofactorTerm.writable_json (t : CofactorTerm Float) : t.json.Writable :=
  writable_ofFields (by simp [writable_ofNat, writable_ofFloat])

theorem writable_assignmentJson (p : Char × Float) : (assignmentJson p).Writable :=
  .array (by simp [writable_ofString, writable_ofFloat])

theorem Step.writable_fields (s : Step Float) : ∀ p ∈ s.fields, p.2.Writable := by
  cases s <;> simp [fields, writable_ofString, writable_ofStrings, writable_ofNat,
    writable_ofFloat, writable_ofFloats, writable_rowsJson, RowOp.writable_json,
    writable_map CofactorTerm.writable_json, writable_map writable_assignmentJson]

theorem Step.writable_json (precision : Nat) (s : Step Float) : (s.json precision).Writable :=
  writable_ofFields (List.forall_mem_append.mpr
    ⟨s.writable_fields, List.forall_mem_singleton.mpr (writable_ofString _)⟩)

theorem Singularity.writable_json (reason : Singularity Float) : reason.json.Writable := by
  cases reason <;>
    exact writable_ofFields (by simp [writable_ofString, writable_ofNat, writable_ofFloat])

end Chalkboard
