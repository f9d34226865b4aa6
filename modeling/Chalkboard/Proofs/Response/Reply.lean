import Chalkboard.Proofs.Response.Steps

/-!
# What a response tells

A response is one JSON object of three members, whatever the text that it answers. Whoever reads it
learns whether there is a unique solution, which method was asked for, if the request could be read,
and all of the worked solution: every text as it was, every finite number, and of the others that
they were none. Whatever the decoder of requests says of a text that it refuses is read back as it
was said.

* `Reply` — what can be learned, and `Reply.parse?`, which learns it from a text.
* `Response.parse?_compact` — what is learned from the written form of a response.
* `respondText_is_truthful` — an answer is well-formed and says what is the case.
-/

namespace Chalkboard

open Json (ofFields ofFloat ofString text? field? list? truth? quantity? carried writable_ofFields
  writable_ofFloat writable_ofString writable_ofOption writable_map)

/-- What is told of an ending. -/
inductive Reply.Result where
  /-- The unknowns with their values, and the steps with their lines. -/
  | solved (solution : List (Char × Option Float)) (steps : List (StepData (Option Float) × String))
  /-- Why the method stopped, this in words, and the steps with their lines. -/
  | stopped (reason : Singularity (Option Float)) (message : String)
    (steps : List (StepData (Option Float) × String))
  /-- Why no method was run. -/
  | error (message : String)

/-- What is told by a response. -/
structure Reply where
  success : Bool
  /-- The method, if the request could be read. -/
  method : Option Method
  result : Reply.Result

namespace Response

/-- An unknown and its value by their names. -/
def namedJson (p : Char × Float) : Json :=
  ofFields [("variable", ofString p.1.toString), ("value", ofFloat p.2)]

theorem outcomeFields_solved {n : Nat} (precision : Nat) (solution : Solution n Float)
    (steps : List (Step Float)) :
    outcomeFields precision (.solved solution steps) =
      [("status", ofString "solved"), ("solution", .array (solution.assignments.map namedJson)),
       ("steps", Step.listJson precision steps)] :=
  rfl

/-- What a response tells of the ending. -/
def replyResult (precision : Nat) : Response → Reply.Result
  | .unreadable said => .error ("Invalid request: " ++ said)
  | .refused _ cause => .error cause.message
  | .ended _ (.solved solution steps) =>
    .solved (solution.assignments.map fun p => (p.1, carried p.2)) (steps.map (Step.told precision))
  | .ended _ (.stopped reason steps) =>
    .stopped (reason.map carried) (noSolutionText reason.text) (steps.map (Step.told precision))

/-- What a response tells. -/
def reply (precision : Nat) (r : Response) : Reply :=
  { success := r.isSuccess, method := r.method?, result := r.replyResult precision }

end Response

namespace Reply

/-! ## Reading -/

/-- An identifier, or `null` for no method. -/
def methodOfJson? : Json → Option (Option Method)
  | .null => some none
  | v => v.text?.bind fun id => (Method.ofId? id).map some

/-- An unknown and its value. -/
def assignmentOfJson? (v : Json) : Option (Char × Option Float) := do
  return (← v.field? "variable" Request.letterOfJson?, ← v.field? "value" quantity?)

/-- The ending. -/
def Result.ofJson? (v : Json) : Option Result := do
  match ← v.field? "status" text? with
  | "solved" =>
    return .solved (← v.field? "solution" (list? assignmentOfJson?))
      (← v.field? "steps" (list? stepOfJson?))
  | "no_unique_solution" =>
    return .stopped (← v.field? "reason" Singularity.ofJson?) (← v.field? "message" text?)
      (← v.field? "steps" (list? stepOfJson?))
  | "error" => return .error (← v.field? "message" text?)
  | _ => none

/-- What a value tells. -/
def ofJson? (v : Json) : Option Reply := do
  return { success := ← v.field? "success" truth?, method := ← v.field? "method" methodOfJson?,
           result := ← v.field? "result" Result.ofJson? }

/-- What a text tells. -/
def parse? (text : String) : Option Reply :=
  (Json.parse? text).bind ofJson?

/-! ## What is told -/

theorem methodOfJson?_ofOption (m? : Option Method) :
    methodOfJson? (Json.ofOption (fun m => ofString m.id) m?) = some m? := by
  cases m? with
  | none => rfl
  | some m =>
    show (Method.ofId? m.id).map some = _
    rw [Method.ofId?_eq_some_iff.mpr rfl, Option.map_some]

theorem assignmentOfJson?_namedJson (p : Char × Float) :
    assignmentOfJson? (Response.namedJson p) = some (p.1, carried p.2) := by
  simp [assignmentOfJson?, Response.namedJson]

/-- **The ending is read back.** -/
theorem Result.ofJson?_resultFields (precision : Nat) (r : Response) :
    ofJson? (ofFields (r.resultFields precision)) = some (r.replyResult precision) := by
  cases r with
  | unreadable | refused =>
    simp [ofJson?, Response.resultFields, Response.messageFields, Response.replyResult]
  | ended method outcome =>
    cases outcome with
    | solved =>
      simp [ofJson?, Response.resultFields, Response.outcomeFields_solved, Response.replyResult,
        Json.list?_array_map assignmentOfJson?_namedJson]
    | stopped =>
      simp [ofJson?, Response.resultFields, Response.outcomeFields, Response.replyResult]

/-- **A response is read back.** -/
theorem ofJson?_json (precision : Nat) (r : Response) :
    ofJson? (r.json precision) = some (r.reply precision) := by
  simp [ofJson?, Response.json, methodOfJson?_ofOption, Result.ofJson?_resultFields,
    Response.reply]

end Reply

namespace Response

/-! ## It can be written -/

theorem writable_namedJson (p : Char × Float) : (namedJson p).Writable :=
  writable_ofFields (by simp [writable_ofString, writable_ofFloat])

theorem writable_resultFields (precision : Nat) (r : Response) :
    ∀ p ∈ r.resultFields precision, p.2.Writable := by
  have steps := writable_map (Step.writable_json precision)
  cases r with
  | unreadable | refused => simp [resultFields, messageFields, writable_ofString]
  | ended method outcome =>
    cases outcome with
    | solved =>
      simp [resultFields, outcomeFields_solved, writable_ofString, writable_map writable_namedJson,
        Step.listJson, steps]
    | stopped =>
      simp [resultFields, outcomeFields, writable_ofString, Singularity.writable_json,
        Step.listJson, steps]

theorem writable_json (precision : Nat) (r : Response) : (r.json precision).Writable :=
  writable_ofFields (List.forall_mem_cons.mpr ⟨.bool _, List.forall_mem_cons.mpr
    ⟨writable_ofOption (fun m : Method => writable_ofString m.id) _,
      List.forall_mem_singleton.mpr (writable_ofFields (r.writable_resultFields precision))⟩⟩)

/-- The written form of a response is a text of it. -/
theorem spells_json (precision : Nat) (r : Response) :
    (r.json precision).Spells (r.json precision).compact :=
  (r.writable_json precision).spells_compact

/-- **What a response tells is had from its written form.** -/
theorem parse?_compact (precision : Nat) (r : Response) :
    Reply.parse? (r.json precision).compact = some (r.reply precision) := by
  rw [Reply.parse?, Json.parse?_eq_some_iff.mpr (r.spells_json precision), Option.bind_some,
    Reply.ofJson?_json]

/-! ## It says what is the case -/

theorem ofOption_method?_eq_null (r : Response) :
    Json.ofOption (fun m => ofString m.id) r.method? = .null ↔ r.method? = none := by
  cases r.method? with
  | none => exact iff_of_true rfl rfl
  | some m => exact iff_of_false (fun null => nomatch null) (fun none => nomatch none)

/-- Success is told twice. -/
theorem isSuccess_iff_status (precision : Nat) (r : Response) :
    r.isSuccess = true ↔
      (ofFields (r.resultFields precision)).field? "status" text? = some "solved" := by
  cases r with
  | unreadable | refused => simp [isSuccess, resultFields, messageFields]
  | ended method outcome =>
    cases outcome with
    | solved | stopped => simp [isSuccess, Outcome.isSolved, resultFields, outcomeFields]

end Response

theorem Request.method?_respond (settings : Settings Float) (r : Request) :
    (r.respond settings).method? = some r.method := by
  unfold respond
  split <;> rfl

theorem Request.isSuccess_respond (settings : Settings Float) (r : Request) :
    (r.respond settings).isSuccess = true ↔ ∃ solution steps,
      r.method.solveTexts settings r.unknowns r.equations = .ok (.solved solution steps) := by
  unfold respond
  split
  · next outcome ended =>
    rw [ended]
    cases outcome with
    | solved solution steps => exact iff_of_true rfl ⟨solution, steps, rfl⟩
    | stopped => exact iff_of_false (fun h => nomatch h) fun ⟨_, _, h⟩ => nomatch h
  · next cause refused =>
    rw [refused]
    exact iff_of_false (fun h => nomatch h) fun ⟨_, _, h⟩ => nomatch h

/-- **An answer is well-formed and says what is the case.** Whatever the text, the settings and the
sayings of the decoder, it is one object of three members. The method is `null` exactly if the text
denotes no request; success is told, and the status is that of a solution, exactly if the text
denotes a request and its method finds a solution; and what is learned from the answer is all that
the response tells: every text as it was, every finite number, and of any other that it was none. Of
a text that denotes no request, it tells what the decoder says of it. -/
theorem respondText_is_truthful (said : String → String) (settings : Settings Float)
    (body : String) :
    ∃ (success : Bool) (method : Json) (result : List (String × Json)),
      (ofFields [("success", .bool success), ("method", method),
        ("result", ofFields result)]).Spells (respondText said settings body) ∧
      (method = .null ↔ ∀ r : Request, ¬ r.Written body) ∧
      (success = true ↔ (ofFields result).field? "status" text? = some "solved") ∧
      (success = true ↔ ∃ (r : Request) (solution : Solution r.unknowns.length Float)
        (steps : List (Step Float)), r.Written body ∧
          r.method.solveTexts settings r.unknowns r.equations = .ok (.solved solution steps)) ∧
      (∀ r : Request, r.Written body → Reply.parse? (respondText said settings body) =
        some ((r.respond settings).reply settings.precision)) ∧
      ((∀ r : Request, ¬ r.Written body) → Reply.parse? (respondText said settings body) =
        some { success := false, method := none,
               result := .error ("Invalid request: " ++ said body) }) := by
  by_cases denotes : ∃ r : Request, r.Written body
  · obtain ⟨r, written⟩ := denotes
    rw [Request.respondText_of_written written]
    refine ⟨_, _, _, (r.respond settings).spells_json settings.precision, ?_,
      (r.respond settings).isSuccess_iff_status settings.precision, ?_, fun r' written' => ?_,
      fun none => absurd written (none r)⟩
    · rw [Response.ofOption_method?_eq_null, r.method?_respond]
      exact iff_of_false (fun none => nomatch none) fun none => none r written
    · rw [r.isSuccess_respond]
      constructor
      · rintro ⟨solution, steps, solved⟩
        exact ⟨r, solution, steps, written, solved⟩
      · rintro ⟨r', solution, steps, written', solved⟩
        cases written.unique written'
        exact ⟨solution, steps, solved⟩
    · cases written.unique written'
      exact Response.parse?_compact settings.precision _
  · have none : ∀ r : Request, ¬ r.Written body := fun r written => denotes ⟨r, written⟩
    let response := Response.unreadable (said body)
    rw [Request.respondText_of_not_written none]
    refine ⟨_, _, _, response.spells_json settings.precision, iff_of_true rfl none,
      response.isSuccess_iff_status settings.precision, ?_, fun r written => absurd written (none r),
      fun _ => Response.parse?_compact settings.precision _⟩
    exact iff_of_false (fun h => nomatch h) fun ⟨r, _, _, written, _⟩ => none r written

end Chalkboard
