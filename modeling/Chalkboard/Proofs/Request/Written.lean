import Chalkboard.Proofs.Json.Members
import Chalkboard.Proofs.Json.Reading
import Chalkboard.Request

/-!
# The written forms of a request

A request can be written in many ways. As an object, its two or three parts are members in any
order, with other members anywhere between them, and without chosen unknowns the third part is
`null` or missing; as a list, the parts stand in their order. Every text of such a value is a
written form, whatever its blanks and escapes. The reader accepts these texts and no others, so
what is answered depends on the request alone.

* `Request.WrittenAs` — the values that denote a request.
* `Request.Written` — the texts that denote a request.
* `Request.parse?_eq_some_iff` — a request is read from its written forms and from no others.
* `Request.written_forms_are_answered_alike` — the answer depends on the request alone.
-/

namespace Chalkboard

open Json (ofFields ofString ofStrings)

/-! ## The values that denote a request -/

/-- **`m.WrittenAs v`** — `v` denotes the method `m`. -/
inductive Method.WrittenAs (m : Method) : Json → Prop where
  | text : m.WrittenAs (ofString m.id)
  /-- An object with nothing but a member of this name, which says no more. -/
  | member : m.WrittenAs (ofFields [(m.id, .null)])

/-- **`UnknownsWrittenAs unknowns v`** — `v` denotes the choice `unknowns`. -/
inductive UnknownsWrittenAs : Option (List Char) → Json → Prop where
  | null : UnknownsWrittenAs none .null
  | letters (cs : List Char) : UnknownsWrittenAs (some cs) (ofStrings (cs.map Char.toString))

namespace Request

/-- The names of the parts. -/
def partNames : List String :=
  ["method", "equations", "variables"]

/-- **`r.PartsWrittenAs parts`** — `parts` are the parts of `r` in their order, with their names. -/
inductive PartsWrittenAs (r : Request) : List (String × Json) → Prop where
  | two {method : Json} : r.method.WrittenAs method → r.chosenUnknowns = none →
      r.PartsWrittenAs [("method", method), ("equations", ofStrings r.equations)]
  | three {method unknowns : Json} : r.method.WrittenAs method →
      UnknownsWrittenAs r.chosenUnknowns unknowns →
      r.PartsWrittenAs
        [("method", method), ("equations", ofStrings r.equations), ("variables", unknowns)]

/-- **`r.WrittenAs v`** — `v` denotes the request `r`. -/
inductive WrittenAs (r : Request) : Json → Prop where
  /-- An object whose members with the name of a part are the parts, in any order. -/
  | members {members parts : List (String × Json)} : r.PartsWrittenAs parts →
      (members.filter (·.1 ∈ partNames)).Perm parts → r.WrittenAs (ofFields members)
  | list {parts : List (String × Json)} : r.PartsWrittenAs parts →
      r.WrittenAs (.array (parts.map Prod.snd))

/-- **`r.Written body`** — `body` is a text of a value that denotes the request `r`. -/
def Written (r : Request) (body : String) : Prop :=
  ∃ v, r.WrittenAs v ∧ v.Spells body

end Request

/-! ## Values are taken apart -/

theorem Method.ofId?_eq_some_iff {text : String} {m : Method} :
    ofId? text = some m ↔ text = m.id := by
  constructor
  · intro found
    have same := List.find?_some (p := fun m => decide (Method.id m = text)) found
    exact (of_decide_eq_true same).symm
  · rintro rfl
    cases m <;> decide

namespace Request

theorem methodOfJson?_eq_some_iff {v : Json} {m : Method} :
    methodOfJson? v = some m ↔ m.WrittenAs v := by
  constructor
  · intro read
    unfold methodOfJson? at read
    split at read
    · obtain ⟨text, rfl, found⟩ := Option.bind_eq_some_iff.mp read
      rw [Method.ofId?_eq_some_iff.mp found]
      exact .text
    · obtain ⟨text, rfl, found⟩ := Option.bind_eq_some_iff.mp read
      rw [Method.ofId?_eq_some_iff.mp found]
      exact .member
    · exact nomatch read
  · rintro (_ | _) <;> exact Method.ofId?_eq_some_iff.mpr rfl

theorem textsOfJson?_eq_some_iff {v : Json} {texts : List String} :
    textsOfJson? v = some texts ↔ v = ofStrings texts := by
  unfold textsOfJson?
  rw [Option.bind_eq_some_iff]
  simp only [Json.items?_eq_some_iff, mapM_eq_some_iff fun _ _ => Json.text?_eq_some_iff]
  constructor
  · rintro ⟨_, rfl, rfl⟩
    rfl
  · rintro rfl
    exact ⟨_, rfl, rfl⟩

theorem letterOfJson?_eq_some_iff {v : Json} {c : Char} :
    letterOfJson? v = some c ↔ v = ofString c.toString := by
  unfold letterOfJson?
  rw [Option.bind_eq_some_iff]
  simp only [Json.text?_eq_some_iff]
  constructor
  · rintro ⟨text, rfl, single⟩
    split at single
    · next letter =>
      cases single
      rw [← String.ofList_toList (s := text), letter]
      rfl
    · exact nomatch single
  · rintro rfl
    exact ⟨c.toString, rfl, by simp [Char.toString]⟩

theorem unknownsOfJson?_eq_some_iff {v : Json} {unknowns : Option (List Char)} :
    unknownsOfJson? v = some unknowns ↔ UnknownsWrittenAs unknowns v := by
  have letters (cs : List Char) : ofStrings (cs.map Char.toString) =
      .array (cs.map fun c => ofString c.toString) := by
    rw [ofStrings, List.map_map]
    rfl
  constructor
  · intro read
    unfold unknownsOfJson? at read
    split at read
    · cases read
      exact .null
    · obtain ⟨items, array, read⟩ := Option.bind_eq_some_iff.mp read
      obtain ⟨cs, each, rfl⟩ := Option.map_eq_some_iff.mp read
      rw [Json.items?_eq_some_iff.mp array,
        (mapM_eq_some_iff fun _ _ => letterOfJson?_eq_some_iff).mp each, ← letters]
      exact .letters cs
  · rintro (_ | cs)
    · rfl
    · rw [letters]
      exact congrArg (Option.map some)
        ((mapM_eq_some_iff fun _ _ => letterOfJson?_eq_some_iff).mpr rfl)

/-- The third part, if it is there. -/
def unknownsPart (unknowns : Option Json) : List (String × Json) :=
  unknowns.toList.map ("variables", ·)

/-- **The parts are read** from what denotes them. -/
theorem ofParts?_eq_some_iff {method equations : Json} {unknowns : Option Json} {r : Request} :
    ofParts? method equations unknowns = some r ↔ r.PartsWrittenAs
      (("method", method) :: ("equations", equations) :: unknownsPart unknowns) := by
  constructor
  · intro read
    cases unknowns with
    | none =>
      simp only [ofParts?, bind, Option.bind_eq_some_iff, pure] at read
      obtain ⟨m, hm, texts, htexts, chosen, none, read⟩ := read
      cases none
      cases read
      rw [textsOfJson?_eq_some_iff.mp htexts]
      exact .two (methodOfJson?_eq_some_iff.mp hm) rfl
    | some v =>
      simp only [ofParts?, bind, Option.bind_eq_some_iff, pure] at read
      obtain ⟨m, hm, texts, htexts, chosen, hchosen, read⟩ := read
      cases read
      rw [textsOfJson?_eq_some_iff.mp htexts]
      exact .three (methodOfJson?_eq_some_iff.mp hm) (unknownsOfJson?_eq_some_iff.mp hchosen)
  · obtain ⟨m, texts, chosen⟩ := r
    intro written
    cases unknowns with
    | none =>
      cases written with
      | two hm none =>
        cases none
        simp only [ofParts?, methodOfJson?_eq_some_iff.mpr hm, textsOfJson?_eq_some_iff.mpr rfl]
        rfl
    | some v =>
      cases written with
      | three hm hchosen =>
        simp only [ofParts?, methodOfJson?_eq_some_iff.mpr hm, textsOfJson?_eq_some_iff.mpr rfl,
          unknownsOfJson?_eq_some_iff.mpr hchosen]
        rfl

/-! ## Members in any order -/

/-- The members with one of several names are those with the first and those with the others. -/
theorem perm_filter_names {name : String} {names : List String} (h : name ∉ names)
    (members : List (String × Json)) :
    (members.filter (·.1 ∈ name :: names)).Perm
      (members.filter (·.1 = name) ++ members.filter (·.1 ∈ names)) := by
  have split := (List.filter_append_perm (fun m => decide (m.1 = name))
    (members.filter (·.1 ∈ name :: names))).symm
  have first : (members.filter (·.1 ∈ name :: names)).filter (fun m => decide (m.1 = name)) =
      members.filter (·.1 = name) := by
    rw [List.filter_filter]
    refine List.filter_congr fun m _ => ?_
    by_cases eq : m.1 = name <;> simp [eq]
  have others : (members.filter (·.1 ∈ name :: names)).filter (fun m => !decide (m.1 = name)) =
      members.filter (·.1 ∈ names) := by
    rw [List.filter_filter]
    refine List.filter_congr fun m _ => ?_
    by_cases eq : m.1 = name
    · simp [eq, h]
    · simp [eq]
  rwa [first, others] at split

/-- The parts among the members, in the order of their names. -/
theorem perm_filter_partNames (members : List (String × Json)) :
    (members.filter (·.1 ∈ partNames)).Perm (members.filter (·.1 = "method") ++
      (members.filter (·.1 = "equations") ++ members.filter (·.1 = "variables"))) := by
  have last : members.filter (·.1 ∈ ["variables"]) = members.filter (·.1 = "variables") :=
    List.filter_congr fun m _ => by simp
  have later : "equations" ∉ ["variables"] := by decide
  have earlier : "method" ∉ ["equations", "variables"] := by decide
  have step := perm_filter_names later members
  rw [last] at step
  exact (perm_filter_names earlier members).trans (step.append_left _)

/-- **Members are told apart by their names.** The parts are among the members exactly if each name
has the part of this name and no other. -/
theorem perm_parts_iff {members : List (String × Json)} {method equations : Json}
    {unknowns : Option Json} :
    (members.filter (·.1 ∈ partNames)).Perm
        (("method", method) :: ("equations", equations) :: unknownsPart unknowns) ↔
      members.filter (·.1 = "method") = [("method", method)] ∧
        members.filter (·.1 = "equations") = [("equations", equations)] ∧
        members.filter (·.1 = "variables") = unknownsPart unknowns := by
  constructor
  · intro perm
    have named (name : String) (h : name ∈ partNames) :
        (members.filter (·.1 = name)).Perm
          ((("method", method) :: ("equations", equations) :: unknownsPart unknowns).filter
            (·.1 = name)) := by
      have same := perm.filter (·.1 = name)
      rw [List.filter_filter] at same
      -- a member of this name is a part, so the first selection has dropped none of them
      have drop : members.filter (fun m => decide (m.1 = name) && decide (m.1 ∈ partNames)) =
          members.filter (·.1 = name) := by
        refine List.filter_congr fun m _ => ?_
        by_cases eq : m.1 = name <;> simp [eq, h]
      rwa [drop] at same
    have hmethod := named "method" (by decide)
    have hequations := named "equations" (by decide)
    have hunknowns := named "variables" (by decide)
    cases unknowns with
    | none =>
      exact ⟨List.perm_singleton.mp hmethod, List.perm_singleton.mp hequations,
        List.perm_nil.mp hunknowns⟩
    | some v =>
      exact ⟨List.perm_singleton.mp hmethod, List.perm_singleton.mp hequations,
        List.perm_singleton.mp hunknowns⟩
  · rintro ⟨hmethod, hequations, hunknowns⟩
    have perm := perm_filter_partNames members
    rwa [hmethod, hequations, hunknowns] at perm

/-- Parts in the form in which they are read. -/
theorem PartsWrittenAs.exists_eq {r : Request} {parts : List (String × Json)}
    (h : r.PartsWrittenAs parts) : ∃ method equations unknowns,
      parts = ("method", method) :: ("equations", equations) :: unknownsPart unknowns := by
  cases h with
  | two => exact ⟨_, _, none, rfl⟩
  | three => exact ⟨_, _, some _, rfl⟩

/-! ## Requests -/

/-- **A request is read from an object** whose members hold its parts. -/
theorem ofJson?_object_eq_some_iff {members : List (Option String × Json)} {r : Request} :
    ofJson? (.object members) = some r ↔ r.WrittenAs (.object members) := by
  constructor
  · intro read
    simp only [ofJson?, bind, Option.bind_eq_some_iff] at read
    obtain ⟨named, hnamed, _, hmethod, _, hequations, unknowns, hunknowns, method, rfl, equations,
      rfl, read⟩ := read
    rw [Json.namedMembers?_eq_some_iff.mp hnamed]
    exact .members (ofParts?_eq_some_iff.mp read) (perm_parts_iff.mpr
      ⟨Json.uniqueMember?_eq_some_iff.mp hmethod, Json.uniqueMember?_eq_some_iff.mp hequations,
        Json.uniqueMember?_eq_some_iff.mp hunknowns⟩)
  · intro written
    generalize hv : Json.object members = v at written
    cases written with
    | list => exact nomatch hv
    | @members named parts hparts perm =>
      obtain ⟨method, equations, unknowns, rfl⟩ := hparts.exists_eq
      obtain ⟨hmethod, hequations, hunknowns⟩ := perm_parts_iff.mp perm
      have one {name : String} {v : Json} (h : named.filter (·.1 = name) = [(name, v)]) :
          Json.uniqueMember? named name = some (some v) :=
        Json.uniqueMember?_eq_some_iff.mpr h
      rw [← hv]
      simp only [ofJson?, bind, Json.namedMembers?_eq_some_iff.mpr hv, Option.bind_some,
        one hmethod, one hequations, Json.uniqueMember?_eq_some_iff.mpr hunknowns]
      exact ofParts?_eq_some_iff.mpr hparts

/-- **A request is read from the values that denote it.** -/
theorem ofJson?_eq_some_iff {v : Json} {r : Request} : ofJson? v = some r ↔ r.WrittenAs v := by
  cases v with
  | object members => exact ofJson?_object_eq_some_iff
  | array items =>
    constructor
    · intro read
      unfold ofJson? at read
      split at read
      · next eq => exact nomatch eq
      · next eq =>
        cases eq
        have parts := ofParts?_eq_some_iff.mp read
        exact .list parts
      · next eq =>
        cases eq
        have parts := ofParts?_eq_some_iff.mp read
        exact .list parts
      · exact nomatch read
    · intro written
      generalize hv : Json.array items = v at written
      cases written with
      | members => exact nomatch hv
      | list hparts =>
        obtain ⟨method, equations, unknowns, rfl⟩ := hparts.exists_eq
        cases unknowns <;> exact ofParts?_eq_some_iff.mpr hparts
  | null | bool | number | string =>
    exact iff_of_false (fun read => nomatch read) fun written => nomatch written

/-- **A request is read from its written forms** and from no others. -/
theorem parse?_eq_some_iff {body : String} {r : Request} :
    parse? body = some r ↔ r.Written body := by
  unfold parse?
  rw [Option.bind_eq_some_iff]
  constructor
  · rintro ⟨v, spelled, read⟩
    exact ⟨v, ofJson?_eq_some_iff.mp read, Json.parse?_eq_some_iff.mp spelled⟩
  · rintro ⟨v, written, spelled⟩
    exact ⟨v, Json.parse?_eq_some_iff.mpr spelled, ofJson?_eq_some_iff.mpr written⟩

/-- A text denotes at most one request. -/
theorem Written.unique {body : String} {r r' : Request} (h : r.Written body)
    (h' : r'.Written body) : r = r' :=
  Option.some.inj ((parse?_eq_some_iff.mpr h).symm.trans (parse?_eq_some_iff.mpr h'))

/-! ## Answers -/

variable {said : String → String} {settings : Settings Float} {body : String}

theorem respondText_of_written {r : Request} (h : r.Written body) :
    respondText said settings body = ((r.respond settings).json settings.precision).compact := by
  unfold respondText
  rw [parse?_eq_some_iff.mpr h]

theorem respondText_of_not_written (h : ∀ r : Request, ¬ r.Written body) :
    respondText said settings body =
      ((Response.unreadable (said body)).json settings.precision).compact := by
  have unread : parse? body = none := by
    rw [Option.eq_none_iff_forall_ne_some]
    exact fun r read => h r (parse?_eq_some_iff.mp read)
  unfold respondText
  rw [unread]

/-- The answer to equations in given unknowns. -/
def answer (settings : Settings Float) (method : Method) (unknowns : List Char)
    (equations : List String) : Response :=
  match method.solveTexts settings unknowns equations with
  | .ok outcome => .ended method outcome
  | .error cause => .refused method cause

/-- Unknowns that nobody chose are answered like the same ones chosen. -/
theorem respond_eq_answer (r : Request) :
    r.respond settings = answer settings r.method r.unknowns r.equations := by
  unfold respond answer
  cases r.method.solveTexts settings r.unknowns r.equations <;> rfl

/-- **A repeated part makes an object denote no request.** -/
theorem not_writtenAs_of_repeated {members : List (Option String × Json)} {name : String}
    (part : name ∈ partNames) (repeated : 2 ≤ members.countP (·.1 = some name)) (r : Request) :
    ¬ r.WrittenAs (.object members) := by
  intro written
  generalize hv : Json.object members = v at written
  cases written with
  | list => exact nomatch hv
  | @members named parts hparts perm =>
    cases hv
    obtain ⟨method, equations, unknowns, rfl⟩ := hparts.exists_eq
    obtain ⟨hmethod, hequations, hunknowns⟩ := perm_parts_iff.mp perm
    have few : (named.filter (·.1 = name)).length ≤ 1 := by
      have third : (unknownsPart unknowns).length ≤ 1 := by
        cases unknowns <;> simp [unknownsPart]
      simp only [partNames, List.mem_cons, List.not_mem_nil, or_false] at part
      rcases part with rfl | rfl | rfl
      · rw [hmethod, List.length_singleton]
      · rw [hequations, List.length_singleton]
      · rwa [hunknowns]
    rw [Json.countP_eq_length_filter] at repeated
    omega

/-- What the decoder says stands in the answer with its escapes. -/
theorem compact_refusal (text : String) :
    (ofFields [("success", .bool false), ("method", .null), ("result",
      ofFields (Response.messageFields ("Invalid request: " ++ text)))]).compact =
      "\x7b\"success\":false,\"method\":null,\"result\":\x7b\"status\":\"error\"," ++
        "\"message\":\"Invalid request: " ++ String.ofList (text.toList.flatMap Json.escapeChar) ++
          "\"\x7d\x7d" := by
  rw [← String.toList_inj]
  simp [ofFields, ofString, Response.messageFields, Json.compact, Json.chars, Json.membersChars,
    Json.stringChars, Json.escapeChar]

/-- **The answer depends on the request alone.** All written forms of requests with the same method,
the same equations and the same unknowns, chosen or by default, get the same text, which is the
answer to the request; and an object that repeats a part is refused without a method, with what the
decoder says of it. -/
theorem written_forms_are_answered_alike (said : String → String) (settings : Settings Float) :
    (∀ (r r' : Request) (body body' : String), r.Written body → r'.Written body' →
      r.method = r'.method → r.equations = r'.equations → r.unknowns = r'.unknowns →
      respondText said settings body = respondText said settings body') ∧
    (∀ (r : Request) (body : String), r.Written body →
      respondText said settings body =
        ((r.respond settings).json settings.precision).compact) ∧
    ∀ (body : String) (members : List (Option String × Json)) (name : String),
      (Json.object members).Spells body → name ∈ partNames →
      2 ≤ members.countP (·.1 = some name) →
      respondText said settings body =
        (ofFields [("success", .bool false), ("method", .null),
          ("result",
            ofFields (Response.messageFields ("Invalid request: " ++ said body)))]).compact := by
  refine ⟨fun r r' body body' h h' method equations unknowns => ?_,
    fun r body h => respondText_of_written h, fun body members name spelled part repeated => ?_⟩
  · rw [respondText_of_written h, respondText_of_written h', respond_eq_answer, respond_eq_answer,
      method, equations, unknowns]
  · refine respondText_of_not_written fun r written => ?_
    obtain ⟨v, denotes, spelled'⟩ := written
    rw [← spelled.unique spelled'] at denotes
    exact not_writtenAs_of_repeated part repeated r denotes

/-- One equation and its unknown by default. -/
def doubled : Request :=
  { method := .gaussJordan, equations := ["2x = 4"], chosenUnknowns := none }

/-- An object of this request: parts in another order, an unknown member, an escaped letter. -/
def doubledObject : String :=
  "\x7b\"equations\": [\"2\\u0078 = 4\"], \"note\": [\x7b\"method\": 1e999\x7d, \"\\ud800\"],\n" ++
    "\"variables\": null, \"method\": \"gauss-jordan\"\x7d"

/-- The list of the same parts, the unknown among them. -/
def doubledList : String :=
  "[\"gauss-jordan\",[\"2x = 4\"],[\"x\"]]"

/-- An object that names two methods. -/
def twoMethods : String :=
  "\x7b\"method\":\"gauss-jordan\",\"equations\":[],\"method\":\"gauss-jordan\"\x7d"

theorem written_forms_are_answered_alike_sample :
    doubled.Written doubledObject ∧
      ({ doubled with chosenUnknowns := some ['x'] } : Request).Written doubledList ∧
      doubled.unknowns = ['x'] ∧
      (∀ said, respondText said .standard doubledObject = respondText said .standard doubledList) ∧
      ∀ said, respondText said .standard twoMethods =
        "\x7b\"success\":false,\"method\":null,\"result\":\x7b\"status\":\"error\"," ++
          "\"message\":\"Invalid request: " ++
            String.ofList ((said twoMethods).toList.flatMap Json.escapeChar) ++ "\"\x7d\x7d" := by
  have object : doubled.Written doubledObject := parse?_eq_some_iff.mp (by decide +kernel)
  have list : ({ doubled with chosenUnknowns := some ['x'] } : Request).Written doubledList :=
    parse?_eq_some_iff.mp (by decide +kernel)
  have unknowns : doubled.unknowns = ['x'] := by decide
  have repeated : (Json.object [(some "method", ofString "gauss-jordan"),
      (some "equations", .array []), (some "method", ofString "gauss-jordan")]).Spells twoMethods :=
    Json.parse?_eq_some_iff.mp (by cbv)
  refine ⟨object, list, unknowns, fun said => ?_, fun said => ?_⟩
  · obtain ⟨alike, -, -⟩ := written_forms_are_answered_alike said .standard
    exact alike _ _ _ _ object list rfl rfl unknowns
  · obtain ⟨-, -, refused⟩ := written_forms_are_answered_alike said .standard
    rw [refused _ _ "method" repeated (by decide) (by decide)]
    exact compact_refusal (said twoMethods)

end Request

end Chalkboard
