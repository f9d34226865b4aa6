import Chalkboard.Proofs.Json.Layout
import Chalkboard.Proofs.Json.Quantity
import Chalkboard.Proofs.Settings.Check
import Chalkboard.Proofs.Toml.Lines
import Chalkboard.Settings.Changes

/-!
# Saved settings

Settings that are written as TOML are read back as they were; counts past `Toml.integerBound` are
not written at all. Settings that are written as JSON come back with the same counts and the same
choice, but with the tolerance that the reader makes of its digits. That reader rounds twice, so the
tolerance may come back with another last bit. It comes back unchanged if its digits and the power
of ten behind them are exact numbers.

* `Settings.reread?` — what a tolerance is read as after it was written as JSON.
* `Settings.parse_render` — what settings are read as after they were written.
* `Settings.parse_render_changed` — a tolerance that JSON does not keep.
-/

namespace Chalkboard

open Binary64

namespace Settings

variable (said : Wording) {s : Settings Float}

/-! ## JSON -/

/-- **`reread? x`** — what the number `x` is read as after it was written as JSON. -/
def reread? (x : Float) : Option Float :=
  (Json.Numeral.ofFloat? x).bind Json.Numeral.toFloat?

theorem jsonReal?_ofFloat (x : Float) : Changes.jsonReal? (Json.ofFloat x) = reread? x := by
  rw [reread?, Json.ofFloat]
  cases Json.Numeral.ofFloat? x with
  | none => rfl
  | some numeral => rfl

theorem jsonCount?_ofNat {n : Nat} (h : n < UInt64.size) :
    Changes.jsonCount? (Json.ofNat n) = some n := by
  have value : digitsValue (Json.Numeral.ofNat n).whole = n := Decimal.digitsValue_digits n
  show (Json.Numeral.ofNat n).toNat? = some n
  unfold Json.Numeral.toNat?
  simp only [value]
  exact if_pos (by simp [Json.Numeral.ofNat, Json.Numeral.isInteger, h])

theorem writable_json (s : Settings Float) : s.json.Writable := by
  refine Json.writable_ofFields ?_
  simp only [List.forall_mem_cons]
  exact ⟨Json.writable_ofFloat _, Json.writable_ofNat _, Json.writable_ofNat _, .bool _,
    List.forall_mem_nil _⟩

/-- What settings say as JSON. -/
theorem ofJson?_json (size : s.maxSize < UInt64.size) (places : s.precision < UInt64.size) :
    Changes.ofJson? s.json = (reread? s.epsilon).map fun x =>
      ⟨some x, some s.maxSize, some s.precision, some s.expandCofactors⟩ := by
  have read : Changes.ofJson? s.json = Changes.ofValues? Changes.jsonReal? Changes.jsonCount?
      Changes.jsonFlag? (some (Json.ofFloat s.epsilon)) (some (Json.ofNat s.maxSize))
      (some (Json.ofNat s.precision)) (some (.bool s.expandCofactors)) := by
    simp [json, Json.ofFields, Changes.ofJson?, Json.namedMembers?, Json.uniqueMember?]
  rw [read]
  simp only [Changes.ofValues?, Changes.optional?, jsonReal?_ofFloat, jsonCount?_ofNat size,
    jsonCount?_ofNat places]
  cases reread? s.epsilon with
  | none => rfl
  | some x => rfl

/-- What settings are read as after they were written as JSON. -/
theorem parse_json (size : s.maxSize < UInt64.size) (places : s.precision < UInt64.size) :
    parse said .json s.json.pretty = match reread? s.epsilon with
      | none => .error (.undecodable (said.undecodable .json s.json.pretty))
      | some x => { s with epsilon := x }.check := by
  have text : Changes.parse? s.json.pretty .json = (reread? s.epsilon).map fun x =>
      ⟨some x, some s.maxSize, some s.precision, some s.expandCofactors⟩ := by
    rw [Changes.parse?, (writable_json s).parse?_pretty]
    exact ofJson?_json size places
  rw [parse, text]
  cases reread? s.epsilon with
  | none => rfl
  | some x => rfl

/-! ## TOML -/

/-- **A positive number** is written with a point among its digits, and read back. -/
theorem tomlReal_spec {p : Nat} (pos : 0 < p) (hp : p < infinity) :
    Toml.IsRun (tomlReal (ofPattern false p)).toList ∧
      (tomlReal (ofPattern false p)).toList ≠ [] ∧
      Toml.ofRun? (tomlReal (ofPattern false p)).toList = some (.float (ofPattern false p)) := by
  obtain ⟨c, e, shortest, positive, inside⟩ := Json.exists_shortest .up pos hp
  obtain ⟨whole, fraction, places, hwhole, hfraction, same⟩ := Json.exists_places positive e
  have plain : plainText (ofPattern false p) = String.ofList (Decimal.mk c e).positional := by
    rw [plainText_ofPattern false pos hp, shortest]
    exact String.empty_append
  have text : (tomlReal (ofPattern false p)).toList = whole ++ '.' :: Json.behindPoint fraction := by
    unfold tomlReal
    rw [plain, Decimal.positional, places]
    simp only [String.toList_ofList]
    cases fraction with
    | nil =>
      have digit : whole.all (fun c => c.isDigit || decide (c = '-')) = true := by
        rw [List.all_eq_true]
        intro c hc
        rw [hwhole.allDigits c hc, Bool.true_or]
      rw [if_pos digit, String.toList_append, String.toList_ofList]
      rfl
    | cons f fs =>
      have point : ¬ (whole ++ '.' :: f :: fs).all (fun c => c.isDigit || decide (c = '-')) = true := by
        rw [List.all_eq_true]
        intro all
        exact absurd (all '.' (by simp)) (by decide)
      rw [if_neg point, String.toList_ofList]
      rfl
  have value := Decimal.toPattern_of_inInterval pos hp ((same (units p)).trans inside)
  have behind := Json.allDigits_behindPoint hfraction
  rw [text]
  exact ⟨Toml.isRun_point hwhole.allDigits behind, List.append_ne_nil_of_left_ne_nil hwhole.ne_nil _,
    Toml.ofRun?_point hwhole (Json.behindPoint_ne_nil fraction) behind hp value⟩

/-- The lines of settings. -/
def tomlLines (s : Settings Float) : List Toml.Line :=
  [⟨"epsilon", (tomlReal s.epsilon).toList, .float s.epsilon⟩,
   ⟨"max_size", digits s.maxSize, .integer s.maxSize⟩,
   ⟨"precision", digits s.precision, .integer s.precision⟩,
   ⟨"expand_cofactors", (if s.expandCofactors then "true" else "false").toList,
     .boolean s.expandCofactors⟩]

theorem tomlText_eq (s : Settings Float) :
    s.tomlText = String.ofList (s.tomlLines.flatMap Toml.Line.chars) := by
  have size : "\nmax_size = " = "\n" ++ ("max_size" ++ " = ") := rfl
  have places : "\nprecision = " = "\n" ++ ("precision" ++ " = ") := rfl
  have choice : "\nexpand_cofactors = " = "\n" ++ ("expand_cofactors" ++ " = ") := rfl
  have tolerance : "epsilon = " = "epsilon" ++ " = " := rfl
  have count (n : Nat) : String.ofList (digits n) = toString n := rfl
  unfold tomlText tomlLines
  simp only [size, places, choice, tolerance, List.flatMap_cons, List.flatMap_nil, List.append_nil,
    String.ofList_append, Toml.Line.ofList_chars, String.ofList_toList, count, String.append_assoc]

/-- The names of settings are bare words. -/
theorem bare_names : ∀ name ∈ ["epsilon", "max_size", "precision", "expand_cofactors"],
    name.toList ≠ [] ∧ ∀ c ∈ name.toList, Toml.isBare c = true := by
  simp [Toml.isBare]

/-- The words for truth values. -/
theorem truthWord_spec (b : Bool) : Toml.IsRun (if b then "true" else "false").toList ∧
    (if b then "true" else "false").toList ≠ [] ∧
    Toml.ofRun? (if b then "true" else "false").toList = some (.boolean b) := by
  cases b with
  | true => simp [Toml.IsRun, Toml.isRunChar, Toml.ofRun?]
  | false => simp [Toml.IsRun, Toml.isRunChar, Toml.ofRun?]

/-- The lines of settings are plain. -/
theorem plain_tomlLines (valid : s.check = .ok s) (size : s.maxSize < Toml.integerBound)
    (places : s.precision < Toml.integerBound) : ∀ l ∈ s.tomlLines, l.Plain := by
  have line {name : String} {run : List Char} {value : Toml.Value}
      (known : name ∈ ["epsilon", "max_size", "precision", "expand_cofactors"])
      (plain : Toml.IsRun run) (filled : run ≠ []) (denotes : Toml.ofRun? run = some value) :
      (⟨name, run, value⟩ : Toml.Line).Plain :=
    ⟨(bare_names name known).1, (bare_names name known).2, filled, plain, denotes⟩
  have count {name : String} (known : name ∈ ["epsilon", "max_size", "precision", "expand_cofactors"])
      {n : Nat} (h : n < Toml.integerBound) : (⟨name, digits n, .integer n⟩ : Toml.Line).Plain :=
    line known (Toml.isRun_of_allDigits (Decimal.allDigits_digits n)) (Json.isWhole_digits n).ne_nil
      (Toml.ofRun?_whole h)
  simp only [tomlLines, List.forall_mem_cons]
  refine ⟨?_, count (by simp) size, count (by simp) places, ?_, List.forall_mem_nil _⟩
  · obtain ⟨⟨p, pos, hp, same⟩, -⟩ := check_eq_ok_iff.mp valid
    obtain ⟨plain, filled, denotes⟩ := tomlReal_spec pos hp
    rw [same]
    exact line (by simp) plain filled denotes
  · obtain ⟨plain, filled, denotes⟩ := truthWord_spec s.expandCofactors
    exact line (by simp) plain filled denotes

/-- What settings are read as after they were written as TOML. -/
theorem parse_tomlText (valid : s.check = .ok s) (size : s.maxSize < Toml.integerBound)
    (places : s.precision < Toml.integerBound) : parse said .toml s.tomlText = .ok s := by
  have entries : Toml.parse? s.tomlText = some (s.tomlLines.map Toml.Line.entry) := by
    rw [tomlText_eq]
    refine Toml.parse?_lines (plain_tomlLines valid size places) ?_
    show ["epsilon", "max_size", "precision", "expand_cofactors"].Nodup
    decide
  have changes : Changes.ofToml? (s.tomlLines.map Toml.Line.entry) =
      some ⟨some s.epsilon, some s.maxSize, some s.precision, some s.expandCofactors⟩ := by
    rfl
  have text : Changes.parse? s.tomlText .toml =
      some ⟨some s.epsilon, some s.maxSize, some s.precision, some s.expandCofactors⟩ := by
    rw [Changes.parse?, entries]
    exact changes
  rw [parse, text]
  exact valid

/-! ## Tolerances that JSON keeps -/

/-- The digits of a spelled numeral are digits. -/
theorem allDigits_of_spelled {x : Json.Numeral} {word : List Char} (h : x.Spelled word) :
    AllDigits (x.whole ++ x.fraction) := by
  obtain ⟨whole, behind, -⟩ := h
  refine whole.allDigits.append ?_
  generalize x.fraction = fraction at behind
  cases behind with
  | none => exact List.forall_mem_nil _
  | point _ all => exact all

/-- **A short tolerance**, with up to fifteen digits and a power of ten from `10 ^ -22` to `10 ^ 22`
behind them, is read back. -/
theorem reread?_of_short (valid : s.check = .ok s) {x : Json.Numeral}
    (written : Json.Numeral.ofFloat? s.epsilon = some x)
    (short : (x.whole ++ x.fraction).length ≤ 15) (low : -22 ≤ x.decimal.exponent)
    (high : x.decimal.exponent ≤ 22) : reread? s.epsilon = some s.epsilon := by
  obtain ⟨⟨p, pos, hp, same⟩, -⟩ := check_eq_ok_iff.mp valid
  have finite : s.epsilon.isFinite = true := by
    rw [same, isFinite_ofPattern false hp.le]
    exact decide_eq_true hp
  obtain ⟨numeral, written', spelled, nearest⟩ := Json.exists_ofFloat? finite
  rw [written, Option.some.injEq] at written'
  subst written'
  -- the numeral is not negative and not zero, for its number is neither
  have above : ¬ x.nearest ≤ 0.0 := by
    rw [nearest, same, ofPattern_le_zero false hp]
    simp only [Bool.false_eq_true, false_or]
    exact pos.ne'
  have number : x.decimal.toPattern < infinity := by
    rw [← nearest, Json.Numeral.nearest, Decimal.toFloat,
      isFinite_ofPattern _ (Decimal.toPattern_le _)] at finite
    exact of_decide_eq_true finite
  rw [Json.Numeral.nearest, Decimal.toFloat, ofPattern_le_zero _ number, not_or,
    Bool.not_eq_true] at above
  have positive : 0 < x.decimal.coefficient := by
    refine Nat.pos_of_ne_zero fun zero => above.2 ?_
    rw [Decimal.toPattern, if_pos zero]
  rw [reread?, written, Option.bind_some, ← nearest]
  exact Json.Numeral.toFloat?_of_short above.1 (allDigits_of_spelled spelled) short low high positive
    (by rw [nearest]; exact finite)

/-! ## Both forms -/

/-- **What settings are read as after they were written.** As JSON, all but the tolerance comes back,
and the tolerance as `reread?` says, unchanged if it is short; as TOML everything comes back. What
the libraries say of what they refuse is passed on. -/
theorem parse_render (valid : s.check = .ok s) (size : s.maxSize < UInt64.size)
    (places : s.precision < UInt64.size) :
    (∃ text, s.render said .json = .ok text ∧
      parse said .json text = (match reread? s.epsilon with
        | none => .error (.undecodable (said.undecodable .json text))
        | some x => { s with epsilon := x }.check) ∧
      (parse said .json text = .ok s ↔ reread? s.epsilon = some s.epsilon) ∧
      ∀ x, Json.Numeral.ofFloat? s.epsilon = some x → (x.whole ++ x.fraction).length ≤ 15 →
        -22 ≤ x.decimal.exponent → x.decimal.exponent ≤ 22 → parse said .json text = .ok s) ∧
    (s.maxSize < Toml.integerBound ∧ s.precision < Toml.integerBound →
      ∃ text, s.render said .toml = .ok text ∧ parse said .toml text = .ok s) ∧
    (¬ (s.maxSize < Toml.integerBound ∧ s.precision < Toml.integerBound) →
      s.render said .toml = .error (.unencodable (said.unencodable .toml s))) := by
  have read := parse_json said size places
  have kept_iff : parse said .json s.json.pretty = .ok s ↔ reread? s.epsilon = some s.epsilon := by
    rw [read]
    constructor
    · intro kept
      cases h : reread? s.epsilon with
      | none =>
        rw [h] at kept
        exact nomatch kept
      | some x =>
        rw [h] at kept
        have tolerance : x = s.epsilon := by
          simp only [check] at kept
          split_ifs at kept
          exact congrArg epsilon (Except.ok.inj kept)
        rw [tolerance]
    · intro kept
      rw [kept]
      exact valid
  refine ⟨⟨s.json.pretty, rfl, read, kept_iff, ?_⟩, ?_, ?_⟩
  · intro x written short low high
    exact kept_iff.mpr (reread?_of_short valid written short low high)
  · rintro ⟨fits, fits'⟩
    exact ⟨s.tomlText, if_pos ⟨fits, fits'⟩, parse_tomlText said valid fits fits'⟩
  · intro large
    exact if_neg large

theorem parse_render_sample :
    standard.check = .ok standard ∧ standard.maxSize < UInt64.size ∧
      standard.precision < UInt64.size ∧
      ∀ said : Wording,
        (∃ text, standard.render said .json = .ok text ∧ parse said .json text = .ok standard) ∧
        ∃ text, standard.render said .toml = .ok text ∧ parse said .toml text = .ok standard := by
  have valid : standard.check = .ok standard := by decide +kernel
  have size : standard.maxSize < UInt64.size := by decide
  have places : standard.precision < UInt64.size := by decide
  have digits : Json.Numeral.ofFloat? standard.epsilon =
      some ⟨false, ['1'], [], some (true, ['1', '0'])⟩ := by decide +kernel
  refine ⟨valid, size, places, fun said => ?_⟩
  obtain ⟨⟨text, written, -, -, short⟩, toml, -⟩ := parse_render said valid size places
  have back := short _ digits (by decide) (by decide) (by decide)
  exact ⟨⟨text, written, back⟩, toml (by decide)⟩

/-- Settings whose tolerance has one digit. -/
def fine : Settings Float :=
  { standard with epsilon := 1e-23 }

/-- **JSON does not keep every tolerance**, whatever the libraries say. -/
theorem parse_render_changed :
    ¬ ∃ said : Wording, ∀ s : Settings Float, s.check = .ok s → s.maxSize < UInt64.size →
      s.precision < UInt64.size →
      ∃ text, s.render said .json = .ok text ∧ parse said .json text = .ok s := by
  rintro ⟨said, h⟩
  have changed : reread? fine.epsilon ≠ some fine.epsilon := by decide +kernel
  have valid : fine.check = .ok fine := by decide +kernel
  have size : fine.maxSize < UInt64.size := by decide
  have places : fine.precision < UInt64.size := by decide
  obtain ⟨text, written, back⟩ := h fine valid size places
  obtain ⟨⟨text', written', -, kept, -⟩, -⟩ := parse_render said valid size places
  rw [written, Except.ok.injEq] at written'
  subst written'
  exact changed (kept.mp back)

end Settings

end Chalkboard
