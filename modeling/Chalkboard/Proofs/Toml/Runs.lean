import Chalkboard.Proofs.Json.Number
import Chalkboard.Toml.Scalar

/-!
# Runs of TOML that are numbers

A run of letters, digits and points is no date and no time of day, for these have dashes and colons.
Digits without a superfluous zero are a whole number; with a point and digits behind it they are a
number that is not whole, whatever its value.

* `ofRun?_whole` — the digits of a whole number.
* `ofRun?_point` — digits with a point among them.
-/

namespace Chalkboard

open Binary64

namespace Toml

/-! ## Plain runs -/

/-- Characters of words and numbers without a sign. -/
def isRunChar (c : Char) : Bool :=
  c.isAlphanum || c = '.'

/-- **`IsRun cs`** — a word or a number without a sign. -/
def IsRun (cs : List Char) : Prop :=
  ∀ c ∈ cs, isRunChar c = true

theorem isRunChar_of_isDigit {c : Char} (h : c.isDigit) : isRunChar c = true := by
  rw [isRunChar, Char.isAlphanum, h, Bool.or_true, Bool.true_or]

theorem isRun_of_allDigits {ds : List Char} (h : AllDigits ds) : IsRun ds :=
  fun c hc => isRunChar_of_isDigit (h c hc)

theorem isRun_point {whole fraction : List Char} (hwhole : AllDigits whole)
    (hfraction : AllDigits fraction) : IsRun (whole ++ '.' :: fraction) := by
  intro c hc
  rcases List.mem_append.mp hc with hc | hc
  · exact isRunChar_of_isDigit (hwhole c hc)
  · rcases List.mem_cons.mp hc with rfl | hc
    · rfl
    · exact isRunChar_of_isDigit (hfraction c hc)

/-- A character that no run has. -/
theorem IsRun.ne {cs : List Char} (h : IsRun cs) {c d : Char} (hc : c ∈ cs)
    (other : isRunChar d = false) : c ≠ d := by
  rintro rfl
  rw [h c hc] at other
  exact nomatch other

/-! ## Dates and times -/

theorem mem_of_fixedDigits? {n k : Nat} {c : Char} {cs rest : List Char}
    (h : fixedDigits? n cs = some (k, rest)) (hc : c ∈ rest) : c ∈ cs := by
  unfold fixedDigits? at h
  simp only at h
  split_ifs at h
  cases h
  exact List.mem_of_mem_drop hc

theorem mem_of_afterChar? {c : Char} {cs rest : List Char} (h : afterChar? c cs = some rest) :
    c ∈ cs := by
  cases cs with
  | nil => exact nomatch h
  | cons d r =>
    rw [afterChar?] at h
    split_ifs at h with same
    rw [same]
    exact List.mem_cons_self

/-- A date has a dash. -/
theorem dash_mem_of_afterDate? {cs rest : List Char} (h : afterDate? cs = some rest) :
    '-' ∈ cs := by
  simp only [afterDate?, bind, Option.bind_eq_some_iff] at h
  obtain ⟨⟨year, r⟩, hyear, r', hdash, -⟩ := h
  exact mem_of_fixedDigits? hyear (mem_of_afterChar? hdash)

/-- A time of day has a colon. -/
theorem colon_mem_of_afterTime? {cs rest : List Char} (h : afterTime? cs = some rest) :
    ':' ∈ cs := by
  simp only [afterTime?, bind, Option.bind_eq_some_iff] at h
  obtain ⟨⟨hour, r⟩, hhour, r', hcolon, -⟩ := h
  exact mem_of_fixedDigits? hhour (mem_of_afterChar? hcolon)

theorem IsRun.afterDate? {cs : List Char} (h : IsRun cs) : afterDate? cs = none := by
  rw [Option.eq_none_iff_forall_ne_some]
  intro rest date
  exact h.ne (dash_mem_of_afterDate? date) (by decide) rfl

theorem IsRun.afterTime? {cs : List Char} (h : IsRun cs) : afterTime? cs = none := by
  rw [Option.eq_none_iff_forall_ne_some]
  intro rest time
  exact h.ne (colon_mem_of_afterTime? time) (by decide) rfl

theorem IsRun.isMoment {cs : List Char} (h : IsRun cs) : isMoment cs = false := by
  rw [Toml.isMoment, h.afterDate?, h.afterTime?]
  rfl

/-! ## Digits -/

/-- Digits without underscores. -/
theorem digitsBetween?_of_allDigits {ds : List Char} (ne : ds ≠ []) (h : AllDigits ds) :
    digitsBetween? Char.isDigit ds = some ds := by
  induction ds with
  | nil => exact absurd rfl ne
  | cons d ds ih =>
    obtain ⟨digit, digits⟩ := List.forall_mem_cons.mp h
    cases ds with
    | nil => rw [digitsBetween?, if_pos digit]
    | cons d' ds =>
      have notUnderscore : d' ≠ '_' := by
        rintro rfl
        exact absurd (digits '_' List.mem_cons_self) (by decide)
      rw [digitsBetween?, if_pos digit, ih (List.cons_ne_nil d' ds) digits]
      · rfl
      · exact List.cons_ne_nil d' ds
      · intro cs same
        exact notUnderscore (List.cons.inj same).1

theorem wholeDigits?_of_isWhole {ds : List Char} (h : Json.IsWhole ds) :
    wholeDigits? ds = some ds := by
  rw [wholeDigits?, digitsBetween?_of_allDigits h.ne_nil h.allDigits]
  refine if_neg ?_
  rintro ⟨zero, more⟩
  cases h with
  | zero => exact more rfl
  | digits notZero _ => exact notZero (Option.some.inj zero)

theorem spanSign_of_allDigits {ds : List Char} (ne : ds ≠ []) (h : AllDigits ds)
    (rest : List Char) :
    spanSign (ds ++ rest) = (false, ds ++ rest) := by
  cases ds with
  | nil => exact absurd rfl ne
  | cons d ds =>
    have digit := h d List.mem_cons_self
    rw [List.cons_append, spanSign]
    · rintro r same
      rw [(List.cons.inj same).1] at digit
      exact absurd digit (by decide)
    · rintro r same
      rw [(List.cons.inj same).1] at digit
      exact absurd digit (by decide)

/-- Digits end where no digit and no underscore follows. -/
theorem spanDigitOrUnderscore_append {ds : List Char} (h : AllDigits ds) (rest : List Char)
    (stop : ∀ c ∈ rest.head?, isDigitOrUnderscore c = false) :
    (ds ++ rest).takeWhile isDigitOrUnderscore = ds ∧
      (ds ++ rest).dropWhile isDigitOrUnderscore = rest := by
  have all : ∀ c ∈ ds, isDigitOrUnderscore c = true := by
    intro c hc
    rw [isDigitOrUnderscore, h c hc, Bool.true_or]
  have span := span_append all stop
  exact ⟨congrArg Prod.fst span, congrArg Prod.snd span⟩

/-! ## Numbers -/

variable {whole fraction : List Char}

/-- Digits alone are no number with a fraction or an exponent. -/
theorem readDecimal?_whole (h : Json.IsWhole whole) : readDecimal? whole = none := by
  obtain ⟨take, drop⟩ := spanDigitOrUnderscore_append h.allDigits [] (by simp)
  rw [List.append_nil] at take drop
  simp [readDecimal?, take, drop, wholeDigits?_of_isWhole h]

/-- Digits with a point among them. -/
theorem readDecimal?_point (hwhole : Json.IsWhole whole) (ne : fraction ≠ [])
    (hfraction : AllDigits fraction) :
    readDecimal? (whole ++ '.' :: fraction) =
      some ⟨digitsValue (whole ++ fraction), -fraction.length⟩ := by
  obtain ⟨take, drop⟩ := spanDigitOrUnderscore_append hwhole.allDigits ('.' :: fraction)
    (by simp; decide)
  obtain ⟨take', drop'⟩ := spanDigitOrUnderscore_append hfraction [] (by simp)
  rw [List.append_nil] at take' drop'
  simp [readDecimal?, take, drop, take', drop', wholeDigits?_of_isWhole hwhole,
    digitsBetween?_of_allDigits ne hfraction]

/-- What begins with a digit does not begin with a letter. -/
theorem ne_word (h : Json.IsWhole whole) (rest : List Char) {c : Char} (letter : c.isDigit = false)
    (word : List Char) : whole ++ rest ≠ c :: word := by
  obtain ⟨d, ds, rfl⟩ := List.exists_cons_of_ne_nil h.ne_nil
  intro same
  have digit : d.isDigit := h.allDigits d List.mem_cons_self
  rw [(List.cons.inj same).1, letter] at digit
  exact nomatch digit

/-- What begins with a digit is none of the words for numbers. -/
theorem readReal?_of_isWhole (h : Json.IsWhole whole) (rest : List Char) :
    readReal? (whole ++ rest) =
      ((readDecimal? (whole ++ rest)).map (Decimal.toFloat false)).filter fun x => !x.isInf := by
  have inf := ne_word h rest (c := 'i') rfl ['n', 'f']
  have nan := ne_word h rest (c := 'n') rfl ['a', 'n']
  rw [readReal?, spanSign_of_allDigits h.ne_nil h.allDigits]
  simp only [if_neg inf, if_neg nan, Bool.false_or]

/-- What begins with a digit is no truth value. -/
theorem ofRun?_of_isWhole (h : Json.IsWhole whole) (rest : List Char)
    (run : IsRun (whole ++ rest)) :
    ofRun? (whole ++ rest) = match readReal? (whole ++ rest) with
      | some x => some (.float x)
      | none => (readInteger? (whole ++ rest)).map .integer := by
  have yes := ne_word h rest (c := 't') rfl ['r', 'u', 'e']
  have no := ne_word h rest (c := 'f') rfl ['a', 'l', 's', 'e']
  rw [ofRun?, if_neg yes, if_neg no, run.isMoment]
  rfl

/-- **Digits with a point among them** are read as the nearest number, if that is finite. -/
theorem ofRun?_point (hwhole : Json.IsWhole whole) (ne : fraction ≠ [])
    (hfraction : AllDigits fraction) {p : Nat} (hp : p < infinity)
    (value : Decimal.toPattern ⟨digitsValue (whole ++ fraction), -fraction.length⟩ = p) :
    ofRun? (whole ++ '.' :: fraction) = some (.float (ofPattern false p)) := by
  have finite : (ofPattern false p).isInf = false := by
    rw [isInf_ofPattern false hp.le]
    exact decide_eq_false hp.ne
  have real : readReal? (whole ++ '.' :: fraction) = some (ofPattern false p) := by
    rw [readReal?_of_isWhole hwhole, readDecimal?_point hwhole ne hfraction, Option.map_some,
      Decimal.toFloat, value]
    exact Option.filter_some_pos (by rw [finite]; rfl)
  rw [ofRun?_of_isWhole hwhole _ (isRun_point hwhole.allDigits hfraction), real]

/-- **The digits of a whole number** are read as it, if it is not too large. -/
theorem ofRun?_whole {n : Nat} (h : n < integerBound) :
    ofRun? (digits n) = some (.integer n) := by
  have whole := Json.isWhole_digits n
  have unsigned : spanSign (digits n) = (false, digits n) := by
    have span := spanSign_of_allDigits whole.ne_nil whole.allDigits []
    rwa [List.append_nil] at span
  -- no digit is the letter of another base
  have decimal {c : Char} {cs : List Char} (letter : c.isDigit = false) :
      digits n ≠ '0' :: c :: cs := by
    intro same
    have digit := whole.allDigits c (by rw [same]; simp)
    rw [letter] at digit
    exact nomatch digit
  have read : readWhole? (digits n) = some (n : Int) := by
    rw [readWhole?]
    · rw [unsigned]
      simp only [wholeDigits?_of_isWhole whole, Option.map_some, Decimal.digitsValue_digits]
      rfl
    · exact fun cs => decimal rfl
    · exact fun cs => decimal rfl
    · exact fun cs => decimal rfl
  have fits : readInteger? (digits n) = some (n : Int) := by
    rw [readInteger?, read]
    refine Option.filter_some_pos ?_
    rw [Bool.and_eq_true, decide_eq_true_eq, decide_eq_true_eq]
    omega
  have run := ofRun?_of_isWhole whole []
    (by rw [List.append_nil]; exact isRun_of_allDigits whole.allDigits)
  have notReal := readReal?_of_isWhole whole []
  rw [List.append_nil] at run notReal
  rw [run, notReal, readDecimal?_whole whole, fits]
  rfl

end Toml

end Chalkboard
