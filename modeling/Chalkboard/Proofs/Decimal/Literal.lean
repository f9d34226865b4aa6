import Mathlib.Data.List.TakeWhile
import Chalkboard.Decimal.Literal
import Chalkboard.Text.Digit

/-!
# The shapes of a decimal literal

A numeral is digits, digits with a point behind or among them, or a point with digits behind it.
The digits are those of ASCII; every other character that a script counts with stays outside, and so
does a letter. What `Decimal.read?` accepts without an exponent is exactly a numeral.
-/

namespace Chalkboard

/-! ## Characters -/

/-- The only digits among the first 128 characters are `0` to `9`. -/
theorem isDigit_of_isDecimalDigit {c : Char} (h : isDecimalDigit c) (ascii : c.toNat < 128) :
    c.isDigit := by
  have later : ∀ run ∈ decimalDigitRuns, run = (0x30, 10) ∨ 128 ≤ run.1 := by decide
  obtain ⟨run, hrun, bounds⟩ := List.any_eq_true.mp h
  simp only [Bool.and_eq_true, decide_eq_true_eq] at bounds
  rcases later run hrun with rfl | hlate
  · simp only [Char.isDigit, ge_iff_le, Bool.and_eq_true, decide_eq_true_eq]
    have low : 48 ≤ c.toNat := bounds.1
    have high : c.toNat ≤ 57 := Nat.le_of_lt_succ bounds.2
    exact ⟨UInt32.le_iff_toNat_le.mpr low, UInt32.le_iff_toNat_le.mpr high⟩
  · omega

theorem toNat_lt_of_isAlpha {c : Char} (h : c.isAlpha) : 65 ≤ c.toNat ∧ c.toNat < 128 := by
  have range : (65 ≤ c.toNat ∧ c.toNat ≤ 90) ∨ (97 ≤ c.toNat ∧ c.toNat ≤ 122) := by
    rcases Bool.or_eq_true_iff.mp h with upper | lower
    · have bounds : c.val ≥ 'A'.val ∧ c.val ≤ 'Z'.val := of_decide_eq_true upper
      exact .inl bounds
    · obtain ⟨low, high⟩ := Bool.and_eq_true_iff.mp lower
      exact .inr ⟨of_decide_eq_true low, of_decide_eq_true high⟩
  omega

theorem toNat_of_isDigit {c : Char} (h : c.isDigit) : 48 ≤ c.toNat ∧ c.toNat ≤ 57 := by
  simp only [Char.isDigit, ge_iff_le, Bool.and_eq_true, decide_eq_true_eq,
    UInt32.le_iff_toNat_le] at h
  exact h

/-- No letter is a digit of any script. -/
theorem not_isDecimalDigit_of_isAlpha {c : Char} (h : c.isAlpha) : isDecimalDigit c = false := by
  have bounds := toNat_lt_of_isAlpha h
  by_contra digit
  rw [Bool.not_eq_false] at digit
  have := toNat_of_isDigit (isDigit_of_isDecimalDigit digit bounds.2)
  omega

/-- The characters that a coefficient is written with: digits of any script, and the point. -/
def isCoefficientChar (c : Char) : Bool :=
  isDecimalDigit c || c = '.'

theorem not_isAlpha_of_isCoefficientChar {c : Char} (h : isCoefficientChar c) :
    c.isAlpha = false := by
  by_contra alpha
  rw [Bool.not_eq_false] at alpha
  rcases Bool.or_eq_true_iff.mp h with digit | point
  · rw [not_isDecimalDigit_of_isAlpha alpha] at digit
    exact Bool.false_ne_true digit
  · rw [of_decide_eq_true point] at alpha
    exact absurd alpha (by decide)

/-- No digit and no point begins an exponent. -/
theorem not_exponent {c : Char} (h : isCoefficientChar c) : ¬ (c = 'e' ∨ c = 'E') := by
  rintro (rfl | rfl) <;> exact absurd (not_isAlpha_of_isCoefficientChar h) (by decide)

/-! ## Numerals -/

/-- A text of the digits `0` to `9`. -/
def AllDigits (cs : List Char) : Prop :=
  ∀ c ∈ cs, c.isDigit

/-- **`IsNumeral cs`** — `cs` is a decimal literal without sign and exponent. -/
inductive IsNumeral : List Char → Prop where
  | whole {ds : List Char} : ds ≠ [] → AllDigits ds → IsNumeral ds
  | point {ds fs : List Char} : ds ≠ [] → AllDigits ds → AllDigits fs → IsNumeral (ds ++ '.' :: fs)
  | fraction {fs : List Char} : fs ≠ [] → AllDigits fs → IsNumeral ('.' :: fs)

theorem AllDigits.append {cs ds : List Char} (hcs : AllDigits cs) (hds : AllDigits ds) :
    AllDigits (cs ++ ds) :=
  List.forall_mem_append.mpr ⟨hcs, hds⟩

theorem IsNumeral.digit_or_point {cs : List Char} (h : IsNumeral cs) :
    ∀ c ∈ cs, c.isDigit ∨ c = '.' := by
  cases h with
  | whole _ hds => exact fun c hc => .inl (hds c hc)
  | point _ hds hfs =>
    intro c hc
    rcases List.mem_append.mp hc with hc | hc
    · exact .inl (hds c hc)
    · exact (List.mem_cons.mp hc).elim .inr fun hc => .inl (hfs c hc)
  | fraction _ hfs =>
    intro c hc
    exact (List.mem_cons.mp hc).elim .inr fun hc => .inl (hfs c hc)

theorem IsNumeral.isCoefficientChar {cs : List Char} (h : IsNumeral cs) :
    ∀ c ∈ cs, isCoefficientChar c := by
  intro c hc
  rcases h.digit_or_point c hc with digit | rfl
  · exact Bool.or_eq_true_iff.mpr (.inl (isDecimalDigit_of_isDigit digit))
  · decide

theorem IsNumeral.ne_nil {cs : List Char} (h : IsNumeral cs) : cs ≠ [] := by
  cases h with
  | whole hne _ => exact hne
  | point _ _ _ => simp
  | fraction _ _ => simp

/-! ## Spans of digits -/

/-- Leading digits are digits. -/
theorem allDigits_spanDigits (cs : List Char) : AllDigits (spanDigits cs).1 :=
  fun _ hc => (List.mem_takeWhile_imp hc)

theorem append_spanDigits (cs : List Char) : (spanDigits cs).1 ++ (spanDigits cs).2 = cs :=
  List.takeWhile_append_dropWhile

/-- What has a property is spanned up to what has not. -/
theorem span_append {p : Char → Bool} {ds rest : List Char} (h : ∀ c ∈ ds, p c)
    (stop : ∀ c ∈ rest.head?, p c = false) :
    ((ds ++ rest).takeWhile p, (ds ++ rest).dropWhile p) = (ds, rest) := by
  have none : rest.takeWhile p = [] ∧ rest.dropWhile p = rest := by
    cases rest with
    | nil => exact ⟨rfl, rfl⟩
    | cons c rest =>
      have hc : ¬ p c = true := Bool.not_eq_true _ ▸ stop c rfl
      exact ⟨List.takeWhile_cons_of_neg hc, List.dropWhile_cons_of_neg hc⟩
  rw [List.takeWhile_append_of_pos h, List.dropWhile_append_of_pos h, none.1, none.2,
    List.append_nil]

theorem spanDigits_append {ds rest : List Char} (h : AllDigits ds)
    (stop : ∀ c ∈ rest.head?, c.isDigit = false) : spanDigits (ds ++ rest) = (ds, rest) :=
  span_append h stop

theorem spanDigits_eq_self {ds : List Char} (h : AllDigits ds) : spanDigits ds = (ds, []) := by
  have span : spanDigits (ds ++ []) = (ds, []) := spanDigits_append h (by simp)
  rwa [List.append_nil] at span

/-! ## Reading numerals -/

namespace Decimal

/-- Digits are read as a whole number. -/
theorem read?_whole {ds : List Char} (ne : ds ≠ []) (h : AllDigits ds) :
    read? ds = some ⟨digitsValue ds, 0⟩ := by
  simp [read?, spanDigits_eq_self h, ne]

/-- Digits behind the point count the power of ten down. -/
theorem read?_point {ds fs : List Char} (ne : ds ≠ []) (hds : AllDigits ds) (hfs : AllDigits fs) :
    read? (ds ++ '.' :: fs) = some ⟨digitsValue (ds ++ fs), -fs.length⟩ := by
  have span : spanDigits (ds ++ '.' :: fs) = (ds, '.' :: fs) := spanDigits_append hds (by simp)
  simp [read?, span, spanDigits_eq_self hfs, ne]

/-- **A literal without an exponent is a numeral.** -/
theorem isNumeral_of_read? {cs : List Char} {d : Decimal} (h : read? cs = some d)
    (plain : ∀ c ∈ cs, isCoefficientChar c) : IsNumeral cs := by
  have hw := append_spanDigits cs
  have hds := allDigits_spanDigits cs
  unfold read? at h
  generalize spanDigits cs = p at hw hds h
  obtain ⟨whole, rest⟩ := p
  subst hw
  simp only at h hds plain
  split at h
  · next r =>
    -- a point follows the digits
    have hw' := append_spanDigits r
    have hfs := allDigits_spanDigits r
    generalize spanDigits r = q at hw' hfs h
    obtain ⟨fraction, rest⟩ := q
    subst hw'
    simp only at h hfs plain ⊢
    split_ifs at h with none
    cases rest with
    | cons c rest =>
      simp only [if_neg (not_exponent (plain c (by simp)))] at h
      cases h
    | nil =>
      rw [List.append_nil]
      by_cases hwhole : whole = []
      · subst hwhole
        exact .fraction (fun hfraction => none ⟨rfl, hfraction⟩) hfs
      · exact .point hwhole hds hfs
  · simp only [and_true] at h
    split_ifs at h with none
    cases rest with
    | cons c rest =>
      simp only [if_neg (not_exponent (plain c (by simp)))] at h
      cases h
    | nil =>
      rw [List.append_nil]
      exact .whole none hds

end Decimal

/-! ## Signs and words -/

/-- Digits and points have no case. -/
theorem toLower_of_isCoefficientChar {c : Char} (h : isCoefficientChar c) : c.toLower = c := by
  have alpha := Bool.or_eq_false_iff.mp (not_isAlpha_of_isCoefficientChar h)
  have upper : ¬ (c.val ≥ 'A'.val ∧ c.val ≤ 'Z'.val) := of_decide_eq_false alpha.1
  exact dif_neg upper

/-- Digits and points make up none of the words. -/
theorem map_toLower_ne {cs word : List Char} {c : Char} (plain : ∀ c ∈ cs, isCoefficientChar c)
    (letter : c.isAlpha) : cs.map Char.toLower ≠ c :: word := by
  intro h
  cases cs with
  | nil => exact nomatch h
  | cons c' cs =>
    have hc' := plain c' (by simp)
    rw [List.map_cons, toLower_of_isCoefficientChar hc'] at h
    injection h with h
    rw [← h, not_isAlpha_of_isCoefficientChar hc'] at letter
    exact Bool.false_ne_true letter

/-- A text of digits and points is read as a literal without sign. -/
theorem readFloat?_ofList {cs : List Char} (plain : ∀ c ∈ cs, isCoefficientChar c) :
    readFloat? (String.ofList cs) = (Decimal.read? cs).map (Decimal.toFloat false) := by
  have inf : cs.map Char.toLower ≠ "inf".toList := map_toLower_ne plain (by decide)
  have infinity : cs.map Char.toLower ≠ "infinity".toList := map_toLower_ne plain (by decide)
  have nan : cs.map Char.toLower ≠ "nan".toList := map_toLower_ne plain (by decide)
  simp only [readFloat?, String.toList_ofList]
  split
  · exact absurd (plain '-' (by simp)) (by decide)
  · exact absurd (plain '+' (by simp)) (by decide)
  · rw [if_neg (not_or.mpr ⟨inf, infinity⟩), if_neg nan]

theorem readFloat?_ofList_neg {cs : List Char} (plain : ∀ c ∈ cs, isCoefficientChar c) :
    readFloat? (String.ofList ('-' :: cs)) = (Decimal.read? cs).map (Decimal.toFloat true) := by
  have inf : cs.map Char.toLower ≠ "inf".toList := map_toLower_ne plain (by decide)
  have infinity : cs.map Char.toLower ≠ "infinity".toList := map_toLower_ne plain (by decide)
  have nan : cs.map Char.toLower ≠ "nan".toList := map_toLower_ne plain (by decide)
  simp only [readFloat?, String.toList_ofList]
  rw [if_neg (not_or.mpr ⟨inf, infinity⟩), if_neg nan]

end Chalkboard
