import Chalkboard.Decimal.Text
import Chalkboard.Proofs.Decimal.Literal
import Chalkboard.Proofs.Decimal.Nearest

/-!
# A printed number reads back

The shortest decimal lies in the rounding interval of its number, and written in places it is a
numeral of the same value. Reading gives the number nearest to that value, which is the number that
was printed. The early exits of `Decimal.toPattern` never concern a decimal in such an interval.

* `Decimal.toPattern_of_inInterval` — from the interval back to the number.
* `readFinite?_plainText`, `readFinite?_valueText` — the same of texts.
-/

namespace Chalkboard

open Binary64

namespace Decimal

/-! ## The interval -/

/-- Being in the interval, without the division by powers of ten. -/
theorem inInterval_iff {u c : Nat} {e : Int} :
    inInterval u c e = true ↔
      ratioNum (lowerEnd u) e ≤ 4 * c * ratioDen e ∧ 4 * c * ratioDen e ≤ ratioNum (upperEnd u) e ∧
        (endsIncluded u = false → ratioNum (lowerEnd u) e < 4 * c * ratioDen e ∧
          4 * c * ratioDen e < ratioNum (upperEnd u) e) := by
  unfold inInterval
  simp only
  cases endsIncluded u with
  | true => simp
  | false =>
    simp only [Bool.false_eq_true, if_false, Bool.and_eq_true, decide_eq_true_eq, true_implies]
    omega

theorem five_pow_mul_two_pow (k : Nat) : Nat.pow 5 k * Nat.pow 2 k = Nat.pow 10 k :=
  (Nat.mul_pow 5 2 k).symm

/-- The exact value of a number lies inside. -/
theorem inInterval_exact {u k : Nat} {e : Int} (pos : 0 < u) (hone : one = Nat.pow 2 k)
    (he : e = -k) : inInterval u (u * Nat.pow 5 k) e = true := by
  subst he
  have den : ratioDen (-k) = one := by
    rw [ratioDen, Int.toNat_neg_natCast, Nat.pow_eq, pow_zero, mul_one]
  have num (n : Nat) : ratioNum n (-k) = n * Nat.pow 10 k := by
    rw [ratioNum, neg_neg, Int.toNat_natCast]
  have positive : 0 < Nat.pow 10 k := Nat.pow_pos (by decide)
  have scaled : 4 * (u * Nat.pow 5 k) * ratioDen (-k) = 4 * u * Nat.pow 10 k := by
    rw [den, hone, ← five_pow_mul_two_pow]
    ring
  have lower : lowerEnd u < 4 * u := by
    have := Nat.two_pow_pos (scale u)
    unfold lowerEnd
    simp only [Nat.pow_eq]
    split_ifs <;> omega
  have upper : 4 * u < upperEnd u := by
    have := Nat.two_pow_pos (scale u)
    unfold upperEnd
    simp only [Nat.pow_eq]
    omega
  rw [inInterval_iff, scaled, num, num]
  have inside : lowerEnd u * Nat.pow 10 k < 4 * u * Nat.pow 10 k ∧
      4 * u * Nat.pow 10 k < upperEnd u * Nat.pow 10 k :=
    ⟨Nat.mul_lt_mul_of_pos_right lower positive, Nat.mul_lt_mul_of_pos_right upper positive⟩
  exact ⟨inside.1.le, inside.2.le, fun _ => inside⟩

theorem inInterval_of_nearestMultiple? {tie : Tie} {u c : Nat} {e : Int}
    (h : nearestMultiple? tie u e = some c) : inInterval u c e = true := by
  unfold nearestMultiple? at h
  simp only at h
  split at h
  · next below above =>
    rw [Option.some.injEq] at h
    subst h
    rcases roundDiv_eq_or tie (ratioNum u e) (ratioDen e) with round | round <;> rw [round]
    · exact below
    · exact above
  · next below _ =>
    cases h
    exact below
  · next _ above =>
    cases h
    exact above
  · exact nomatch h

/-- **The search ends in the interval**: in a multiple that it tested, or in the exact value. -/
theorem exists_search (tie : Tie) {u : Nat} (pos : 0 < u) (fuel : Nat) : ∀ e : Int,
    ∃ c e', search tie u fuel e = ⟨c, e'⟩ ∧ inInterval u c e' = true := by
  induction fuel with
  | zero =>
    intro e
    rw [search]
    -- nothing shorter was found, so the exact value is taken
    obtain ⟨k, hk, hone⟩ := exists_one_eq
    rw [← hk]
    exact ⟨_, _, rfl, inInterval_exact pos hone (by rw [hk]; rfl)⟩
  | succ fuel ih =>
    intro e
    unfold search
    cases h : nearestMultiple? tie u e with
    | none => exact ih (e - 1)
    | some c => exact ⟨c, e, rfl, inInterval_of_nearestMultiple? h⟩

/-! ## Early exits -/

/-- The upper end of the interval of a finite number. -/
theorem upperEnd_units_le {p : Nat} (hp : p < infinity) :
    ∃ k ≤ 2045, upperEnd (units p) ≤ 2 ^ 55 * 2 ^ k := by
  have size : 8 * binadeSize = 2 ^ 55 := by decide
  have bound := mantissaOf_lt p
  refine ⟨shiftOf p, ?_, ?_⟩
  · unfold infinity at hp
    have := Nat.div_lt_of_lt_mul (mul_comm 2047 binadeSize ▸ hp)
    unfold shiftOf
    omega
  · rw [upperEnd_units]
    exact Nat.mul_le_mul_right _ (by omega)

/-- The lower end of the interval of a positive number. -/
theorem two_le_lowerEnd_units {p : Nat} (pos : 0 < p) : 2 ≤ lowerEnd (units p) := by
  have hm := mantissaOf_pos pos
  rw [lowerEnd_units]
  refine le_trans ?_ (Nat.le_mul_of_pos_right _ (Nat.two_pow_pos _))
  split_ifs <;> omega

theorem two_pow_le_ten_pow (k : Nat) : 2 ^ k ≤ 10 ^ (k * 4 / 13 + 1) := by
  have small : ∀ b < 13, 2 ^ b ≤ 10 ^ (b * 4 / 13 + 1) := by decide
  have split : k * 4 / 13 = 4 * (k / 13) + k % 13 * 4 / 13 := by omega
  calc 2 ^ k = (2 ^ 13) ^ (k / 13) * 2 ^ (k % 13) := by
        rw [← pow_mul, ← pow_add, Nat.div_add_mod]
    _ ≤ (10 ^ 4) ^ (k / 13) * 10 ^ (k % 13 * 4 / 13 + 1) :=
        Nat.mul_le_mul (Nat.pow_le_pow_left (by decide) _) (small _ (Nat.mod_lt _ (by decide)))
    _ = 10 ^ (k * 4 / 13 + 1) := by
        rw [← pow_mul, ← pow_add, split, add_assoc]

/-- A whole number is less than the power of ten that its length in bits allows. -/
theorem lt_ten_pow (c : Nat) : c < 10 ^ ((c.log2 + 1) * 4 / 13 + 1) :=
  Nat.lt_log2_self.trans_le (two_pow_le_ten_pow _)

/-- Past `10 ^ 400` there is no finite number. -/
theorem two_pow_lt_of_large {c k a n : Nat} (hc : 0 < c) (hk : k ≤ 2045) (ha : a = 1074)
    (hn : 401 ≤ n) : 2 ^ 55 * 2 ^ k < 4 * (c * 10 ^ n * 2 ^ a) := by
  calc 2 ^ 55 * 2 ^ k = 2 ^ (55 + k) := (pow_add 2 55 k).symm
    _ < 2 ^ (2 + (3 * n + a)) := Nat.pow_lt_pow_right (by decide) (by omega)
    _ = 4 * ((2 ^ 3) ^ n * 2 ^ a) := by rw [pow_add, pow_add, pow_mul]; rfl
    _ ≤ 4 * (c * 10 ^ n * 2 ^ a) := by
        refine Nat.mul_le_mul_left _ (Nat.mul_le_mul_right _ ?_)
        exact (Nat.pow_le_pow_left (by decide) n).trans (Nat.le_mul_of_pos_left _ hc)

/-- Below `10 ^ -330` there is only zero. -/
theorem lt_ten_pow_of_small {c k a n : Nat} (hc : c < 10 ^ k) (ha : a = 1074)
    (hn : k + 331 ≤ n) : 4 * (c * 2 ^ a) < 2 * 10 ^ n := by
  have half : 2 ^ (a + 1) ≤ 10 ^ (n - k) :=
    (two_pow_le_ten_pow (a + 1)).trans (Nat.pow_le_pow_right (by decide) (by omega))
  calc 4 * (c * 2 ^ a) = 2 * (c * 2 ^ (a + 1)) := by ring
    _ < 2 * (10 ^ k * 10 ^ (n - k)) := by
        have := Nat.mul_lt_mul_of_lt_of_le hc half (Nat.pow_pos (by decide))
        omega
    _ = 2 * 10 ^ n := by rw [← pow_add, Nat.add_sub_of_le (by omega)]

/-- **What lies in the interval of a number is read as that number.** -/
theorem toPattern_of_inInterval {p c : Nat} {e : Int} (pos : 0 < p) (hp : p < infinity)
    (h : inInterval (units p) c e = true) : toPattern ⟨c, e⟩ = p := by
  obtain ⟨a, ha, hone⟩ := exists_one_eq
  obtain ⟨low, high, strict⟩ := inInterval_iff.mp h
  have scaled : 4 * c * ratioDen e = 4 * (c * Nat.pow 10 e.toNat * one) := by
    unfold ratioDen
    ring
  unfold ratioNum at low high strict
  rw [scaled] at low high strict
  have lower := two_le_lowerEnd_units pos
  obtain ⟨k, hk, upper⟩ := upperEnd_units_le hp
  have den : 0 < Nat.pow 10 (-e).toNat := Nat.pow_pos (by decide)
  have positive : c ≠ 0 := by
    rintro rfl
    have := Nat.mul_pos (Nat.lt_of_lt_of_le (by decide) lower) den
    omega
  -- an early exit needs a value outside the range of finite numbers, and this one is inside
  have notLarge : ¬ 400 < e := by
    intro large
    have past := two_pow_lt_of_large (n := e.toNat) (Nat.pos_of_ne_zero positive) hk ha (by omega)
    have none : (-e).toNat = 0 := by omega
    rw [none, hone] at high
    simp only [Nat.pow_eq, pow_zero, mul_one] at high
    omega
  have notSmall : ¬ e + ((c.log2 + 1) * 4 / 13 + 1 : Nat) < -330 := by
    intro small
    have past := lt_ten_pow_of_small (n := (-e).toNat) (lt_ten_pow c) ha (by omega)
    have none : e.toNat = 0 := by omega
    have bound := Nat.mul_le_mul_right (10 ^ (-e).toNat) lower
    rw [none, hone] at low
    simp only [Nat.pow_eq, pow_zero, mul_one] at low
    omega
  unfold toPattern
  simp only
  rw [if_neg positive, if_neg notLarge, if_neg notSmall]
  exact nearest_of_between hp den low high strict

/-! ## Places -/

theorem digitsValue_digits (n : Nat) : digitsValue (digits n) = n :=
  Nat.ofDigitChars_ten_toDigits

theorem allDigits_digits (n : Nat) : AllDigits (digits n) :=
  fun _ hc => Nat.isDigit_of_mem_toDigits (by decide) (by decide) hc

theorem allDigits_replicate_zero (n : Nat) : AllDigits (List.replicate n '0') := by
  intro c hc
  rw [List.eq_of_mem_replicate hc]
  rfl

/-- Zeros behind digits multiply. -/
theorem digitsValue_append_zeros (ds : List Char) (n : Nat) :
    digitsValue (ds ++ List.replicate n '0') = 10 ^ n * digitsValue ds :=
  (Nat.ofDigitChars_append 0).trans Nat.ofDigitChars_replicate_zero

/-- Zeros before digits count for nothing. -/
theorem digitsValue_zeros_append (ds : List Char) (n : Nat) :
    digitsValue (List.replicate n '0' ++ ds) = digitsValue ds := by
  refine (Nat.ofDigitChars_append 0).trans ?_
  rw [Nat.ofDigitChars_replicate_zero, Nat.mul_zero]
  rfl

/-- With no digits behind the point, zeros fill the places up to it. -/
theorem places_of_nonneg {c : Nat} {e : Int} (h : 0 ≤ e) :
    places ⟨c, e⟩ = (digits c ++ List.replicate e.toNat '0', []) :=
  if_pos h

/-- With digits behind the point, there are as many as the power of ten says, and before it those
that are left, or a zero. -/
theorem places_of_neg {c : Nat} {e : Int} (h : e < 0) :
    ∃ whole fraction, places ⟨c, e⟩ = (whole, fraction) ∧ whole ≠ [] ∧
      (whole = ['0'] ∨ whole <+: digits c) ∧ (fraction.length : Int) = -e ∧ AllDigits whole ∧
      AllDigits fraction ∧ digitsValue (whole ++ fraction) = c := by
  unfold places
  simp only
  rw [if_neg (not_le.mpr h), List.splitAt_eq]
  -- zeros in front make the digits one more than there are places behind the point
  generalize hpad : List.replicate ((-e).toNat + 1 - (digits c).length) '0' ++ digits c = padded
  have value : digitsValue padded = c := by
    rw [← hpad, digitsValue_zeros_append, digitsValue_digits]
  have all : AllDigits padded := hpad ▸ (allDigits_replicate_zero _).append (allDigits_digits c)
  have long : (-e).toNat + 1 ≤ padded.length := by
    rw [← hpad, List.length_append, List.length_replicate]
    omega
  have hdrop : (padded.drop (padded.length - (-e).toNat)).length = (-e).toNat := by
    rw [List.length_drop]
    omega
  have htake : (padded.take (padded.length - (-e).toNat)).length ≠ 0 := by
    rw [List.length_take]
    omega
  have leading : padded.take (padded.length - (-e).toNat) = ['0'] ∨
      padded.take (padded.length - (-e).toNat) <+: digits c := by
    rcases Nat.lt_or_ge (-e).toNat (digits c).length with fits | short
    · have none : (-e).toNat + 1 - (digits c).length = 0 := by omega
      rw [none, List.replicate_zero, List.nil_append] at hpad
      exact .inr (hpad ▸ List.take_prefix _ _)
    · obtain ⟨zeros, hzeros⟩ : ∃ zeros, (-e).toNat + 1 - (digits c).length = zeros + 1 :=
        ⟨(-e).toNat - (digits c).length, by omega⟩
      have one : padded.length - (-e).toNat = 1 := by
        rw [← hpad, List.length_append, List.length_replicate]
        omega
      rw [hzeros, List.replicate_succ] at hpad
      rw [one, ← hpad]
      exact .inl rfl
  have split := List.take_append_drop (padded.length - (-e).toNat) padded
  generalize padded.take (padded.length - (-e).toNat) = whole at *
  generalize padded.drop (padded.length - (-e).toNat) = fraction at *
  rw [← split] at all value
  obtain ⟨hwhole, hfraction⟩ := List.forall_mem_append.mp all
  exact ⟨whole, fraction, rfl, fun none => htake (none ▸ rfl), leading, by omega, hwhole,
    hfraction, value⟩

theorem positional_of_nonneg {c : Nat} {e : Int} (h : 0 ≤ e) :
    positional ⟨c, e⟩ = digits c ++ List.replicate e.toNat '0' := by
  rw [positional, places_of_nonneg h]

theorem positional_of_neg {c : Nat} {e : Int} (h : e < 0) :
    ∃ whole fraction, positional ⟨c, e⟩ = whole ++ '.' :: fraction ∧ whole ≠ [] ∧
      (fraction.length : Int) = -e ∧ AllDigits whole ∧ AllDigits fraction ∧
      digitsValue (whole ++ fraction) = c := by
  obtain ⟨whole, fraction, places, ne, -, length, hwhole, hfraction, value⟩ := places_of_neg h
  refine ⟨whole, fraction, ?_, ne, length, hwhole, hfraction, value⟩
  rw [positional, places]
  cases fraction with
  | nil =>
    rw [List.length_nil] at length
    omega
  | cons f fs => rfl

/-- Zeros written behind a number change no interval that it lies in. -/
theorem inInterval_of_nonneg {u c : Nat} {e : Int} (h : 0 ≤ e) :
    inInterval u (10 ^ e.toNat * c) 0 = inInterval u c e := by
  have den : 4 * (10 ^ e.toNat * c) * ratioDen 0 = 4 * c * ratioDen e := by
    rw [ratioDen, ratioDen, Int.toNat_zero, Nat.pow_eq, Nat.pow_eq]
    ring
  have num (n : Nat) : ratioNum n 0 = ratioNum n e := by
    have none : (-e).toNat = 0 := by omega
    rw [ratioNum, ratioNum, none]
    rfl
  rw [Bool.eq_iff_iff, inInterval_iff, inInterval_iff, den, num, num]

/-- **What is written in places** is a numeral, and it is read as a decimal of the same value. -/
theorem read?_positional (d : Decimal) :
    IsNumeral d.positional ∧ ∃ d', read? d.positional = some d' ∧
      ∀ u, inInterval u d'.coefficient d'.exponent = inInterval u d.coefficient d.exponent := by
  obtain ⟨c, e⟩ := d
  rcases le_or_gt 0 e with h | h
  · have all : AllDigits (digits c ++ List.replicate e.toNat '0') :=
      (allDigits_digits c).append (allDigits_replicate_zero _)
    have ne : digits c ++ List.replicate e.toNat '0' ≠ [] :=
      List.append_ne_nil_of_left_ne_nil Nat.toDigits_ne_nil _
    rw [positional_of_nonneg h]
    refine ⟨.whole ne all, _, read?_whole ne all, fun u => ?_⟩
    simp only
    rw [digitsValue_append_zeros, digitsValue_digits, inInterval_of_nonneg h]
  · obtain ⟨whole, fraction, text, ne, length, hwhole, hfraction, value⟩ := positional_of_neg h
    rw [text]
    refine ⟨.point ne hwhole hfraction, _, read?_point ne hwhole hfraction, fun u => ?_⟩
    simp only
    rw [value, length, neg_neg]

end Decimal

/-! ## Texts -/

/-- **The shortest digits of a positive number** are a numeral that is read as its pattern. -/
theorem Decimal.toPattern_shortest (tie : Tie) {p : Nat} (pos : 0 < p) (hp : p < infinity) :
    IsNumeral (shortest tie (units p)).positional ∧
      (read? (shortest tie (units p)).positional).map toPattern = some p := by
  have positive := units_pos pos
  obtain ⟨c, e, hsearch, inside⟩ := exists_search tie positive
    ((topExponent (units p) + 1074).toNat + 1) (topExponent (units p))
  rw [shortest, hsearch]
  obtain ⟨numeral, ⟨c', e'⟩, hread, same⟩ := read?_positional ⟨c, e⟩
  refine ⟨numeral, ?_⟩
  rw [hread, Option.map_some, toPattern_of_inInterval pos hp ((same _).trans inside)]

/-- The text of a number that is not zero: its sign and its shortest digits in their places. -/
theorem plainText_ofPattern (negative : Bool) {p : Nat} (pos : 0 < p) (hp : p < infinity) :
    plainText (ofPattern negative p) =
      signText negative ++ String.ofList (Decimal.shortest .up (units p)).positional := by
  have positive := units_pos pos
  unfold plainText
  rw [valueOf_ofPattern negative hp.le, if_pos hp]
  split
  · next heq => exact nomatch heq
  · next heq => exact nomatch heq
  · next heq =>
    injection heq with _ zero
    omega
  · next heq =>
    injection heq with hnegative hunits
    rw [hnegative, hunits]

/-- A sign and what stands behind it. -/
theorem signText_append_ofList (negative : Bool) (cs : List Char) :
    signText negative ++ String.ofList cs =
      String.ofList ((if negative then ['-'] else []) ++ cs) := by
  rw [String.ofList_append]
  cases negative <;> rfl

/-- **The text of a finite number**: a minus, if it has one, and a numeral that is read as its
pattern. -/
theorem exists_plainText (negative : Bool) {p : Nat} (hp : p < infinity) :
    ∃ cs, IsNumeral cs ∧ plainText (ofPattern negative p) =
        String.ofList ((if negative then ['-'] else []) ++ cs) ∧
      (Decimal.read? cs).map Decimal.toPattern = some p := by
  rcases Nat.eq_zero_or_pos p with rfl | pos
  · refine ⟨['0'], .whole (by simp) (by simp [AllDigits]), ?_, rfl⟩
    unfold plainText
    rw [valueOf_ofPattern negative hp.le, if_pos hp]
    exact signText_append_ofList negative ['0']
  · obtain ⟨numeral, hread⟩ := Decimal.toPattern_shortest .up pos hp
    refine ⟨_, numeral, ?_, hread⟩
    rw [← signText_append_ofList]
    exact plainText_ofPattern negative pos hp

/-- **A finite number reads back from its digits.** -/
theorem readFinite?_plainText {x : Float} (h : x.isFinite = true) :
    readFinite? (plainText x) = some x := by
  obtain ⟨negative, p, hp, rfl⟩ := exists_ofPattern_of_isFinite h
  obtain ⟨cs, numeral, text, hread⟩ := exists_plainText negative hp
  rw [Option.map_eq_some_iff] at hread
  obtain ⟨d, hd, hpattern⟩ := hread
  have number : readFloat? (plainText (ofPattern negative p)) = some (ofPattern negative p) := by
    rw [text]
    cases negative with
    | true =>
      rw [if_pos rfl, List.singleton_append, readFloat?_ofList_neg numeral.isCoefficientChar, hd,
        Option.map_some, Decimal.toFloat, hpattern]
    | false =>
      rw [if_neg Bool.false_ne_true, List.nil_append, readFloat?_ofList numeral.isCoefficientChar,
        hd, Option.map_some, Decimal.toFloat, hpattern]
  rw [readFinite?, number]
  exact Option.filter_some_pos h

/-- The number, with one zero. -/
def plusZero (x : Float) : Float :=
  if x == 0.0 then 0.0 else x

/-- Adding to zero gives zero its one sign. -/
theorem zero_add_eq_plusZero {x : Float} (h : x.isFinite = true) : 0.0 + x = plusZero x := by
  obtain ⟨negative, p, hp, rfl⟩ := exists_ofPattern_of_isFinite h
  rw [zero_add_ofPattern negative hp.le, plusZero, ofPattern_beq_zero negative hp.le]
  simp only [decide_eq_true_eq]

/-- **A finite entry reads back**, as zero if it is either zero. -/
theorem readFinite?_valueText {x : Float} (h : x.isFinite = true) :
    readFinite? (valueText x) = some (plusZero x) := by
  have zero : readFinite? "0" = some 0.0 := by decide +kernel
  unfold valueText plusZero
  cases x == 0.0 with
  | true => exact zero
  | false => exact readFinite?_plainText h

end Chalkboard
