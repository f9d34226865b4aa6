import Mathlib.Algebra.Order.Field.Rat
import Mathlib.Tactic.FieldSimp
import Mathlib.Tactic.Linarith
import Mathlib.Tactic.Ring
import Chalkboard.Decimal.Text
import Chalkboard.Proofs.Decimal.Nearest
import Chalkboard.Proofs.Decimal.Reading
import Chalkboard.Proofs.Decimal.Rounding
import Chalkboard.Proofs.Json.Number

/-!
# A fixed number of places

The text of a number with a fixed number of places is told apart from the number itself: `exact` is
the number as a fraction, `FixedNumeral` is a text with its places, and `IsRounded` compares them
without computing either.

* `isRounded_of_near` — half a place away is as near as a multiple can be;
* `isRounded_exact` — the digits of the magnitude, with the sign of the number, are its nearest
  multiple;
* `exists_fixedNumeral` — digits in their places are a numeral of the same value;
* `fixedText_isRounded` — the text is the nearest multiple, a half going to the even digit, and it
  has a minus exactly if the number is negative and is not shown as zero;
* `fixedText_eq_dropZeroSign` — it is the text with the sign of the number, less a minus before
  zeros.
-/

namespace Chalkboard

open Binary64

/-! ## Rounded multiples -/

/-- **`IsRounded places r k`** — of all multiples of `10 ^ -places` none is nearer to `r` than the
`k`-th, and if another is as near, `k` is even. -/
structure IsRounded (places : Nat) (r : ℚ) (k : ℤ) : Prop where
  nearest : ∀ j : ℤ, |r - k / 10 ^ places| ≤ |r - j / 10 ^ places|
  even : ∀ j : ℤ, j ≠ k → |r - k / 10 ^ places| = |r - j / 10 ^ places| → Even k

/-- A distance, counted in places. -/
theorem abs_sub_div_ten_pow (places : Nat) (r : ℚ) (j : ℤ) :
    |r - j / 10 ^ places| = |r * 10 ^ places - j| / 10 ^ places := by
  have pos : (0 : ℚ) < 10 ^ places := by positivity
  have same : r - j / 10 ^ places = (r * 10 ^ places - j) / 10 ^ places := by
    field_simp
  rw [same, abs_div, abs_of_pos pos]

/-- **Half a place away** is as near as a multiple can be. -/
theorem isRounded_of_near {places : Nat} {r : ℚ} {k : ℤ} (near : 2 * |r * 10 ^ places - k| ≤ 1)
    (tie : 2 * |r * 10 ^ places - k| = 1 → Even k) : IsRounded places r k := by
  have pos : (0 : ℚ) < 10 ^ places := by positivity
  -- every other multiple is a whole place away from this one
  have apart (j : ℤ) (ne : j ≠ k) : 1 ≤ |r * 10 ^ places - k| + |r * 10 ^ places - j| := by
    have whole : (1 : ℚ) ≤ |(j : ℚ) - k| := by
      exact_mod_cast Int.one_le_abs (sub_ne_zero.mpr ne)
    calc (1 : ℚ) ≤ |(j : ℚ) - k| := whole
      _ = |(r * 10 ^ places - k) - (r * 10 ^ places - j)| := by congr 1; ring
      _ ≤ |r * 10 ^ places - k| + |r * 10 ^ places - j| := abs_sub _ _
  refine ⟨fun j => ?_, fun j ne same => ?_⟩
  · rw [abs_sub_div_ten_pow, abs_sub_div_ten_pow, div_le_div_iff_of_pos_right pos]
    rcases eq_or_ne j k with rfl | ne
    · exact le_rfl
    · have := apart j ne
      linarith
  · rw [abs_sub_div_ten_pow, abs_sub_div_ten_pow, div_left_inj' pos.ne'] at same
    have := apart j ne
    apply tie
    linarith

/-- The opposite of a number is rounded to the opposite multiple. -/
theorem IsRounded.neg {places : Nat} {r : ℚ} {k : ℤ} (h : IsRounded places r k) :
    IsRounded places (-r) (-k) := by
  have mirror (j : ℤ) : |-r - (j : ℚ) / 10 ^ places| = |r - ((-j : ℤ) : ℚ) / 10 ^ places| := by
    rw [← abs_neg]
    push_cast
    congr 1
    ring
  refine ⟨fun j => ?_, fun j ne same => ?_⟩
  · rw [mirror, mirror, neg_neg]
    exact h.nearest (-j)
  · rw [mirror, mirror, neg_neg] at same
    exact (h.even (-j) (fun eq => ne (neg_eq_iff_eq_neg.mp eq)) same).neg

/-! ## The number as a fraction -/

/-- The value of a finite number, as a fraction; zero for what is not finite. -/
def Binary64.exact (x : Float) : ℚ :=
  match valueOf x with
  | .finite negative units => signed negative units / one
  | .infinite _ | .nan => 0

theorem Binary64.exact_ofPattern (negative : Bool) {p : Nat} (hp : p < infinity) :
    exact (ofPattern negative p) = signed negative (units p) / one := by
  rw [exact, valueOf_ofPattern negative hp.le, if_pos hp]

/-- **Rounding a quotient** leaves at most half of the divisor, and exactly half only at an even
quotient. -/
theorem roundDiv_even_near (num : Nat) {den : Nat} (pos : 0 < den) :
    2 * |(num : ℤ) - roundDiv .even num den * den| ≤ den ∧
      (2 * |(num : ℤ) - roundDiv .even num den * den| = den →
        Even (roundDiv .even num den : ℤ)) := by
  have split : (den : ℤ) * (num / den : ℕ) + (num % den : ℕ) = num := by
    exact_mod_cast Nat.div_add_mod num den
  have small : num % den < den := Nat.mod_lt num pos
  have below : (num : ℤ) - (num / den : ℕ) * den = (num % den : ℕ) := by
    linarith
  have above : (num : ℤ) - (num / den + 1 : ℕ) * den = -((den : ℤ) - (num % den : ℕ)) := by
    push_cast at split ⊢
    linarith
  unfold roundDiv
  simp only
  split_ifs with less more
  · rw [below, Nat.abs_cast]
    refine ⟨by omega, fun same => by omega⟩
  · rw [above, abs_neg, abs_of_nonneg (by omega)]
    refine ⟨by omega, fun same => by omega⟩
  · -- the quotient lies half-way
    rcases Nat.mod_two_eq_zero_or_one (num / den) with even | odd
    · rw [even, Nat.add_zero, below, Nat.abs_cast]
      refine ⟨by omega, fun _ => ?_⟩
      exact_mod_cast Nat.even_iff.mpr even
    · rw [odd, above, abs_neg, abs_of_nonneg (by omega)]
      refine ⟨by omega, fun _ => ?_⟩
      exact_mod_cast Nat.even_iff.mpr (by omega)

/-- **The rounded quotient of a multiplied number** is the nearest multiple to its quotient. -/
theorem isRounded_roundDiv (places num : Nat) {den : Nat} (pos : 0 < den) :
    IsRounded places ((num : ℚ) / den) (roundDiv .even (num * 10 ^ places) den) := by
  have posRat : (0 : ℚ) < den := by exact_mod_cast pos
  obtain ⟨near, tie⟩ := roundDiv_even_near (num * 10 ^ places) pos
  generalize roundDiv .even (num * 10 ^ places) den = k at near tie ⊢
  -- the distance in places, counted in parts of the divisor
  have scaled : 2 * |(num : ℚ) / den * 10 ^ places - (k : ℤ)| =
      ((2 * |((num * 10 ^ places : ℕ) : ℤ) - k * den| : ℤ) : ℚ) / den := by
    have quotient : (num : ℚ) / den * 10 ^ places - (k : ℤ) =
        ((((num * 10 ^ places : ℕ) : ℤ) - k * den : ℤ) : ℚ) / den := by
      push_cast
      field_simp
    rw [quotient, abs_div, abs_of_pos posRat]
    push_cast
    ring
  apply isRounded_of_near
  · rw [scaled, div_le_one posRat]
    exact_mod_cast near
  · intro half
    rw [scaled, div_eq_one_iff_eq posRat.ne'] at half
    exact tie (by exact_mod_cast half)

/-- A sign before the number is the sign before its multiple. -/
theorem IsRounded.signed {places units den k : Nat} (h : IsRounded places ((units : ℚ) / den) k)
    (negative : Bool) :
    IsRounded places ((signed negative units : ℚ) / den) (signed negative k) := by
  cases negative with
  | false => exact h
  | true =>
    have opposite : ((Binary64.signed true units : ℤ) : ℚ) / den = -((units : ℚ) / den) := by
      rw [Binary64.signed, if_pos rfl, Int.cast_neg, Int.cast_natCast, neg_div]
    rw [opposite]
    exact h.neg

/-- The digits of a magnitude are those of a rounded quotient. -/
theorem fixed_coefficient (places units : Nat) : (Decimal.fixed places units).coefficient =
    roundDiv .even (units * 10 ^ places) one := by
  simp only [Decimal.fixed, Nat.pow_eq]

/-- **A number and its digits.** The digits of the magnitude, with the sign of the number, are its
nearest multiple. -/
theorem isRounded_exact (places : Nat) (negative : Bool) {p : Nat} (hp : p < infinity) :
    IsRounded places (exact (ofPattern negative p))
      (signed negative (Decimal.fixed places (units p)).coefficient) := by
  have magnitude := isRounded_roundDiv places (units p) one_units_pos
  rw [exact_ofPattern negative hp, fixed_coefficient]
  exact magnitude.signed negative

/-! ## The text -/

/-- A number in decimal digits with a fixed number of places behind the point. -/
structure FixedNumeral (places : Nat) where
  minus : Bool
  whole : List Char
  fraction : List Char
  /-- There is no superfluous zero in front. -/
  isWhole : Json.IsWhole whole
  allDigits : AllDigits fraction
  length_fraction : fraction.length = places

namespace FixedNumeral

variable {places : Nat}

/-- The numeral as it is written: without places there is no point. -/
def chars (n : FixedNumeral places) : List Char :=
  (if n.minus then ['-'] else []) ++ n.whole ++ (if places = 0 then [] else '.' :: n.fraction)

/-- The number of places that the numeral stands for. -/
def value (n : FixedNumeral places) : Int :=
  signed n.minus (digitsValue (n.whole ++ n.fraction))

end FixedNumeral

/-- The digits before the point have no superfluous zero, for a zero too. -/
theorem isWhole_of_leading_digits {c : Nat} {ws : List Char} (ne : ws ≠ [])
    (h : ws = ['0'] ∨ ws <+: digits c) : Json.IsWhole ws := by
  rcases Nat.eq_zero_or_pos c with rfl | pos
  · have zero : ws <+: ['0'] := h.elim (fun eq => eq ▸ List.prefix_refl _) id
    obtain none | ⟨tail, rfl, htail⟩ := List.prefix_cons_iff.mp zero
    · exact absurd none ne
    · rw [List.prefix_nil.mp htail]
      exact .zero
  · exact Json.isWhole_of_leading pos ne h

/-- **Digits in their places** are a numeral with as many places, and stand for the coefficient. -/
theorem exists_fixedNumeral (minus : Bool) (places c : Nat) :
    ∃ n : FixedNumeral places, n.minus = minus ∧ n.value = signed minus c ∧
      n.chars = (if minus then ['-'] else []) ++ (Decimal.mk c (-places)).positional := by
  rcases Nat.eq_zero_or_pos places with rfl | pos
  · have text : (Decimal.mk c (-(0 : ℕ))).positional = digits c := by
      rw [Decimal.positional_of_nonneg (by omega)]
      exact List.append_nil _
    refine ⟨⟨minus, digits c, [], Json.isWhole_digits c, List.forall_mem_nil _, rfl⟩, rfl, ?_, ?_⟩
    · rw [FixedNumeral.value, List.append_nil, Decimal.digitsValue_digits]
    · rw [FixedNumeral.chars, text, if_pos rfl, List.append_nil]
  · obtain ⟨whole, fraction, hplaces, ne, leading, length, -, hfraction, value⟩ :=
      Decimal.places_of_neg (c := c) (e := -places) (by omega)
    have text : (Decimal.mk c (-places)).positional = whole ++ '.' :: fraction := by
      rw [Decimal.positional, hplaces]
      cases fraction with
      | nil =>
        rw [List.length_nil] at length
        omega
      | cons f fs => rfl
    refine ⟨⟨minus, whole, fraction, isWhole_of_leading_digits ne leading, hfraction, by omega⟩,
      rfl, ?_, ?_⟩
    · rw [FixedNumeral.value, value]
    · rw [FixedNumeral.chars, text, if_neg pos.ne', List.append_assoc]

/-- The text of a finite number: its sign, unless it is shown as zero, and the digits of its
magnitude. -/
theorem fixedText_ofPattern (places : Nat) (negative : Bool) {p : Nat} (hp : p < infinity) :
    ∃ c, c = (Decimal.fixed places (units p)).coefficient ∧
      fixedText places (ofPattern negative p) =
        signText (negative && c != 0) ++ String.ofList (Decimal.mk c (-places)).positional := by
  refine ⟨_, rfl, ?_⟩
  rw [fixedText, valueOf_ofPattern negative hp.le, if_pos hp]
  simp only [Decimal.fixed]

/-- Zero is shown as zero. -/
theorem fixed_zero (places : Nat) : (Decimal.fixed places 0).coefficient = 0 := by
  have same : 0 * 10 ^ places = 0 * one := by
    rw [Nat.zero_mul, Nat.zero_mul]
  rw [fixed_coefficient, same]
  exact roundDiv_mul_right .even 0 one_units_pos

/-- A zero has no sign to write, so that its value is the same without one. -/
theorem signed_shown (negative : Bool) (c : Nat) :
    signed (negative && c != 0) c = signed negative c := by
  rcases Nat.eq_zero_or_pos c with rfl | pos
  · rw [signed_zero, signed_zero]
  · rw [bne_iff_ne.mpr pos.ne', Bool.and_true]

/-- **A fixed number of places.** The text of a finite number is a numeral with that many places; no
multiple is nearer to the number than what it stands for, and of two that are equally near it is the
even one. It has a minus exactly if the number is below zero and is not shown as zero. -/
theorem fixedText_isRounded (places : Nat) {x : Float} (finite : x.isFinite = true) :
    ∃ n : FixedNumeral places, fixedText places x = String.ofList n.chars ∧
      IsRounded places (exact x) n.value ∧ (n.minus = true ↔ x < 0.0 ∧ n.value ≠ 0) := by
  obtain ⟨negative, p, hp, rfl⟩ := exists_ofPattern_of_isFinite finite
  obtain ⟨c, hc, htext⟩ := fixedText_ofPattern places negative hp
  obtain ⟨n, hminus, hvalue, hchars⟩ := exists_fixedNumeral (negative && c != 0) places c
  have shown : c ≠ 0 → p ≠ 0 := by
    rintro ne rfl
    exact ne (hc.trans (fixed_zero places))
  have zero : n.value = 0 ↔ c = 0 := by
    rw [hvalue, ← Int.natAbs_eq_zero, natAbs_signed]
  refine ⟨n, ?_, ?_, ?_⟩
  · rw [htext, hchars, signText_append_ofList]
  · rw [hvalue, signed_shown, hc]
    exact isRounded_exact places negative hp
  · rw [hminus, Ne, zero, ofPattern_lt_zero negative hp.le, Bool.and_eq_true, bne_iff_ne]
    constructor
    · rintro ⟨below, ne⟩
      exact ⟨⟨below, shown ne⟩, ne⟩
    · rintro ⟨⟨below, -⟩, ne⟩
      exact ⟨below, ne⟩

/-- A half above an even digit in the last place, below zero. -/
theorem fixedText_isRounded_half :
    (-0.125 : Float).isFinite = true ∧ fixedText 2 (-0.125) = "-0.12" ∧
      ∃ n : FixedNumeral 2, fixedText 2 (-0.125) = String.ofList n.chars ∧
        IsRounded 2 (exact (-0.125)) n.value ∧
        (n.minus = true ↔ (-0.125 : Float) < 0.0 ∧ n.value ≠ 0) :=
  have finite : (-0.125 : Float).isFinite = true := by decide +kernel
  ⟨finite, by decide +kernel, fixedText_isRounded 2 finite⟩

example : fixedText 3 (-0.0004) = "0.000" := by decide +kernel

/-! ## The minus before zeros -/

/-- The digits of the magnitude behind the sign of the number, also when they are zeros. -/
def signedFixedText (places : Nat) (x : Float) : String :=
  match valueOf x with
  | .nan => "NaN"
  | .infinite negative => infinityText negative
  | .finite negative units =>
    signText negative ++ String.ofList (Decimal.fixed places units).positional

/-- A zero or the point. -/
def isZeroChar (c : Char) : Bool :=
  c == '0' || c == '.'

/-- The text without a minus that stands before zeros only. -/
def dropZeroSign (text : List Char) : List Char :=
  match text with
  | '-' :: rest => if rest.all isZeroChar then rest else text
  | _ => text

/-- Digits stand for zero if they are zeros. -/
theorem digitsValue_eq_zero_iff {ds : List Char} (h : AllDigits ds) :
    digitsValue ds = 0 ↔ ds.all isZeroChar = true := by
  induction ds using List.reverseRecOn with
  | nil => exact iff_of_true rfl rfl
  | append_singleton ds d ih =>
    obtain ⟨hds, hd⟩ := List.forall_mem_append.mp h
    have digit := hd d (List.mem_singleton_self d)
    have step : digitsValue (ds ++ [d]) = 10 * digitsValue ds + (d.toNat - '0'.toNat) :=
      List.foldl_append
    have last : d.toNat - '0'.toNat = 0 ↔ isZeroChar d = true := by
      obtain ⟨low, -⟩ := toNat_of_isDigit digit
      have point : d ≠ '.' := by
        rintro rfl
        exact absurd low (by decide)
      rw [isZeroChar, beq_eq_false_iff_ne.mpr point, Bool.or_false, beq_iff_eq,
        ← Char.toNat_inj]
      show d.toNat - 48 = 0 ↔ d.toNat = 48
      omega
    rw [step, List.all_append, Bool.and_eq_true, ← ih hds, Nat.add_eq_zero_iff, last,
      Nat.mul_eq_zero]
    simp

/-- **Digits in their places** begin with a digit, and show nothing but zeros exactly if the
coefficient is zero. -/
theorem positional_zero_or_not (places c : Nat) :
    (∃ d ds, (Decimal.mk c (-places)).positional = d :: ds ∧ d.isDigit = true) ∧
      ((Decimal.mk c (-places)).positional.all isZeroChar = true ↔ c = 0) := by
  obtain ⟨⟨minus, whole, fraction, isWhole, allDigits, length⟩, rfl, hvalue, hchars⟩ :=
    exists_fixedNumeral false places c
  have value : digitsValue (whole ++ fraction) = c := Int.ofNat_inj.mp hvalue
  have text : (Decimal.mk c (-places)).positional =
      whole ++ (if places = 0 then [] else '.' :: fraction) := hchars.symm
  constructor
  · cases whole with
    | nil => exact absurd rfl isWhole.ne_nil
    | cons d ds => exact ⟨d, _, text, isWhole.allDigits d List.mem_cons_self⟩
  · have behind : (if places = 0 then [] else '.' :: fraction).all isZeroChar =
        fraction.all isZeroChar := by
      split_ifs with none
      · rw [List.eq_nil_of_length_eq_zero (length.trans none)]
      · rfl
    rw [text, List.all_append, behind, ← List.all_append, ← value]
    exact (digitsValue_eq_zero_iff (isWhole.allDigits.append allDigits)).symm

/-- Where the first character is no minus, none is dropped. -/
theorem dropZeroSign_cons {c : Char} (h : c ≠ '-') (rest : List Char) :
    dropZeroSign (c :: rest) = c :: rest := by
  unfold dropZeroSign
  split
  · next heq =>
    injection heq with first
    exact absurd first h
  · rfl

/-- **The minus before zeros.** Dropping it behind the sign gives the same text as not writing it. -/
theorem fixedText_eq_dropZeroSign (places : Nat) (x : Float) :
    (fixedText places x).toList = dropZeroSign (signedFixedText places x).toList := by
  unfold fixedText signedFixedText
  rcases valueOf x with _ | negative | ⟨negative, units⟩
  · have word : "NaN".toList = dropZeroSign "NaN".toList := by decide
    exact word
  · have word : ∀ negative, (infinityText negative).toList =
        dropZeroSign (infinityText negative).toList := by decide
    exact word negative
  · have text : (Decimal.fixed places units).positional =
        (Decimal.mk (Decimal.fixed places units).coefficient (-places)).positional := by
      simp only [Decimal.fixed]
    obtain ⟨⟨d, ds, hd, digit⟩, zero⟩ :=
      positional_zero_or_not places (Decimal.fixed places units).coefficient
    have first : d ≠ '-' := by
      rintro rfl
      exact absurd digit (by decide)
    simp only
    rw [signText_append_ofList, signText_append_ofList, String.toList_ofList, String.toList_ofList,
      text]
    generalize (Decimal.fixed places units).coefficient = c at *
    cases negative with
    | false =>
      rw [hd]
      exact (dropZeroSign_cons first ds).symm
    | true =>
      show _ = if (Decimal.mk c (-places)).positional.all isZeroChar then
        (Decimal.mk c (-places)).positional else '-' :: (Decimal.mk c (-places)).positional
      rw [Bool.true_and, if_congr zero rfl rfl]
      by_cases none : c = 0
      · rw [if_pos none, none]
        rfl
      · rw [if_neg none, bne_iff_ne.mpr none]
        rfl

end Chalkboard
