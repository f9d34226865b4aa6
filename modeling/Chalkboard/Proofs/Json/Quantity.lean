import Chalkboard.Proofs.Decimal.Magnitude
import Chalkboard.Proofs.Json.Number

/-!
# When a quantity is read exactly

A quantity is read with several roundings: of its digits, of a power of ten, and of their product or
quotient. If the digits and the power are exact numbers, only the last rounding counts, and the number
read is the one that is nearest. This is so for up to fifteen digits and powers up to `10 ^ 22`.

* `Numeral.toFloat?_of_short` — such a numeral is read as the number nearest to it.
-/

namespace Chalkboard

open Binary64

/-! ## Exact numbers -/

/-- **A whole number of 53 bits, times a power of two,** is the value of some pattern. -/
theorem Binary64.exists_units {c t : Nat} (pos : 0 < c) (fits : c ≤ 2 * binadeSize) (ht : t ≤ 900) :
    ∃ p, 0 < p ∧ p < infinity ∧ units p = c * 2 ^ t * one := by
  obtain ⟨k, hk, hone⟩ := exists_one_eq
  have size : binadeSize = 2 ^ 52 := by decide
  have low : 2 ^ c.log2 ≤ c := Nat.log2_self_le pos.ne'
  have high : c < 2 ^ (c.log2 + 1) := Nat.lt_log2_self
  have bits : c.log2 ≤ 53 := by
    have bound : 2 ^ c.log2 ≤ 2 ^ 53 := low.trans (by rw [size] at fits; exact fits)
    exact (Nat.pow_le_pow_iff_right (by decide)).mp bound
  generalize c.log2 = l at *
  -- the mantissa fills its places, except for `2 ^ 53` itself
  have filled : 2 ^ 52 ≤ c * 2 ^ (52 - l) := by
    calc 2 ^ 52 ≤ 2 ^ (l + (52 - l)) := Nat.pow_le_pow_right (by decide) (by omega)
      _ = 2 ^ l * 2 ^ (52 - l) := pow_add 2 l (52 - l)
      _ ≤ c * 2 ^ (52 - l) := Nat.mul_le_mul_right _ low
  have within : c * 2 ^ (52 - l) ≤ 2 ^ 53 := by
    rcases Nat.lt_or_ge l 53 with small | large
    · calc c * 2 ^ (52 - l) ≤ 2 ^ (l + 1) * 2 ^ (52 - l) := Nat.mul_le_mul_right _ high.le
        _ = 2 ^ (l + 1 + (52 - l)) := (pow_add 2 (l + 1) (52 - l)).symm
        _ = 2 ^ 53 := congrArg (2 ^ ·) (by omega)
    · have none : 52 - l = 0 := by omega
      rw [none, pow_zero, mul_one]
      rw [size] at fits
      exact fits
  refine ⟨c * 2 ^ (52 - l) + (k + t - (52 - l)) * binadeSize, ?_, ?_, ?_⟩
  · have := Nat.two_pow_pos 52
    omega
  · unfold infinity
    rw [size]
    omega
  · rw [units_add (by rw [size]; exact within) (.inr (by rw [size]; exact filled)), hone, mul_assoc,
      ← pow_add]
    have places : 52 - l + (k + t - (52 - l)) = t + k := by omega
    rw [places, pow_add, Nat.pow_eq, mul_assoc]

namespace Decimal

/-- No decimal is read as more than infinity. -/
theorem toPattern_le (d : Decimal) : d.toPattern ≤ infinity := by
  unfold toPattern
  split_ifs
  · exact Nat.zero_le _
  · exact le_rfl
  · exact Nat.zero_le _
  · exact Nat.min_le_left _ _

/-- Between the early exits a decimal is read by one rounding. -/
theorem toPattern_eq_nearest {c : Nat} {e : Int} (pos : 0 < c) (low : -330 ≤ e) (high : e ≤ 400) :
    toPattern ⟨c, e⟩ = nearest (c * 10 ^ e.toNat * one) (10 ^ (-e).toNat) := by
  have inside : ¬ e + ((c.log2 + 1) * 4 / 13 + 1 : Nat) < -330 := by omega
  unfold toPattern
  simp only [Nat.pow_eq]
  rw [if_neg pos.ne', if_neg (not_lt.mpr high), if_neg inside]

/-- Whole numbers of 53 bits are exact. -/
theorem exists_toFloat_whole {c : Nat} (pos : 0 < c) (fits : c ≤ 2 * binadeSize) :
    ∃ p < infinity, units p = c * one ∧ toFloat false ⟨c, 0⟩ = ofPattern false p := by
  obtain ⟨p, -, hp, value⟩ := exists_units (t := 0) pos fits (by decide)
  rw [pow_zero, mul_one] at value
  refine ⟨p, hp, value, ?_⟩
  rw [toFloat, toPattern_eq_nearest pos (by decide) (by decide)]
  show ofPattern false (nearest (c * 10 ^ 0 * one) (10 ^ 0)) = _
  rw [pow_zero, mul_one, ← value, nearest_units hp]

/-- Powers of ten up to `10 ^ 22` are exact. -/
theorem exists_toFloat_tenPow {k : Nat} (hk : k ≤ 22) :
    ∃ q, 0 < q ∧ q < infinity ∧ units q = 10 ^ k * one ∧
      Json.Numeral.powerOfTen k = ofPattern false q := by
  have fits : 5 ^ k ≤ 2 * binadeSize := (Nat.pow_le_pow_right (by decide) hk).trans (by decide)
  obtain ⟨q, pos, hq, value⟩ := exists_units (t := k) (Nat.pow_pos (by decide)) fits (by omega)
  rw [← Nat.mul_pow] at value
  refine ⟨q, pos, hq, value, ?_⟩
  rw [Json.Numeral.powerOfTen, toFloat, toPattern_eq_nearest one_pos (by omega) (by omega)]
  have up : (k : Int).toNat = k := Int.toNat_natCast k
  have down : (-(k : Int)).toNat = 0 := by omega
  rw [up, down, one_mul, pow_zero, ← show units q = 10 ^ k * one from value, nearest_units hq]

end Decimal

namespace Json

namespace Numeral

/-! ## Scaling -/

/-- **Exact digits and an exact power of ten** are scaled with one rounding. -/
theorem scale?_exact {c : Nat} {e : Int} (pos : 0 < c) (fits : c ≤ 2 * binadeSize)
    (low : -22 ≤ e) (high : e ≤ 22) (finite : Decimal.toPattern ⟨c, e⟩ < infinity) :
    scale? (Decimal.toFloat false ⟨c, 0⟩) e = some (Decimal.toFloat false ⟨c, e⟩) := by
  obtain ⟨p, hp, hvalue, whole⟩ := Decimal.exists_toFloat_whole pos fits
  have target := Decimal.toPattern_eq_nearest (c := c) (e := e) pos (by omega) (by omega)
  rw [scale?, if_neg (by omega)]
  rcases le_or_gt 0 e with up | down
  · obtain ⟨q, -, hq, hpower, power⟩ := Decimal.exists_toFloat_tenPow (k := e.toNat) (by omega)
    have none : (-e).toNat = 0 := by omega
    have product : Decimal.toFloat false ⟨c, 0⟩ * powerOfTen e.toNat =
        Decimal.toFloat false ⟨c, e⟩ := by
      rw [whole, power, mul_ofPattern false false hp hq, Decimal.toFloat, target, none, hvalue, hpower]
      refine congrArg (ofPattern false) (nearest_congr one_units_pos (by decide) ?_)
      ring
    have number : (Decimal.toFloat false ⟨c, e⟩).isInf = false := by
      rw [Decimal.toFloat, isInf_ofPattern false finite.le]
      exact decide_eq_false finite.ne
    rw [if_pos up]
    simp only [product, number, Bool.false_eq_true, if_false]
  · obtain ⟨q, hq0, hq, hpower, power⟩ := Decimal.exists_toFloat_tenPow (k := (-e).toNat) (by omega)
    have none : e.toNat = 0 := by omega
    have quotient : Decimal.toFloat false ⟨c, 0⟩ / powerOfTen (-e).toNat =
        Decimal.toFloat false ⟨c, e⟩ := by
      rw [whole, power, div_ofPattern false false hp hq hq0, Decimal.toFloat, target, none, hvalue, hpower]
      refine congrArg (ofPattern false) (nearest_congr ?_ (Nat.pow_pos (by decide)) ?_)
      · exact Nat.mul_pos (Nat.pow_pos (by decide)) one_units_pos
      · ring
    rw [if_neg (by omega), if_pos (by omega), quotient]

/-! ## Digits -/

/-- The value of digits behind a number. -/
def extended (n : Nat) (cs : List Char) : Nat :=
  cs.foldl (fun acc c => 10 * acc + (c.toNat - '0'.toNat)) n

theorem extended_cons (n : Nat) (c : Char) (cs : List Char) :
    extended n (c :: cs) = extended (10 * n + digitsValue [c]) cs := by
  show extended (10 * n + (c.toNat - '0'.toNat)) cs = _
  rw [digitsValue, List.foldl_cons, List.foldl_nil, Nat.mul_zero, Nat.zero_add]

theorem extended_digitsValue (ds cs : List Char) :
    extended (digitsValue ds) cs = digitsValue (ds ++ cs) :=
  List.foldl_append.symm

theorem le_extended (n : Nat) (cs : List Char) : n ≤ extended n cs := by
  induction cs generalizing n with
  | nil => exact le_rfl
  | cons c cs ih =>
    rw [extended_cons]
    exact le_trans (by omega) (ih _)

/-- Digits that fit are all taken before the point. -/
theorem leadingWhole_eq {n : Nat} {cs : List Char} (h : extended n cs < UInt64.size) :
    leadingWhole n cs = (extended n cs, 0) := by
  induction cs generalizing n with
  | nil => rfl
  | cons c cs ih =>
    rw [extended_cons] at h ⊢
    have fits := (le_extended _ cs).trans_lt h
    rw [leadingWhole]
    simp only [if_neg (not_le.mpr fits)]
    exact ih h

/-- Digits that fit are all taken behind the point. -/
theorem leadingFraction_eq {n : Nat} {cs : List Char} (h : extended n cs < UInt64.size) :
    leadingFraction n cs = (extended n cs, cs.length) := by
  induction cs generalizing n with
  | nil => rfl
  | cons c cs ih =>
    rw [extended_cons] at h ⊢
    have fits := (le_extended _ cs).trans_lt h
    rw [leadingFraction]
    simp only [if_neg (not_le.mpr fits), ih h, List.length_cons]

/-- A few digits have a small value. -/
theorem extended_lt {n : Nat} {cs : List Char} (h : AllDigits cs) :
    extended n cs < (n + 1) * 10 ^ cs.length := by
  induction cs generalizing n with
  | nil =>
    show n < (n + 1) * 10 ^ 0
    omega
  | cons c cs ih =>
    obtain ⟨digit, digits⟩ := List.forall_mem_cons.mp h
    have bounds := toNat_of_isDigit digit
    have value : digitsValue [c] ≤ 9 := by
      show 10 * 0 + (c.toNat - 48) ≤ 9
      omega
    rw [extended_cons, List.length_cons, pow_succ]
    calc extended (10 * n + digitsValue [c]) cs
        < (10 * n + digitsValue [c] + 1) * 10 ^ cs.length := ih digits
      _ ≤ ((n + 1) * 10) * 10 ^ cs.length := Nat.mul_le_mul_right _ (by omega)
      _ = (n + 1) * (10 ^ cs.length * 10) := by ring

/-! ## Numerals -/

variable {x : Numeral}

/-- A few digits make a small coefficient. -/
theorem coefficient_lt (digits : AllDigits (x.whole ++ x.fraction)) :
    x.decimal.coefficient < 10 ^ (x.whole ++ x.fraction).length := by
  have value : extended 0 (x.whole ++ x.fraction) = x.decimal.coefficient := rfl
  rw [← value]
  calc extended 0 (x.whole ++ x.fraction)
      < (0 + 1) * 10 ^ (x.whole ++ x.fraction).length := extended_lt digits
    _ = 10 ^ (x.whole ++ x.fraction).length := by rw [zero_add, one_mul]

/-- A coefficient that fits is read with all its digits. -/
theorem leading_eq (fits : x.decimal.coefficient < UInt64.size) :
    leadingWhole 0 x.whole = (digitsValue x.whole, 0) ∧
      leadingFraction (digitsValue x.whole) x.fraction =
        (x.decimal.coefficient, x.fraction.length) := by
  have value : extended (digitsValue x.whole) x.fraction = x.decimal.coefficient :=
    extended_digitsValue x.whole x.fraction
  rw [← value] at fits ⊢
  exact ⟨leadingWhole_eq ((le_extended _ _).trans_lt fits), leadingFraction_eq fits⟩

/-- **A coefficient that fits** is scaled by the power of ten behind it, unless the exponent is out of
all bounds. -/
theorem toFloat?_eq_scale? (plus : x.negative = false) (fits : x.decimal.coefficient < UInt64.size)
    (bounded : (exponentValue x.exponent).natAbs < exponentBound) :
    x.toFloat? = scale? (Decimal.toFloat false ⟨x.decimal.coefficient, 0⟩) x.decimal.exponent := by
  obtain ⟨whole, fraction⟩ := leading_eq fits
  have power : x.decimal.exponent = exponentValue x.exponent - x.fraction.length := rfl
  unfold toFloat?
  rw [whole]
  simp only [fraction, plus, Bool.false_eq_true, if_false, Option.map_id']
  rw [power]
  cases written : x.exponent with
  | none =>
    refine congrArg (scale? _) ?_
    show ((0 : Nat) : Int) - x.fraction.length = 0 - x.fraction.length
    rfl
  | some e =>
    obtain ⟨negative, ds⟩ := e
    have value : exponentValue (some (negative, ds)) =
        if negative then -(digitsValue ds : Int) else digitsValue ds := rfl
    rw [written, value] at bounded
    rw [value]
    have inside : ¬ exponentBound ≤ digitsValue ds := by
      split_ifs at bounded <;> omega
    simp only [if_neg inside]
    refine congrArg (scale? _) ?_
    split_ifs <;> omega

/-- **Up to fifteen digits and a power up to `10 ^ 22`** are read as the number nearest to the
numeral. -/
theorem toFloat?_of_short (plus : x.negative = false)
    (digits : AllDigits (x.whole ++ x.fraction)) (short : (x.whole ++ x.fraction).length ≤ 15)
    (low : -22 ≤ x.decimal.exponent) (high : x.decimal.exponent ≤ 22)
    (pos : 0 < x.decimal.coefficient) (finite : x.nearest.isFinite = true) :
    x.toFloat? = some x.nearest := by
  have small : x.decimal.coefficient < 10 ^ 15 :=
    (coefficient_lt digits).trans_le (Nat.pow_le_pow_right (by decide) short)
  have bounded : (exponentValue x.exponent).natAbs < exponentBound := by
    have power : x.decimal.exponent = exponentValue x.exponent - x.fraction.length := rfl
    rw [List.length_append] at short
    unfold exponentBound
    omega
  have number : Decimal.toPattern x.decimal < infinity := by
    rw [nearest, Decimal.toFloat, isFinite_ofPattern _ (Decimal.toPattern_le _)] at finite
    exact of_decide_eq_true finite
  rw [toFloat?_eq_scale? plus (small.trans (by decide)) bounded,
    scale?_exact pos (small.le.trans (by decide)) low high number, nearest, plus]

end Numeral

end Json

end Chalkboard
