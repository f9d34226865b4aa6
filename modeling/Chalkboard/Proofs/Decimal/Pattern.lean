import Mathlib
import Chalkboard.Decimal.Binary64

/-!
# Binary64 numbers are signs and patterns

A number other than not-a-number is a sign and a pattern: the bits without the sign, which count the
magnitudes upwards from zero to infinity (`exists_ofPattern`). What is proved of numbers is proved
of patterns.

* `unpack_eq_pieces` — the sign, mantissa and exponent that the bits of a pattern hold.
* `abs_ofPattern`, `neg_ofPattern`, `zero_add_ofPattern` — operations that keep the pattern.
* `compare_pieces` — patterns with their signs are ordered like the numbers.
* `lt_iff_order`, `le_iff_order`, `beq_iff_order` — so the tests of order and of equality are those
  of whole numbers.
-/

namespace Chalkboard

open Float.Model (Format UnpackedFloat)
open Float.Model.UnpackedFloat

namespace Binary64

/-! ## The fields of a bit pattern -/

theorem toNat_unpackMantissa (b : BitVec Format.binary64.numBits) :
    (unpackMantissa b).toNat = b.toNat % 2 ^ 52 := by
  rw [unpackMantissa_def, BitVec.extractLsb'_toNat, Nat.shiftRight_zero]

theorem toNat_unpackExponent (b : BitVec Format.binary64.numBits) :
    (unpackExponent b).toNat = b.toNat / 2 ^ 52 % 2 ^ 11 := by
  rw [unpackExponent_def, BitVec.extractLsb'_toNat, Nat.shiftRight_eq_div_pow]

theorem toNat_unpackSign (b : BitVec Format.binary64.numBits) :
    (unpackSign b).toNat = b.toNat / 2 ^ 63 := by
  have bound : b.toNat < 2 ^ 64 := b.isLt
  rw [unpackSign_def, BitVec.extractLsb'_toNat, Nat.shiftRight_eq_div_pow]
  show b.toNat / 2 ^ 63 % 2 ^ 1 = b.toNat / 2 ^ 63
  omega

/-- The sign of a number. -/
def signOf (negative : Bool) : Sign :=
  if negative then .negative else .positive

/-- The whole number that a finite pattern scales. -/
def mantissaOf (pattern : Nat) : Nat :=
  if pattern / binadeSize = 0 then pattern else binadeSize + pattern % binadeSize

/-- The power of two that a finite pattern scales by. -/
def exponentOf (pattern : Nat) : Int :=
  max (pattern / binadeSize) 1 - 1075

theorem mantissaOf_pos {pattern : Nat} (h : 0 < pattern) : 0 < mantissaOf pattern := by
  unfold mantissaOf binadeSize
  split_ifs <;> omega

/-- The pieces of the number with the given sign and the given pattern. -/
def pieces (negative : Bool) (pattern : Nat) : UnpackedFloat :=
  if pattern = infinity then .infinity (signOf negative)
  else if h : 0 < pattern then
    .finite (signOf negative) (mantissaOf pattern) (exponentOf pattern) (mantissaOf_pos h)
  else .zero (signOf negative)

/-- The fields of a pattern with a sign. -/
theorem fields_of_toNat {b : BitVec Format.binary64.numBits} {negative : Bool} {pattern : Nat}
    (h : pattern < signBit) (hb : b.toNat = pattern + if negative then signBit else 0) :
    Sign.ofBitVec (unpackSign b) = signOf negative ∧
      (unpackExponent b).toNat = pattern / binadeSize ∧
      (unpackMantissa b).toNat = pattern % binadeSize := by
  have sign := toNat_unpackSign b
  rw [toNat_unpackExponent, toNat_unpackMantissa]
  unfold signBit at h hb
  unfold binadeSize
  cases negative with
  | true =>
    rw [if_pos rfl] at hb
    refine ⟨?_, by omega, by omega⟩
    have one : unpackSign b ≠ 0#1 := by
      intro zero
      rw [zero, BitVec.toNat_ofNat] at sign
      omega
    exact if_neg one
  | false =>
    rw [if_neg Bool.false_ne_true] at hb
    refine ⟨?_, by omega, by omega⟩
    have zero : unpackSign b = 0#1 := by
      apply BitVec.eq_of_toNat_eq
      rw [sign, BitVec.toNat_ofNat]
      omega
    exact if_pos zero

/-- The exponent of an infinity or of what is not a number. -/
theorem unpackExponent_eq_ones_iff {b : BitVec Format.binary64.numBits} {q : Nat}
    (h : (unpackExponent b).toNat = q) :
    unpackExponent b = -1#11 ↔ q = 2047 := by
  rw [← h, ← BitVec.toNat_inj]
  rfl

theorem unpackMantissa_eq_zero_iff {b : BitVec Format.binary64.numBits} {r : Nat}
    (h : (unpackMantissa b).toNat = r) :
    unpackMantissa b = 0#52 ↔ r = 0 := by
  rw [← h, ← BitVec.toNat_inj]
  rfl

/-- **Bits up to infinity** are read as the sign and the pattern that they hold. -/
theorem unpack_eq_pieces {b : BitVec Format.binary64.numBits} {negative : Bool} {pattern : Nat}
    (h : pattern ≤ infinity) (hb : b.toNat = pattern + if negative then signBit else 0) :
    unpack .binary64 b = pieces negative pattern := by
  obtain ⟨sign, exponent, mantissa⟩ := fields_of_toNat
    (h.trans_lt (by unfold infinity binadeSize signBit; omega)) hb
  unfold unpack pieces
  simp only [sign]
  have ones := unpackExponent_eq_ones_iff exponent
  have round := unpackMantissa_eq_zero_iff mantissa
  have none : unpackExponent b = 0#11 ↔ pattern / binadeSize = 0 := by
    rw [← exponent, ← BitVec.toNat_inj]
    rfl
  have bias : ((Format.binary64.exponentBias : Int) + Format.binary64.mantissaBitsWithoutImplicit)
      = 1075 := rfl
  unfold infinity at h
  unfold infinity mantissaOf exponentOf
  -- infinity fills the exponent; below the first binade there is no implicit bit
  by_cases top : pattern = 2047 * binadeSize
  · have hq : pattern / binadeSize = 2047 := by unfold binadeSize at top ⊢; omega
    have hr : pattern % binadeSize = 0 := by unfold binadeSize at top ⊢; omega
    rw [if_pos top, if_pos (ones.mpr hq), if_pos (round.mpr hr)]
  · have hq : pattern / binadeSize ≠ 2047 := by unfold binadeSize at h top ⊢; omega
    rw [if_neg top, if_neg (mt ones.mp hq)]
    by_cases low : pattern / binadeSize = 0
    · rw [if_pos (none.mpr low)]
      by_cases zero : pattern = 0
      · subst zero
        rw [dif_pos (round.mpr rfl), dif_neg (lt_irrefl 0)]
      · have hr : pattern % binadeSize = pattern := by unfold binadeSize at low ⊢; omega
        have hr0 : pattern % binadeSize ≠ 0 := by rwa [hr]
        rw [dif_neg (mt round.mp hr0), dif_pos (Nat.pos_of_ne_zero zero)]
        simp only [UnpackedFloat.finite.injEq, exponent, mantissa, bias, low, hr, if_true, true_and]
        rfl
    · have pos : 0 < pattern := Nat.pos_of_ne_zero fun zero => low (by rw [zero]; rfl)
      rw [if_neg (mt none.mp low), dif_pos pos]
      have implicit : (1#1 ++ unpackMantissa b).toNat =
          binadeSize + pattern % binadeSize := by
        have bound := (unpackMantissa b).isLt
        rw [BitVec.toNat_append, ← Nat.shiftLeft_add_eq_or_of_lt bound, mantissa]
        rfl
      simp only [UnpackedFloat.finite.injEq, exponent, implicit, bias, low, if_false, true_and]
      omega

/-- Bits past infinity are not a number. -/
theorem unpack_eq_notANumber {b : BitVec Format.binary64.numBits} {negative : Bool} {pattern : Nat}
    (h : infinity < pattern) (bound : pattern < signBit)
    (hb : b.toNat = pattern + if negative then signBit else 0) :
    unpack .binary64 b = .notANumber := by
  obtain ⟨-, exponent, mantissa⟩ := fields_of_toNat bound hb
  have hq : pattern / binadeSize = 2047 := by
    unfold infinity binadeSize at *
    unfold signBit at bound
    omega
  have hr : pattern % binadeSize ≠ 0 := by
    unfold infinity at h
    have := Nat.div_add_mod pattern binadeSize
    rw [hq] at this
    omega
  unfold unpack
  simp only
  rw [if_pos ((unpackExponent_eq_ones_iff exponent).mpr hq),
    if_neg (mt (unpackMantissa_eq_zero_iff mantissa).mp hr)]

/-! ## Numbers -/

/-- The pieces of a number. -/
def unpacked (x : Float) : UnpackedFloat :=
  x.toModel.unpack

/-- A number is what its pieces are packed to. -/
theorem ofModel_pack_unpacked (x : Float) : Float.ofModel (Float.Model.pack (unpacked x)) = x := by
  rw [← Float.toBits_inj, ← UInt64.toBitVec_inj]
  exact pack_unpack_of_valid x.toModel.valid

theorem toNat_toBits_ofPattern (negative : Bool) {pattern : Nat} (h : pattern ≤ infinity) :
    (ofPattern negative pattern).toBits.toNat = pattern + if negative then signBit else 0 := by
  have small : pattern < signBit := h.trans_lt (by unfold infinity binadeSize signBit; omega)
  have bound : pattern + (if negative then signBit else 0) < 2 ^ 64 := by
    unfold signBit at *
    split_ifs <;> omega
  unfold ofPattern
  generalize hn : pattern + (if negative then signBit else 0) = n at bound
  have hb : (UInt64.ofNat n).toBitVec.toNat = n := Nat.mod_eq_of_lt bound
  obtain ⟨-, exponent, mantissa⟩ := fields_of_toNat small (hb.trans hn.symm)
  -- a pattern that fills the exponent is that of infinity, so it has no mantissa
  have number : @isNaNBits .binary64 (UInt64.ofNat n).toBitVec = false := by
    refine decide_eq_false ?_
    rw [unpackExponent_eq_ones_iff exponent, ne_eq, unpackMantissa_eq_zero_iff mantissa]
    unfold infinity binadeSize at *
    omega
  have packed := @pack_unpack .binary64 (UInt64.ofNat n).toBitVec
  rw [number, if_neg Bool.false_ne_true] at packed
  show (pack .binary64 (unpack .binary64 (UInt64.ofNat n).toBitVec)).toNat = n
  rw [packed, hb]

theorem unpacked_ofPattern (negative : Bool) {pattern : Nat} (h : pattern ≤ infinity) :
    unpacked (ofPattern negative pattern) = pieces negative pattern :=
  unpack_eq_pieces h (toNat_toBits_ofPattern negative h)

/-- The bits of a number, put together from sign and pattern. -/
theorem toNat_toBits_eq (x : Float) :
    x.toBits.toNat = x.toBits.toNat % signBit +
      if decide (signBit ≤ x.toBits.toNat) then signBit else 0 := by
  have bound : x.toBits.toNat < 2 ^ 64 := x.toBits.toBitVec.isLt
  unfold signBit
  split_ifs with hs <;> simp only [decide_eq_true_eq] at hs <;> omega

/-- Bits up to infinity are those of a sign and a pattern. -/
theorem eq_ofPattern {x : Float} (h : x.toBits.toNat % signBit ≤ infinity) :
    x = ofPattern (decide (signBit ≤ x.toBits.toNat)) (x.toBits.toNat % signBit) := by
  rw [← Float.toBits_inj, ← UInt64.toNat_inj, toNat_toBits_ofPattern _ h]
  exact toNat_toBits_eq x

/-- **Every number has a sign and a pattern.** -/
theorem exists_ofPattern {x : Float} (h : x.isNaN = false) :
    ∃ negative pattern, pattern ≤ infinity ∧ x = ofPattern negative pattern := by
  have small : x.toBits.toNat % signBit < signBit := Nat.mod_lt _ (by decide)
  -- the bits without the sign are the pattern, unless they lie past infinity
  by_cases hp : x.toBits.toNat % signBit ≤ infinity
  · exact ⟨_, _, hp, eq_ofPattern hp⟩
  · have nan := unpack_eq_notANumber (lt_of_not_ge hp) small (toNat_toBits_eq x)
    have : x.isNaN = true := congrArg UnpackedFloat.isNaN nan
    rw [h] at this
    exact absurd this Bool.false_ne_true

theorem unpacked_of_isNaN {x : Float} (h : x.isNaN = true) : unpacked x = .notANumber := by
  have h' : (unpacked x).isNaN = true := h
  cases hx : unpacked x with
  | notANumber => rfl
  | infinity s => rw [hx] at h'; exact absurd h' Bool.false_ne_true
  | finite s m e pos => rw [hx] at h'; exact absurd h' Bool.false_ne_true
  | zero s => rw [hx] at h'; exact absurd h' Bool.false_ne_true

/-! ## Operations on patterns -/

section Operations

variable (negative : Bool) {pattern : Nat} (h : pattern ≤ infinity)
include h

/-- An operation that gives the pieces of a number gives that number. -/
theorem ofModel_pack_pieces :
    Float.ofModel (Float.Model.pack (pieces negative pattern)) = ofPattern negative pattern := by
  rw [← unpacked_ofPattern negative h, ofModel_pack_unpacked]

theorem abs_ofPattern : (ofPattern negative pattern).abs = ofPattern false pattern := by
  have magnitude : (pieces negative pattern).abs = pieces false pattern := by
    unfold pieces
    split_ifs <;> rfl
  show Float.ofModel (Float.Model.pack (unpacked (ofPattern negative pattern)).abs) = _
  rw [unpacked_ofPattern negative h, magnitude, ofModel_pack_pieces false h]

theorem neg_ofPattern : -ofPattern negative pattern = ofPattern (!negative) pattern := by
  have opposite : (pieces negative pattern).neg = pieces (!negative) pattern := by
    unfold pieces
    cases negative <;> split_ifs <;> rfl
  show Float.ofModel (Float.Model.pack (unpacked (ofPattern negative pattern)).neg) = _
  rw [unpacked_ofPattern negative h, opposite, ofModel_pack_pieces (!negative) h]

theorem isNaN_ofPattern : (ofPattern negative pattern).isNaN = false := by
  show (unpacked (ofPattern negative pattern)).isNaN = false
  rw [unpacked_ofPattern negative h]
  unfold pieces
  split_ifs <;> rfl

theorem isFinite_ofPattern :
    (ofPattern negative pattern).isFinite = decide (pattern < infinity) := by
  show (unpacked (ofPattern negative pattern)).isFinite = _
  rw [unpacked_ofPattern negative h]
  unfold pieces
  split_ifs with top pos
  · rw [top, decide_eq_false (lt_irrefl infinity)]
    rfl
  · rw [decide_eq_true (lt_of_le_of_ne h top)]
    rfl
  · rw [decide_eq_true (lt_of_le_of_ne h top)]
    rfl

theorem isInf_ofPattern :
    (ofPattern negative pattern).isInf = decide (pattern = infinity) := by
  show (unpacked (ofPattern negative pattern)).isInf = _
  rw [unpacked_ofPattern negative h]
  unfold pieces
  split_ifs with top pos
  · rw [decide_eq_true top]
    rfl
  · rw [decide_eq_false top]
    rfl
  · rw [decide_eq_false top]
    rfl

/-- The bits of a number, taken apart. -/
theorem toNat_toBits_fields :
    decide (signBit ≤ (ofPattern negative pattern).toBits.toNat) = negative ∧
      (ofPattern negative pattern).toBits.toNat % signBit = pattern := by
  have small : pattern < signBit := h.trans_lt (by unfold infinity binadeSize signBit; omega)
  rw [toNat_toBits_ofPattern negative h]
  cases negative with
  | true =>
    rw [if_pos rfl, Nat.add_mod_right]
    exact ⟨decide_eq_true (Nat.le_add_left signBit pattern), Nat.mod_eq_of_lt small⟩
  | false =>
    rw [if_neg Bool.false_ne_true, Nat.add_zero]
    exact ⟨decide_eq_false (not_le_of_gt small), Nat.mod_eq_of_lt small⟩

theorem valueOf_ofPattern :
    valueOf (ofPattern negative pattern) =
      if pattern < infinity then .finite negative (units pattern) else .infinite negative := by
  obtain ⟨sign, mod⟩ := toNat_toBits_fields negative h
  unfold valueOf
  simp only [mod, sign]
  split_ifs with lt eq
  · rfl
  · rfl
  · exact absurd (le_antisymm h (not_lt.mp lt)) eq

end Operations

/-- **Every finite number has a sign and a finite pattern.** -/
theorem exists_ofPattern_of_isFinite {x : Float} (h : x.isFinite = true) :
    ∃ negative pattern, pattern < infinity ∧ x = ofPattern negative pattern := by
  have number : x.isNaN = false := by
    by_contra nan
    rw [Bool.not_eq_false] at nan
    have h' : (unpacked x).isFinite = true := h
    rw [unpacked_of_isNaN nan] at h'
    exact Bool.false_ne_true h'
  obtain ⟨negative, pattern, hp, rfl⟩ := exists_ofPattern number
  rw [isFinite_ofPattern negative hp] at h
  exact ⟨negative, pattern, of_decide_eq_true h, rfl⟩

/-- Zero. -/
theorem zero_eq_ofPattern : (0.0 : Float) = ofPattern false 0 := by
  decide +kernel

/-- **Adding to zero** changes nothing but the sign of zero. -/
theorem zero_add_ofPattern (negative : Bool) {pattern : Nat} (h : pattern ≤ infinity) :
    0.0 + ofPattern negative pattern =
      if pattern = 0 then 0.0 else ofPattern negative pattern := by
  have zero := unpacked_ofPattern false (Nat.zero_le infinity)
  have sum : UnpackedFloat.add .binary64 (pieces false 0) (pieces negative pattern) =
      if pattern = 0 then pieces false 0 else pieces negative pattern := by
    by_cases hp : pattern = 0
    · -- of two zeros the sum is the one without a minus
      subst hp
      cases negative <;> rfl
    · have pos := Nat.pos_of_ne_zero hp
      rw [if_neg hp]
      show UnpackedFloat.add .binary64 (.zero .positive) (pieces negative pattern) = _
      unfold pieces
      rw [dif_pos pos]
      split_ifs <;> rfl
  show Float.ofModel (Float.Model.pack (UnpackedFloat.add .binary64 (unpacked 0.0)
    (unpacked (ofPattern negative pattern)))) = _
  rw [zero_eq_ofPattern, zero, unpacked_ofPattern negative h, sum]
  split_ifs
  · exact ofModel_pack_pieces false (Nat.zero_le infinity)
  · exact ofModel_pack_pieces negative h

/-! ## Order -/

/-- A pattern with its sign, as a whole number. -/
def signed (negative : Bool) (pattern : Nat) : Int :=
  if negative then -pattern else pattern

/-- A larger pattern has a larger exponent, or the same one and a larger mantissa. -/
theorem fields_lt {p q : Nat} (h : p < q) :
    exponentOf p < exponentOf q ∨ exponentOf p = exponentOf q ∧ mantissaOf p < mantissaOf q := by
  unfold exponentOf mantissaOf
  have hp := Nat.div_add_mod p binadeSize
  have hq := Nat.div_add_mod q binadeSize
  unfold binadeSize at *
  split_ifs <;> omega

/-- Patterns of one sign are ordered like their exponents, and then like their mantissas. -/
theorem compare_fields (p q : Nat) :
    (compare (exponentOf p) (exponentOf q)).then (compare (mantissaOf p) (mantissaOf q)) =
      compare p q := by
  rcases lt_trichotomy p q with lt | rfl | gt
  · rw [compare_lt_iff_lt.mpr lt]
    rcases fields_lt lt with he | ⟨he, hm⟩
    · rw [compare_lt_iff_lt.mpr he]
      rfl
    · rw [compare_eq_iff_eq.mpr he, compare_lt_iff_lt.mpr hm]
      rfl
  · simp only [compare_eq_iff_eq.mpr rfl]
    rfl
  · rw [compare_gt_iff_gt.mpr gt]
    rcases fields_lt gt with he | ⟨he, hm⟩
    · rw [compare_gt_iff_gt.mpr he]
      rfl
    · rw [compare_eq_iff_eq.mpr he.symm, compare_gt_iff_gt.mpr hm]
      rfl

/-- **Numbers are ordered like their signed patterns.** -/
theorem compare_pieces {p q : Nat} (hp : p ≤ infinity) (hq : q ≤ infinity) (s t : Bool) :
    (pieces s p).compare (pieces t q) = some (compare (signed s p) (signed t q)) := by
  have top : 0 < infinity := by decide
  have fields := compare_fields p q
  unfold pieces
  -- both are infinite, finite or zero, with either sign
  split_ifs <;> cases s <;> cases t <;>
    simp only [UnpackedFloat.compare, signOf, signed, if_true, if_false, Bool.false_eq_true,
      Option.some.injEq, fields]
  all_goals first
    | rfl
    | (simp only [compare, compareOfLessAndEq]
       grind [Ordering.swap])

/-- Where a number stands among all numbers. -/
def order (x : Float) : Int :=
  signed (signBit ≤ x.toBits.toNat) (x.toBits.toNat % signBit)

theorem order_ofPattern (negative : Bool) {pattern : Nat} (h : pattern ≤ infinity) :
    order (ofPattern negative pattern) = signed negative pattern := by
  obtain ⟨sign, mod⟩ := toNat_toBits_fields negative h
  rw [order, sign, mod]

/-- The comparison that tests of order and of equality look at. -/
theorem compare_unpacked {x y : Float} (hx : x.isNaN = false) (hy : y.isNaN = false) :
    (unpacked x).compare (unpacked y) = some (compare (order x) (order y)) := by
  obtain ⟨s, p, hp, rfl⟩ := exists_ofPattern hx
  obtain ⟨t, q, hq, rfl⟩ := exists_ofPattern hy
  rw [unpacked_ofPattern s hp, unpacked_ofPattern t hq, order_ofPattern s hp, order_ofPattern t hq,
    compare_pieces hp hq]

/-- The test of order looks at that comparison. -/
theorem lt_iff_compare (x y : Float) :
    x < y ↔ (unpacked x).compare (unpacked y) = some .lt := by
  show decide (x.toModel < y.toModel) = true ↔ _
  rw [decide_eq_true_iff]
  exact beq_iff_eq

theorem lt_iff_order {x y : Float} (hx : x.isNaN = false) (hy : y.isNaN = false) :
    x < y ↔ order x < order y := by
  rw [lt_iff_compare, compare_unpacked hx hy, Option.some.injEq, compare_lt_iff_lt]

theorem beq_iff_order {x y : Float} (hx : x.isNaN = false) (hy : y.isNaN = false) :
    (x == y) = true ↔ order x = order y := by
  show ((unpacked x).compare (unpacked y) == some .eq) = true ↔ _
  rw [compare_unpacked hx hy, beq_iff_eq, Option.some.injEq, compare_eq_iff_eq]

theorem le_iff_order {x y : Float} (hx : x.isNaN = false) (hy : y.isNaN = false) :
    x ≤ y ↔ order x ≤ order y := by
  show decide (x.toModel ≤ y.toModel) = true ↔ _
  rw [decide_eq_true_iff]
  show ((unpacked x).compare (unpacked y)).any (·.isLE) = true ↔ _
  rw [compare_unpacked hx hy, Option.any_some, Std.isLE_compare]

/-- What is not a number compares with nothing. -/
theorem isNaN_of_compare {x y : Float} {o : Ordering}
    (h : (unpacked x).compare (unpacked y) = some o) : x.isNaN = false ∧ y.isNaN = false := by
  refine ⟨?_, ?_⟩ <;> by_contra nan <;> rw [Bool.not_eq_false] at nan <;>
    rw [unpacked_of_isNaN nan] at h
  · exact nomatch (show none = some o from h)
  · cases hx : unpacked x <;> rw [hx] at h <;> exact nomatch (show none = some o from h)

/-- **What is not a number is less than nothing**, and nothing is less than it. -/
theorem isNaN_of_lt {x y : Float} (h : x < y) : x.isNaN = false ∧ y.isNaN = false :=
  isNaN_of_compare ((lt_iff_compare x y).mp h)

theorem isNaN_of_le {x y : Float} (h : x ≤ y) : x.isNaN = false ∧ y.isNaN = false := by
  have hany : ((unpacked x).compare (unpacked y)).any (·.isLE) = true :=
    of_decide_eq_true (p := x.toModel ≤ y.toModel) h
  obtain ⟨o, ho, -⟩ := (Option.any_eq_true _ _).mp hany
  exact isNaN_of_compare ho

/-- The order of numbers, strict and not. -/
theorem lt_of_lt_of_le {x y z : Float} (hxy : x < y) (hyz : y ≤ z) : x < z := by
  have hx := (isNaN_of_lt hxy).1
  obtain ⟨hy, hz⟩ := isNaN_of_le hyz
  rw [lt_iff_order hx hz]
  exact ((lt_iff_order hx hy).mp hxy).trans_le ((le_iff_order hy hz).mp hyz)

theorem lt_of_le_of_lt {x y z : Float} (hxy : x ≤ y) (hyz : y < z) : x < z := by
  obtain ⟨hx, hy⟩ := isNaN_of_le hxy
  have hz := (isNaN_of_lt hyz).2
  rw [lt_iff_order hx hz]
  exact ((le_iff_order hx hy).mp hxy).trans_lt ((lt_iff_order hy hz).mp hyz)

/-- What is not a number has no other magnitude. -/
theorem abs_of_isNaN {x : Float} (h : x.isNaN = true) : x.abs = x := by
  have same : (unpacked x).abs = unpacked x := by
    rw [unpacked_of_isNaN h]
    rfl
  show Float.ofModel (Float.Model.pack (unpacked x).abs) = x
  rw [same, ofModel_pack_unpacked]

/-- What is not a number has no other opposite. -/
theorem neg_of_isNaN {x : Float} (h : x.isNaN = true) : -x = x := by
  have same : (unpacked x).neg = unpacked x := by
    rw [unpacked_of_isNaN h]
    rfl
  show Float.ofModel (Float.Model.pack (unpacked x).neg) = x
  rw [same, ofModel_pack_unpacked]

theorem isNaN_abs (x : Float) : x.abs.isNaN = x.isNaN := by
  cases h : x.isNaN with
  | true => rw [abs_of_isNaN h, h]
  | false =>
    obtain ⟨s, p, hp, rfl⟩ := exists_ofPattern h
    rw [abs_ofPattern s hp, isNaN_ofPattern false hp]

/-- **A magnitude is its own magnitude**, and so is what is not a number. -/
theorem abs_abs (x : Float) : x.abs.abs = x.abs := by
  cases h : x.isNaN with
  | true => rw [abs_of_isNaN h, abs_of_isNaN h]
  | false =>
    obtain ⟨s, p, hp, rfl⟩ := exists_ofPattern h
    rw [abs_ofPattern s hp, abs_ofPattern false hp]

/-! ## Zero and one -/

/-- One. -/
theorem one_eq_ofPattern : (1.0 : Float) = ofPattern false (1023 * binadeSize) := by
  decide +kernel

section Comparisons

variable (negative : Bool) {pattern : Nat} (h : pattern ≤ infinity)
include h

theorem ofPattern_beq_iff (negative' : Bool) {pattern' : Nat} (h' : pattern' ≤ infinity) :
    (ofPattern negative pattern == ofPattern negative' pattern') = true ↔
      signed negative pattern = signed negative' pattern' := by
  rw [beq_iff_order (isNaN_ofPattern negative h) (isNaN_ofPattern negative' h'),
    order_ofPattern negative h, order_ofPattern negative' h']

/-- Both zeros are equal to zero, and no other number is. -/
theorem ofPattern_beq_zero : (ofPattern negative pattern == 0.0) = decide (pattern = 0) := by
  rw [Bool.eq_iff_iff, zero_eq_ofPattern,
    ofPattern_beq_iff negative h false (Nat.zero_le infinity), decide_eq_true_iff]
  cases negative <;> simp [signed]

/-- The numbers below zero are those with a minus, but for zero. -/
theorem ofPattern_lt_zero : ofPattern negative pattern < 0.0 ↔ negative = true ∧ pattern ≠ 0 := by
  rw [zero_eq_ofPattern, lt_iff_order (isNaN_ofPattern negative h)
    (isNaN_ofPattern false (Nat.zero_le infinity)), order_ofPattern negative h,
    order_ofPattern false (Nat.zero_le infinity)]
  cases negative with
  | true =>
    simp only [signed, if_true, if_false, Bool.false_eq_true, true_and]
    omega
  | false => simp [signed]

end Comparisons

/-- A number and its opposite are zero together. -/
theorem neg_beq_zero (x : Float) : (-x == 0.0) = (x == 0.0) := by
  cases h : x.isNaN with
  | true => rw [neg_of_isNaN h]
  | false =>
    obtain ⟨s, p, hp, rfl⟩ := exists_ofPattern h
    rw [neg_ofPattern s hp, ofPattern_beq_zero s hp, ofPattern_beq_zero (!s) hp]

/-- **Only one equals one.** -/
theorem eq_one_of_beq {x : Float} (h : (x == 1.0) = true) : x = 1.0 := by
  have number : x.isNaN = false := (isNaN_of_compare (o := .eq) (beq_iff_eq.mp h)).1
  obtain ⟨s, p, hp, rfl⟩ := exists_ofPattern number
  rw [one_eq_ofPattern, ofPattern_beq_iff s hp false (by decide)] at h
  cases s with
  | true =>
    -- no number with a minus is as large as one
    have opposite : -(p : Int) = (1023 * binadeSize : Nat) := h
    unfold binadeSize at opposite
    omega
  | false => rw [one_eq_ofPattern, Int.ofNat_inj.mp h]

/-! ## Magnitudes of finite numbers -/

section Magnitudes

variable {x : Float} (h : x.isFinite = true)
include h

theorem isFinite_abs : x.abs.isFinite = true := by
  obtain ⟨negative, p, hp, rfl⟩ := exists_ofPattern_of_isFinite h
  rw [abs_ofPattern negative hp.le, isFinite_ofPattern false hp.le]
  exact decide_eq_true hp

theorem abs_beq_zero : (x.abs == 0.0) = (x == 0.0) := by
  obtain ⟨negative, p, hp, rfl⟩ := exists_ofPattern_of_isFinite h
  rw [abs_ofPattern negative hp.le, ofPattern_beq_zero false hp.le,
    ofPattern_beq_zero negative hp.le]

/-- **A number that is not zero** is its magnitude with its sign. -/
theorem eq_signed_abs (nonzero : (x == 0.0) = false) : x = if x < 0.0 then -x.abs else x.abs := by
  obtain ⟨negative, p, hp, rfl⟩ := exists_ofPattern_of_isFinite h
  rw [ofPattern_beq_zero negative hp.le, decide_eq_false_iff_not] at nonzero
  simp only [ofPattern_lt_zero negative hp.le, abs_ofPattern negative hp.le,
    neg_ofPattern false hp.le]
  cases negative with
  | true => rw [if_pos ⟨rfl, nonzero⟩, Bool.not_false]
  | false => rw [if_neg fun h => Bool.false_ne_true h.1]

end Magnitudes

end Binary64

end Chalkboard
