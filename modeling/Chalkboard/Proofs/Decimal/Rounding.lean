import Chalkboard.Proofs.Decimal.Nearest

/-!
# Binary64 operations round to the nearest number

A sum, a difference, a product or a quotient of finite binary64 numbers is the number nearest to the
exact result, whole numbers of units being exact.

* `Represents` — what a mantissa and its two residual bits say of a quotient, also after shifts.
* `ofModel_pack_roundWithAccuracy` — the rounding that all operations share gives the nearest number.
* `mul_ofPattern`, `div_ofPattern`, `add_ofPattern`, `sub_ofPattern` — the operations.
-/

namespace Chalkboard

open Float.Model (Format UnpackedFloat totalExponent)
open Float.Model.UnpackedFloat

namespace Binary64

/-! ## Residual bits -/

/-- **What an extended mantissa says of a quotient** — its mantissa is the whole part, and the bits
say whether the rest reaches a half, and whether it is neither nothing nor a half. -/
structure Represents (em : ExtendedMantissa) (num den : Nat) : Prop where
  whole : em.mantissa = num / den
  /-- The rest reaches a half. -/
  round : em.roundBit = decide (den ≤ 2 * (num % den))
  /-- The rest is neither nothing nor a half. -/
  sticky : em.stickyBit = decide (num % den ≠ 0 ∧ 2 * (num % den) ≠ den)

variable {em : ExtendedMantissa} {num den : Nat}

theorem represents_ofFraction (pos : 0 < den) :
    Represents (.ofMantissaAndAccuracy (num / den) (accuracyOfFraction (num % den) den))
      num den := by
  unfold accuracyOfFraction
  rcases Nat.eq_zero_or_pos (num % den) with zero | rest
  · rw [if_pos zero]
    constructor <;> simp [ExtendedMantissa.ofMantissaAndAccuracy, zero, pos.ne']
  · rw [if_neg rest.ne']
    rcases lt_trichotomy (2 * (num % den)) den with below | half | above
    · rw [compare_lt_iff_lt.mpr below]
      constructor <;> simp [ExtendedMantissa.ofMantissaAndAccuracy] <;> omega
    · rw [compare_eq_iff_eq.mpr half]
      constructor <;> simp [ExtendedMantissa.ofMantissaAndAccuracy] <;> omega
    · rw [compare_gt_iff_gt.mpr above]
      constructor <;> simp [ExtendedMantissa.ofMantissaAndAccuracy] <;> omega

/-- One place less: the last bit of the mantissa becomes the round bit. -/
theorem Represents.shiftRightOne (h : Represents em num den) (pos : 0 < den) :
    Represents em.shiftRightOne num (den * 2) := by
  have small := Nat.mod_lt num pos
  have split : num % (den * 2) = num % den + den * (num / den % 2) := Nat.mod_mul
  have bit := Nat.mod_two_eq_zero_or_one (num / den)
  constructor
  · show em.mantissa / 2 = _
    rw [h.whole, Nat.div_div_eq_div_mul]
  · show (em.mantissa % 2 != 0) = _
    rw [h.whole, split]
    rcases bit with even | odd
    · rw [even]
      simp
      omega
    · rw [odd]
      simp
      omega
  · show (em.roundBit || em.stickyBit) = _
    rw [h.round, h.sticky, split, Bool.eq_iff_iff]
    rcases bit with even | odd
    · rw [even]
      simp
      omega
    · rw [odd]
      simp
      omega

theorem Represents.shiftRight (h : Represents em num den) (pos : 0 < den) (k : Nat) :
    Represents (em >>> k) num (den * 2 ^ k) := by
  show Represents (k.repeat ExtendedMantissa.shiftRightOne em) num (den * 2 ^ k)
  induction k with
  | zero =>
    rw [pow_zero, mul_one]
    exact h
  | succ k ih =>
    rw [pow_succ, ← mul_assoc]
    exact ih.shiftRightOne (Nat.mul_pos pos (Nat.two_pow_pos k))

/-- **The bits suffice for rounding.** -/
theorem Represents.roundedMantissa (h : Represents em num den) :
    em.roundedMantissa = roundDiv .even num den := by
  obtain ⟨mantissa, round, sticky⟩ := em
  obtain ⟨rfl, rfl, rfl⟩ := h
  unfold roundDiv
  simp only
  by_cases reaches : den ≤ 2 * (num % den)
  · rw [if_neg (not_lt.mpr reaches), decide_eq_true reaches]
    by_cases half : 2 * (num % den) = den
    · rw [if_neg half.not_gt, decide_eq_false fun h => h.2 half]
      rfl
    · have above := lt_of_le_of_ne reaches (Ne.symm half)
      rw [if_pos above, decide_eq_true ⟨by omega, half⟩]
      rfl
  · rw [if_pos (not_le.mp reaches), decide_eq_false reaches]
    -- a rest below a half is dropped, whether there is one or not
    cases decide (num % den ≠ 0 ∧ 2 * (num % den) ≠ den) <;> rfl

/-! ## Packing -/

/-- The pieces that a finite pattern `m + s * binadeSize` holds. -/
theorem fields_add {m s : Nat} (bound : m < 2 * binadeSize) (least : s = 0 ∨ binadeSize ≤ m) :
    mantissaOf (m + s * binadeSize) = m ∧ exponentOf (m + s * binadeSize) = s - 1074 := by
  unfold mantissaOf exponentOf
  unfold binadeSize at *
  split_ifs <;> omega

/-- **Packing a rounded mantissa** of `s` places: the pattern counts on from one binade to the next,
up to infinity. -/
theorem ofModel_pack_finite (negative : Bool) {m s : Nat} (pos : 0 < m)
    (bound : m < 2 * binadeSize) (least : s = 0 ∨ binadeSize ≤ m) {e : Int} (he : e = s - 1074) :
    Float.ofModel (Float.Model.pack (.finite (signOf negative) m e pos)) =
      ofPattern negative (min infinity (m + s * binadeSize)) := by
  obtain ⟨mantissa, exponent⟩ := fields_add bound least
  rcases lt_or_ge (m + s * binadeSize) infinity with finite | overflow
  · have same : pieces negative (m + s * binadeSize) = .finite (signOf negative) m e pos := by
      unfold pieces
      rw [if_neg finite.ne, dif_pos (by omega)]
      simp only [mantissa, exponent, he]
    rw [min_eq_right finite.le, ← same, ofModel_pack_pieces negative finite.le]
  · have large : 2 ^ 11 ≤ (e + (1023 : Nat) + (52 : Nat)).toNat + 1 := by
      unfold infinity binadeSize at *
      omega
    have bits : UnpackedFloat.pack .binary64 (.finite (signOf negative) m e pos) =
        UnpackedFloat.pack .binary64 (.infinity (signOf negative)) := if_pos large
    have same : Float.Model.pack (.finite (signOf negative) m e pos) =
        Float.Model.pack (.infinity (signOf negative)) := by
      unfold Float.Model.pack
      simp only [bits]
    have top : pieces negative infinity = .infinity (signOf negative) := if_pos rfl
    rw [min_eq_left overflow, same, ← top, ofModel_pack_pieces negative le_rfl]

/-! ## Rounding -/

theorem targetExponent_totalExponent (m : Nat) (e : Int) :
    Format.binary64.targetExponent (totalExponent m e) = max (m.log2 + e - 52) (-1074) := by
  have least : Format.binary64.minExponent = -1074 := rfl
  have bits : (Format.binary64.mantissaBits : Int) = 53 := rfl
  unfold Format.targetExponent totalExponent
  rw [least, bits]
  omega

/-- The logarithm of a quotient scaled up or down by a power of two. -/
theorem log2_scaled (num den i j : Nat) (whole : i = 0 ∨ num / den ≠ 0) :
    (num * 2 ^ i / (den * 2 ^ j)).log2 = (num / den).log2 + i - j := by
  have up : (num * 2 ^ i / den).log2 = (num / den).log2 + i := by
    have cancel : num * 2 ^ i / den / 2 ^ i = num / den := by
      rw [Nat.div_div_eq_div_mul, Nat.mul_div_mul_right _ _ (Nat.two_pow_pos i)]
    have log := Nat.log_div_base_pow 2 (num * 2 ^ i / den) i
    rw [cancel] at log
    rw [Nat.log2_eq_log_two, Nat.log2_eq_log_two]
    rcases whole with rfl | whole
    · simp at log ⊢
    · have reach : 2 ^ i ≤ num * 2 ^ i / den := by
        by_contra below
        rw [Nat.div_eq_of_lt (not_le.mp below)] at cancel
        exact whole cancel.symm
      have := Nat.le_log_of_pow_le (by omega) reach
      omega
  rw [← Nat.div_div_eq_div_mul, Nat.log2_eq_log_two, Nat.log_div_base_pow, ← Nat.log2_eq_log_two, up]

/-- Rounding does not depend on how a quotient is written. -/
theorem roundDiv_mul_mul (tie : Tie) (num den : Nat) {c : Nat} (pos : 0 < c) :
    roundDiv tie (num * c) (den * c) = roundDiv tie num den := by
  unfold roundDiv
  rw [Nat.mul_div_mul_right _ _ pos, Nat.mul_mod_mul_right, ← mul_assoc]
  simp only [Nat.mul_lt_mul_right pos]

/-- **A rounded quotient as a mantissa** fits a binade, or is the first one of the next. -/
theorem roundDiv_scale_bounds (num den : Nat) :
    roundDiv .even num (den * 2 ^ scale (num / den)) ≤ 2 * binadeSize ∧
      (scale (num / den) = 0 ∨
        binadeSize ≤ roundDiv .even num (den * 2 ^ scale (num / den))) := by
  have size : binadeSize = 2 ^ 52 := by decide
  have log : (num / den / 2 ^ scale (num / den)).log2 = (num / den).log2 - scale (num / den) := by
    rw [Nat.log2_eq_log_two, Nat.log_div_base_pow, ← Nat.log2_eq_log_two]
  have whole := roundDiv_eq_or .even num (den * 2 ^ scale (num / den))
  rw [← Nat.div_div_eq_div_mul] at whole
  generalize num / den / 2 ^ scale (num / den) = q at *
  unfold scale at *
  have high : q < 2 * binadeSize := by
    rcases Nat.eq_zero_or_pos q with rfl | pos
    · decide
    · rw [size, ← pow_succ', ← Nat.log2_lt pos.ne']
      omega
  have low : (num / den).log2 - 52 = 0 ∨ binadeSize ≤ q := by
    rw [or_iff_not_imp_left]
    intro shifted
    have pos : q ≠ 0 := by
      rintro rfl
      simp at log
      omega
    rw [size, ← Nat.le_log2 pos]
    omega
  exact ⟨by omega, by omega⟩

/-- A mantissa that fits stays where it is. -/
theorem shiftToTargetExponent_of_fits {r : Nat} (s : Nat) (fits : r < 2 * binadeSize) :
    shiftToTargetExponent .binary64 r (s - 1074) .exact =
      (⟨r, false, false⟩, (s : Int) - 1074) := by
  have size : binadeSize = 2 ^ 52 := by decide
  have target := targetExponent_totalExponent r (s - 1074)
  have amount : (Format.binary64.targetExponent (totalExponent r (s - 1074)) -
      (s - 1074)).toNat = 0 := by
    rcases Nat.eq_zero_or_pos r with rfl | pos
    · rw [target]
      simp
    · have := (Nat.log2_lt pos.ne').mpr (show r < 2 ^ 53 by rwa [pow_succ', ← size])
      omega
  show shiftToExponent r (s - 1074) .exact _ = _
  unfold shiftToExponent
  simp only [amount, Nat.cast_zero, add_zero]
  rfl

/-- A mantissa that has become too long is shifted by one place. -/
theorem shiftToTargetExponent_of_carry (s : Nat) :
    shiftToTargetExponent .binary64 (2 * binadeSize) (s - 1074) .exact =
      (⟨binadeSize, false, false⟩, (s : Int) - 1074 + 1) := by
  have target := targetExponent_totalExponent (2 * binadeSize) (s - 1074)
  have log : (2 * binadeSize).log2 = 53 := by
    rw [show 2 * binadeSize = 2 ^ 53 by decide, Nat.log2_two_pow]
  have amount : (Format.binary64.targetExponent (totalExponent (2 * binadeSize) (s - 1074)) -
      (s - 1074)).toNat = 1 := by
    omega
  show shiftToExponent (2 * binadeSize) (s - 1074) .exact _ = _
  unfold shiftToExponent
  simp only [amount, Nat.cast_one]
  rfl

/-- **The carry of a rounded mantissa**: one that has become too long by rounding is a power of two,
and is shifted once more. -/
theorem ofModel_pack_carried (negative : Bool) {r s : Nat} (high : r ≤ 2 * binadeSize)
    (low : s = 0 ∨ binadeSize ≤ r) :
    let shifted := shiftToTargetExponent .binary64 r (s - 1074) .exact
    Float.ofModel (Float.Model.pack (if h : shifted.1.mantissa = 0 then .zero (signOf negative)
        else .finite (signOf negative) shifted.1.mantissa shifted.2 (Nat.pos_of_ne_zero h))) =
      ofPattern negative (min infinity (r + s * binadeSize)) := by
  rcases Nat.lt_or_eq_of_le high with fits | rfl
  · simp only [shiftToTargetExponent_of_fits s fits]
    by_cases zero : r = 0
    · have none : r + s * binadeSize = 0 := by
        unfold binadeSize at *
        omega
      rw [dif_pos zero, none]
      exact ofModel_pack_pieces negative (Nat.zero_le infinity)
    · rw [dif_neg zero]
      exact ofModel_pack_finite negative _ fits low rfl
  · simp only [shiftToTargetExponent_of_carry s]
    have next : 2 * binadeSize + s * binadeSize = binadeSize + (s + 1) * binadeSize := by
      ring
    have pos : binadeSize ≠ 0 := by decide
    rw [dif_neg pos, next]
    exact ofModel_pack_finite negative _ (by decide) (.inr le_rfl) (by push_cast; ring)

section Fine

variable {e : Int} (fine : e ≤ -1074 ∨ binadeSize ≤ num / den)

include fine

/-- If a whole part holds all places that are kept, or its exponent is below that of the unit, the
places that are dropped are known from it. -/
theorem scale_of_fine :
    scale (num * 2 ^ (e + 1074).toNat / (den * 2 ^ (-1074 - e).toNat)) =
      (num / den).log2 + (e + 1074).toNat - (-1074 - e).toNat - 52 := by
  unfold scale
  rw [log2_scaled num den _ _ ?_]
  unfold binadeSize at fine
  omega

theorem targetExponent_of_fine :
    Format.binary64.targetExponent (totalExponent (num / den) e) =
      scale (num * 2 ^ (e + 1074).toNat / (den * 2 ^ (-1074 - e).toNat)) - 1074 := by
  rw [targetExponent_totalExponent, scale_of_fine fine]
  omega

theorem le_scale_of_fine :
    e + 1074 ≤ scale (num * 2 ^ (e + 1074).toNat / (den * 2 ^ (-1074 - e).toNat)) := by
  have size : binadeSize = 2 ^ 52 := by decide
  have kept (h : binadeSize ≤ num / den) : 52 ≤ (num / den).log2 :=
    (Nat.le_log2 (by unfold binadeSize at h; omega)).mpr (size ▸ h)
  rw [scale_of_fine fine]
  omega

end Fine

/-- **Rounding is to the nearest number.** A quotient times a power of two, given by its whole part
and by what the rest amounts to, is packed to the number nearest to it. The whole part must hold
all places that are kept, unless the exponent is below that of the unit. -/
theorem ofModel_pack_roundWithAccuracy (negative : Bool) (num : Nat) {den : Nat} (pos : 0 < den)
    {e : Int} (fine : e ≤ -1074 ∨ binadeSize ≤ num / den) :
    Float.ofModel (Float.Model.pack (roundWithAccuracy .binary64 (signOf negative) (num / den) e
        (accuracyOfFraction (num % den) den))) =
      ofPattern negative
        (nearest (num * 2 ^ (e + 1074).toNat) (den * 2 ^ (-1074 - e).toNat)) := by
  have target := targetExponent_of_fine fine
  have places := le_scale_of_fine fine
  obtain ⟨high, low⟩ := roundDiv_scale_bounds (num * 2 ^ (e + 1074).toNat)
    (den * 2 ^ (-1074 - e).toNat)
  unfold nearest
  simp only [Nat.pow_eq]
  generalize scale (num * 2 ^ (e + 1074).toNat / (den * 2 ^ (-1074 - e).toNat)) = s at *
  generalize hk : ((s : Int) - 1074 - e).toNat = k
  have exponent : e + k = s - 1074 := by omega
  have rounded : ((ExtendedMantissa.ofMantissaAndAccuracy (num / den)
      (accuracyOfFraction (num % den) den)) >>> k).roundedMantissa =
      roundDiv .even (num * 2 ^ (e + 1074).toNat) (den * 2 ^ (-1074 - e).toNat * 2 ^ s) := by
    have scaled : den * 2 ^ (-1074 - e).toNat * 2 ^ s = den * 2 ^ k * 2 ^ (e + 1074).toNat := by
      rw [mul_assoc, mul_assoc, ← pow_add, ← pow_add]
      congr 2
      omega
    rw [((represents_ofFraction pos).shiftRight pos k).roundedMantissa, scaled,
      roundDiv_mul_mul _ _ _ (Nat.two_pow_pos _)]
  generalize roundDiv .even (num * 2 ^ (e + 1074).toNat)
    (den * 2 ^ (-1074 - e).toNat * 2 ^ s) = r at *
  have first : shiftToTargetExponent .binary64 (num / den) e
      (accuracyOfFraction (num % den) den) =
      (ExtendedMantissa.ofMantissaAndAccuracy (num / den)
        (accuracyOfFraction (num % den) den) >>> k, (s : Int) - 1074) := by
    unfold shiftToTargetExponent shiftToExponent
    simp only [target, hk, exponent]
  unfold roundWithAccuracy
  simp only [first, rounded]
  exact ofModel_pack_carried negative high low

/-- The nearest number does not depend on how a quotient is written. -/
theorem nearest_congr {num den num' den' : Nat} (pos : 0 < den) (pos' : 0 < den')
    (h : num * den' = num' * den) : nearest num den = nearest num' den' := by
  have whole : num / den = num' / den' := by
    rw [← Nat.mul_div_mul_right num den pos', h, mul_comm den den',
      Nat.mul_div_mul_right num' den' pos]
  unfold nearest
  simp only [whole, Nat.pow_eq]
  generalize scale (num' / den') = s
  have rounded : roundDiv .even num (den * 2 ^ s) = roundDiv .even num' (den' * 2 ^ s) := by
    rw [← roundDiv_mul_mul .even num _ pos', ← roundDiv_mul_mul .even num' _ pos, h]
    congr 1
    ring
  rw [rounded]

theorem nearest_zero {den : Nat} (pos : 0 < den) : nearest 0 den = 0 := by
  have zero : nearest (units 0) 1 = 0 := nearest_units (by decide)
  have same : 0 * 1 = units 0 * den := (Nat.zero_mul den).symm
  exact (nearest_congr pos one_pos same).trans zero

theorem units_zero : units 0 = 0 := rfl

theorem one_units_pos : 0 < one := by
  obtain ⟨k, -, hone⟩ := exists_one_eq
  rw [hone]
  exact Nat.two_pow_pos k

/-- A whole number times a power of two, without a rest. -/
theorem ofModel_pack_roundWithAccuracy_exact (negative : Bool) {m : Nat} {e : Int}
    (fine : e ≤ -1074 ∨ binadeSize ≤ m) :
    Float.ofModel (Float.Model.pack (roundWithAccuracy .binary64 (signOf negative) m e .exact)) =
      ofPattern negative (nearest (m * 2 ^ (e + 1074).toNat) (2 ^ (-1074 - e).toNat)) := by
  have rounded := ofModel_pack_roundWithAccuracy negative m one_pos (e := e)
    (by rwa [Nat.div_one])
  rwa [Nat.div_one, Nat.mod_one, one_mul] at rounded

/-- A mantissa with few places is filled up with zeros before it is rounded. -/
theorem ofModel_pack_round (negative : Bool) {m : Nat} (pos : 0 < m) (e : Int) :
    Float.ofModel (Float.Model.pack (round .binary64 (signOf negative) m e)) =
      ofPattern negative (nearest (m * 2 ^ (e + 1074).toNat) (2 ^ (-1074 - e).toNat)) := by
  have size : binadeSize = 2 ^ 52 := by decide
  have target := targetExponent_totalExponent m e
  show Float.ofModel (Float.Model.pack (roundWithAccuracy .binary64 (signOf negative)
    (m <<< (e - Format.binary64.targetExponent (totalExponent m e)).toNat)
    (e - (e - Format.binary64.targetExponent (totalExponent m e)).toNat) .exact)) = _
  generalize hk : (e - Format.binary64.targetExponent (totalExponent m e)).toNat = k
  rw [target] at hk
  have fine : e - k ≤ -1074 ∨ binadeSize ≤ m <<< k := by
    by_cases low : e - k ≤ -1074
    · exact .inl low
    · right
      rw [Nat.shiftLeft_eq, size]
      calc 2 ^ 52 ≤ 2 ^ (m.log2 + k) := Nat.pow_le_pow_right two_pos (by omega)
        _ = 2 ^ m.log2 * 2 ^ k := pow_add _ _ _
        _ ≤ m * 2 ^ k := Nat.mul_le_mul_right _ ((Nat.le_log2 pos.ne').mp le_rfl)
  rw [ofModel_pack_roundWithAccuracy_exact _ fine, Nat.shiftLeft_eq]
  refine congrArg (ofPattern negative)
    (nearest_congr (Nat.two_pow_pos _) (Nat.two_pow_pos _) ?_)
  have powers : k + (e - k + 1074).toNat + (-1074 - e).toNat =
      (e + 1074).toNat + (-1074 - (e - k)).toNat := by omega
  rw [mul_assoc, mul_assoc, mul_assoc, ← pow_add, ← pow_add, ← pow_add, ← powers, add_assoc]

/-- A whole number of any sign times a power of two. -/
theorem ofModel_pack_normalize (z : Int) {e : Int} (he : -1074 ≤ e) :
    Float.ofModel (Float.Model.pack (UnpackedFloat.normalize .binary64 z e .positive)) =
      ofPattern (decide (z < 0)) (nearest (z.natAbs * 2 ^ (e + 1074).toNat) 1) := by
  have whole : 2 ^ (-1074 - e).toNat = 1 := by
    rw [show (-1074 - e).toNat = 0 by omega, pow_zero]
  unfold UnpackedFloat.normalize
  rcases lt_trichotomy z 0 with below | rfl | above
  · have rounded := ofModel_pack_round true (m := (-z).toNat) (by omega) e
    rw [whole] at rounded
    rw [compare_lt_iff_lt.mpr below, decide_eq_true below, show z.natAbs = (-z).toNat by omega]
    exact rounded
  · have zero : nearest ((0 : Int).natAbs * 2 ^ (e + 1074).toNat) 1 = 0 := by
      rw [Int.natAbs_zero, Nat.zero_mul, nearest_zero one_pos]
    rw [zero]
    exact ofModel_pack_pieces false (Nat.zero_le infinity)
  · have rounded := ofModel_pack_round false (m := z.toNat) (by omega) e
    rw [whole] at rounded
    rw [compare_gt_iff_gt.mpr above, decide_eq_false above.not_gt,
      show z.natAbs = z.toNat by omega]
    exact rounded

/-! ## The operations -/

theorem exponentOf_eq (p : Nat) : exponentOf p = shiftOf p - 1074 := by
  unfold exponentOf shiftOf
  omega

section Operations

variable (s t : Bool) {p q : Nat}

theorem signOf_mul : signOf s * signOf t = signOf (s != t) := by
  cases s <;> cases t <;> rfl

theorem signOf_div : signOf s / signOf t = signOf (s != t) := by
  cases s <;> cases t <;> rfl

theorem pieces_zero : pieces s 0 = .zero (signOf s) := rfl

theorem pieces_finite (hp : p < infinity) (pos : 0 < p) :
    pieces s p = .finite (signOf s) (mantissaOf p) (exponentOf p) (mantissaOf_pos pos) := by
  unfold pieces
  rw [if_neg hp.ne, dif_pos pos]

/-- A product of mantissas holds all places that are kept, for one factor does, unless both have the
exponent of the unit. -/
theorem mul_fine (hp : 0 < p) (hq : 0 < q) :
    exponentOf p + exponentOf q ≤ -1074 ∨ binadeSize ≤ mantissaOf p * mantissaOf q := by
  rw [exponentOf_eq, exponentOf_eq]
  rcases Nat.eq_zero_or_pos (shiftOf p) with low | shifted
  · rcases Nat.eq_zero_or_pos (shiftOf q) with low' | shifted
    · left
      omega
    · exact .inr ((le_mantissaOf shifted).trans (Nat.le_mul_of_pos_left _ (mantissaOf_pos hp)))
  · exact .inr ((le_mantissaOf shifted).trans (Nat.le_mul_of_pos_right _ (mantissaOf_pos hq)))

/-- **A product is the number nearest to the exact one.** -/
theorem mul_ofPattern (hp : p < infinity) (hq : q < infinity) :
    ofPattern s p * ofPattern t q = ofPattern (s != t) (nearest (units p * units q) one) := by
  show Float.ofModel (Float.Model.pack (UnpackedFloat.mul .binary64 (unpacked (ofPattern s p))
    (unpacked (ofPattern t q)))) = _
  rw [unpacked_ofPattern s hp.le, unpacked_ofPattern t hq.le]
  have zero (n : Nat) (h : n = 0) : Float.ofModel (Float.Model.pack (.zero (signOf s * signOf t))) =
      ofPattern (s != t) (nearest n one) := by
    rw [h, nearest_zero one_units_pos, signOf_mul, ← pieces_zero, ofModel_pack_pieces _ (Nat.zero_le _)]
  rcases Nat.eq_zero_or_pos p with rfl | hp0
  · rw [pieces_zero]
    rcases Nat.eq_zero_or_pos q with rfl | hq0
    · exact zero _ rfl
    · rw [pieces_finite t hq hq0]
      exact zero _ (Nat.zero_mul _)
  · rw [pieces_finite s hp hp0]
    rcases Nat.eq_zero_or_pos q with rfl | hq0
    · exact zero _ rfl
    · rw [pieces_finite t hq hq0]
      show Float.ofModel (Float.Model.pack (roundWithAccuracy .binary64 (signOf s * signOf t)
        (mantissaOf p * mantissaOf q) (exponentOf p + exponentOf q) .exact)) = _
      rw [signOf_mul, ofModel_pack_roundWithAccuracy_exact _ (mul_fine hp0 hq0)]
      refine congrArg (ofPattern (s != t)) (nearest_congr (Nat.two_pow_pos _) one_units_pos ?_)
      obtain ⟨k, hk, hone⟩ := exists_one_eq
      have powers : (exponentOf p + exponentOf q + 1074).toNat + k =
          shiftOf p + shiftOf q + (-1074 - (exponentOf p + exponentOf q)).toNat := by
        rw [exponentOf_eq, exponentOf_eq]
        omega
      rw [units_eq, units_eq, hone, Nat.pow_eq, mul_assoc, ← pow_add, powers, pow_add, pow_add]
      ring

/-- Before a division the dividend is shifted until the whole part of the quotient holds all places
that are kept. -/
theorem divCore_fine {m m' : Nat} (pos : 0 < m) (pos' : 0 < m') (e e' : Int) {k : Nat} {d : Int}
    (hd : d = min (e - e')
      (Format.binary64.targetExponent (totalExponent m e - totalExponent m' e')))
    (hk : (e - e' - d).toNat = k) : d ≤ -1074 ∨ binadeSize ≤ m * 2 ^ k / m' := by
  have size : binadeSize = 2 ^ 52 := by decide
  have least : Format.binary64.minExponent = -1074 := rfl
  have bits : (Format.binary64.mantissaBits : Int) = 53 := rfl
  unfold Format.targetExponent totalExponent at hd
  rw [least, bits] at hd
  by_cases low : d ≤ -1074
  · exact .inl low
  · right
    have places : m'.log2 + 1 + 52 ≤ m.log2 + k := by omega
    rw [Nat.le_div_iff_mul_le pos', size]
    calc 2 ^ 52 * m' ≤ 2 ^ 52 * 2 ^ (m'.log2 + 1) :=
          Nat.mul_le_mul_left _ ((Nat.log2_lt pos'.ne').mp (Nat.lt_succ_self _)).le
      _ = 2 ^ (m'.log2 + 1 + 52) := by rw [← pow_add, add_comm]
      _ ≤ 2 ^ (m.log2 + k) := Nat.pow_le_pow_right two_pos places
      _ = 2 ^ m.log2 * 2 ^ k := pow_add _ _ _
      _ ≤ m * 2 ^ k := Nat.mul_le_mul_right _ ((Nat.le_log2 pos.ne').mp le_rfl)

/-- **A quotient is the number nearest to the exact one.** -/
theorem div_ofPattern (hp : p < infinity) (hq : q < infinity) (pos : 0 < q) :
    ofPattern s p / ofPattern t q = ofPattern (s != t) (nearest (units p * one) (units q)) := by
  show Float.ofModel (Float.Model.pack (UnpackedFloat.div .binary64 (unpacked (ofPattern s p))
    (unpacked (ofPattern t q)))) = _
  rw [unpacked_ofPattern s hp.le, unpacked_ofPattern t hq.le, pieces_finite t hq pos]
  rcases Nat.eq_zero_or_pos p with rfl | hp0
  · rw [units_zero, Nat.zero_mul, nearest_zero (units_pos pos)]
    show Float.ofModel (Float.Model.pack (.zero (signOf s / signOf t))) = _
    rw [signOf_div, ← pieces_zero, ofModel_pack_pieces _ (Nat.zero_le _)]
  · rw [pieces_finite s hp hp0]
    show Float.ofModel (Float.Model.pack (roundWithAccuracy .binary64 (signOf s / signOf t)
      (mantissaOf p <<< _ / mantissaOf q) _
      (accuracyOfFraction (mantissaOf p <<< _ % mantissaOf q) (mantissaOf q)))) = _
    generalize hd : min (exponentOf p - exponentOf q) (Format.binary64.targetExponent
      (totalExponent (mantissaOf p) (exponentOf p) -
        totalExponent (mantissaOf q) (exponentOf q))) = d
    generalize hk : (exponentOf p - exponentOf q - d).toNat = k
    have fine := divCore_fine (mantissaOf_pos hp0) (mantissaOf_pos pos) _ _ hd.symm hk
    rw [signOf_div, Nat.shiftLeft_eq,
      ofModel_pack_roundWithAccuracy _ _ (mantissaOf_pos pos) fine]
    have dpos : 0 < mantissaOf q * 2 ^ (-1074 - d).toNat :=
      Nat.mul_pos (mantissaOf_pos pos) (Nat.two_pow_pos _)
    refine congrArg (ofPattern (s != t)) (nearest_congr dpos (units_pos pos) ?_)
    obtain ⟨l, hl, hone⟩ := exists_one_eq
    have powers : k + (d + 1074).toNat + shiftOf q =
        shiftOf p + l + (-1074 - d).toNat := by
      rw [exponentOf_eq, exponentOf_eq] at hk hd
      omega
    rw [units_eq, units_eq, hone, Nat.pow_eq]
    calc mantissaOf p * 2 ^ k * 2 ^ (d + 1074).toNat * (mantissaOf q * 2 ^ shiftOf q)
        = mantissaOf p * mantissaOf q * 2 ^ (k + (d + 1074).toNat + shiftOf q) := by
          rw [pow_add, pow_add]
          ring
      _ = mantissaOf p * 2 ^ shiftOf p * 2 ^ l *
            (mantissaOf q * 2 ^ (-1074 - d).toNat) := by
          rw [powers, pow_add, pow_add]
          ring

theorem apply_signOf (n : Nat) : (signOf s).apply n = signed s n := by
  cases s <;> rfl

theorem signed_mul (m n : Nat) : signed s (m * n) = signed s m * n := by
  cases s <;> simp [signed]

theorem signed_zero : signed s 0 = 0 := by
  cases s <;> rfl

theorem natAbs_signed (n : Nat) : (signed s n).natAbs = n := by
  cases s <;> simp [signed]

theorem decide_signed_lt_zero {n : Nat} (pos : 0 < n) : decide (signed s n < 0) = s := by
  cases s <;> simp [signed, pos]

/-- A mantissa that has been shifted to a lower exponent, in units. -/
theorem signed_aligned {d : Int} (low : -1074 ≤ d) (hd : d ≤ exponentOf p) :
    signed s (mantissaOf p * 2 ^ (exponentOf p - d).toNat) * (2 ^ (d + 1074).toNat : Nat) =
      signed s (units p) := by
  have places : (exponentOf p - d).toNat + (d + 1074).toNat = shiftOf p := by
    rw [exponentOf_eq] at *
    omega
  rw [← signed_mul, mul_assoc, ← pow_add, places, units_eq]

/-- A finite number other than zero is nearest to its own units. -/
theorem ofPattern_eq_nearest (hp : p < infinity) (pos : 0 < p) :
    ofPattern s p =
      ofPattern (decide (signed s (units p) < 0)) (nearest (signed s (units p)).natAbs 1) := by
  rw [decide_signed_lt_zero s (units_pos pos), natAbs_signed, nearest_units hp]

/-- Scaling by a power of two keeps the sign. -/
theorem decide_mul_two_pow_lt_zero (z : Int) (k : Nat) :
    decide (z * (2 ^ k : Nat) < 0) = decide (z < 0) := by
  have scale : (0 : Int) < (2 ^ k : Nat) := by exact_mod_cast Nat.two_pow_pos k
  rw [decide_eq_decide, mul_neg_iff]
  simp only [scale, scale.not_gt, and_true, and_false, false_or]

/-- The sum of numbers other than zero. -/
theorem ofModel_pack_add_pieces (hp : p < infinity) (hq : q < infinity) (hp0 : 0 < p)
    (hq0 : 0 < q) :
    Float.ofModel (Float.Model.pack (UnpackedFloat.add .binary64 (pieces s p) (pieces t q))) =
      ofPattern (decide (signed s (units p) + signed t (units q) < 0))
        (nearest (signed s (units p) + signed t (units q)).natAbs 1) := by
  rw [pieces_finite s hp hp0, pieces_finite t hq hq0]
  show Float.ofModel (Float.Model.pack (UnpackedFloat.normalize .binary64
    ((signOf s).apply (mantissaOf p <<< _ : Nat) + (signOf t).apply (mantissaOf q <<< _ : Nat))
    _ .positive)) = _
  have low : -1074 ≤ min (exponentOf p) (exponentOf q) := by
    rw [exponentOf_eq, exponentOf_eq]
    omega
  rw [ofModel_pack_normalize _ low, apply_signOf, apply_signOf, Nat.shiftLeft_eq, Nat.shiftLeft_eq]
  generalize hd : min (exponentOf p) (exponentOf q) = d at *
  -- both mantissas stand on the lower of the two exponents, which is a number of units
  have scaled : (signed s (mantissaOf p * 2 ^ (exponentOf p - d).toNat) +
      signed t (mantissaOf q * 2 ^ (exponentOf q - d).toNat)) * (2 ^ (d + 1074).toNat : Nat) =
      signed s (units p) + signed t (units q) := by
    rw [add_mul, signed_aligned s low (by omega), signed_aligned t low (by omega)]
  rw [← scaled, Int.natAbs_mul, Int.natAbs_natCast, decide_mul_two_pow_lt_zero]

/-- **A sum is the number nearest to the exact one.** Of two zeros it is a zero, with a minus only if
both have one. -/
theorem add_ofPattern (hp : p < infinity) (hq : q < infinity) :
    ofPattern s p + ofPattern t q =
      ofPattern (if p = 0 ∧ q = 0 then s && t
          else decide (signed s (units p) + signed t (units q) < 0))
        (nearest (signed s (units p) + signed t (units q)).natAbs 1) := by
  show Float.ofModel (Float.Model.pack (UnpackedFloat.add .binary64 (unpacked (ofPattern s p))
    (unpacked (ofPattern t q)))) = _
  rw [unpacked_ofPattern s hp.le, unpacked_ofPattern t hq.le]
  rcases Nat.eq_zero_or_pos p with rfl | hp0
  · rw [units_zero, signed_zero, zero_add]
    rcases Nat.eq_zero_or_pos q with rfl | hq0
    · have same : UnpackedFloat.add .binary64 (pieces s 0) (pieces t 0) = pieces (s && t) 0 := by
        cases s <;> cases t <;> rfl
      rw [same, ofModel_pack_pieces _ (Nat.zero_le _), units_zero, signed_zero, if_pos ⟨rfl, rfl⟩,
        Int.natAbs_zero, nearest_zero one_pos]
    · have same : UnpackedFloat.add .binary64 (pieces s 0) (pieces t q) = pieces t q := by
        rw [pieces_finite t hq hq0]
        rfl
      rw [same, ofModel_pack_pieces t hq.le, if_neg fun h => hq0.ne' h.2]
      exact ofPattern_eq_nearest t hq hq0
  · rw [if_neg fun h => hp0.ne' h.1]
    rcases Nat.eq_zero_or_pos q with rfl | hq0
    · have same : UnpackedFloat.add .binary64 (pieces s p) (pieces t 0) = pieces s p := by
        rw [pieces_finite s hp hp0]
        rfl
      rw [same, ofModel_pack_pieces s hp.le, units_zero, signed_zero, add_zero]
      exact ofPattern_eq_nearest s hp hp0
    · exact ofModel_pack_add_pieces s t hp hq hp0 hq0

/-- A difference is a sum. -/
theorem sub_ofPattern (hp : p ≤ infinity) (hq : q ≤ infinity) :
    ofPattern s p - ofPattern t q = ofPattern s p + ofPattern (!t) q := by
  have same : UnpackedFloat.sub .binary64 (pieces s p) (pieces t q) =
      UnpackedFloat.add .binary64 (pieces s p) (pieces (!t) q) := by
    unfold pieces
    -- of two finite numbers with a minus on the right, the exact difference is rewritten
    split_ifs <;> cases s <;> cases t <;> first
      | rfl
      | exact congrArg (fun z => UnpackedFloat.normalize .binary64 z _ .positive)
          (sub_neg_eq_add _ _)
  show Float.ofModel (Float.Model.pack (UnpackedFloat.sub .binary64 (unpacked (ofPattern s p))
    (unpacked (ofPattern t q)))) = Float.ofModel (Float.Model.pack (UnpackedFloat.add .binary64
      (unpacked (ofPattern s p)) (unpacked (ofPattern (!t) q))))
  rw [unpacked_ofPattern s hp, unpacked_ofPattern t hq, unpacked_ofPattern (!t) hq, same]

end Operations

/-- A difference of finite numbers is a number, if perhaps an infinite one. -/
theorem isNaN_sub_of_isFinite {x y : Float} (hx : x.isFinite = true) (hy : y.isFinite = true) :
    (x - y).isNaN = false := by
  obtain ⟨s, p, hp, rfl⟩ := exists_ofPattern_of_isFinite hx
  obtain ⟨t, q, hq, rfl⟩ := exists_ofPattern_of_isFinite hy
  rw [sub_ofPattern s t hp.le hq.le, add_ofPattern s (!t) hp hq]
  exact isNaN_ofPattern _ (Nat.min_le_left _ _)

end Binary64

end Chalkboard
