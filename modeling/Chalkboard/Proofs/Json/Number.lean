import Chalkboard.Proofs.Decimal.Reading
import Chalkboard.Proofs.Json.Writing

/-!
# Written numbers lose nothing

A finite number is written with the shortest digits that are nearest to no other number. So the
binary64 number nearest to a numeral is the number that it was written for, down to the sign of
zero; what is not finite is written as `null`.

The numeral is valued exactly here, with one rounding. The reader of settings rounds twice
(`Numeral.toFloat?`) and may miss the nearest number by a unit in the last place.

* `Numeral.nearest` — the number nearest to a numeral.
* `exists_ofFloat?` — a finite number is written, and its numeral is nearest to it.
-/

namespace Chalkboard

open Binary64

namespace Json

/-! ## What a numeral denotes -/

namespace Numeral

/-- The power of ten that an exponent denotes. -/
def exponentValue : Option (Bool × List Char) → Int
  | none => 0
  | some (negative, ds) => if negative then -(digitsValue ds : Int) else digitsValue ds

/-- The decimal that a numeral denotes, its sign apart. -/
def decimal (x : Numeral) : Decimal :=
  ⟨digitsValue (x.whole ++ x.fraction), exponentValue x.exponent - x.fraction.length⟩

/-- The binary64 number nearest to what a numeral denotes. -/
def nearest (x : Numeral) : Float :=
  x.decimal.toFloat x.negative

/-- Digits in their places are spelled as they are written. -/
theorem spelled_chars {x : Numeral} (whole : IsWhole x.whole) (fraction : AllDigits x.fraction)
    (exponent : ∀ e ∈ x.exponent, e.2 ≠ [] ∧ AllDigits e.2) : x.Spelled x.chars := by
  obtain ⟨negative, ws, fs, e⟩ := x
  have hfraction : FractionSpelled fs (if fs.isEmpty then [] else '.' :: fs) := by
    cases fs with
    | nil => exact .none
    | cons f fs => exact .point (List.cons_ne_nil f fs) fraction
  cases e with
  | none =>
    have spelled := Spelled.parts (x := ⟨negative, ws, fs, none⟩) whole hfraction .none
    simp only [List.append_nil] at spelled
    simpa only [chars, minus, List.append_assoc, List.append_nil] using spelled
  | some e =>
    obtain ⟨down, ds⟩ := e
    obtain ⟨ne, all⟩ := exponent _ rfl
    have hsign : down = true ∧ [if down then '-' else '+'] = ['-'] ∨ down = false ∧
        ([if down then '-' else '+'] = ['+'] ∨ [if down then '-' else '+'] = []) := by
      cases down <;> simp
    have spelled := Spelled.parts (x := ⟨negative, ws, fs, some (down, ds)⟩) whole hfraction
      (.some (.inl rfl) hsign ne all)
    simpa only [chars, minus, List.append_assoc, List.singleton_append] using spelled

/-- Digits in their places, without an exponent. -/
theorem spelled_chars_of_positional {x : Numeral} (whole : IsWhole x.whole)
    (fraction : AllDigits x.fraction) (none : x.exponent = none) : x.Spelled x.chars := by
  refine spelled_chars whole fraction fun e he => ?_
  rw [none] at he
  cases he

end Numeral

/-! ## Digits -/

/-- A positive number does not begin with a zero. -/
theorem exists_digits_of_pos : ∀ {n : Nat}, 0 < n → ∃ d ds, digits n = d :: ds ∧ d ≠ '0' := by
  intro n
  induction n using Nat.strong_induction_on with
  | _ n ih =>
    intro pos
    rcases Nat.lt_or_ge n 10 with small | large
    · have single : ∀ n < 10, 0 < n → n.digitChar ≠ '0' := by decide
      exact ⟨_, [], Nat.toDigits_of_lt_base small, single n small pos⟩
    · obtain ⟨d, ds, hd, ne⟩ := ih (n / 10) (by omega) (by omega)
      refine ⟨d, ds ++ [(n % 10).digitChar], ?_, ne⟩
      rw [digits, Nat.toDigits_of_base_le (by decide) large]
      exact congrArg (· ++ _) hd

/-- A beginning of the digits of a positive number has no superfluous zero. -/
theorem isWhole_of_prefix {n : Nat} {ds : List Char} (pos : 0 < n) (ne : ds ≠ [])
    (h : ds <+: digits n) : IsWhole ds := by
  obtain ⟨rest, hrest⟩ := h
  obtain ⟨d, tail, hd, notZero⟩ := exists_digits_of_pos pos
  have all := Decimal.allDigits_digits n
  rw [← hrest] at all hd
  cases ds with
  | nil => exact absurd rfl ne
  | cons d' ds =>
    cases hd
    exact .digits notZero fun c hc => all c (List.mem_append_left _ hc)

theorem isWhole_digits (n : Nat) : IsWhole (digits n) := by
  rcases Nat.eq_zero_or_pos n with rfl | pos
  · exact .zero
  · exact isWhole_of_prefix pos Nat.toDigits_ne_nil (List.prefix_refl _)

theorem IsWhole.allDigits {ds : List Char} (h : IsWhole ds) : AllDigits ds := by
  cases h with
  | zero => exact List.forall_mem_singleton.mpr rfl
  | digits _ all => exact all

theorem IsWhole.ne_nil {ds : List Char} (h : IsWhole ds) : ds ≠ [] := by
  cases h <;> exact List.cons_ne_nil _ _

theorem writable_ofNat (n : Nat) : (ofNat n).Writable :=
  .number (Numeral.spelled_chars_of_positional (isWhole_digits n) (List.forall_mem_nil _) rfl)

/-! ## Decimals -/

/-- One zero behind a decimal changes no interval that it lies in. -/
theorem inInterval_append_zero (u c : Nat) :
    Decimal.inInterval u (10 * c) (-1) = Decimal.inInterval u c 0 := by
  have den : 4 * (10 * c) * Decimal.ratioDen (-1) = 10 * (4 * c * Decimal.ratioDen 0) := by
    have up : (-1 : Int).toNat = (0 : Int).toNat := rfl
    unfold Decimal.ratioDen
    rw [up]
    ring
  have num (x : Nat) : Decimal.ratioNum x (-1) = 10 * Decimal.ratioNum x 0 := by
    show x * 10 ^ 1 = 10 * (x * 10 ^ 0)
    ring
  have ten : 0 < 10 := by decide
  rw [Bool.eq_iff_iff, Decimal.inInterval_iff, Decimal.inInterval_iff, den, num, num]
  simp only [Nat.mul_le_mul_left_iff ten, Nat.mul_lt_mul_left ten]

/-- The digits of a positive decimal before its point. -/
theorem isWhole_of_leading {c : Nat} {ws : List Char} (pos : 0 < c) (ne : ws ≠ [])
    (h : ws = ['0'] ∨ ws <+: digits c) : IsWhole ws := by
  rcases h with rfl | h
  · exact .zero
  · exact isWhole_of_prefix pos ne h

/-- Digits behind a point: a zero, if there are none. -/
def behindPoint (fraction : List Char) : List Char :=
  if fraction.isEmpty then ['0'] else fraction

theorem behindPoint_ne_nil (fraction : List Char) : behindPoint fraction ≠ [] := by
  cases fraction with
  | nil => exact List.cons_ne_nil _ _
  | cons f fs => exact List.cons_ne_nil _ _

theorem allDigits_behindPoint {fraction : List Char} (h : AllDigits fraction) :
    AllDigits (behindPoint fraction) := by
  cases fraction with
  | nil => exact List.forall_mem_singleton.mpr rfl
  | cons f fs => exact h

/-- **A positive decimal in places**, with at least one digit behind the point, lies where the decimal
does. -/
theorem exists_places {c : Nat} (pos : 0 < c) (e : Int) :
    ∃ whole fraction, (Decimal.mk c e).places = (whole, fraction) ∧ IsWhole whole ∧
      AllDigits fraction ∧
      ∀ u, Decimal.inInterval u (digitsValue (whole ++ behindPoint fraction))
        (-(behindPoint fraction).length) = Decimal.inInterval u c e := by
  rcases le_or_gt 0 e with nonneg | neg
  · -- the digits, zeros up to the point, and one behind it
    refine ⟨_, _, Decimal.places_of_nonneg nonneg, ?_, List.forall_mem_nil _, fun u => ?_⟩
    · obtain ⟨d, ds, hd, notZero⟩ := exists_digits_of_pos pos
      have all := (Decimal.allDigits_digits c).append (Decimal.allDigits_replicate_zero e.toNat)
      rw [hd] at all ⊢
      exact .digits notZero all
    · have value : digitsValue (digits c ++ List.replicate e.toNat '0' ++ ['0']) =
          10 * (10 ^ e.toNat * c) := by
        have one := Decimal.digitsValue_append_zeros (digits c ++ List.replicate e.toNat '0') 1
        rwa [List.replicate_one, pow_one, Decimal.digitsValue_append_zeros,
          Decimal.digitsValue_digits] at one
      show Decimal.inInterval u (digitsValue (digits c ++ List.replicate e.toNat '0' ++ ['0'])) (-1)
        = Decimal.inInterval u c e
      rw [value, inInterval_append_zero, Decimal.inInterval_of_nonneg nonneg]
  · obtain ⟨whole, fraction, places, ne, leading, length, -, hfraction, value⟩ :=
      Decimal.places_of_neg (c := c) neg
    have some : behindPoint fraction = fraction := by
      cases fraction with
      | nil =>
        rw [List.length_nil] at length
        omega
      | cons f fs => rfl
    refine ⟨whole, fraction, places, isWhole_of_leading pos ne leading, hfraction, fun u => ?_⟩
    rw [some, value, length, neg_neg]

/-- **The mantissa of a decimal in places**: one digit before the point, all others behind it. -/
theorem exists_mantissa_places (c : Nat) (e : Int) :
    ∃ whole fraction, (Decimal.mk c e).mantissa.places = (whole, fraction) ∧ whole ≠ [] ∧
      (whole = ['0'] ∨ whole <+: digits c) ∧
      (fraction.length : Int) = (digits c).length - 1 ∧ AllDigits fraction ∧
      digitsValue (whole ++ fraction) = c := by
  have one : (Decimal.mk c e).mantissa = ⟨c, 1 - ((digits c).length : Int)⟩ := rfl
  have hlength : 0 < (digits c).length := List.length_pos_iff.mpr Nat.toDigits_ne_nil
  rw [one]
  rcases Nat.lt_or_ge 1 (digits c).length with more | single
  · obtain ⟨whole, fraction, places, ne, leading, length, -, hfraction, value⟩ :=
      Decimal.places_of_neg (c := c) (e := 1 - ((digits c).length : Int)) (by omega)
    exact ⟨whole, fraction, places, ne, leading, by omega, hfraction, value⟩
  · have zero : (1 - ((digits c).length : Int)) = 0 := by omega
    rw [zero, Decimal.places_of_nonneg le_rfl, Int.toNat_zero, List.replicate_zero,
      List.append_nil]
    refine ⟨digits c, [], rfl, Nat.toDigits_ne_nil, .inr (List.prefix_refl _), ?_, ?_, ?_⟩
    · rw [List.length_nil]
      omega
    · exact List.forall_mem_nil _
    · rw [List.append_nil, Decimal.digitsValue_digits]

/-- An exponent is read from its sign and its digits. -/
theorem exponentValue_digits (z : Int) :
    Numeral.exponentValue (some (decide (z < 0), digits z.natAbs)) = z := by
  rw [Numeral.exponentValue, Decimal.digitsValue_digits]
  simp only [decide_eq_true_eq]
  split_ifs <;> omega

/-- **The numeral of a positive decimal** is spelled as it is written, and lies where the decimal
does. -/
theorem ofDecimal_spec (negative : Bool) {c : Nat} (pos : 0 < c) (e : Int) :
    ∃ x, Numeral.ofDecimal negative ⟨c, e⟩ = x ∧ x.Spelled x.chars ∧ x.negative = negative ∧
      ∀ u, Decimal.inInterval u x.decimal.coefficient x.decimal.exponent =
        Decimal.inInterval u c e := by
  unfold Numeral.ofDecimal
  simp only
  split_ifs
  · obtain ⟨whole, fraction, places, hwhole, hfraction, same⟩ := exists_places pos e
    refine ⟨⟨negative, whole, behindPoint fraction, none⟩, ?_,
      Numeral.spelled_chars_of_positional hwhole (allDigits_behindPoint hfraction) rfl, rfl,
      fun u => ?_⟩
    · rw [places]
      cases fraction <;> rfl
    · unfold Numeral.decimal
      simp only [Numeral.exponentValue, zero_sub]
      exact same u
  · -- the power of the first digit, and all others behind the point
    obtain ⟨whole, fraction, places, ne, leading, length, hfraction, value⟩ :=
      exists_mantissa_places c e
    have power : (Decimal.mk c e).leadingExponent = e + (digits c).length - 1 := rfl
    have shift : (Decimal.mk c e).leadingExponent - (fraction.length : Int) = e := by omega
    have written : ∀ x ∈ some (decide ((Decimal.mk c e).leadingExponent < 0),
        digits (Decimal.mk c e).leadingExponent.natAbs), x.2 ≠ [] ∧ AllDigits x.2 := by
      intro x hx
      cases hx
      exact ⟨Nat.toDigits_ne_nil, Decimal.allDigits_digits _⟩
    rw [places]
    refine ⟨_, rfl, Numeral.spelled_chars (isWhole_of_leading pos ne leading) hfraction written, rfl,
      fun u => ?_⟩
    unfold Numeral.decimal
    simp only [value, exponentValue_digits, shift]

/-! ## Numbers -/

/-- The shortest decimal of a positive number is positive and lies in its interval. -/
theorem exists_shortest (tie : Tie) {p : Nat} (pos : 0 < p) (hp : p < infinity) :
    ∃ c e, Decimal.shortest tie (units p) = ⟨c, e⟩ ∧ 0 < c ∧
      Decimal.inInterval (units p) c e = true := by
  obtain ⟨c, e, hsearch, inside⟩ := Decimal.exists_search tie (units_pos pos)
    ((Decimal.topExponent (units p) + 1074).toNat + 1) (Decimal.topExponent (units p))
  refine ⟨c, e, hsearch, ?_, inside⟩
  by_contra none
  have zero : c = 0 := by omega
  have pattern := Decimal.toPattern_of_inInterval pos hp inside
  rw [zero] at pattern
  exact pos.ne pattern

/-- **A finite number is written, and its numeral is nearest to it.** -/
theorem exists_ofFloat? {x : Float} (h : x.isFinite = true) :
    ∃ numeral, Numeral.ofFloat? x = some numeral ∧ numeral.Spelled numeral.chars ∧
      numeral.nearest = x := by
  obtain ⟨negative, p, hp, rfl⟩ := exists_ofPattern_of_isFinite h
  unfold Numeral.ofFloat?
  rw [valueOf_ofPattern negative hp.le, if_pos hp]
  rcases Nat.eq_zero_or_pos p with rfl | pos
  · refine ⟨⟨negative, ['0'], ['0'], none⟩, rfl,
      Numeral.spelled_chars_of_positional .zero ?_ rfl, rfl⟩
    simp [AllDigits]
  · have positive := units_pos pos
    obtain ⟨c, e, shortest, hc, inside⟩ := exists_shortest .even pos hp
    obtain ⟨numeral, hnumeral, spelled, sign, same⟩ := ofDecimal_spec negative hc e
    refine ⟨numeral, ?_, spelled, ?_⟩
    · split
      · next heq => cases heq
      · next heq => cases heq
      · next heq =>
        injection heq with _ zero
        omega
      · next heq =>
        injection heq with hnegative hunits
        rw [← hnegative, ← hunits, shortest, hnumeral]
    · have pattern := Decimal.toPattern_of_inInterval pos hp ((same (units p)).trans inside)
      rw [Numeral.nearest, Decimal.toFloat, pattern, sign]

/-- Only a finite number has a finite number of units. -/
theorem isFinite_of_valueOf {x : Float} {negative : Bool} {u : Nat}
    (h : valueOf x = .finite negative u) : x.isFinite = true := by
  unfold valueOf at h
  simp only at h
  split_ifs at h with finite
  rw [eq_ofPattern finite.le, isFinite_ofPattern _ finite.le]
  exact decide_eq_true finite

/-- What is not finite is not written. -/
theorem ofFloat?_eq_none {x : Float} (h : x.isFinite = false) : Numeral.ofFloat? x = none := by
  have notFinite {negative : Bool} {u : Nat} : valueOf x ≠ .finite negative u := by
    intro value
    rw [isFinite_of_valueOf value] at h
    exact nomatch h
  unfold Numeral.ofFloat?
  split
  · rfl
  · rfl
  · next value => exact absurd value notFinite
  · next value => exact absurd value notFinite

theorem writable_ofFloat (x : Float) : (ofFloat x).Writable := by
  unfold ofFloat
  cases h : x.isFinite with
  | true =>
    obtain ⟨numeral, written, spelled, -⟩ := exists_ofFloat? h
    rw [written]
    exact .number spelled
  | false =>
    rw [ofFloat?_eq_none h]
    exact .null

end Json

end Chalkboard
