/-!
# Decimal digits of all scripts

`isDecimalDigit` is the Unicode property `Nd` (version 16): 760 characters in runs of ten, one
run for each set of digits. A term of an equation may show any of them; only the ten of ASCII have a
value there.
-/

namespace Chalkboard

/-- First code point and length of each run of decimal digits, in ascending order. -/
def decimalDigitRuns : List (Nat × Nat) :=
  [(0x00030, 10), (0x00660, 10), (0x006F0, 10), (0x007C0, 10), (0x00966, 10), (0x009E6, 10),
   (0x00A66, 10), (0x00AE6, 10), (0x00B66, 10), (0x00BE6, 10), (0x00C66, 10), (0x00CE6, 10),
   (0x00D66, 10), (0x00DE6, 10), (0x00E50, 10), (0x00ED0, 10), (0x00F20, 10), (0x01040, 10),
   (0x01090, 10), (0x017E0, 10), (0x01810, 10), (0x01946, 10), (0x019D0, 10), (0x01A80, 10),
   (0x01A90, 10), (0x01B50, 10), (0x01BB0, 10), (0x01C40, 10), (0x01C50, 10), (0x0A620, 10),
   (0x0A8D0, 10), (0x0A900, 10), (0x0A9D0, 10), (0x0A9F0, 10), (0x0AA50, 10), (0x0ABF0, 10),
   (0x0FF10, 10), (0x104A0, 10), (0x10D30, 10), (0x10D40, 10), (0x11066, 10), (0x110F0, 10),
   (0x11136, 10), (0x111D0, 10), (0x112F0, 10), (0x11450, 10), (0x114D0, 10), (0x11650, 10),
   (0x116C0, 10), (0x116D0, 20), (0x11730, 10), (0x118E0, 10), (0x11950, 10), (0x11BF0, 10),
   (0x11C50, 10), (0x11D50, 10), (0x11DA0, 10), (0x11F50, 10), (0x16130, 10), (0x16A60, 10),
   (0x16AC0, 10), (0x16B50, 10), (0x16D70, 10), (0x1CCF0, 10), (0x1D7CE, 50), (0x1E140, 10),
   (0x1E2F0, 10), (0x1E4F0, 10), (0x1E5F1, 10), (0x1E950, 10), (0x1FBF0, 10)]

example : (decimalDigitRuns.flatMap fun run => List.range' run.1 run.2).length = 760 := by
  decide +kernel

/-- Whether a character is a decimal digit of some script. -/
def isDecimalDigit (c : Char) : Bool :=
  decimalDigitRuns.any fun run => run.1 ≤ c.toNat && c.toNat < run.1 + run.2

theorem isDecimalDigit_of_isDigit {c : Char} (h : c.isDigit) : isDecimalDigit c := by
  simp only [Char.isDigit, ge_iff_le, Bool.and_eq_true, decide_eq_true_eq] at h
  have bounds : 48 ≤ c.toNat ∧ c.toNat ≤ 57 :=
    ⟨UInt32.le_iff_toNat_le.1 h.1, UInt32.le_iff_toNat_le.1 h.2⟩
  refine List.any_eq_true.2 ⟨(0x30, 10), List.mem_cons_self, ?_⟩
  simp only [Bool.and_eq_true, decide_eq_true_eq]
  omega

end Chalkboard
