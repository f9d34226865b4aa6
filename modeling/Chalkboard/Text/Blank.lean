/-!
# Blank characters

`isBlank` is the Unicode property `White_Space`: 25 characters. Blanks have no meaning in an
equation, and around the name of a method.
-/

namespace Chalkboard

/-- First code point and length of each run of blank characters, in ascending order. -/
def blankRuns : List (Nat × Nat) :=
  [(0x0009, 5), (0x0020, 1), (0x0085, 1), (0x00A0, 1), (0x1680, 1), (0x2000, 11), (0x2028, 2),
   (0x202F, 1), (0x205F, 1), (0x3000, 1)]

example : (blankRuns.flatMap fun run => List.range' run.1 run.2).length = 25 := by decide

/-- Whether a character is blank. -/
def isBlank (c : Char) : Bool :=
  blankRuns.any fun run => run.1 ≤ c.toNat && c.toNat < run.1 + run.2

/-- The text without blanks at either end. -/
def trimBlanks (cs : List Char) : List Char :=
  (((cs.dropWhile isBlank).reverse).dropWhile isBlank).reverse

/-- The text without any blank. -/
def eraseBlanks (cs : List Char) : List Char :=
  cs.filter (!isBlank ·)

end Chalkboard
