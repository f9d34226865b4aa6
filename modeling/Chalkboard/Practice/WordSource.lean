/-!
# Sources of random words

A `WordSource` hands out words of 32 bits, one after another. `drawBelow` turns words into a number
below a bound: the word is scaled down to the bound, and where the part cut off could still matter a
second word decides the carry, so that no number is preferred by more than the second word can
tell. `Cycle` hands out given words in turn.
-/

namespace Chalkboard

/-- Something that hands out words. -/
class WordSource (σ : Type) where
  /-- A word, and what hands out the following ones. -/
  next : σ → UInt32 × σ

namespace WordSource

variable {σ : Type} [WordSource σ]

/-- Takes a word. -/
def take : StateM σ UInt32 :=
  fun s => next s

/-- A number below `span`, from one or two words. -/
def drawBelow (span : Nat) : StateM σ Nat := do
  let product := (← take).toNat * span
  let high := product / UInt32.size
  let low := product % UInt32.size
  if UInt32.size - span < low then
    let carry := (← take).toNat * span / UInt32.size
    return if UInt32.size ≤ low + carry then high + 1 else high
  else
    return high

/-- A whole number from `low` to `low + span - 1`. -/
def drawFrom (low : Int) (span : Nat) : StateM σ Int := do
  return low + (← drawBelow span)

end WordSource

/-- Given words in turn, from the beginning again when they are used up. -/
structure Cycle where
  words : List UInt32
  taken : Nat

instance : WordSource Cycle where
  next c := ((c.words[c.taken % c.words.length]?).getD 0, { c with taken := c.taken + 1 })

end Chalkboard
