import Chalkboard.Practice.WordSource

/-!
# The ChaCha keystream

A reproducible source of words: the ChaCha stream cipher with twelve rounds, whose key is expanded
from a seed of 64 bits by a small generator. Blocks are counted from zero, and each gives its
sixteen words in order.
-/

namespace Chalkboard

/-- The state of a block: sixteen words. -/
abbrev Block : Type :=
  Vector UInt32 16

/-- `x` rotated to the left; distances count modulo 32. -/
def rotateLeft (x : UInt32) (k : UInt32) : UInt32 :=
  (x <<< k) ||| (x >>> (32 - k))

namespace Block

/-- Mixes four words. -/
def quarterRound (s : Block) (a b c d : Fin 16) : Block :=
  let s := s.set a (s[a] + s[b])
  let s := s.set d (rotateLeft (s[d] ^^^ s[a]) 16)
  let s := s.set c (s[c] + s[d])
  let s := s.set b (rotateLeft (s[b] ^^^ s[c]) 12)
  let s := s.set a (s[a] + s[b])
  let s := s.set d (rotateLeft (s[d] ^^^ s[a]) 8)
  let s := s.set c (s[c] + s[d])
  s.set b (rotateLeft (s[b] ^^^ s[c]) 7)

/-- Mixes the columns and then the diagonals. -/
def doubleRound (s : Block) : Block :=
  let s := s.quarterRound 0 4 8 12
  let s := s.quarterRound 1 5 9 13
  let s := s.quarterRound 2 6 10 14
  let s := s.quarterRound 3 7 11 15
  let s := s.quarterRound 0 5 10 15
  let s := s.quarterRound 1 6 11 12
  let s := s.quarterRound 2 7 8 13
  s.quarterRound 3 4 9 14

/-- The words from which a block starts: four constants, the key, and the number of the block. -/
def start (key : Vector UInt32 8) (number : UInt64) : Block :=
  #v[0x61707865, 0x3320646e, 0x79622d32, 0x6b206574,
     key[0], key[1], key[2], key[3], key[4], key[5], key[6], key[7],
     number.toUInt32, (number >>> 32).toUInt32, 0, 0]

/-- A finished block: six double rounds, added to the words at the start. -/
def finish (s : Block) : Block :=
  Vector.zipWith (· + ·) (Nat.repeat doubleRound 6 s) s

end Block

/-- A position in a keystream. -/
structure Keystream where
  key : Vector UInt32 8
  nextBlock : UInt64
  /-- What is left of the current block. -/
  pending : List UInt32

namespace Keystream

/-- The next state of the generator that expands seeds. -/
def advance (state : UInt64) : UInt64 :=
  state * 6364136223846793005 + 11634580027462260723

/-- The word that a state of that generator stands for. -/
def wordOf (state : UInt64) : UInt32 :=
  let x : UInt32 := (((state >>> 18) ^^^ state) >>> 27).toUInt32
  let k : UInt32 := (state >>> 59).toUInt32
  rotateLeft x (32 - k)

/-- Words of the generator that expands seeds. -/
def expand : Nat → UInt64 → List UInt32
  | 0, _ => []
  | n + 1, state => wordOf (advance state) :: expand n (advance state)

theorem length_expand (n : Nat) (state : UInt64) : (expand n state).length = n := by
  induction n generalizing state with
  | zero => rfl
  | succ n ih => simp [expand, ih]

/-- The keystream of a seed. -/
def ofSeed (seed : UInt64) : Keystream :=
  ⟨⟨(expand 8 seed).toArray, by simp [length_expand]⟩, 0, []⟩

end Keystream

instance : WordSource Keystream where
  next k :=
    match k.pending with
    | w :: ws => (w, { k with pending := ws })
    | [] =>
      let block := (Block.start k.key k.nextBlock).finish
      (block[0], { k with nextBlock := k.nextBlock + 1, pending := block.toList.tail })

end Chalkboard
