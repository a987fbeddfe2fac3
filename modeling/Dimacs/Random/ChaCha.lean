/-
  The stream of pseudo-random words that belongs to a seed:
  ChaCha with twelve rounds and a 64-bit block counter. A
  block of sixteen words depends on key and counter only,
  so the word at a position can be computed on its own.

  Key definitions include:
    * `ChaCha.Key`
    * `ChaCha.Key.ofSeed`
    * `ChaCha.block`
    * `ChaCha.word`
    * `ChaCha.words`
-/

namespace Dimacs

namespace ChaCha

------------------------------------------------------------
-- Keys
------------------------------------------------------------

/- Eight words of key material. -/
structure Key where
  words : Vector UInt32 8

/- One step of the generator that expands a seed. -/
def expandStep
    (state : UInt64) : UInt64 :=
  state * 6364136223846793005 + 11634580027462260723

/- Rotate a word to the right. -/
def rotateRight
    (word amount : UInt32) : UInt32 :=
  (word >>> amount) ||| (word <<< ((32 - amount) % 32))

/- The word that the expansion puts out for a state. -/
def expandWord
    (state : UInt64) : UInt32 :=
  rotateRight (((state >>> 18) ^^^ state) >>> 27).toUInt32
    (state >>> 59).toUInt32

/- The state of the expansion after a number of steps. -/
def expandState
    (seed : UInt64) : Nat → UInt64
  | 0 => seed
  | steps + 1 => expandStep (expandState seed steps)

/- The key that belongs to a seed. -/
def Key.ofSeed
    (seed : UInt64) : Key where
  words :=
    Vector.ofFn fun index =>
      expandWord (expandState seed (index.val + 1))

------------------------------------------------------------
-- Blocks
------------------------------------------------------------

/- The sixteen words a block is computed in. -/
abbrev Block : Type :=
  Vector UInt32 16

/- Rotate a word to the left. -/
def rotateLeft
    (word amount : UInt32) : UInt32 :=
  (word <<< amount) ||| (word >>> (32 - amount))

/- Mix four words of a block. -/
def quarterRound
    (b : Block)
    (i j k l : Fin 16) : Block :=
  let a₀ := b[i]
  let b₀ := b[j]
  let c₀ := b[k]
  let d₀ := b[l]
  let a₁ := a₀ + b₀
  let d₁ := rotateLeft (d₀ ^^^ a₁) 16
  let c₁ := c₀ + d₁
  let b₁ := rotateLeft (b₀ ^^^ c₁) 12
  let a₂ := a₁ + b₁
  let d₂ := rotateLeft (d₁ ^^^ a₂) 8
  let c₂ := c₁ + d₂
  let b₂ := rotateLeft (b₁ ^^^ c₂) 7
  (((b.set i a₂).set j b₂).set k c₂).set l d₂

/-
  A round over the columns and a round over the diagonals.
-/
def doubleRound
    (b : Block) : Block :=
  let b := quarterRound b 0 4 8 12
  let b := quarterRound b 1 5 9 13
  let b := quarterRound b 2 6 10 14
  let b := quarterRound b 3 7 11 15
  let b := quarterRound b 0 5 10 15
  let b := quarterRound b 1 6 11 12
  let b := quarterRound b 2 7 8 13
  quarterRound b 3 4 9 14

/- A number of double rounds. -/
def doubleRounds : Nat → Block → Block
  | 0, b => b
  | rounds + 1, b => doubleRounds rounds (doubleRound b)

/-
  The words a block starts from: four constants, the key,
  the counter, and a stream number, which is zero.
-/
def start
    (key : Key)
    (counter : UInt64) : Block :=
  let w := key.words
  #v[0x61707865, 0x3320646e, 0x79622d32, 0x6b206574,
    w[0], w[1], w[2], w[3], w[4], w[5], w[6], w[7],
    counter.toUInt32, (counter >>> 32).toUInt32, 0, 0]

/-
  The block with a given counter: six double rounds, added
  to the start.
-/
def block
    (key : Key)
    (counter : UInt64) : Block :=
  let b := start key counter
  Vector.zipWith (· + ·) (doubleRounds 6 b) b

------------------------------------------------------------
-- The Stream
------------------------------------------------------------

/- The word at a position of the stream. -/
def word
    (key : Key)
    (position : Nat) : UInt32 :=
  let b := block key (position / 16).toUInt64
  b.get ⟨position % 16, Nat.mod_lt _ (by decide)⟩

/-
  At least the given number of words from the start
  of the stream.
-/
def words
    (key : Key)
    (count : Nat) : Array UInt32 :=
  (Array.range ((count + 15) / 16)).flatMap
    fun counter => (block key counter.toUInt64).toArray

/- The polarity of a word is its highest bit. -/
def isPositive
    (word : UInt32) : Bool :=
  decide (0x80000000 ≤ word)

end ChaCha

end Dimacs
