import DemandPaging.Random.Generator
import DemandPaging.Random.Seed

/-!
# A generator from the ChaCha stream cipher

The key stream of ChaCha with twelve rounds, read as a row of 32-bit words.  The
simulated workload is drawn from it.

* `ChaCha.nextWord` — the next 32-bit word.
* `Generator ChaCha` — a long word is two words, the low one first.
* `between?` — a number from a range, which may have none.
-/

namespace DemandPaging.Random

/-- Sixteen words. -/
abbrev Block := Vector UInt32 16

/-- The key, the number of the next block, the last block, and how many of its words
were used. -/
structure ChaCha where
  key : Vector UInt32 8
  counter : UInt64 := 0
  block : Block := .replicate 16 0
  used : Fin 17 := 16
  deriving DecidableEq, Repr, Inhabited

namespace ChaCha

def rotateLeft (x n : UInt32) : UInt32 := (x <<< n) ||| (x >>> (32 - n))

/-- Mixes four words of a block. -/
def quarterRound (b : Block) (i j k l : Fin 16) : Block :=
  let w0 := b[i] + b[j]
  let w3 := rotateLeft (b[l] ^^^ w0) 16
  let w2 := b[k] + w3
  let w1 := rotateLeft (b[j] ^^^ w2) 12
  let w0 := w0 + w1
  let w3 := rotateLeft (w3 ^^^ w0) 8
  let w2 := w2 + w3
  let w1 := rotateLeft (w1 ^^^ w2) 7
  (((b.set i w0).set j w1).set k w2).set l w3

/-- Mixes the four columns of a block, then its four diagonals. -/
def doubleRound (b : Block) : Block :=
  let b := quarterRound b 0 4 8 12
  let b := quarterRound b 1 5 9 13
  let b := quarterRound b 2 6 10 14
  let b := quarterRound b 3 7 11 15
  let b := quarterRound b 0 5 10 15
  let b := quarterRound b 1 6 11 12
  let b := quarterRound b 2 7 8 13
  quarterRound b 3 4 9 14

/-- A block after some double rounds. -/
def rounds : Nat → Block → Block
  | 0, b => b
  | n + 1, b => rounds n (doubleRound b)

/-- The block that the constants, the key and the counter make up. -/
def input (g : ChaCha) : Block :=
  let k := g.key
  #v[0x61707865, 0x3320646e, 0x79622d32, 0x6b206574, k[0], k[1], k[2], k[3], k[4], k[5], k[6],
    k[7], g.counter.toUInt32, (g.counter >>> 32).toUInt32, 0, 0]

/-- The next block of the key stream. -/
def keyStream (g : ChaCha) : Block :=
  let b := g.input
  Vector.zipWith (· + ·) (rounds 6 b) b

/-- The next word of the key stream. -/
def nextWord (g : ChaCha) : UInt32 × ChaCha :=
  if h : g.used.val < 16 then
    (g.block[g.used.val], { g with used := ⟨g.used.val + 1, by omega⟩ })
  else
    let block := g.keyStream
    (block[0], { g with counter := g.counter + 1, block, used := 1 })

/-- The generator that a seed starts. -/
def ofSeed (seed : UInt64) : ChaCha := { key := Vector.ofFn fun i => (seedWords seed).getD i 0 }

/-- A long word is two words, the low one first.  Key, counter and block have 832 bits, and there are
17 places in a block. -/
instance : Generator ChaCha where
  next g :=
    let (low, g) := g.nextWord
    let (high, g) := g.nextWord
    (low.toUInt64 ||| (high.toUInt64 <<< 32), g)
  states := 17 <<< 832

end ChaCha

/-! ## What a workload draws -/

/-- A number from `low` up to, and without, `stop`, if there is one. -/
def between? {G : Type} [Generator G] (g : G) (low stop : Nat) : Option (Nat × G) :=
  if low < stop then
    let (n, g) := below g (stop - low)
    some (low + n, g)
  else none

/-- The fall of a coin. -/
def coin {G : Type} [Generator G] (g : G) : Bool × G :=
  let (word, g) := Generator.next g
  (word.toNat < UInt64.size / 2, g)

/-- A byte: the low bits of a word. -/
def ChaCha.byte (g : ChaCha) : UInt8 × ChaCha :=
  let (word, g) := g.nextWord
  (word.toUInt8, g)

end DemandPaging.Random
