import DemandPaging.Random.Generator
import DemandPaging.Random.Seed

/-!
# The generator xoshiro256++

Four words of state, mixed by shifts, rotations and exclusive or; the kernel
chooses victims and TLB slots with it.
-/

namespace DemandPaging.Random

/-- The state of the generator. -/
structure Xoshiro where
  s0 : UInt64
  s1 : UInt64
  s2 : UInt64
  s3 : UInt64
  deriving DecidableEq, Repr, Inhabited

namespace Xoshiro

/-- A word turned to the left by `n` places, `n` being between 1 and 63. -/
def rotateLeft (x n : UInt64) : UInt64 := (x <<< n) ||| (x >>> (64 - n))

/-- A long word from its low and its high half. -/
def joinWords (low high : UInt32) : UInt64 := low.toUInt64 ||| (high.toUInt64 <<< 32)

/-- The generator that a seed starts. -/
def ofSeed (seed : UInt64) : Xoshiro :=
  match seedWords seed with
  | [a, b, c, d, e, f, g, h] => ⟨joinWords a b, joinWords c d, joinWords e f, joinWords g h⟩
  | _ => default

/-- The next word and the state after it. -/
def step (g : Xoshiro) : UInt64 × Xoshiro :=
  let s2 := g.s2 ^^^ g.s0
  let s3 := g.s3 ^^^ g.s1
  (rotateLeft (g.s0 + g.s3) 23 + g.s0,
    { s0 := g.s0 ^^^ s3
      s1 := g.s1 ^^^ s2
      s2 := s2 ^^^ (g.s1 <<< 17)
      s3 := rotateLeft s3 45 })

/-- Four words of 64 bits have 2²⁵⁶ states. -/
instance : Generator Xoshiro := ⟨step, 1 <<< 256⟩

end Xoshiro

end DemandPaging.Random
