/-!
# Expanding a seed

A 64-bit seed becomes the eight 32-bit words that a generator starts from.  The
words are the output of a linear congruential generator whose state is folded
and rotated before it is shown.
-/

namespace DemandPaging.Random

/-- The next state of the congruential generator. -/
def seedStep (state : UInt64) : UInt64 := state * 6364136223846793005 + 11634580027462260723

/-- A word turned to the right by `n` places; shifts take their amount modulo 32. -/
def rotateRight (x : UInt32) (n : UInt32) : UInt32 := (x >>> n) ||| (x <<< (32 - n))

/-- What a state shows: its high bits folded onto its low ones, turned by its
five highest bits. -/
def seedWord (state : UInt64) : UInt32 :=
  let folded := (((state >>> 18) ^^^ state) >>> 27).toUInt32
  rotateRight folded (state >>> 59).toUInt32

/-- The words shown by the next `n` states. -/
def seedWordsFrom (state : UInt64) : Nat → List UInt32
  | 0 => []
  | n + 1 =>
    let state := seedStep state
    seedWord state :: seedWordsFrom state n

/-- The eight words that a seed expands to. -/
def seedWords (seed : UInt64) : List UInt32 := seedWordsFrom seed 8

end DemandPaging.Random
