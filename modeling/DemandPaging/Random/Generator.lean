/-!
# Generators and uniform choice

A generator yields words of 64 bits.  A number below a bound is chosen by
multiplying a word by the bound: the high half of the product is the choice, and
the low half tells whether it has to be drawn again so that all choices are
equally likely.  This is repeated until a word is taken.  As a generator has so many
states and no more, its words repeat themselves after as many draws, and then none
would ever be taken.

* `Random.choose` — what a word chooses, if it is taken.
* `Random.below` — the first choice that is taken.
* `Random.below_lt` — a choice lies below its bound.
-/

namespace DemandPaging.Random

/-- Yields words of 64 bits. -/
class Generator (G : Type) where
  next : G → UInt64 × G
  /-- a bound on the number of states -/
  states : Nat

variable {G : Type} [Generator G]

/-- The largest low half of a product with which a choice below `n` is taken. -/
def acceptance (n : Nat) : Nat := (n <<< (63 - n.log2)) - 1

/-- Is the choice below `n` that a word makes taken? -/
def taken (n : Nat) (word : UInt64) : Bool := word.toNat * n % UInt64.size ≤ acceptance n

/-- The choice below `n` that a word makes. -/
def choice (n : Nat) (word : UInt64) : Nat := word.toNat * n / UInt64.size

/-- A choice below `n`, drawn again at most `retries` times; the last draw is taken as it is. -/
def belowWithin : (retries : Nat) → G → (n : Nat) → Nat × G
  | 0, g, n =>
    let (word, g) := Generator.next g
    (choice n word, g)
  | retries + 1, g, n =>
    let (word, g) := Generator.next g
    if taken n word then (choice n word, g) else belowWithin retries g n

/-- A number below `n`, all equally likely: the choice is drawn again until it is taken.  It is
taken before the words repeat themselves, or never. -/
def below (g : G) (n : Nat) : Nat × G := belowWithin (Generator.states G) g n

theorem choice_lt (w : UInt64) {n : Nat} (hn : 0 < n) : choice n w < n := by
  apply Nat.div_lt_of_lt_mul
  exact (Nat.mul_lt_mul_right hn).2 w.toNat_lt

theorem belowWithin_lt (retries : Nat) (g : G) {n : Nat} (hn : 0 < n) :
    (belowWithin retries g n).1 < n := by
  induction retries generalizing g with
  | zero => exact choice_lt _ hn
  | succ k ih =>
    unfold belowWithin
    dsimp only
    split
    · exact choice_lt _ hn
    · exact ih _

/-- A choice lies below its bound. -/
theorem below_lt (g : G) {n : Nat} (hn : 0 < n) : (below g n).1 < n := belowWithin_lt _ g hn

end DemandPaging.Random
