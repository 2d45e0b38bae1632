import DemandPaging.Random.ChaCha
import DemandPaging.Random.Xoshiro
import Mathlib.Data.Fintype.Pi
import Mathlib.Data.FinEnum
import Mathlib.SetTheory.Cardinal.Finite

/-!
# Choices that are drawn again

A choice is drawn again until it is taken.  Nothing in that ends the search by itself, but a
generator has only so many states: once they are used up its words repeat themselves, and a choice
that was not taken by then never is.  So it makes no difference that the search is given up there.

* `Generator.Bounded` — the generators that have no more states than they say, `Xoshiro` and
  `ChaCha` among them.
* `Generator.word` — the words that are drawn one after the other.
* `FirstTaken.belowWithin` — the first choice that is taken is the answer, if it is tried as often.
* `below_of_taken` — it is tried often enough, however late that is.
-/

namespace DemandPaging.Random

/-! ## States -/

/-- A generator has no more states than it says. -/
class Generator.Bounded (G : Type) [Generator G] : Prop where
  finite : Finite G
  card_le : Nat.card G ≤ Generator.states G

namespace Generator

variable {G : Type} [Generator G]

/-- A generator has no more states than there are values that tell them apart. -/
theorem bounded_of_injective {β : Type} [Finite β] (f : G → β) (hf : Function.Injective f)
    (hcard : Nat.card β ≤ states G) : Bounded G where
  finite := Finite.of_injective f hf
  card_le := (Nat.card_le_card_of_injective f hf).trans hcard

instance : Bounded Xoshiro := by
  refine bounded_of_injective (fun g => (g.s0.toFin, g.s1.toFin, g.s2.toFin, g.s3.toFin))
    (fun g g' h => ?_) ?_
  · obtain ⟨s0, s1, s2, s3⟩ := g
    obtain ⟨t0, t1, t2, t3⟩ := g'
    simp only [Prod.mk.injEq, UInt64.toFin_inj] at h
    obtain ⟨rfl, rfl, rfl, rfl⟩ := h
    rfl
  · simp only [Nat.card_prod, Nat.card_fin]
    show _ ≤ 1 <<< 256
    decide

instance : Bounded ChaCha := by
  refine bounded_of_injective (fun g => (fun i : Fin 8 => g.key[i].toFin, g.counter.toFin,
    fun i : Fin 16 => g.block[i].toFin, g.used)) (fun g g' h => ?_) ?_
  · obtain ⟨key, counter, block, used⟩ := g
    obtain ⟨key', counter', block', used'⟩ := g'
    simp only [Prod.mk.injEq, UInt64.toFin_inj, funext_iff, UInt32.toFin_inj] at h
    obtain ⟨hkey, rfl, hblock, rfl⟩ := h
    obtain rfl : key = key' := Vector.ext fun i hi => hkey ⟨i, hi⟩
    obtain rfl : block = block' := Vector.ext fun i hi => hblock ⟨i, hi⟩
    rfl
  · simp only [Nat.card_prod, Nat.card_fun, Nat.card_fin]
    show _ ≤ 17 <<< 832
    decide

/-! ## Draws -/

/-- The generator after some draws. -/
def after (g : G) (k : Nat) : G := (fun g => (next g).2)^[k] g

/-- The word that is drawn after some others. -/
def word (g : G) (k : Nat) : UInt64 := (next (after g k)).1

theorem after_succ (g : G) (k : Nat) : after g (k + 1) = after (next g).2 k :=
  Function.iterate_succ_apply _ k g

theorem word_succ (g : G) (k : Nat) : word g (k + 1) = word (next g).2 k := by
  rw [word, word, after_succ]

/-- Two draws from one state are followed by the same words. -/
theorem word_add_of_after_eq {g : G} {i j : Nat} (h : after g i = after g j) (d : Nat) :
    word g (d + i) = word g (d + j) := by
  simp only [word, after, Function.iterate_add_apply] at h ⊢
  rw [h]

end Generator

/-! ## The first choice that is taken -/

variable {G : Type} [Generator G] {g : G} {n k : Nat}

/-- The draw of this number is the first whose choice is taken. -/
structure FirstTaken (g : G) (n k : Nat) : Prop where
  hit : taken n (Generator.word g k) = true
  missed : ∀ j < k, taken n (Generator.word g j) = false

/-- **The first choice that is taken is the answer**, if it is tried as often. -/
theorem FirstTaken.belowWithin {retries : Nat} (h : FirstTaken g n k) (hk : k ≤ retries) :
    belowWithin retries g n = (choice n (Generator.word g k), Generator.after g (k + 1)) := by
  induction retries generalizing g k with
  | zero =>
      obtain rfl := Nat.le_zero.1 hk
      rfl
  | succ retries ih =>
      unfold Random.belowWithin
      dsimp only
      cases k with
      | zero =>
          exact if_pos h.hit
      | succ k =>
          have hnot : ¬ Random.taken n (Generator.next g).1 = true := by
            rw [Bool.not_eq_true]
            exact h.missed 0 (Nat.succ_pos k)
          have hrest : FirstTaken (Generator.next g).2 n k :=
            ⟨Generator.word_succ g k ▸ h.hit, fun j hj =>
              Generator.word_succ g j ▸ h.missed (j + 1) (Nat.succ_lt_succ hj)⟩
          rw [if_neg hnot, ih hrest (Nat.le_of_succ_le_succ hk), Generator.word_succ,
            Generator.after_succ g (k + 1)]

/-- Until a choice is taken the generator is never in the same state twice: else the words since
then would come again, and none of them was taken. -/
theorem FirstTaken.injective (h : FirstTaken g n k) :
    Function.Injective fun i : Fin (k + 1) => Generator.after g i := by
  have hne : ∀ {i j : Nat}, i < j → j ≤ k → Generator.after g i ≠ Generator.after g j := by
    intro i j hij hj heq
    have hword := Generator.word_add_of_after_eq heq (k - j)
    rw [Nat.sub_add_cancel hj] at hword
    have hnot := h.missed (k - j + i) (by omega)
    rw [hword, h.hit] at hnot
    cases hnot
  intro i j heq
  rcases Nat.lt_trichotomy i.val j.val with hlt | heq' | hlt
  · exact absurd heq (hne hlt (Nat.le_of_lt_succ j.isLt))
  · exact Fin.ext heq'
  · exact absurd heq.symm (hne hlt (Nat.le_of_lt_succ i.isLt))

/-- **A choice is taken before the states are used up**, or never. -/
theorem FirstTaken.lt_states [Generator.Bounded G] (h : FirstTaken g n k) : k < Generator.states G := by
  have hfinite : Finite G := Generator.Bounded.finite
  have hcard := Nat.card_le_card_of_injective _ h.injective
  rw [Nat.card_fin] at hcard
  exact hcard.trans Generator.Bounded.card_le

/-- If any choice is taken then one is the first. -/
theorem exists_firstTaken (h : ∃ k, taken n (Generator.word g k) = true) : ∃ k, FirstTaken g n k :=
  ⟨Nat.find h, Nat.find_spec h, fun _ hj => Bool.eq_false_iff.2 (Nat.find_min h hj)⟩

/-- **A number below another is chosen as if it were drawn without end**: if any choice is taken,
however late, the answer is the first that is, and it would be the same with more retries. -/
theorem below_of_taken [Generator.Bounded G]
    (htaken : ∃ k, taken n (Generator.word g k) = true) :
    ∃ k, FirstTaken g n k ∧
      below g n = (choice n (Generator.word g k), Generator.after g (k + 1)) ∧
      ∀ retries, Generator.states G ≤ retries → belowWithin retries g n = below g n := by
  obtain ⟨k, hk⟩ := exists_firstTaken htaken
  have hle : k ≤ Generator.states G := Nat.le_of_lt hk.lt_states
  refine ⟨k, hk, hk.belowWithin hle, fun retries hretries => ?_⟩
  rw [below, hk.belowWithin hle, hk.belowWithin (hle.trans hretries)]

end DemandPaging.Random
