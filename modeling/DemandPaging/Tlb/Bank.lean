import DemandPaging.Tlb

/-!
# The TLBs of all processors

Each processor has a TLB, known by its number.  A TLB is gone with its
processor.  The kernel keeps a list of the TLBs that were *attached*: those that
may hold copies of its entries, and from which a frame has to be removed before
it changes hands.

* `TlbBank.attach` — forgets the TLBs that are gone, and adds one unless it is
  listed already.
* `TlbBank.shootdown` — removes a frame from every attached TLB.
-/

namespace DemandPaging

/-- The number of a TLB. -/
abbrev TlbId := Nat

/-- All TLBs, by number, and the list of those attached. -/
structure TlbBank where
  tlbs : Array (Option Tlb) := #[]
  attached : List TlbId := []
  deriving DecidableEq, Repr, Inhabited

namespace TlbBank

/-- Is there still a TLB of this number? -/
def live (b : TlbBank) (id : TlbId) : Bool := b.tlbs[id]?.join.isSome

/-- The TLB of this number; one that is gone has no slots. -/
def tlb (b : TlbBank) (id : TlbId) : Tlb := b.tlbs[id]?.join.getD ⟨#[]⟩

/-- The bank with a live TLB replaced. -/
def setTlb (b : TlbBank) (id : TlbId) (t : Tlb) : TlbBank :=
  if b.live id then { b with tlbs := b.tlbs.setIfInBounds id (some t) } else b

/-- A new TLB, and its number. -/
def add (b : TlbBank) (slots : Nat) : TlbId × TlbBank :=
  (b.tlbs.size, { b with tlbs := b.tlbs.push (some (.blank slots)) })

/-- The bank after a TLB is gone. -/
def drop (b : TlbBank) (id : TlbId) : TlbBank :=
  { b with tlbs := b.tlbs.setIfInBounds id none }

/-- The attached TLBs that are still there, in the order they were attached. -/
def liveAttached (b : TlbBank) : List TlbId := b.attached.filter b.live

/-- Attaches a TLB.  Answers its place in the list if it was not in it. -/
def attach (b : TlbBank) (id : TlbId) : Option Nat × TlbBank :=
  let known := b.liveAttached
  if id ∈ known then (none, { b with attached := known })
  else (some known.length, { b with attached := known ++ [id] })

/-- Removes a frame from the TLBs listed, and answers the copies that were valid. -/
def shootdownIn (f : FrameNumber) : List TlbId → TlbBank → List Translation × TlbBank
  | [], b => ([], b)
  | id :: ids, b =>
    let (here, t) := (b.tlb id).shootdown f
    let (there, b) := shootdownIn f ids (b.setTlb id t)
    (here ++ there, b)

/-- Removes a frame from every attached TLB, and answers the copies that were valid. -/
def shootdown (b : TlbBank) (f : FrameNumber) : List Translation × TlbBank :=
  shootdownIn f b.liveAttached b

/-! ## Looking up what was set -/

theorem tlb_setTlb (b : TlbBank) (id j : TlbId) (t : Tlb) (h : b.live id = true) :
    (b.setTlb id t).tlb j = if id = j then t else b.tlb j := by
  have hlt : id < b.tlbs.size := by
    rcases Nat.lt_or_ge id b.tlbs.size with h' | h'
    · exact h'
    · simp [live, Array.getElem?_eq_none h'] at h
  simp only [setTlb, h, if_true, tlb, Array.getElem?_setIfInBounds]
  split <;> simp

theorem live_setTlb (b : TlbBank) (id j : TlbId) (t : Tlb) :
    (b.setTlb id t).live j = b.live j := by
  unfold setTlb
  split
  · rename_i h
    simp only [live, Array.getElem?_setIfInBounds] at *
    split
    · rename_i hij
      subst hij
      split
      · simpa using h.symm
      · rename_i hlt
        simp [Array.getElem?_eq_none (Nat.le_of_not_lt hlt)] at h
    · rfl
  · rfl

end TlbBank

end DemandPaging
