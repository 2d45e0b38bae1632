import DemandPaging.Entry

/-!
# Translation look-aside buffers

A TLB has a fixed number of slots, each with a copy of an entry of the page
table, valid or not.

* `Tlb.lookup` — the first slot with a valid copy for a page.
* `Tlb.slotsMapping` — the slots with a valid copy that maps a frame.
* `Tlb.slot_write`, `Tlb.slot_shootdown` — what each slot holds afterwards.
-/

namespace DemandPaging

/-- The slots of a TLB. -/
structure Tlb where
  slots : Array Translation
  deriving DecidableEq, Repr, Inhabited

namespace Tlb

/-- A TLB of `n` slots, none valid. -/
def blank (n : Nat) : Tlb := ⟨Array.replicate n {}⟩

/-- Can there be a TLB of `n` slots?  A slot takes four words. -/
def fits (n : Nat) : Bool := n * 32 < signedLimit

/-- The number of slots. -/
def size (t : Tlb) : Nat := t.slots.size

/-- What a slot holds; a slot that the TLB lacks would hold an empty entry. -/
def slot (t : Tlb) (i : Nat) : Translation := t.slots[i]?.getD {}

/-- The TLB with a slot overwritten. -/
def write (t : Tlb) (i : Nat) (e : Translation) : Tlb := ⟨t.slots.setIfInBounds i e⟩

/-- The TLB after an access through a slot. -/
def touch (t : Tlb) (i : Nat) (writing : Bool) : Tlb := t.write i ((t.slot i).touch writing)

/-- The TLB with a slot made invalid. -/
def invalidate (t : Tlb) (i : Nat) : Tlb := t.write i (t.slot i).invalidate

/-- The TLB with every slot made invalid that is not so already. -/
def invalidateAll (t : Tlb) : Tlb :=
  ⟨t.slots.map fun e => if e.flags.valid || e.frame.isSome then e.invalidate else e⟩

/-- The first slot with a valid copy for a page. -/
def lookup (t : Tlb) (p : PageNumber) : Option Nat :=
  t.slots.findIdx? fun e => e.valid && e.page == p

/-- The first slot that is not valid. -/
def freeSlot (t : Tlb) : Option Nat := t.slots.findIdx? fun e => !e.valid

/-- The slots with a valid copy that maps a frame. -/
def slotsMapping (t : Tlb) (f : FrameNumber) : List Nat :=
  (List.range t.size).filter fun i => (t.slot i).maps f

/-- Does a valid slot map the frame? -/
def mapsFrame (t : Tlb) (f : FrameNumber) : Bool := t.slots.any (·.maps f)

/-- Makes every slot that maps a frame invalid, and answers what they held. -/
def shootdown (t : Tlb) (f : FrameNumber) : List Translation × Tlb :=
  ((t.slotsMapping f).map t.slot,
    ⟨t.slots.map fun e => if e.maps f then e.invalidate else e⟩)

/-! ## What the slots hold afterwards -/

theorem maps_empty (f : FrameNumber) : ({} : Translation).maps f = false := rfl

@[simp] theorem size_write (t : Tlb) (i : Nat) (e : Translation) :
    (t.write i e).size = t.size := by
  simp [size, write]

@[simp] theorem size_invalidateAll (t : Tlb) : t.invalidateAll.size = t.size := by
  simp [size, invalidateAll]

@[simp] theorem size_shootdown (t : Tlb) (f : FrameNumber) :
    (t.shootdown f).2.size = t.size := by
  simp [size, shootdown]

theorem slot_write (t : Tlb) (i j : Nat) (e : Translation) :
    (t.write i e).slot j = if i = j ∧ i < t.size then e else t.slot j := by
  simp only [slot, write, size, Array.getElem?_setIfInBounds]
  split
  · rename_i h
    subst h
    split
    · rename_i h; simp [h]
    · rename_i h; simp [h]
  · rename_i h; simp [h]

theorem slot_invalidateAll (t : Tlb) (i : Nat) :
    t.invalidateAll.slot i = (t.slot i).invalidate := by
  simp only [slot, invalidateAll, Array.getElem?_map]
  cases t.slots[i]? with
  | none => rfl
  | some e =>
    simp only [Option.map_some, Option.getD_some]
    split
    · rfl
    · rename_i h
      exact (Translation.invalidate_eq_self (Bool.eq_false_iff.2 h)).symm

/-- A shootdown makes the slots that map the frame invalid, and leaves the others. -/
theorem slot_shootdown (t : Tlb) (f : FrameNumber) (i : Nat) :
    (t.shootdown f).2.slot i = if (t.slot i).maps f then (t.slot i).invalidate else t.slot i := by
  unfold slot shootdown
  by_cases h : i < t.slots.size
  · simp [h]
  · simp [Array.getElem?_eq_none (Nat.le_of_not_lt h), maps_empty]

end Tlb

end DemandPaging
