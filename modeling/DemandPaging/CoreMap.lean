import Std.Data.ExtTreeSet
import DemandPaging.Config
import DemandPaging.Event
import DemandPaging.FrameTable
import DemandPaging.Memory
import DemandPaging.PageTable
import DemandPaging.Random.Xoshiro

/-!
# The core map

The tables of the kernel that change together: who has each frame, the entries
of resident pages, the contents of frames, the processes that have an address
space, the TLBs, the counters, and the generator that victims are chosen with.

* `CoreMap.register`, `CoreMap.unregister` — the processes with an address space.
* `CoreMap.randomBelow_lt` — a random choice lies below its bound.
* `CoreMap.inconsistency` — where the tables contradict each other, if they do.
-/

namespace DemandPaging

/-! ## Counters -/

/-- What the pager did so far. -/
structure Counters where
  /-- faults that needed a frame -/
  faults : Nat := 0
  /-- TLB misses handled -/
  tlbMisses : Nat := 0
  /-- frames taken from a page -/
  evictions : Nat := 0
  /-- pages written to swap -/
  swapWrites : Nat := 0
  /-- pages read back from swap -/
  swapReads : Nat := 0
  /-- pages filled from a program -/
  imageFills : Nat := 0
  /-- pages filled with zeros -/
  zeroFills : Nat := 0
  deriving DecidableEq, Repr, Inhabited

/-- The counters with their names, in the order of a report. -/
def Counters.fields (c : Counters) : List (String × Nat) :=
  [("faults", c.faults), ("tlb_misses", c.tlbMisses), ("evictions", c.evictions),
    ("swap_writes", c.swapWrites), ("swap_reads", c.swapReads), ("image_fills", c.imageFills),
    ("zero_fills", c.zeroFills)]

/-! ## The tables -/

/-- The tables of the kernel that change together. -/
structure CoreMap where
  frames : FrameTable
  table : PageTable := {}
  memory : Memory
  counters : Counters := {}
  /-- the number of pages of each address space -/
  spaces : PidMap Nat := {}
  tlbs : TlbBank := {}
  generator : Random.Xoshiro

namespace CoreMap

/-- The tables of a machine on which nothing happened yet. -/
def blank (config : MachineConfig) : CoreMap :=
  { frames := .blank config.frames
    memory := .blank config.frames
    generator := .ofSeed config.seed.toUInt64 }

/-- The number of pages of a process that has an address space. -/
def pageCount (c : CoreMap) (pid : Pid) : Option Nat := c.spaces[pid]?

/-- Gives a process an address space of some pages. -/
def register (c : CoreMap) (pid : Pid) (pages : Nat) : Except PagingError CoreMap :=
  match c.pageCount pid with
  | some _ => .error (.addressSpaceExists pid)
  | none => .ok { c with spaces := c.spaces.insert pid pages }

/-- Takes the address space of a process away, and answers whether it had one. -/
def unregister (c : CoreMap) (pid : Pid) : Bool × CoreMap :=
  ((c.pageCount pid).isSome, { c with spaces := c.spaces.erase pid })

/-- A random number below a bound; nothing is drawn if there is no choice. -/
def randomBelow (c : CoreMap) (bound : Nat) : Nat × CoreMap :=
  if bound ≤ 1 then (0, c)
  else
    let (n, g) := Random.below c.generator bound
    (n, { c with generator := g })

/-- A random frame. -/
def randomFrame (c : CoreMap) : FrameNumber × CoreMap :=
  let (n, c) := c.randomBelow c.frames.size
  (⟨n⟩, c)

/-- Removes a frame from every attached TLB, and answers the copies that were
valid. -/
def shootdown (c : CoreMap) (f : FrameNumber) : List Translation × CoreMap :=
  let (copies, tlbs) := c.tlbs.shootdown f
  (copies, { c with tlbs })

/-- The number of resident pages of a process. -/
def residentOf (c : CoreMap) (pid : Pid) : Nat := (PageMap.keysOf c.table pid).length

/-- Only the generator takes note of a random choice. -/
theorem randomBelow_snd (c : CoreMap) (bound : Nat) :
    ∃ g, (c.randomBelow bound).2 = { c with generator := g } := by
  unfold randomBelow
  split
  · exact ⟨_, rfl⟩
  · exact ⟨_, rfl⟩

/-- A random choice lies below its bound. -/
theorem randomBelow_lt (c : CoreMap) {bound : Nat} (h : 0 < bound) :
    (c.randomBelow bound).1 < bound := by
  unfold randomBelow
  split
  · exact h
  · exact Random.below_lt _ h

end CoreMap

/-! ## Contradictions -/

/-- How tables of the kernel contradict each other. -/
inductive Inconsistency where
  /-- a page without a frame has an entry -/
  | entryWithoutFrame (key : PageKey)
  /-- two pages have one frame -/
  | mappedTwice (frame : FrameNumber)
  /-- the frame table knows another owner -/
  | wrongOwner (frame : FrameNumber) (key : PageKey) (owner : Option FrameOwner)
  /-- the process of a resident page has no address space -/
  | withoutSpace (key : PageKey)
  /-- a page has a frame, but no entry -/
  | ownedButNotMapped (frame : FrameNumber) (key : PageKey)
  /-- a TLB holds a copy for a page that does not have the frame -/
  | staleCopy (tlb slot : Nat) (frame : FrameNumber) (page : PageNumber)
      (owner : Option FrameOwner)
  /-- two pages have one slot of the swap file -/
  | slotHeldTwice (slot : SwapSlot)
  /-- a slot lies past the end of the swap file -/
  | slotPastEnd (slot : SwapSlot) (key : PageKey)
  /-- a page of a process without an address space has a slot -/
  | slotAfterTeardown (slot : SwapSlot) (key : PageKey)
  deriving DecidableEq, Repr, Inhabited

/-- An owner in words. -/
def FrameOwner.render (o : FrameOwner) : String :=
  "FrameOwner \x7b key: PageKey \x7b pid: " ++ toString o.key.pid ++ ", vpn: " ++
    o.key.page.render ++ " \x7d, pinned: " ++ boolText o.pinned ++ " \x7d"

def ownerText (o : Option FrameOwner) : String := optionText (o.map (·.render))

/-- The contradiction in words. -/
def Inconsistency.message : Inconsistency → String
  | .entryWithoutFrame key => s!"{key.render} is in the page table without a frame"
  | .mappedTwice frame => s!"{frame.render} is mapped twice"
  | .wrongOwner frame key owner =>
    s!"{frame.render} maps {key.render} but the frame table says {ownerText owner}"
  | .withoutSpace key => s!"{key.render} belongs to no address space"
  | .ownedButNotMapped frame key => s!"{frame.render} is owned by {key.render} but not mapped"
  | .staleCopy tlb slot frame page owner =>
    "TLB #" ++ s!"{tlb} slot {slot} mirrors {frame.render} for {page.render} but the frame table says {ownerText owner}"
  | .slotHeldTwice slot => s!"{slot.render} is held twice"
  | .slotPastEnd slot key => s!"{slot.render} of {key.render} is past the end of swap"
  | .slotAfterTeardown slot key => s!"{key.render} holds {slot.render} after teardown"

namespace CoreMap

/-- What is wrong with an entry, the frames in `used` being those of the entries
before it. -/
def entryFault (c : CoreMap) (used : Std.ExtTreeSet Nat) (key : PageKey) (e : Translation) :
    Option Inconsistency :=
  match e.frame? with
  | none => some (.entryWithoutFrame key)
  | some f =>
    if f.val ∈ used then some (.mappedTwice f)
    else if (c.frames.owner f).map (·.key) ≠ some key then
      some (.wrongOwner f key (c.frames.owner f))
    else if key.pid ∉ c.spaces then some (.withoutSpace key)
    else none

/-- The numbers in `used` with the frame of an entry. -/
def withFrameOf (used : Std.ExtTreeSet Nat) (e : Translation) : Std.ExtTreeSet Nat :=
  match e.frame with
  | some f => used.insert f.val
  | none => used

/-- The first fault of some entries, and the frames of the entries if there is
none. -/
def entriesFault (c : CoreMap) : Std.ExtTreeSet Nat → List (PageKey × Translation) →
    Except Inconsistency (Std.ExtTreeSet Nat)
  | used, [] => .ok used
  | used, (key, e) :: rest =>
    match c.entryFault used key e with
    | some i => .error i
    | none => c.entriesFault (withFrameOf used e) rest

/-- What is wrong with a slot of a TLB. -/
def copyFault (c : CoreMap) (tlb slot : Nat) (copy : Translation) : Option Inconsistency :=
  match copy.frame? with
  | none => none
  | some f =>
    if (c.frames.owner f).map (·.key.page) = some copy.page then none
    else some (.staleCopy tlb slot f copy.page (c.frames.owner f))

/-- The first slot of an attached TLB with something wrong. -/
def copiesFault (c : CoreMap) : Option Inconsistency :=
  c.tlbs.liveAttached.zipIdx.findSome? fun (id, place) =>
    (c.tlbs.tlb id).slots.toList.zipIdx.findSome? fun (copy, slot) => c.copyFault place slot copy

/-- Where the tables contradict each other, if they do: the page table is looked
at first, then the frame table, then the TLBs. -/
def inconsistency (c : CoreMap) : Option Inconsistency :=
  match c.entriesFault ∅ c.table.toList with
  | .error i => some i
  | .ok used =>
    match c.frames.allocated.find? fun (f, _) => f.val ∉ used with
    | some (f, o) => some (.ownedButNotMapped f o.key)
    | none => c.copiesFault

end CoreMap

end DemandPaging
