import DemandPaging.CoreMap
import DemandPaging.History
import DemandPaging.Journal

/-!
# The paging state

What the paging layer works on: the core map, the swap store and the journal.
The operations here change the tables and note what they did; each answers its
result and the state it leaves, also when it fails.

* `Paging.claim`, `Paging.freeFrame` — frames.
* `Paging.attach`, `Paging.shootdown` — TLBs.
* `Paging.writeOut`, `Paging.readIn` — transfers of pages.
* `Paging.swapOut`, `Paging.swapIn` — transfers of frames.
* `Paging.removeResident` — all resident pages of a process.
-/

namespace DemandPaging

/-- The core map, the swap store and the journal. -/
structure Paging (F : Type) where
  core : CoreMap
  swap : SwapStore F
  journal : Journal := {}
  /-- what happened to pages; no operation reads it -/
  history : History := []

namespace Paging

variable {F : Type}

/-- Notes an event. -/
def note (s : Paging F) (e : Event) : Paging F := { s with journal := s.journal.note e }

/-- Records what happens to a page. -/
def record (s : Paging F) (e : PageEvent) : Paging F := { s with history := e :: s.history }

/-- The state with the counters changed. -/
def count (s : Paging F) (change : Counters → Counters) : Paging F :=
  { s with core := { s.core with counters := change s.core.counters } }

/-- The state with the page table changed. -/
def setTable (s : Paging F) (t : PageTable) : Paging F :=
  { s with core := { s.core with table := t } }

/-- The state with a TLB replaced. -/
def setTlb (s : Paging F) (id : TlbId) (t : Tlb) : Paging F :=
  { s with core := { s.core with tlbs := s.core.tlbs.setTlb id t } }

/-! ## TLBs -/

/-- Attaches a TLB, so that shootdowns reach it. -/
def attach (s : Paging F) (id : TlbId) : Paging F :=
  let (place, tlbs) := s.core.tlbs.attach id
  let s := { s with core := { s.core with tlbs } }
  match place with
  | some n => s.note (.tlbAttached n)
  | none => s

/-- Removes a frame from every attached TLB, and answers the copies that were
valid. -/
def shootdown (s : Paging F) (f : FrameNumber) : List Translation × Paging F :=
  let (copies, core) := s.core.shootdown f
  (copies, { s with core })

/-! ## Frames -/

/-- Gives the first free frame to a page, if a frame is free. -/
def claim (s : Paging F) (key : PageKey) (pinned : Bool) : Option FrameNumber × Paging F :=
  match s.core.frames.claim key pinned with
  | some (f, frames) =>
    (some f, { s with core := { s.core with frames } }.note (.frameClaimed f key))
  | none => (none, s)

/-- Takes back a frame that the machine has. -/
def release (s : Paging F) (f : FrameNumber) : Paging F :=
  let s' := { s with core := { s.core with frames := s.core.frames.release f } }
  match s.core.frames.owner f with
  | some _ => s'
  | none => s'.note (.freeFrameReleased f)

/-- Takes back a frame, and answers who had it. -/
def freeFrame (s : Paging F) (f : FrameNumber) : Except Halt (Option FrameOwner) × Paging F :=
  if f.val < s.core.frames.size then (.ok (s.core.frames.owner f), s.release f)
  else (.error .outOfBounds, s)

/-! ## Transfers -/

/-- Writes a page out. -/
def writeOut [BackingFile F] (s : Paging F) (key : PageKey) (page : Page) :
    Except PagingError SwapSlot × Paging F :=
  match s.swap.writeOut key page with
  | (.ok slot, swap) => (.ok slot, { s with swap }.note (.writtenOut key slot))
  | (.error t, swap) => (.error .shortTransfer, { s with swap }.note (.shortWrite key t))

/-- Reads the swapped copy of a page into a buffer, and answers whether there is
one. -/
def readIn [BackingFile F] (s : Paging F) (key : PageKey) (buffer : Page) :
    Except PagingError Bool × Page × Paging F :=
  match s.swap.readIn key buffer with
  | (.ok none, _, _) => (.ok false, buffer, s)
  | (.ok (some slot), page, swap) => (.ok true, page, { s with swap }.note (.readIn key slot))
  | (.error t, page, swap) =>
    (.error .shortTransfer, page, { s with swap }.note (.shortRead key t))

/-- Writes a frame out for a page. -/
def swapOut [BackingFile F] (s : Paging F) (key : PageKey) (f : FrameNumber) :
    Except PagingError SwapSlot × Paging F :=
  s.writeOut key (s.core.memory.frame f)

/-- Reads the swapped copy of a page into a frame, and answers whether there is
one. -/
def swapIn [BackingFile F] (s : Paging F) (key : PageKey) (f : FrameNumber) :
    Except PagingError Bool × Paging F :=
  let (r, page, s) := s.readIn key (s.core.memory.frame f)
  (r, { s with core := { s.core with memory := s.core.memory.setFrame f page } })

/-! ## The pages of a process -/

/-- Removes the entry of a page and takes its frame back. -/
def removePage (s : Paging F) (key : PageKey) : Except Halt Unit × Paging F :=
  match s.core.table[key]? with
  | none => (.ok (), s)
  | some e =>
    let s := s.setTable (s.core.table.erase key)
    match e.frame with
    | none => (.ok (), s)
    | some f =>
      match (s.shootdown f).2.freeFrame f with
      | (.ok _, s) => (.ok (), s)
      | (.error h, s) => (.error h, s)

/-- Removes the entries of some pages and takes their frames back. -/
def removePages : List PageKey → Paging F → Except Halt Unit × Paging F
  | [], s => (.ok (), s)
  | key :: keys, s =>
    match s.removePage key with
    | (.ok (), s) => removePages keys s
    | (.error h, s) => (.error h, s)

/-- Takes back a frame of a process for which there is no entry. -/
def dropOrphan (pid : Pid) (s : Paging F) (f : FrameNumber) : Paging F :=
  ((s.note (.frameWithoutTranslation f pid)).shootdown f).2.release f

/-- Removes all resident pages of a process, and takes back the frames it may
have besides.  Answers how many pages there were. -/
def removeResident (s : Paging F) (pid : Pid) : Except Halt Nat × Paging F :=
  let keys := PageMap.keysOf s.core.table pid
  match removePages keys s with
  | (.ok (), s) => (.ok keys.length, (s.core.frames.framesOf pid).foldl (dropOrphan pid) s)
  | (.error h, s) => (.error h, s)

/-- Notes the whole page table. -/
def dumpTable (s : Paging F) : Paging F :=
  let entries := s.core.table.toList.map fun (key, e) => Event.pageTableEntry key e
  { s with journal := s.journal.noteAll (.pageTableDump :: entries) }

/-- Notes all slots of a TLB. -/
def dumpTlb (s : Paging F) (t : Tlb) : Paging F :=
  let slots := t.slots.toList.zipIdx.map fun (e, i) => Event.tlbSlot i e
  { s with journal := s.journal.noteAll (.tlbDump :: slots) }

end Paging

end DemandPaging
