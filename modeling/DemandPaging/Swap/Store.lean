import DemandPaging.PageKey
import DemandPaging.Swap.File

/-!
# The swap store

Pages that lost their frames are kept in slots of one growing file, slot `n`
being the `n`-th page of the file.  Which page has which slot is known only to
the store.  A page keeps its slot until its process is gone, so that a page that
was not written since needs no second copy.

* `SwapStore.writeOut` — writes a page to its slot, or to a slot that is free.
* `SwapStore.readIn` — reads a page back, if it has a slot.
* `SwapStore.releaseAll` — takes back the slots of a process.

A transfer that moves fewer bytes than a page answers a `ShortTransfer`.
-/

namespace DemandPaging

/-- A place for a page in the swap file. -/
structure SwapSlot where
  index : Nat
  deriving DecidableEq, Repr, Inhabited

namespace SwapSlot

/-- Where in the file the slot starts. -/
def offset (s : SwapSlot) : Nat := s.index * pageSize

def render (s : SwapSlot) : String := s!"SwapSlot({s.index})"

end SwapSlot

/-- A transfer that did not move a whole page. -/
structure ShortTransfer where
  slot : SwapSlot
  /-- the bytes that were moved -/
  moved : Nat
  deriving DecidableEq, Repr, Inhabited

/-- The slots, the file they are in, and the transfers so far. -/
structure SwapStore (F : Type) where
  file : F
  slots : PageMap SwapSlot := {}
  /-- slots that no page has, the next to be used first -/
  free : List SwapSlot := []
  /-- the number of slots that the file has grown to -/
  capacity : Nat := 0
  writes : Nat := 0
  reads : Nat := 0

namespace SwapStore

variable {F : Type}

/-- The slot for a page that has none: a free one, or a new one at the end. -/
def allocate (s : SwapStore F) : SwapSlot × SwapStore F :=
  match s.free with
  | slot :: rest => (slot, { s with free := rest })
  | [] => (⟨s.capacity⟩, { s with capacity := s.capacity + 1 })

/-- Writes to a slot. -/
def transferOut [BackingFile F] (s : SwapStore F) (slot : SwapSlot) (page : Page) :
    Except ShortTransfer Unit × SwapStore F :=
  let (moved, file) := BackingFile.writeAt s.file slot.offset page.toArray
  if moved = pageSize then (.ok (), { s with file, writes := s.writes + 1 })
  else (.error ⟨slot, moved⟩, { s with file })

/-- Writes a page to its slot; one that has none gets a slot if the transfer
succeeds. -/
def writeOut [BackingFile F] (s : SwapStore F) (key : PageKey) (page : Page) :
    Except ShortTransfer SwapSlot × SwapStore F :=
  match s.slots[key]? with
  | some slot =>
    match s.transferOut slot page with
    | (.ok (), s) => (.ok slot, s)
    | (.error e, s) => (.error e, s)
  | none =>
    let (slot, s) := s.allocate
    match s.transferOut slot page with
    | (.ok (), s) => (.ok slot, { s with slots := s.slots.insert key slot })
    | (.error e, s) => (.error e, { s with free := slot :: s.free })

/-- Reads a page back into a buffer.  A page that has no slot was never written
out, and leaves the buffer alone; a page that has one keeps it. -/
def readIn [BackingFile F] (s : SwapStore F) (key : PageKey) (buffer : Page) :
    Except ShortTransfer (Option SwapSlot) × Page × SwapStore F :=
  match s.slots[key]? with
  | none => (.ok none, buffer, s)
  | some slot =>
    let (moved, buffer, file) := BackingFile.readAt s.file slot.offset buffer
    if moved = pageSize then (.ok (some slot), buffer, { s with file, reads := s.reads + 1 })
    else (.error ⟨slot, moved⟩, buffer, { s with file })

/-- Takes one slot back. -/
def release (s : SwapStore F) (key : PageKey) : SwapStore F :=
  match s.slots[key]? with
  | some slot => { s with slots := s.slots.erase key, free := slot :: s.free }
  | none => s

/-- Takes back the slots of a process, by page, and answers how many there were. -/
def releaseAll (s : SwapStore F) (pid : Pid) : Nat × SwapStore F :=
  let keys := PageMap.keysOf s.slots pid
  (keys.length, keys.foldl release s)

/-- The number of slots of a process. -/
def slotsOf (s : SwapStore F) (pid : Pid) : Nat := (PageMap.keysOf s.slots pid).length

/-- The store after its file is closed. -/
def close [BackingFile F] (s : SwapStore F) : SwapStore F :=
  { s with file := BackingFile.close s.file }

end SwapStore

end DemandPaging
