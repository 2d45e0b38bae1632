import DemandPaging.Paging

/-!
# TLBs and the page table in step

A slot of a TLB is a copy in which the hardware sets bits.  Whoever drops a copy
folds its bits back into the page table first.  When a process leaves a processor
the pages it had in the TLB are remembered, and those that are still resident
come back when the process does.

* `Paging.saveTlb`, `Paging.restoreTlb` — when a process leaves and comes back.
* `Paging.install` — one entry, in a free slot or in a random one.
-/

namespace DemandPaging

/-- The page that each slot held when a process left, if it was valid. -/
structure TlbSnapshot where
  pages : List (Option PageNumber) := []
  deriving DecidableEq, Repr, Inhabited

/-- No slot was valid. -/
def TlbSnapshot.isEmpty (t : TlbSnapshot) : Bool := t.pages.all (·.isNone)

namespace Paging

variable {F : Type}

/-- The page table with the bits of every valid slot folded into the entries of a
process. -/
def foldSlots (table : PageTable) (pid : Pid) (slots : List Translation) : PageTable :=
  slots.foldl
    (fun t e => if e.valid then (PageTable.foldCopy t ⟨pid, e.page⟩ e).2 else t) table

/-- Takes the TLB from a process that leaves: folds the bits of its slots back,
makes them invalid, and answers which pages they held. -/
def saveTlb (s : Paging F) (id : TlbId) (pid : Pid) : TlbSnapshot × Paging F :=
  let slots := (s.core.tlbs.tlb id).slots
  let pages := slots.toList.map fun e => if e.valid then some e.page else none
  let s := s.setTable (foldSlots s.core.table pid slots.toList)
  let s := s.setTlb id ⟨slots.map fun e => if e.valid then e.invalidate else e⟩
  (⟨pages⟩, s.note (.tlbSaved (pages.countP (·.isSome)) pid))

/-- Puts back, from slot `i` on, the pages of a process that are still resident.
Answers how many they were. -/
def restoreSlots (id : TlbId) (pid : Pid) :
    (i : Nat) → List (Option PageNumber) → Paging F → Nat × Paging F
  | _, [], s => (0, s)
  | i, none :: rest, s => restoreSlots id pid (i + 1) rest s
  | i, some p :: rest, s =>
    match s.core.table[(⟨pid, p⟩ : PageKey)]?.filter (·.valid) with
    | some e =>
      let s := s.setTlb id ((s.core.tlbs.tlb id).write i e)
      let (n, s) := restoreSlots id pid (i + 1) rest s
      (n + 1, s)
    | none => restoreSlots id pid (i + 1) rest (s.note (.pageLeft ⟨pid, p⟩))

/-- Gives the TLB to a process that comes back: each page of the snapshot that is
still resident goes into the slot it had, and all other slots are invalid. -/
def restoreTlb (s : Paging F) (id : TlbId) (pid : Pid) (snapshot : TlbSnapshot) :
    Nat × Paging F :=
  let t := (s.core.tlbs.tlb id).invalidateAll
  restoreSlots id pid 0 (snapshot.pages.take t.size) (s.setTlb id t)

/-- Puts an entry of a process into the first slot that is not valid, or else into
a random one whose bits are folded back first.  Answers the slot. -/
def install (s : Paging F) (id : TlbId) (pid : Pid) (e : Translation) :
    Except Halt Nat × Paging F :=
  let t := s.core.tlbs.tlb id
  let (i, core) :=
    match t.freeSlot with
    | some i => (i, s.core)
    | none => s.core.randomBelow t.size
  let s := { s with core }
  if t.size ≤ i then (.error .outOfBounds, s)
  else
    let s := s.setTable (foldSlots s.core.table pid [t.slot i])
    (.ok i, s.setTlb id (t.write i e))

end Paging

end DemandPaging
