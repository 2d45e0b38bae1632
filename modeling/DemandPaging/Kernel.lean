import DemandPaging.Pager
import DemandPaging.PidAllocator
import DemandPaging.Processor
import DemandPaging.Tlb.Snapshot

/-!
# The kernel

The paging state of a machine with its settings, the ids of its processes, and
the names of the files beside the swap file.

* `Kernel.boot`, `Kernel.shutdown` — the life of the swap file.
* `Kernel.createSpace`, `Kernel.destroySpace` — address spaces.
* `Kernel.handleMiss` — resolves a TLB miss.
* `Kernel.accessPage` — lets the kernel itself at a page of a process.
* `Kernel.inconsistency` — where the tables contradict each other, if they do.
-/

namespace DemandPaging

/-- The paging state, the settings, the ids and the file names. -/
structure Kernel (F : Type) extends Paging F where
  config : MachineConfig
  pids : PidAllocator := {}
  /-- the names in the file system that holds the swap file -/
  files : List String := []

namespace Kernel

variable {F : Type}

/-- The kernel with another paging state. -/
def setPaging (k : Kernel F) (s : Paging F) : Kernel F := { k with toPaging := s }

/-- Notes an event. -/
def note (k : Kernel F) (e : Event) : Kernel F := k.setPaging (k.toPaging.note e)

/-- Brings the kernel up.  `opened` is the empty swap file, if it could be
created, and `files` are the names in its file system. -/
def boot (config : MachineConfig) (files : List String) (opened : Option F) :
    Except PagingError (Kernel F) × Journal :=
  match config.check, opened with
  | .error e, _ => (.error e, {})
  | .ok (), none => (.error .swapUnavailable, Journal.note {} (.swapFileRefused config.swapFile))
  | .ok (), some file =>
    let journal := Journal.note {} (.started config.frames config.tlbSlots config.swapFile)
    (.ok
      { core := .blank config
        swap := { file }
        journal
        config
        files := config.swapFile :: files.filter (· ≠ config.swapFile) }, journal)

/-- Closes the swap file and removes its name. -/
def shutdown [BackingFile F] (k : Kernel F) : Kernel F :=
  let name := k.config.swapFile
  let k' := { k with swap := k.swap.close, files := k.files.filter (· ≠ name) }
  let k' := if name ∈ k.files then k' else k'.note (.swapFileGone name)
  k'.note (.stopped k.swap.writes k.swap.reads)

/-! ## Address spaces -/

/-- Gives a process an address space of some pages. -/
def createSpace (k : Kernel F) (pid : Pid) (pages : Nat) :
    Except PagingError Unit × Kernel F :=
  match k.core.register pid pages with
  | .error e => (.error e, k)
  | .ok core => (.ok (), { k with core }.note (.spaceCreated pid pages))

/-- Takes the address space of a process away with all its pages, frames and swap
slots. -/
def destroySpace (k : Kernel F) (pid : Pid) : Except Failure Unit × Kernel F :=
  match k.core.unregister pid with
  | (false, _) => (.error (.error (.noAddressSpace pid)), k)
  | (true, core) =>
    match ({ k with core }).toPaging.removeResident pid with
    | (.error h, s) => (.error (.halt h), k.setPaging s)
    | (.ok frames, s) =>
      let (slots, swap) := s.swap.releaseAll pid
      (.ok (), (k.setPaging { s with swap }).note (.spaceDestroyed pid frames slots))

/-! ## Accesses -/

/-- Resolves a TLB miss of a process and puts the entry into the TLB.  Answers the
slot. -/
def handleMiss [BackingFile F] (k : Kernel F) (tlb : TlbId) (space : AddressSpace)
    (strategy : Strategy) (address : VirtAddr) : Except Failure Nat × Kernel F :=
  if maxUserAddr < address.val then (.error (.error (.invalidAddress address.val)), k)
  else
    let s := (k.toPaging.count fun c => { c with tlbMisses := c.tlbMisses + 1 }).attach tlb
    match s.translate strategy tlb k.config.victimRetries space address.page with
    | (.error e, s) => (.error (.error e), k.setPaging s)
    | (.ok e, s) =>
      match s.install tlb space.pid e with
      | (.error h, s) => (.error (.halt h), k.setPaging s)
      | (.ok slot, s) =>
        (.ok slot, (k.setPaging s).note (.translationInstalled address space.pid slot))

/-- Lets the kernel at a page of a process: makes it resident, notes the access in
its entry, and changes its contents.  Answers the contents afterwards, or nothing
if the page was to be written and is read-only. -/
def accessPage [BackingFile F] (k : Kernel F) (tlb : TlbId) (space : AddressSpace)
    (strategy : Strategy) (p : PageNumber) (writing : Bool) (change : Page → Page) :
    Except Failure (Option Page) × Kernel F :=
  let s := k.toPaging.attach tlb
  match s.translate strategy tlb k.config.victimRetries space p with
  | (.error e, s) => (.error (.error e), k.setPaging s)
  | (.ok e, s) =>
    if writing && e.flags.readOnly then (.ok none, k.setPaging s)
    else
      match e.frame with
      | none => (.error (.error (.invalidAddress p.base.val)), k.setPaging s)
      | some f =>
        match s.core.memory.frame? f with
        | none => (.error (.halt .outOfBounds), k.setPaging s)
        | some page =>
          let page := change page
          let core :=
            { s.core with
              table := PageTable.update s.core.table (space.key p) (·.touch writing)
              memory := s.core.memory.setFrame f page }
          (.ok (some page), k.setPaging ({ s with core }.record (.accessed (space.key p) writing)))

/-- An access of a user program, through the TLB of the processor. -/
def translate (k : Kernel F) (cpu : Processor) (address : VirtAddr) (writing : Bool) :
    Except ExceptionCause PhysAddr × Kernel F × Processor :=
  match cpu.translate (k.core.tlbs.tlb cpu.tlb) address writing with
  | (r, cpu, t) => (r, k.setPaging (k.setTlb cpu.tlb t), cpu)

/-- Takes the TLB of a processor from a process that leaves it. -/
def saveTlb (k : Kernel F) (tlb : TlbId) (pid : Pid) : TlbSnapshot × Kernel F :=
  let (snapshot, s) := k.toPaging.saveTlb tlb pid
  (snapshot, k.setPaging s)

/-- Gives the TLB of a processor to a process that comes back to it. -/
def restoreTlb (k : Kernel F) (tlb : TlbId) (pid : Pid) (snapshot : TlbSnapshot) :
    Nat × Kernel F :=
  let (restored, s) := (k.toPaging.attach tlb).restoreTlb tlb pid snapshot
  (restored, k.setPaging s)

/-- Makes every slot of a TLB invalid. -/
def invalidateTlb (k : Kernel F) (tlb : TlbId) : Kernel F :=
  k.setPaging (k.setTlb tlb (k.core.tlbs.tlb tlb).invalidateAll)

/-! ## Contradictions -/

/-- The first of some slots of the swap file that is not as it should be, `seen`
being the numbers of those before them. -/
def slotsFault (k : Kernel F) :
    Std.ExtTreeSet Nat → List (PageKey × SwapSlot) → Option Inconsistency
  | _, [] => none
  | seen, (key, slot) :: rest =>
    if slot.index ∈ seen then some (.slotHeldTwice slot)
    else if k.swap.capacity ≤ slot.index then some (.slotPastEnd slot key)
    else if key.pid ∉ k.core.spaces then some (.slotAfterTeardown slot key)
    else k.slotsFault (seen.insert slot.index) rest

/-- Where the tables contradict each other, if they do: those of the core map
first, then the slots of the swap file. -/
def inconsistency (k : Kernel F) : Option Inconsistency :=
  match k.core.inconsistency with
  | some i => some i
  | none => k.slotsFault ∅ k.swap.slots.toList

/-- Has the process an address space? -/
def hasSpace (k : Kernel F) (pid : Pid) : Bool := (k.core.pageCount pid).isSome

end Kernel

end DemandPaging
