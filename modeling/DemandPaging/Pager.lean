import DemandPaging.AddressSpace
import DemandPaging.Paging

/-!
# The pager

Makes pages resident.  A missing page gets a free frame, or one that is taken
from another page; it is filled from the page's slot of the swap file, from the
program, or with zeros.

* `Paging.resolve` — the entry of a page, which is made resident if it is not.
* `Paging.selectVictim`, `Paging.evict` — where a frame comes from when none is
  free.
* `Paging.preload` — all pages of a process at once, into frames that stay with
  them.

The operations take the TLB of the processor that faulted: a frame that it maps
is taken only if there is no other.
-/

namespace DemandPaging

namespace Paging

variable {F : Type}

/-! ## Looking pages up -/

/-- Refuses pages of processes without an address space, and pages outside it. -/
def checkRange (s : Paging F) (pid : Pid) (p : PageNumber) : Except PagingError Unit :=
  match s.core.pageCount pid with
  | none => .error (.noAddressSpace pid)
  | some count => if count ≤ p.val then .error (.invalidAddress p.base.val) else .ok ()

/-- The entry of a page that is resident. -/
def residentEntry (s : Paging F) (key : PageKey) : Option Translation :=
  s.core.table[key]?.filter (·.valid)

/-- The entry of a page that has to be resident already. -/
def lookupResident (s : Paging F) (space : AddressSpace) (p : PageNumber) :
    Except PagingError Translation :=
  match s.checkRange space.pid p with
  | .error e => .error e
  | .ok () =>
    match s.residentEntry (space.key p) with
    | some e => .ok e
    | none => .error (.invalidAddress p.base.val)

/-! ## Victims -/

/-- Samples random frames until one may be taken that the local TLB does not map.
Answers the last sample that may be taken, `best` being the last one so far. -/
def sampleVictim (mapped : FrameNumber → Bool) :
    (retries : Nat) → CoreMap → (best : Option FrameNumber) → Option FrameNumber × CoreMap
  | 0, c, best => (best, c)
  | retries + 1, c, best =>
    let (f, c) := c.randomFrame
    if !c.frames.evictable f then sampleVictim mapped retries c best
    else if mapped f then sampleVictim mapped retries c (some f)
    else (some f, c)

/-- The first frame that may be taken and that the local TLB does not map, or
else the first that may be taken. -/
def firstVictim (mapped : FrameNumber → Bool) (t : FrameTable) : Option FrameNumber :=
  (t.candidates.find? fun f => !mapped f).or t.candidates.head?

/-- A frame to take from the page that has it. -/
def selectVictim (s : Paging F) (tlb : TlbId) (retries : Nat) :
    Except PagingError FrameNumber × Paging F :=
  let mapped := (s.core.tlbs.tlb tlb).mapsFrame
  let (sampled, core) := sampleVictim mapped retries s.core none
  match sampled.or (firstVictim mapped core.frames) with
  | some f => (.ok f, { s with core })
  | none => (.error .outOfFrames, { s with core })

/-- Folds copies of an entry back into it. -/
def foldCopies (s : Paging F) (key : PageKey) (copies : List Translation) : Paging F :=
  s.setTable (copies.foldl (fun t copy => (PageTable.foldCopy t key copy).2) s.core.table)

/-- Writes a page out if it was written since it became resident, and answers
whether it was. -/
def writeBack [BackingFile F] (s : Paging F) (key : PageKey) (f : FrameNumber) :
    Except PagingError Bool × Paging F :=
  match s.core.table[key]?.map (·.needsWriteback) with
  | some true =>
    match (s.record (.victim key true)).swapOut key f with
    | (.ok _, s) => (.ok true, s.count fun c => { c with swapWrites := c.swapWrites + 1 })
    | (.error e, s) => (.error e, s)
  | _ => (.ok false, s.record (.victim key false))

/-- Takes a frame from the page that has it.  Every TLB loses it first, and if the
page cannot be written out, it keeps its frame. -/
def evict [BackingFile F] (s : Paging F) (f : FrameNumber) : Except PagingError Unit × Paging F :=
  match s.core.frames.owner f with
  | none => (.ok (), s)
  | some owner =>
    let key := owner.key
    let (copies, s) := s.shootdown f
    match (s.foldCopies key copies).writeBack key f with
    | (.error e, s) => (.error e, s)
    | (.ok dirty, s) =>
      let s := (s.setTable (s.core.table.erase key)).release f
      let s := s.count fun c => { c with evictions := c.evictions + 1 }
      (.ok (), s.note (.pageEvicted key f dirty))

/-- A frame for a page: a free one, or one taken from another page. -/
def claimFrame [BackingFile F] (s : Paging F) (tlb : TlbId) (retries : Nat) (key : PageKey)
    (pinned : Bool) : Except PagingError FrameNumber × Paging F :=
  match s.claim key pinned with
  | (some f, s) => (.ok f, s)
  | (none, s) =>
    match s.selectVictim tlb retries with
    | (.error e, s) => (.error e, s)
    | (.ok victim, s) =>
      match s.evict victim with
      | (.error e, s) => (.error e, s)
      | (.ok (), s) =>
        match s.claim key pinned with
        | (some f, s) => (.ok f, s)
        | (none, s) => (.error .outOfFrames, s)

/-! ## Filling frames -/

/-- Fills a frame with what a page starts with: the program's bytes where a
section covers it, and zeros elsewhere.  Answers the flags of its entry. -/
def fillFresh (s : Paging F) (space : AddressSpace) (p : PageNumber) (f : FrameNumber) :
    EntryFlags × Paging F :=
  match space.image.backing p with
  | some (page, readOnly) =>
    (.fresh readOnly,
      { s with core := { s.core with memory := s.core.memory.setFrame f page } }.count
        fun c => { c with imageFills := c.imageFills + 1 })
  | none =>
    (.fresh false,
      { s with core := { s.core with memory := s.core.memory.setFrame f zeroPage } }.count
        fun c => { c with zeroFills := c.zeroFills + 1 })

/-- Fills a frame with a page's copy in the swap file, or with what the page
starts with if it was never written out. -/
def fill [BackingFile F] (s : Paging F) (space : AddressSpace) (p : PageNumber)
    (f : FrameNumber) : Except PagingError EntryFlags × Paging F :=
  match s.swapIn (space.key p) f with
  | (.error e, s) => (.error e, s)
  | (.ok true, s) =>
    (.ok (.fresh false), s.count fun c => { c with swapReads := c.swapReads + 1 })
  | (.ok false, s) =>
    let (flags, s) := s.fillFresh space p f
    (.ok flags, s)

/-! ## Making pages resident -/

/-- Makes a page resident that is not. -/
def pageIn [BackingFile F] (s : Paging F) (tlb : TlbId) (retries : Nat) (space : AddressSpace)
    (p : PageNumber) : Except PagingError Translation × Paging F :=
  let key := space.key p
  let s := s.count fun c => { c with faults := c.faults + 1 }
  match s.claimFrame tlb retries key false with
  | (.error e, s) => (.error e, s)
  | (.ok f, s) =>
    match s.fill space p f with
    | (.error e, s) => (.error e, s.release f)
    | (.ok flags, s) =>
      let entry : Translation := { page := p, frame := some f, flags }
      let s := (s.setTable (s.core.table.insert key entry)).record (.resident key)
      (.ok entry, s.note (.pageResolved key f))

/-- The entry of a page, which is made resident if it is not. -/
def resolve [BackingFile F] (s : Paging F) (tlb : TlbId) (retries : Nat) (space : AddressSpace)
    (p : PageNumber) : Except PagingError Translation × Paging F :=
  match s.checkRange space.pid p with
  | .error e => (.error e, s)
  | .ok () =>
    match s.residentEntry (space.key p) with
    | some e => (.ok e, s)
    | none => s.pageIn tlb retries space p

/-- Makes one page resident in a frame that stays with it. -/
def preloadPage [BackingFile F] (s : Paging F) (tlb : TlbId) (retries : Nat)
    (space : AddressSpace) (p : PageNumber) : Except PagingError Unit × Paging F :=
  let key := space.key p
  match s.claimFrame tlb retries key true with
  | (.error e, s) => (.error e, s)
  | (.ok f, s) =>
    let (flags, s) := s.fillFresh space p f
    let s := s.setTable (s.core.table.insert key { page := p, frame := some f, flags })
    (.ok (), s.record (.resident key))

/-- Makes some pages resident in frames that stay with them. -/
def preloadPages [BackingFile F] (tlb : TlbId) (retries : Nat) (space : AddressSpace) :
    List PageNumber → Paging F → Except PagingError Unit × Paging F
  | [], s => (.ok (), s)
  | p :: ps, s =>
    match s.preloadPage tlb retries space p with
    | (.ok (), s) => preloadPages tlb retries space ps s
    | (.error e, s) => (.error e, s)

/-- Makes all pages of a process resident in frames that stay with them.  If that
fails for one page, none of them stays resident. -/
def preload [BackingFile F] (s : Paging F) (tlb : TlbId) (retries : Nat)
    (space : AddressSpace) : Except Failure Unit × Paging F :=
  match s.checkRange space.pid ⟨0⟩ with
  | .error e => (.error (.error e), s)
  | .ok () =>
    let pages := (List.range space.pageCount).map PageNumber.mk
    match preloadPages tlb retries space pages s with
    | (.ok (), s) => (.ok (), s)
    | (.error e, s) =>
      match s.removeResident space.pid with
      | (.error h, s) => (.error (.halt h), s)
      | (.ok dropped, s) => (.error (.error e), s.note (.preloadFailed space.pid dropped))

/-- The entry of a page of a process, as its strategy finds it. -/
def translate [BackingFile F] (s : Paging F) (strategy : Strategy) (tlb : TlbId) (retries : Nat)
    (space : AddressSpace) (p : PageNumber) : Except PagingError Translation × Paging F :=
  match strategy with
  | .demand => s.resolve tlb retries space p
  | .eager => (s.lookupResident space p, s)

end Paging

end DemandPaging
