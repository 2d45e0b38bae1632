import DemandPaging.Proofs.Ample
import DemandPaging.Proofs.KernelOrder

/-!
# How far the kernel gets

When nothing runs out, whether the kernel gets at a page of a process does not depend on where the
page is: it does exactly if the page lies in the address space and, to be written, in no read-only
section.

* `Paging.Supplies`, `Paging.Provides` — nothing runs out for a process, or for all of them.
* `AddressSpace.refusal`, `AddressSpace.reach` — where an access to a range of addresses stops.
* `Kernel.accessPage_reach`, `Kernel.copy_reach` — the kernel stops there, and nowhere else.
* `Kernel.readMemory_reach`, `Kernel.writeMemory_reach`, `Kernel.readText_reach` — so do those who
  read and write.
* `Kernel.load_reach` — whether a program can be loaded is known beforehand.
-/

namespace DemandPaging

namespace AddressSpace

/-- Why an access to a page is refused, if it is. -/
def refusal (space : AddressSpace) (writing : Bool) (p : PageNumber) : Option ExceptionCause :=
  if space.contains p then if writing && space.isSealed p then some .readOnly else none
  else some .addressError

/-- How many bytes of some pieces of a range are moved, and the page at which it stops with the
reason, if it stops early. -/
def reach (space : AddressSpace) (writing : Bool) :
    List Piece → Nat × Option (PageNumber × ExceptionCause)
  | [] => (0, none)
  | q :: qs =>
    match space.refusal writing q.address.page with
    | some cause => (0, some (q.address.page, cause))
    | none =>
      let (n, stop) := reach space writing qs
      (q.size + n, stop)

/-- The error with which the kernel stops at a page; at a read-only page it just stops. -/
def stopError : Option (PageNumber × ExceptionCause) → Option PagingError
  | some (p, .addressError) => some (.invalidAddress p.base.val)
  | _ => none

variable {space : AddressSpace} {writing : Bool} {p : PageNumber} {q : Piece} {qs : List Piece}

theorem reach_of_refused {cause : ExceptionCause}
    (h : space.refusal writing q.address.page = some cause) :
    space.reach writing (q :: qs) = (0, some (q.address.page, cause)) := by
  rw [reach, h]

theorem reach_of_granted (h : space.refusal writing q.address.page = none) :
    space.reach writing (q :: qs) =
      (q.size + (space.reach writing qs).1, (space.reach writing qs).2) := by
  rw [reach, h]

theorem refusal_outside (h : space.contains p = false) :
    space.refusal writing p = some .addressError := by
  rw [refusal, h]
  rfl

theorem refusal_sealed (h : space.contains p = true) (hsealed : space.isSealed p = true) :
    space.refusal true p = some .readOnly := by
  rw [refusal, h, hsealed]
  rfl

theorem refusal_granted (h : space.contains p = true)
    (hsealed : ¬ (writing = true ∧ space.isSealed p = true)) :
    space.refusal writing p = none := by
  rw [refusal, if_pos h, if_neg]
  rwa [Bool.and_eq_true]

/-- No address behind the user addresses lies in a space. -/
theorem contains_of_lt {a : VirtAddr} (hfits : space.pageCount * pageSize ≤ maxUserAddr)
    (h : maxUserAddr < a.val) : space.contains a.page = false := by
  rw [contains, decide_eq_false_iff_not]
  intro hlt
  have hpage : a.page.val < space.pageCount := hlt
  simp only [VirtAddr.page, pageSize, maxUserAddr] at *
  omega

/-- Nothing of a range behind the user addresses is reached. -/
theorem reach_of_lt {a : VirtAddr} {count : Nat} (hfits : space.pageCount * pageSize ≤ maxUserAddr)
    (h : maxUserAddr < a.val) : (space.reach writing (pieces a count)).1 = 0 := by
  rw [pieces, piecesFrom]
  split
  · rfl
  · exact congrArg Prod.fst (reach_of_refused (refusal_outside (contains_of_lt hfits h)))

end AddressSpace

namespace Paging

variable {F : Type} [BackingFile F] {v : ReliableView F} {s t : Paging F} {tlb : TlbId}
  {retries : Nat} {space : AddressSpace} {strategy : Strategy} {p : PageNumber} {err : PagingError}

/-- A process finds its pages: they come on demand and nothing runs out, or they are all there for
good, and every TLB has a slot for them. -/
inductive Supplies (v : ReliableView F) (space : AddressSpace) (s : Paging F) : Strategy → Prop
  | demand (h : s.Ample v) : Supplies v space s .demand
  | eager {place : PageNumber → FrameNumber} (h : s.Preloaded space.pid space.pageCount place)
    (hslots : ∀ {id : TlbId}, s.core.tlbs.live id = true → 0 < (s.core.tlbs.tlb id).size) :
    Supplies v space s .eager

namespace Supplies

theorem slots (h : s.Supplies v space strategy) {id : TlbId} (hid : s.core.tlbs.live id = true) :
    0 < (s.core.tlbs.tlb id).size := by
  cases h with
  | demand h => exact h.slots hid
  | eager _ hslots => exact hslots hid

/-- It goes on finding them, unless others get frames for good or it loses its pages. -/
theorem changes {may : Fate → Prop} (h : s.Supplies v space strategy) (hs : s.Consistent)
    (hchanges : Changes may s t) (hpins : ∀ pid, ¬ may (.pins pid))
    (hloses : ¬ may (.loses space.pid)) : t.Supplies v space strategy := by
  cases h with
  | demand h => exact .demand (hchanges.ample hpins h)
  | eager h hslots =>
      refine .eager (hchanges.preloaded hs hloses h) fun {id} hid => ?_
      rw [hchanges.sameShape.size]
      exact hslots (by rwa [hchanges.sameShape.live] at hid)

theorem translate_ok {r : Except PagingError Translation} (h : s.Supplies v space strategy)
    (hs : s.Agrees) (hrange : s.InRange (space.key p))
    (ht : s.translate strategy tlb retries space p = (r, t)) : ∃ e, r = .ok e := by
  cases h with
  | demand h => exact resolve_ok hs h hrange ht
  | eager h _ =>
      obtain ⟨count, hcount, hlt⟩ := hrange
      obtain rfl := Option.some.inj (h.space.symm.trans hcount)
      obtain ⟨e, he, -⟩ := h.entry hs hlt
      have hfound : s.translate .eager tlb retries space p = (.ok e, s) := h.translate hs hlt he _ _
      rw [hfound] at ht
      exact ⟨e, (Prod.mk.inj ht).1.symm⟩

end Supplies

/-- Processes that are all loaded alike find their pages: they come on demand and nothing runs out,
or all processes have theirs for good, every TLB has a slot for them, and no page was ever moved. -/
inductive Provides (v : ReliableView F) (s : Paging F) : Strategy → Prop
  | demand (h : s.Ample v) : Provides v s .demand
  | eager (h : s.Settled)
    (hslots : ∀ {id : TlbId}, s.core.tlbs.live id = true → 0 < (s.core.tlbs.tlb id).size)
    (htraffic : s.core.counters.traffic = 0) : Provides v s .eager

namespace Provides

/-- So does each of them. -/
theorem supplies (h : s.Provides v strategy)
    (hcount : s.core.spaces[space.pid]? = some space.pageCount) : s.Supplies v space strategy := by
  cases h with
  | demand h => exact .demand h
  | eager h hslots =>
      obtain ⟨place, hplace⟩ := h.preloaded hcount
      exact .eager hplace hslots

/-- They go on finding them, unless others come that are not loaded alike. -/
theorem changes {may : Fate → Prop} (h : s.Provides v strategy) (hchanges : Changes may s t)
    (hledger : Balanced may s t) (hgains : strategy = .eager → ∀ pid, ¬ may (.gains pid))
    (hpins : ∀ pid, ¬ may (.pins pid)) : t.Provides v strategy := by
  cases h with
  | demand h => exact .demand (hchanges.ample hpins h)
  | eager h hslots htraffic =>
      have hshape := hchanges.sameShape
      refine .eager (hchanges.settled (hgains rfl) hpins h) (fun {id} hid => ?_) ?_
      · rw [hshape.size]
        rw [hshape.live] at hid
        exact hslots hid
      · obtain ⟨missed, moved, hposted, -, hmoved⟩ := hledger
        rw [hposted.traffic, htraffic, hmoved (hgains rfl) hpins h]

end Provides

theorem translate_of_checkRange (h : s.checkRange space.pid p = .error err) :
    s.translate strategy tlb retries space p = (.error err, s) := by
  cases strategy with
  | demand => rw [translate, resolve, h]
  | eager => rw [translate, lookupResident, h]

/-- **Only a page outside the address space is not found.** -/
theorem Unfound.outside (h : s.Unfound strategy tlb retries space p err t) (hs : s.Consistent)
    (hv : s.Supplies v space strategy)
    (hcount : s.core.spaces[space.pid]? = some space.pageCount) :
    space.contains p = false ∧ err = .invalidAddress p.base.val := by
  obtain ⟨m, hquiet, htranslate⟩ := h
  have hcount' : m.core.spaces[space.pid]? = some space.pageCount := by rw [hquiet.spaces, hcount]
  have hchange : Changes (fun _ => False) s m := .single (.quiet hquiet)
  by_cases hp : p.val < space.pageCount
  · obtain ⟨e, he⟩ := (hv.changes hs hchange (fun _ => id) id).translate_ok
      (hquiet.agrees hs.toAgrees) ⟨_, hcount', hp⟩ htranslate
    cases he
  · have hcheck : m.checkRange space.pid p = .error (.invalidAddress p.base.val) := by
      rw [checkRange, CoreMap.pageCount, hcount']
      exact if_pos (Nat.le_of_not_lt hp)
    rw [translate_of_checkRange hcheck] at htranslate
    exact ⟨decide_eq_false hp, (Except.error.inj (Prod.mk.inj htranslate).1).symm⟩

/-- **No page of a process without an address space is found**, and nothing is done. -/
theorem Unfound.absent (h : s.Unfound strategy tlb retries space p err t)
    (hspace : s.core.spaces[space.pid]? = none) : err = .noAddressSpace space.pid ∧ Quiet s t := by
  obtain ⟨m, hquiet, htranslate⟩ := h
  have hcheck : m.checkRange space.pid p = .error (.noAddressSpace space.pid) := by
    rw [checkRange, CoreMap.pageCount, hquiet.spaces, hspace]
  rw [translate_of_checkRange hcheck] at htranslate
  obtain ⟨herr, rfl⟩ := Prod.mk.inj htranslate
  exact ⟨(Except.error.inj herr).symm, hquiet⟩

omit [BackingFile F] in
theorem contains_of_inRange (hcount : s.core.spaces[space.pid]? = some space.pageCount)
    (h : s.InRange (space.key p)) : space.contains p = true := by
  obtain ⟨count, hcount', hlt⟩ := h
  rw [show s.core.spaces[space.pid]? = some count from hcount', Option.some.injEq] at hcount
  rw [AddressSpace.contains, decide_eq_true_eq, ← hcount]
  exact hlt

end Paging

namespace Kernel

open Paging

variable {F : Type} [BackingFile F] {v : ReliableView F} {view : Option (FileView F)}
  {tenants : Pid → Option Tenant} {seat : TlbId → Option Pid} {k k' : Kernel F} {tlb : TlbId}
  {space : AddressSpace} {strategy : Strategy} {memory : Memory} {access : Access}

/-! ## Pages -/

/-- What the kernel answers when it was refused a page, or was not. -/
inductive Granted (p : PageNumber) :
    Option ExceptionCause → Except Failure (Option Page) → Prop
  | granted (page : Page) : Granted p none (.ok (some page))
  | readOnly : Granted p (some .readOnly) (.ok none)
  | outside : Granted p (some .addressError) (.error (.error (.invalidAddress p.base.val)))

/-- **The kernel gets at a page exactly if nothing about the address space refuses it.** -/
theorem accessPage_reach {p : PageNumber} {writing : Bool} {change : Page → Page}
    {r : Except Failure (Option Page)} (hk : k.InOrder view tenants seat)
    (hv : k.Supplies v space strategy) (hT : tenants space.pid = some ⟨space, memory⟩)
    (h : k.accessPage tlb space strategy p writing change = (r, k')) :
    Granted p (space.refusal writing p) r := by
  obtain ⟨-, -, m, hmoves, hrest⟩ := accessPage_spec hk.toAgrees h
  have hcount := (hk.lodged.space hT).2.1
  have hm := hk.moves hmoves hT rfl
  rcases hrest with ⟨err, rfl, -, hunfound⟩ | ⟨rfl, -, rfl, hrange, e, he, hro⟩ |
    ⟨e, f, rfl, he, -, hro, hrange, -⟩
  · obtain ⟨houtside, rfl⟩ := hunfound.outside hk.toConsistent hv hcount
    rw [AddressSpace.refusal_outside houtside]
    exact .outside
  · rw [hm.locked.resident he hT] at hro
    rw [AddressSpace.refusal_sealed (contains_of_inRange hcount hrange) hro]
    exact .readOnly
  · rw [hm.locked.resident he hT] at hro
    rw [AddressSpace.refusal_granted (contains_of_inRange hcount hrange) hro]
    exact .granted _

/-! ## Ranges of addresses -/

/-- If anything stopped a copy early, it was no end of the machine. -/
def Copied.Survivable (c : Copied) : Prop :=
  ∀ {why}, c.failure = some why → ∃ err, why = .error err ∧ err.fatal = false

/-- **The pieces of a range are copied as far as the address space reaches.** -/
theorem copyPieces_reach {p : Process} {a stop : Nat} {qs : List Piece} {moved : Bytes}
    {c : Copied} (hqs : Pieces a moved.size stop qs)
    (hdata : ∀ data, access = .store data → stop ≤ data.size)
    (hmoved : access.Moved (∃ w, view = some w) memory a moved) (hpid : p.space.pid = p.pid)
    (hk : k.InOrder view
      (Function.update tenants p.pid (some ⟨p.space, access.after memory a moved⟩)) seat)
    (hv : k.Supplies v p.space p.strategy) (h : copyPieces tlb p access qs moved k = (c, k')) :
    c.moved.size = moved.size + (p.space.reach access.writing qs).1 ∧
      c.failure = (AddressSpace.stopError (p.space.reach access.writing qs).2).map .error := by
  induction qs generalizing k moved with
  | nil =>
      obtain ⟨rfl, -⟩ := Prod.mk.inj h
      exact ⟨rfl, rfl⟩
  | cons q qs ih =>
      unfold copyPieces at h
      cases ha : k.accessPage tlb p.space p.strategy q.address.page access.writing
          (access.change q) with
      | mk r m =>
          rw [ha] at h
          have hT : Function.update tenants p.pid
              (some ⟨p.space, access.after memory a moved⟩) p.space.pid =
                some ⟨p.space, access.after memory a moved⟩ := by
            rw [hpid, Function.update_self]
          have hgranted := accessPage_reach hk hv hT ha
          generalize hrefusal : p.space.refusal access.writing q.address.page = refusal at hgranted
          cases hgranted with
          | readOnly =>
              obtain ⟨rfl, -⟩ := Prod.mk.inj h
              rw [AddressSpace.reach_of_refused hrefusal]
              exact ⟨rfl, rfl⟩
          | outside =>
              obtain ⟨rfl, -⟩ := Prod.mk.inj h
              rw [AddressSpace.reach_of_refused hrefusal]
              exact ⟨rfl, rfl⟩
          | granted page =>
              have hm : m.Supplies v p.space p.strategy := by
                have hevolves : Evolves (fun _ => False) k m :=
                  accessPage_evolves hk.toConsistent ha
                exact hv.changes hk.toConsistent hevolves.changes (fun _ => id) id
              obtain ⟨-, ⟨hstop, -⟩ | ⟨old, hpage, hturned⟩⟩ :=
                accessPage_inOrder hk hT (fun hw => Access.change_of_not_writing hw q) ha
              · rcases hstop with ⟨err, hstop⟩ | hstop
                · cases hstop
                · cases hstop
              · obtain rfl := Option.some.inj (Except.ok.inj hpage)
                rw [hpid] at hturned
                have hpiece := (hqs.fits hdata).1
                obtain ⟨_, rfl, hrest, hmoved', hm'⟩ := hturned.append hqs hdata hmoved
                obtain ⟨hsize, hfailure⟩ := ih hrest hmoved' hm' hm h
                rw [AddressSpace.reach_of_granted hrefusal]
                refine ⟨?_, hfailure⟩
                rw [hsize, Array.size_append, Page.slice,
                  Bytes.size_slice (by rw [Vector.size_toArray]; exact hpiece), Nat.add_assoc]

/-- **A range of addresses is copied as far as the address space reaches**, wherever its pages
are. -/
theorem copy_reach {p : Process} {address : VirtAddr} {count : Nat} {c : Copied}
    (hk : k.InOrder view tenants seat) (hv : k.Supplies v p.space p.strategy)
    (hT : tenants p.pid = some ⟨p.space, memory⟩)
    (hfits : p.space.pageCount * pageSize ≤ maxUserAddr)
    (hdata : ∀ data, access = .store data → count ≤ data.size)
    (h : k.copy tlb p address count access = (c, k')) :
    c.moved.size = (p.space.reach access.writing (pieces address count)).1 ∧
      (address.val ≤ maxUserAddr →
        c.failure =
          (AddressSpace.stopError (p.space.reach access.writing (pieces address count)).2).map .error) ∧
      c.Survivable := by
  unfold copy at h
  split at h
  · rename_i haddress
    obtain ⟨rfl, -⟩ := Prod.mk.inj h
    exact ⟨(AddressSpace.reach_of_lt hfits haddress).symm,
      fun hle => absurd haddress (Nat.not_lt_of_le hle),
      fun hwhy => ⟨_, (Option.some.inj hwhy).symm, rfl⟩⟩
  · have hpid : p.space.pid = p.pid := (hk.lodged.space hT).1
    have hqs : Pieces address.val (#[] : Bytes).size count (pieces address count) :=
      pieces_spec address count
    have hstart : k.InOrder view
        (Function.update tenants p.pid (some ⟨p.space, access.after memory address.val #[]⟩)) seat :=
      hk.tenant_congr hT rfl (access.frameCount_after _ _ _) fun q =>
        access.frame_after_empty memory address.val q.val
    obtain ⟨hsize, hfailure⟩ := copyPieces_reach hqs hdata
      (access.moved_empty (∃ w, view = some w) memory address.val) hpid hstart hv h
    refine ⟨by rw [hsize, Array.size_empty, Nat.zero_add], fun _ => hfailure, fun hwhy => ?_⟩
    rw [hfailure, Option.map_eq_some_iff] at hwhy
    obtain ⟨err, herr, rfl⟩ := hwhy
    refine ⟨err, rfl, ?_⟩
    unfold AddressSpace.stopError at herr
    split at herr
    · rw [← Option.some.inj herr]
      rfl
    · cases herr

omit [BackingFile F] in
/-- A copy that the kernel survives yields what it has moved. -/
theorem settle_reach {pid : Pid} {c : Copied} (hc : c.Survivable) :
    (k.settle pid c).1 = .ok c.moved := by
  unfold settle
  cases hfailure : c.failure with
  | none => rfl
  | some why =>
      obtain ⟨err, rfl, hfatal⟩ := hc hfailure
      dsimp only
      rw [hfatal]
      rfl

/-- The bytes that are read at some addresses of a process. -/
def reads (space : AddressSpace) (memory : Memory) (address : VirtAddr) (count : Nat) : Bytes :=
  memory.read ⟨address.val⟩ (space.reach false (pieces address count)).1

/-- **Reading yields the bytes of the plain memory up to where the address space ends.** -/
theorem readMemory_reach {p : Process} {address : VirtAddr} {count : Nat} {r : Except Halt Bytes}
    (hk : k.InOrder (some v.toFileView) tenants seat) (hv : k.Supplies v p.space p.strategy)
    (hT : tenants p.pid = some ⟨p.space, memory⟩)
    (hfits : p.space.pageCount * pageSize ≤ maxUserAddr)
    (h : k.readMemory tlb p address count = (r, k')) :
    r = .ok (reads p.space memory address count) := by
  have hmemory := h
  unfold readMemory at h
  cases hc : k.copy tlb p address count .load with
  | mk c m =>
      rw [hc] at h
      dsimp only at h
      obtain ⟨hsize, -, hsettles⟩ :=
        copy_reach hk hv hT hfits (fun _ hd => by cases hd) hc
      have hr : (m.settle p.pid c).1 = .ok c.moved := settle_reach hsettles
      rw [h] at hr
      obtain rfl : r = .ok c.moved := hr
      obtain ⟨-, hmoved, -⟩ := readMemory_inOrder hk hT hmemory
      rw [reads, hmoved.load ⟨_, rfl⟩ rfl, hsize]
      rfl

/-- **Writing goes up to the first page that may not be written.** -/
theorem writeMemory_reach {p : Process} {address : VirtAddr} {data : Bytes} {r : Except Halt Nat}
    (hk : k.InOrder view tenants seat) (hv : k.Supplies v p.space p.strategy)
    (hT : tenants p.pid = some ⟨p.space, memory⟩)
    (hfits : p.space.pageCount * pageSize ≤ maxUserAddr)
    (h : k.writeMemory tlb p address data = (r, k')) :
    r = .ok (p.space.reach true (pieces address data.size)).1 := by
  unfold writeMemory at h
  cases hc : k.copy tlb p address data.size (.store data) with
  | mk c m =>
      rw [hc] at h
      dsimp only at h
      obtain ⟨hsize, -, hsettles⟩ := copy_reach hk hv hT hfits
        (fun d hd => Nat.le_of_eq (by rw [Access.store.inj hd])) hc
      have hr : (m.settle p.pid c).1 = .ok c.moved := settle_reach hsettles
      rw [← (Prod.mk.inj h).1, hr]
      exact congrArg Except.ok hsize

/-- The text that is found in some bytes, unless there is no buffer for them. -/
def textIn (limit : Nat) (bytes : Bytes) : Except Halt (Option String) :=
  if signedLimit ≤ limit + 1 then .error .outOfBounds else .ok (textBeforeZero bytes)

theorem readText_reach {p : Process} {address : VirtAddr} {limit : Nat}
    {r : Except Halt (Option String)} (hk : k.InOrder (some v.toFileView) tenants seat)
    (hv : k.Supplies v p.space p.strategy) (hT : tenants p.pid = some ⟨p.space, memory⟩)
    (hfits : p.space.pageCount * pageSize ≤ maxUserAddr)
    (h : k.readText tlb p address limit = (r, k')) :
    r = textIn limit (reads p.space memory address (limit + 1)) := by
  unfold readText at h
  unfold textIn
  split at h
  · rename_i hlimit
    rw [if_pos hlimit]
    exact (Prod.mk.inj h).1.symm
  · rename_i hlimit
    rw [if_neg hlimit]
    cases hm : k.readMemory tlb p address (limit + 1) with
    | mk x m =>
        rw [hm] at h
        obtain rfl := readMemory_reach hk hv hT hfits hm
        exact (Prod.mk.inj h).1.symm

/-! ## Processes without an address space -/

/-- Nothing happens but that the kernel takes note of it. -/
structure Idles (k k' : Kernel F) : Prop where
  quiet : Quiet k.toPaging k'.toPaging
  config : k'.config = k.config
  pids : k'.pids = k.pids

omit [BackingFile F] in
theorem Idles.stays (h : Idles k k') : Stays k k' := ⟨h.quiet.toSameShape, h.config, h.pids⟩

theorem accessPage_absent {p : PageNumber} {writing : Bool} {change : Page → Page}
    {r : Except Failure (Option Page)} (hk : k.Agrees)
    (hspace : k.core.spaces[space.pid]? = none)
    (h : k.accessPage tlb space strategy p writing change = (r, k')) :
    r = .error (.error (.noAddressSpace space.pid)) ∧ Idles k k' := by
  have hnot : ¬ k.InRange (space.key p) := by
    rintro ⟨count, hcount, -⟩
    rw [show k.core.spaces[space.pid]? = some count from hcount] at hspace
    cases hspace
  obtain ⟨hconfig, hpids, m, -, ⟨err, rfl, hend, hunfound⟩ | ⟨-, -, -, hrange, -⟩ |
    ⟨e, f, -, -, -, -, hrange, -⟩⟩ := accessPage_spec hk h
  · obtain ⟨rfl, hquiet⟩ := hunfound.absent hspace
    exact ⟨rfl, hend ▸ hquiet, hconfig, hpids⟩
  · exact absurd hrange hnot
  · exact absurd hrange hnot

/-- **Nothing is copied to or from a process without an address space.** -/
theorem copy_absent {p : Process} {address : VirtAddr} {count : Nat} {c : Copied}
    (hk : k.Agrees) (hspace : k.core.spaces[p.space.pid]? = none)
    (h : k.copy tlb p address count access = (c, k')) :
    c.moved = #[] ∧ c.Survivable ∧ Idles k k' := by
  have hidle : Idles k k := ⟨quiet_refl _, rfl, rfl⟩
  unfold copy at h
  split at h
  · obtain ⟨rfl, rfl⟩ := Prod.mk.inj h
    exact ⟨rfl, fun hwhy => ⟨_, (Option.some.inj hwhy).symm, rfl⟩, hidle⟩
  · cases hqs : pieces address count with
    | nil =>
        rw [hqs] at h
        obtain ⟨rfl, rfl⟩ := Prod.mk.inj h
        exact ⟨rfl, (fun hwhy => by cases hwhy), hidle⟩
    | cons q qs =>
        rw [hqs] at h
        unfold copyPieces at h
        cases ha : k.accessPage tlb p.space p.strategy q.address.page access.writing
            (access.change q) with
        | mk r m =>
            rw [ha] at h
            obtain ⟨rfl, hm⟩ := accessPage_absent hk hspace ha
            obtain ⟨rfl, rfl⟩ := Prod.mk.inj h
            exact ⟨rfl, fun hwhy => ⟨_, (Option.some.inj hwhy).symm, rfl⟩, hm⟩

omit [BackingFile F] in
theorem settle_idles {m : Kernel F} {pid : Pid} {c : Copied} {r : Except Halt Bytes}
    (h : k.settle pid c = (r, m)) (hk : Idles k' k) : Idles k' m := by
  obtain ⟨hquiet, -, hconfig, hpids⟩ := settle_quiet h
  exact ⟨hk.quiet.trans hquiet, hconfig.trans hk.config, hpids.trans hk.pids⟩

theorem readMemory_absent {p : Process} {address : VirtAddr} {count : Nat} {r : Except Halt Bytes}
    (hk : k.Agrees) (hspace : k.core.spaces[p.space.pid]? = none)
    (h : k.readMemory tlb p address count = (r, k')) : r = .ok #[] ∧ Idles k k' := by
  unfold readMemory at h
  cases hc : k.copy tlb p address count .load with
  | mk c m =>
      rw [hc] at h
      dsimp only at h
      obtain ⟨hmoved, hsurvivable, hm⟩ := copy_absent hk hspace hc
      have hr : (m.settle p.pid c).1 = .ok c.moved := settle_reach hsurvivable
      rw [h, hmoved] at hr
      exact ⟨hr, settle_idles h hm⟩

theorem writeMemory_absent {p : Process} {address : VirtAddr} {data : Bytes} {r : Except Halt Nat}
    (hk : k.Agrees) (hspace : k.core.spaces[p.space.pid]? = none)
    (h : k.writeMemory tlb p address data = (r, k')) : r = .ok 0 ∧ Idles k k' := by
  unfold writeMemory at h
  cases hc : k.copy tlb p address data.size (.store data) with
  | mk c m =>
      rw [hc] at h
      dsimp only at h
      obtain ⟨hmoved, hsurvivable, hm⟩ := copy_absent hk hspace hc
      have hr : (m.settle p.pid c).1 = .ok c.moved := settle_reach hsurvivable
      obtain ⟨rfl, rfl⟩ := Prod.mk.inj h
      rw [hr, hmoved]
      exact ⟨rfl, settle_idles rfl hm⟩

theorem readText_absent {p : Process} {address : VirtAddr} {limit : Nat}
    {r : Except Halt (Option String)} (hk : k.Agrees)
    (hspace : k.core.spaces[p.space.pid]? = none)
    (h : k.readText tlb p address limit = (r, k')) : r = textIn limit #[] ∧ Idles k k' := by
  unfold readText at h
  unfold textIn
  split at h
  · rename_i hlimit
    obtain ⟨rfl, rfl⟩ := Prod.mk.inj h
    rw [if_pos hlimit]
    exact ⟨rfl, quiet_refl _, rfl, rfl⟩
  · rename_i hlimit
    rw [if_neg hlimit]
    cases hm : k.readMemory tlb p address (limit + 1) with
    | mk x m =>
        rw [hm] at h
        obtain ⟨rfl, hidle⟩ := readMemory_absent hk hspace hm
        obtain ⟨rfl, rfl⟩ := Prod.mk.inj h
        exact ⟨rfl, hidle⟩

end Kernel

/-! ## Loading -/

namespace AddressSpace

/-- Why arguments cannot be written to their pages, if they cannot. -/
def argumentsError (space : AddressSpace) (args : List String) : Option PagingError :=
  if args.isEmpty then none
  else
    let size := (Kernel.argumentBlock space.argBase args).size
    let (n, stop) := space.reach true (pieces space.argBase size)
    match stopError stop with
    | some e => some e
    | none => if n = size then none else some .argumentsTooLong

/-- The address space of a program with some arguments, if it can be loaded. -/
def ofProgram (pid : Pid) (image : Image) (args : List String) (config : MachineConfig) :
    Except PagingError AddressSpace :=
  if pageSize < Kernel.argumentsSize args then .error .argumentsTooLong
  else
    match make pid image config with
    | .error e => .error e
    | .ok space =>
      match space.argumentsError args with
      | some e => .error e
      | none => .ok space

/-- Does it take numbers that are no machine words to load a program with some arguments?  Nothing
is laid out for arguments that are too long. -/
def overruns (image : Image) (args : List String) (config : MachineConfig) : Bool :=
  decide (Kernel.argumentsSize args ≤ pageSize) && overflows image config

theorem overruns_of_ofProgram {pid : Pid} {image : Image} {args : List String}
    {config : MachineConfig} {space : AddressSpace}
    (h : ofProgram pid image args config = .ok space) : overruns image args config = false := by
  unfold ofProgram at h
  split at h
  · cases h
  · split at h
    · cases h
    · rename_i hmake
      rw [overruns, overflows_of_make hmake, Bool.and_false]

/-- The argument pages start at a user address. -/
theorem argBase_le {pid : Pid} {image : Image} {config : MachineConfig} {space : AddressSpace}
    (h : make pid image config = .ok space) : space.argBase.val ≤ maxUserAddr := by
  have hfits := make_fits h
  have hle : (space.imagePages + space.stackPages) * pageSize ≤ space.pageCount * pageSize :=
    Nat.mul_le_mul_right _ (Nat.le_add_right _ _)
  exact Nat.le_trans (Nat.mod_le _ _) (Nat.le_trans hle hfits)

end AddressSpace

namespace Kernel

open Paging

variable {F : Type} [BackingFile F] {v : ReliableView F} {view : Option (FileView F)}
  {tenants : Pid → Option Tenant} {seat : TlbId → Option Pid} {k k' : Kernel F} {tlb : TlbId}
  {strategy : Strategy} {memory : Memory}

theorem writeArguments_reach {p : Process} {args : List String} {r : Except Failure Unit}
    (hk : k.InOrder view tenants seat) (hv : k.Supplies v p.space p.strategy)
    (hT : tenants p.pid = some ⟨p.space, memory⟩)
    (hfits : p.space.pageCount * pageSize ≤ maxUserAddr)
    (hargv : p.registers.argv = p.space.argBase) (hbase : p.space.argBase.val ≤ maxUserAddr)
    (h : k.writeArguments tlb p args = (r, k')) :
    r = match p.space.argumentsError args with
      | none => .ok ()
      | some e => .error (.error e) := by
  unfold writeArguments at h
  unfold AddressSpace.argumentsError
  rw [hargv] at h
  split at h
  · rename_i hempty
    rw [if_pos hempty]
    exact (Prod.mk.inj h).1.symm
  · rename_i hempty
    rw [if_neg hempty]
    dsimp only at h ⊢
    cases hc : k.copy tlb p p.space.argBase (argumentBlock p.space.argBase args).size
        (.store (argumentBlock p.space.argBase args)) with
    | mk c m =>
        rw [hc] at h
        obtain ⟨hsize, hfailure, -⟩ := copy_reach hk hv hT hfits
          (fun d hd => Nat.le_of_eq (by rw [Access.store.inj hd])) hc
        replace hfailure := hfailure hbase
        rw [show (Access.store (argumentBlock p.space.argBase args)).writing = true from rfl]
          at hsize hfailure
        generalize p.space.reach true (pieces p.space.argBase (argumentBlock p.space.argBase args).size)
          = reached at hsize hfailure ⊢
        obtain ⟨n, stop⟩ := reached
        obtain ⟨moved, failure⟩ := c
        obtain rfl : moved.size = n := hsize
        obtain rfl : failure = (AddressSpace.stopError stop).map .error := hfailure
        clear hc
        dsimp only
        generalize AddressSpace.stopError stop = failing at h
        cases failing with
        | some e => exact (Prod.mk.inj h).1.symm
        | none =>
            dsimp only [Option.map_none] at h ⊢
            split at h <;> rename_i hall
            · rw [if_pos hall]
              exact (Prod.mk.inj h).1.symm
            · rw [if_neg hall]
              exact (Prod.mk.inj h).1.symm

/-- Whoever is loaded with this pid is given all pages that it is to have from the start, and finds
the others. -/
def Ready (v : ReliableView F) (k : Kernel F) (tlb : TlbId) (pid : Pid) (image : Image)
    (strategy : Strategy) : Prop :=
  ∀ {space : AddressSpace} {m u : Kernel F} {r : Except Failure Unit},
    AddressSpace.make pid image k.config = .ok space →
      Registered k.toPaging m.toPaging space.pid space.pageCount → m.config = k.config →
        m.prepare tlb strategy space = (r, u) → r = .ok () ∧ u.Supplies v space strategy

/-- On demand, no page is given from the start. -/
theorem ready_of_ample {pid : Pid} {image : Image} (hv : k.Ample v) :
    k.Ready v tlb pid image .demand := by
  intro space m u r _ hreg _ hprep
  obtain ⟨rfl, rfl⟩ := Prod.mk.inj hprep
  exact ⟨rfl, .demand (hreg.toStill.ample hv (hreg.swap ▸ hv.swap))⟩

/-- **Whether a program can be loaded is known from the program and the settings**, and so is what
its process starts with. -/
theorem loadAs_reach {pid : Pid} {image : Image} {args : List String} {r : Except Failure Process}
    (hk : k.InOrder view tenants seat) (hv : k.Ready v tlb pid image strategy)
    (hpid : tenants pid = none) (hargs : argumentsSize args ≤ pageSize)
    (h : k.loadAs tlb pid image args strategy = (r, k')) :
    r = match AddressSpace.ofProgram pid image args k.config with
      | .error e => .error (.error e)
      | .ok space => .ok { space.newProcess args with strategy } := by
  rw [AddressSpace.ofProgram, if_neg (Nat.not_lt_of_le hargs)]
  -- Pages are to be had, so that nothing fails before the arguments are written.
  have hprepared : ∀ {space : AddressSpace} {m u : Kernel F} {x : Except Failure Unit},
      AddressSpace.make pid image k.config = .ok space →
        k.createSpace space.pid space.pageCount = (.ok (), m) →
          m.prepare tlb strategy space = (x, u) → x = .ok () ∧ u.Supplies v space strategy := by
    intro space m u x hmake hcreate hprepare
    obtain ⟨hconfig, -, hreg⟩ := registered_of_createSpace hcreate
    exact hv hmake hreg hconfig hprepare
  have hwritten : ∀ {space : AddressSpace} {m u t : Kernel F} {x : Except Failure Unit},
      AddressSpace.make pid image k.config = .ok space →
        k.createSpace space.pid space.pageCount = (.ok (), m) →
          m.prepare tlb strategy space = (.ok (), u) →
            u.writeArguments tlb { space.newProcess args with strategy } args = (x, t) →
              x = match space.argumentsError args with
                | none => .ok ()
                | some e => .error (.error e) := by
    intro space m u t x hmake hcreate hprepare hwrite
    exact writeArguments_reach (p := { space.newProcess args with strategy })
      (prepare_inOrder hk hcreate hprepare).2 (hprepared hmake hcreate hprepare).2
      (Function.update_self _ _ _) (AddressSpace.make_fits hmake) rfl (AddressSpace.argBase_le hmake)
      hwrite
  cases loads_of_loadAs h with
  | unmade hmake => rw [hmake]
  | unregistered hmake hcreate =>
      obtain ⟨-, hmem, -⟩ := createSpace_error hcreate
      obtain ⟨T, hT⟩ := hk.lodged.tenant hmem
      rw [space_pid_of_make hmake, hpid] at hT
      cases hT
  | unprepared hmake hcreate hprepare habandon =>
      cases (hprepared hmake hcreate hprepare).1
  | @unwritten space why r m u w t hmake hcreate hprepare hwrite habandon =>
      have hreach := hwritten hmake hcreate hprepare hwrite
      obtain ⟨-, ⟨-, memory', hw⟩ | ⟨hok, -⟩⟩ :=
        writeArguments_inOrder (prepare_inOrder hk hcreate hprepare).2 (Function.update_self _ _ _)
          hwrite
      · have hcount := (hw.lodged.space (Function.update_self _ _ _)).2.1
        have hmem : space.pid ∈ w.core.spaces :=
          Std.ExtTreeMap.mem_iff_isSome_getElem?.2 (Option.isSome_of_eq_some hcount)
        obtain ⟨rfl, -⟩ := abandon_spec hw.toAgrees hmem habandon
        rw [hmake]
        dsimp only
        cases hfailing : space.argumentsError args with
        | none =>
            rw [hfailing] at hreach
            cases hreach
        | some e =>
            rw [hfailing] at hreach
            rw [Except.error.inj hreach]
      · cases hok
  | @loaded space m u t hmake hcreate hprepare hwrite =>
      have hreach := hwritten hmake hcreate hprepare hwrite
      rw [hmake]
      dsimp only
      cases hfailing : space.argumentsError args with
      | none => rfl
      | some e =>
          rw [hfailing] at hreach
          cases hreach

theorem load_reach {image : Image} {args : List String} {r : Except Failure Process}
    (hk : k.InOrder view tenants seat) (hv : k.Ready v tlb k.pids.alloc.1 image strategy)
    (hids : k.pids.Sound) (htenants : ∀ pid, ¬ k.pids.live pid → tenants pid = none)
    (h : k.load tlb image args strategy = (r, k')) :
    r = if AddressSpace.overruns image args k.config then .error (.halt .overflow)
      else match AddressSpace.ofProgram k.pids.alloc.1 image args k.config with
        | .error e => .error (.error e)
        | .ok space => .ok { space.newProcess args with strategy } := by
  by_cases hlong : pageSize < argumentsSize args
  · rw [AddressSpace.overruns, decide_eq_false (Nat.not_le_of_lt hlong), AddressSpace.ofProgram,
      if_pos hlong]
    unfold load at h
    rw [if_pos hlong] at h
    exact (Prod.mk.inj h).1.symm
  have hloaded : ∀ {x m},
      ({ k with pids := k.pids.alloc.2 } : Kernel F).loadAs tlb k.pids.alloc.1 image args strategy =
        (x, m) → x = match AddressSpace.ofProgram k.pids.alloc.1 image args k.config with
          | .error e => .error (.error e)
          | .ok space => .ok { space.newProcess args with strategy } := fun hload =>
    loadAs_reach (k := { k with pids := k.pids.alloc.2 }) hk hv (htenants _ hids.alloc.1)
      (Nat.le_of_not_lt hlong) hload
  rw [AddressSpace.overruns, decide_eq_true (Nat.le_of_not_lt hlong), Bool.true_and]
  cases hwords : AddressSpace.overflows image k.config with
  | true =>
      unfold load at h
      rw [if_neg hlong, if_pos hwords] at h
      exact (Prod.mk.inj h).1.symm
  | false =>
      rw [if_neg Bool.false_ne_true]
      cases loadsNext_of_load h with
      | tooLong hargs => exact absurd hargs hlong
      | overflowed _ hwords' => cases hwords.symm.trans hwords'
      | loaded _ hload => exact hloaded hload
      | halted _ hload => exact hloaded hload
      | failed _ hload _ => exact hloaded hload
      | undropped _ hload hdrop =>
          obtain ⟨hstays, -⟩ := loadAs_inOrder (k := { k with pids := k.pids.alloc.2 }) hk
            (htenants _ hids.alloc.1) hload
          obtain ⟨hr, -⟩ := dropPid_alloc hids hstays.pids hdrop
          cases hr

end Kernel

end DemandPaging
