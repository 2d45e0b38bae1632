import DemandPaging.Proofs.Reach
import DemandPaging.Proofs.TrapOrder

/-!
# How far a program gets

When nothing runs out, a page that the TLB lacks is resolved at the first try and found at the
second.  So a load or store of a program stops where the address space ends or, for a store, at
the first read-only page, and for no other reason.

* `Context.Works` — a process works at its processor, and nothing runs out.
* `Context.handleTrap_reach` — an exception is resolved, or is the end of the process.
* `Context.exit_reach` — a process can be ended once.
* `Context.accessPiece_reach`, `Context.userAccess_reach` — how far an access gets, and what stops
  it.
-/

namespace DemandPaging

open Paging Kernel

variable {F : Type} [BackingFile F] {v : ReliableView F} {view : Option (FileView F)}
  {tenants : Pid → Option Tenant} {seat : TlbId → Option Pid} {memory : Memory} {access : Access}

namespace Paging

variable {s t : Paging F} {tlb : TlbId} {address : VirtAddr} {space : AddressSpace}
  {writing : Bool}

omit [BackingFile F] in
/-- A slot of a TLB has a valid copy for a page. -/
def Holds (s : Paging F) (tlb : TlbId) (p : PageNumber) : Prop :=
  ∃ n f, (s.slot tlb n).maps f = true ∧ (s.slot tlb n).page = p

/-- **A page that a TLB holds for a process** lies in its address space, and the copy says truly
whether it may be written. -/
theorem InOrder.contains_of_slot (hs : s.InOrder view tenants seat)
    (hT : tenants space.pid = some ⟨space, memory⟩) (hseat : seat tlb = some space.pid) {n : Nat}
    {f : FrameNumber} (hmaps : (s.slot tlb n).maps f = true)
    (hpage : (s.slot tlb n).page = address.page) :
    space.contains address.page = true ∧
      (s.slot tlb n).flags.readOnly = space.isSealed address.page := by
  have hpage' : (s.slot tlb n).page = (space.key address.page).page := hpage
  obtain ⟨d, hd, hbare, -⟩ := hs.coherent.entry_of_slot hmaps hseat hpage'
  refine ⟨contains_of_inRange (hs.lodged.space hT).2.1 (hs.resident hd), ?_⟩
  rw [← (Translation.bare_eq_iff.1 hbare).2.2.2]
  exact hs.locked.resident hd hT

/-- **What a TLB refuses is what the address space refuses**, unless the page is only missing. -/
theorem Raises.refusal {c : ExceptionCause} (h : s.Raises tlb address writing c)
    (hs : s.InOrder view tenants seat) (hT : tenants space.pid = some ⟨space, memory⟩)
    (hseat : seat tlb = some space.pid) (hfits : space.pageCount * pageSize ≤ maxUserAddr) :
    (c = .tlbMiss ∧ address.val ≤ maxUserAddr ∧
        ∀ n, (s.slot tlb n).valid = true → (s.slot tlb n).page ≠ address.page) ∨
      ((c = .addressError ∨ c = .readOnly) ∧ space.refusal writing address.page = some c) := by
  cases h with
  | missing haddress habsent => exact Or.inl ⟨rfl, haddress, habsent⟩
  | outside haddress =>
      have houtside := AddressSpace.contains_of_lt hfits haddress
      exact Or.inr ⟨Or.inl rfl, AddressSpace.refusal_outside houtside⟩
  | readOnly _ hmaps hpage hwriting hreadOnly =>
      obtain ⟨hcontains, hsealed⟩ := hs.contains_of_slot hT hseat hmaps hpage
      rw [hwriting]
      exact Or.inr ⟨Or.inr rfl, AddressSpace.refusal_sealed hcontains (hsealed.symm.trans hreadOnly)⟩

end Paging

/-! ## Misses -/

/-- **A miss is resolved exactly if the page lies in the address space**, and then the TLB holds
the page. -/
theorem Kernel.handleMiss_reach {k k' : Kernel F} {tlb : TlbId} {space : AddressSpace}
    {strategy : Strategy} {address : VirtAddr} {r : Except Failure Nat}
    (hk : k.InOrder view tenants seat) (hv : k.Supplies v space strategy)
    (hT : tenants space.pid = some ⟨space, memory⟩)
    (hlive : k.core.tlbs.live tlb = true) (haddress : address.val ≤ maxUserAddr)
    (h : k.handleMiss tlb space strategy address = (r, k')) :
    (space.contains address.page = true ∧ (∃ i, r = .ok i) ∧ k'.Holds tlb address.page) ∨
      (space.contains address.page = false ∧
        r = .error (.error (.invalidAddress address.page.base.val))) := by
  have hcount := (hk.lodged.space hT).2.1
  obtain ⟨-, -, m, hmoves, ⟨why, rfl, -, hwhy⟩ |
    ⟨e, i, u, rfl, -, -, he, hrange, hinstalled, hquiet⟩⟩ := handleMiss_spec hk.toAgrees h
  · obtain ⟨err, rfl, ⟨hlt, -⟩ | hunfound⟩ := hwhy (hv.slots hlive)
    · exact absurd hlt (Nat.not_lt_of_le haddress)
    · obtain ⟨houtside, rfl⟩ := hunfound.outside hk.toConsistent hv hcount
      exact Or.inr ⟨houtside, rfl⟩
  · obtain ⟨hpage, f, hmaps, -⟩ := (hmoves.agrees hk.toAgrees).entry he
    have hslot : k'.slot tlb i = e := by
      rw [hquiet.slot, hinstalled.slot, if_pos ⟨rfl, rfl⟩]
    refine Or.inl ⟨contains_of_inRange hcount hrange, ⟨i, rfl⟩, i, f, ?_, ?_⟩
    · rw [hslot]
      exact hmaps
    · rw [hslot]
      exact hpage

namespace Context

variable {x y z : Context F}

/-- A process works at its processor, and nothing runs out for it. -/
structure Works (v : ReliableView F) (view : Option (FileView F)) (tenants : Pid → Option Tenant)
    (seat : TlbId → Option Pid) (memory : Memory) (x : Context F) : Prop where
  inOrder : x.kernel.InOrder view tenants seat
  supplies : x.kernel.Supplies v x.process.space x.process.strategy
  tenant : tenants x.process.pid = some ⟨x.process.space, memory⟩
  seated : seat x.cpu.tlb = some x.process.pid
  live : x.kernel.core.tlbs.live x.cpu.tlb = true
  running : x.process.exitCode = none
  fits : x.process.space.pageCount * pageSize ≤ maxUserAddr

namespace Works

theorem pid (hx : x.Works v view tenants seat memory) : x.process.space.pid = x.process.pid :=
  (hx.inOrder.lodged.space hx.tenant).1

theorem tenant' (hx : x.Works v view tenants seat memory) :
    tenants x.process.space.pid = some ⟨x.process.space, memory⟩ := by
  rw [hx.pid]
  exact hx.tenant

theorem seated' (hx : x.Works v view tenants seat memory) :
    seat x.cpu.tlb = some x.process.space.pid := by
  rw [hx.pid]
  exact hx.seated

/-- The process goes on, with what it has in its plain memory now. -/
theorem resumes {tenants' : Pid → Option Tenant} {memory' : Memory}
    (hx : x.Works v view tenants seat memory) (h : Resumes x y)
    (hy : y.kernel.InOrder view tenants' seat)
    (hT : tenants' x.process.pid = some ⟨x.process.space, memory'⟩)
    (hevolves : Evolves x y) : y.Works v view tenants' seat memory' where
  inOrder := hy
  supplies := by
    rw [h.process]
    refine hx.supplies.changes hx.inOrder.toConsistent hevolves.kernel.changes
      (fun _ hpins => by cases hpins.1) fun hloses => hloses.2 ?_
    rw [h.process, hx.running]
  tenant := h.process ▸ hT
  seated := by rw [h.tlb, h.process, hx.seated]
  live := by rw [h.tlb, h.kernel.live, hx.live]
  running := h.process ▸ hx.running
  fits := h.process ▸ hx.fits

end Works

/-- **A page that the TLB lacks is resolved, or is the end of the process.** -/
theorem handlePage_reach {r : Except Halt TrapOutcome} (hx : x.Works v view tenants seat memory)
    (haddress : x.cpu.badAddress.val ≤ maxUserAddr)
    (habsent : ∀ n, (x.kernel.slot x.cpu.tlb n).valid = true →
      (x.kernel.slot x.cpu.tlb n).page ≠ x.cpu.badAddress.page) (h : x.handlePage = (r, y)) :
    (x.process.space.contains x.cpu.badAddress.page = true ∧ r = .ok .resume ∧
        y.kernel.Holds x.cpu.tlb x.cpu.badAddress.page) ∨
      (x.process.space.contains x.cpu.badAddress.page = false ∧
        r = .ok (.terminated .addressError killedStatus)) := by
  unfold handlePage at h
  dsimp only at h
  cases hm : x.kernel.handleMiss x.cpu.tlb x.process.space x.process.strategy x.cpu.badAddress with
  | mk r' k =>
      rw [hm] at h
      rcases handleMiss_reach hx.inOrder hx.supplies hx.tenant' hx.live haddress hm with
        ⟨hcontains, ⟨i, rfl⟩, hholds⟩ | ⟨houtside, rfl⟩
      · obtain ⟨rfl, rfl⟩ := Prod.mk.inj h
        exact Or.inl ⟨hcontains, rfl, hholds⟩
      · obtain ⟨-, hk⟩ := handleMiss_inOrder hx.inOrder hx.tenant' hx.seated' habsent hm
        obtain ⟨rfl, -⟩ := note_terminate_ended (x := { x with kernel := k }) hk hx.seated h
        exact Or.inr ⟨houtside, rfl⟩

/-- Any other exception of a translation is the end of the process. -/
theorem handleTrap_refused {c : ExceptionCause} {r : Except Halt TrapOutcome}
    (hx : x.Works v view tenants seat memory) (hc : c = .addressError ∨ c = .readOnly)
    (h : x.handleTrap c.code = (r, y)) : r = .ok (.terminated c killedStatus) := by
  rcases hc with rfl | rfl
  · exact (note_terminate_ended hx.inOrder hx.seated h).1
  · exact (note_terminate_ended hx.inOrder hx.seated h).1

/-- **An exception that a translation raises** is resolved, and the TLB holds the page then; or the
address space refuses the access, and that is the end of the process. -/
theorem handleTrap_reach {c : ExceptionCause} {writing : Bool} {r : Except Halt TrapOutcome}
    (hx : x.Works v view tenants seat memory)
    (hraises : x.kernel.Raises x.cpu.tlb x.cpu.badAddress writing c)
    (h : x.handleTrap c.code = (r, y)) :
    (¬ x.kernel.Holds x.cpu.tlb x.cpu.badAddress.page ∧ r = .ok .resume ∧
        y.process = x.process ∧ y.Works v view tenants seat memory ∧
        y.kernel.Holds y.cpu.tlb x.cpu.badAddress.page) ∨
      ∃ cause, x.process.space.refusal writing x.cpu.badAddress.page = some cause ∧
        r = .ok (.terminated cause killedStatus) := by
  rcases hraises.refusal hx.inOrder hx.tenant' hx.seated' hx.fits with
    ⟨rfl, haddress, habsent⟩ | ⟨hc, hrefused⟩
  · rcases handlePage_reach hx haddress habsent h with ⟨-, rfl, hholds⟩ | ⟨houtside, rfl⟩
    · have hhandled := handlePage_inOrder hx.inOrder hx.tenant hx.seated habsent h
      cases hhandled with
      | resume hy horder =>
          refine Or.inl ⟨?_, rfl, hy.process, ?_, ?_⟩
          · rintro ⟨n, f, hmaps, hslot⟩
            exact habsent n (Translation.valid_of_maps hmaps) hslot
          · exact hx.resumes hy horder hx.tenant (handlePage_evolves hx.inOrder.toConsistent h)
          · rw [hy.tlb]
            exact hholds
    · exact Or.inr ⟨_, AddressSpace.refusal_outside houtside, rfl⟩
  · exact Or.inr ⟨c, hrefused, handleTrap_refused hx hc h⟩

/-! ## The end of a process -/

/-- **A process is ended without an error exactly if it still has its address space.** -/
theorem exit_reach {status : Int} {r : Except Failure Unit}
    (hx : x.kernel.InOrder view tenants seat) (h : x.exit status = (r, y)) :
    r = match tenants x.process.pid with
      | some _ => .ok ()
      | none => .error (.error (.noAddressSpace x.process.pid)) := by
  have hsame : x.unschedule.kernel.core.spaces = x.kernel.core.spaces ∧
      x.unschedule.process = x.process := by
    unfold unschedule
    split <;> exact ⟨rfl, rfl⟩
  obtain ⟨hspaces, hprocess⟩ := hsame
  have hagrees := ((unschedule_adjusted x).consistent hx.toConsistent).toAgrees
  unfold exit at h
  dsimp only at h
  rw [hprocess] at h
  cases hd : x.unschedule.kernel.destroySpace x.process.pid with
  | mk r' k =>
      rw [hd] at h
      obtain ⟨-, -, ⟨rfl, hdestroyed⟩ | ⟨rfl, hnot, -⟩⟩ := destroySpace_spec hagrees hd
      · obtain ⟨hmem, -⟩ := hdestroyed
        rw [hspaces] at hmem
        obtain ⟨T, hT⟩ := hx.lodged.tenant hmem
        rw [hT]
        exact (Prod.mk.inj h).1.symm
      · rw [hspaces] at hnot
        have hnone : tenants x.process.pid = none := by
          rw [Option.eq_none_iff_forall_ne_some]
          intro T hT
          exact hnot (Std.ExtTreeMap.mem_iff_isSome_getElem?.2
            (Option.isSome_of_eq_some (hx.lodged.space hT).2.1))
        rw [hnone]
        exact (Prod.mk.inj h).1.symm

/-! ## Loads and stores -/

/-- What comes of an access to a page that is refused, or is not. -/
inductive Met : Option ExceptionCause → Except Halt (Except ExceptionCause Bytes) → Prop
  | granted (bytes : Bytes) : Met none (.ok (.ok bytes))
  | refused (cause : ExceptionCause) : Met (some cause) (.ok (.error cause))

/-- **One try of an access** gets what the address space says, unless the TLB lacks the page; then
the exception is handled, and the access is tried again. -/
theorem accessPiece_try {q : Piece} {attempts : Nat}
    {r : Except Halt (Except ExceptionCause Bytes)} (hx : x.Works v view tenants seat memory)
    (hpage : q.address.offset + q.size ≤ pageSize)
    (hdata : ∀ data, access = .store data → q.place + q.size ≤ data.size)
    (h : accessPiece access q (attempts + 1) x = (r, y)) :
    Met (x.process.space.refusal access.writing q.address.page) r ∨
      (¬ x.kernel.Holds x.cpu.tlb q.address.page ∧
        ∃ z, z.process = x.process ∧ z.Works v view tenants seat memory ∧
          z.kernel.Holds z.cpu.tlb q.address.page ∧ accessPiece access q attempts z = (r, y)) := by
  unfold accessPiece at h
  cases ht : x.kernel.translate x.cpu q.address access.writing with
  | mk r' rest =>
      obtain ⟨k, cpu⟩ := rest
      rw [ht] at h
      dsimp only at h
      obtain ⟨hconfig, hpids, ⟨i, f, rfl, rfl, -, hmaps, hslot, hro, hhit⟩ |
        ⟨c, rfl, rfl, hquiet, hraises⟩⟩ := Kernel.translate_spec ht
      · dsimp only at h
        cases hm : touchMemory (({ x with kernel := k } : Context F).record
            (.accessed ⟨x.process.pid, q.address.page⟩ access.writing)) access q
            (f.byte q.address.offset) with
        | mk b z =>
            rw [hm] at h
            obtain ⟨old, rfl, -, -⟩ := accessed_inOrder hx.inOrder hx.tenant hx.seated hpage hdata
              hmaps hslot hro hhit hconfig hpids hm
            obtain ⟨rfl, rfl⟩ := Prod.mk.inj h
            obtain ⟨hcontains, hsealed⟩ :=
              hx.inOrder.contains_of_slot hx.tenant' hx.seated' hmaps hslot
            rw [hsealed] at hro
            rw [AddressSpace.refusal_granted hcontains hro]
            exact Or.inl (.granted _)
      · have hk := hx.inOrder.quiet hquiet
        have hresumes : Resumes x { x with kernel := k, cpu := x.cpu.raise c q.address } :=
          ⟨⟨hquiet.toSameShape, hconfig, hpids⟩, rfl, rfl, rfl⟩
        have hx' := hx.resumes hresumes hk hx.tenant
          ⟨⟨rfl, rfl, rfl, rfl, id⟩, .quiet hquiet (Kernel.translate_posted ht) hconfig hpids⟩
        dsimp only at h
        cases hh : handleTrap { x with kernel := k, cpu := x.cpu.raise c q.address } c.code with
        | mk o z =>
            rw [hh] at h
            have hraised : k.Raises x.cpu.tlb q.address access.writing c := hquiet.raises hraises
            rcases handleTrap_reach hx' hraised hh with
              ⟨habsent, rfl, hz, hworks, hholds⟩ | ⟨cause, hrefused, rfl⟩
            · refine Or.inr ⟨?_, z, hz, hworks, hholds, h⟩
              rintro ⟨n, f, hmaps, hslot⟩
              rw [← hquiet.slot] at hmaps hslot
              exact habsent ⟨n, f, hmaps, hslot⟩
            · obtain ⟨rfl, rfl⟩ := Prod.mk.inj h
              have hrefused' : x.process.space.refusal access.writing q.address.page =
                  some cause := hrefused
              rw [hrefused']
              exact Or.inl (.refused cause)

/-- **Two tries are enough** for every page. -/
theorem accessPiece_reach {q : Piece} {attempts : Nat}
    {r : Except Halt (Except ExceptionCause Bytes)} (hx : x.Works v view tenants seat memory)
    (hpage : q.address.offset + q.size ≤ pageSize)
    (hdata : ∀ data, access = .store data → q.place + q.size ≤ data.size)
    (h : accessPiece access q (attempts + 2) x = (r, y)) :
    Met (x.process.space.refusal access.writing q.address.page) r := by
  rcases accessPiece_try hx hpage hdata h with hmet | ⟨-, z, hz, hworks, hholds, hagain⟩
  · exact hmet
  · rcases accessPiece_try hworks hpage hdata hagain with hmet | ⟨habsent, -⟩
    · rwa [hz] at hmet
    · exact absurd hholds habsent

/-- **The pieces of a range are accessed as far as the address space reaches.** -/
theorem accessPieces_reach {a stop : Nat} {qs : List Piece} {moved : Bytes}
    {r : Except Halt Accessed} (hqs : Pieces a moved.size stop qs)
    (hdata : ∀ data, access = .store data → stop ≤ data.size)
    (hmoved : access.Moved (∃ w, view = some w) memory a moved)
    (hx : x.Works v view (Function.update tenants x.process.pid
      (some ⟨x.process.space, access.after memory a moved⟩)) seat (access.after memory a moved))
    (h : accessPieces access qs moved x = (r, y)) :
    ∃ b, r = .ok b ∧
      b.moved.size = moved.size + (x.process.space.reach access.writing qs).1 ∧
      b.cause = (x.process.space.reach access.writing qs).2.map (·.2) := by
  induction qs generalizing x moved with
  | nil => exact ⟨{ moved }, (Prod.mk.inj h).1.symm, rfl, rfl⟩
  | cons q qs ih =>
      unfold accessPieces at h
      cases ha : accessPiece access q maxAttempts x with
      | mk b z =>
          rw [ha] at h
          obtain ⟨hpage, hfits⟩ := hqs.fits hdata
          have htries : accessPiece access q (1 + 2) x = (b, z) := ha
          have hmet := accessPiece_reach hx hpage hfits htries
          generalize hrefusal : x.process.space.refusal access.writing q.address.page = refusal
            at hmet
          cases hmet with
          | refused cause =>
              refine ⟨_, (Prod.mk.inj h).1.symm, ?_, ?_⟩
              · rw [AddressSpace.reach_of_refused hrefusal]
                rfl
              · rw [AddressSpace.reach_of_refused hrefusal]
                rfl
          | granted bytes =>
              obtain ⟨old, hbytes, hz, hturned⟩ | ⟨cause, hcause, -⟩ :=
                accessPiece_inOrder hx.inOrder (Function.update_self _ _ _) hx.seated hpage hfits ha
              · obtain rfl := Except.ok.inj hbytes
                obtain ⟨_, rfl, hrest, hmoved', hnext⟩ := hturned.append hqs hdata hmoved
                rw [← hz.process] at hnext
                have hworks := hx.resumes hz hnext (by rw [← hz.process, Function.update_self])
                  (accessPiece_evolves hx.inOrder.toConsistent ha)
                obtain ⟨b, rfl, hsize, hstop⟩ := ih hrest hmoved' hworks h
                rw [hz.process] at hsize hstop
                rw [AddressSpace.reach_of_granted hrefusal]
                refine ⟨b, rfl, ?_, hstop⟩
                rw [hsize, Array.size_append, Page.slice,
                  Bytes.size_slice (by rw [Vector.size_toArray]; exact hpage), Nat.add_assoc]
              · cases hcause

/-- What a load or store of a program at some addresses comes to. -/
def accesses (space : AddressSpace) (memory : Memory) (address : VirtAddr) (count : Nat)
    (access : Access) : Accessed :=
  let (n, stop) := space.reach access.writing (pieces address count)
  { moved := match access with
      | .load => memory.read ⟨address.val⟩ n
      | .store data => Bytes.slice data 0 n
    cause := stop.map (·.2) }

/-- **A load or store of a program is known from its plain memory and its address space.** -/
theorem userAccess_reach {address : VirtAddr} {count : Nat} {r : Except Halt Accessed}
    (hx : x.Works v (some v.toFileView) tenants seat memory)
    (hdata : ∀ data, access = .store data → count ≤ data.size)
    (h : x.userAccess address count access = (r, y)) :
    r = .ok (accesses x.process.space memory address count access) := by
  have hqs : Pieces address.val (#[] : Bytes).size count (pieces address count) :=
    pieces_spec address count
  have hstart : x.kernel.InOrder (some v.toFileView) (Function.update tenants x.process.pid
      (some ⟨x.process.space, access.after memory address.val #[]⟩)) seat :=
    hx.inOrder.tenant_congr hx.tenant rfl (access.frameCount_after _ _ _) fun q =>
      access.frame_after_empty memory address.val q.val
  have hworks := hx.resumes (.refl x) hstart (Function.update_self _ _ _) (.refl x)
  obtain ⟨b, rfl, hsize, hcause⟩ := accessPieces_reach hqs hdata
    (access.moved_empty _ memory address.val) hworks h
  obtain ⟨hmoved, -⟩ := userAccess_inOrder hx.inOrder hx.tenant hx.seated hdata h
  rw [Array.size_empty, Nat.zero_add] at hsize
  have hbytes : b.moved = (accesses x.process.space memory address count access).moved := by
    cases access with
    | load => rw [hmoved.load ⟨_, rfl⟩ rfl, hsize, accesses]
    | store data => rw [hmoved.store rfl, hsize, accesses]
  obtain ⟨moved, cause⟩ := b
  obtain rfl : moved = _ := hbytes
  obtain rfl : cause = _ := hcause
  rfl

end Context

end DemandPaging
