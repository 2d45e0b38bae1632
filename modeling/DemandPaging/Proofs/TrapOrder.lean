import DemandPaging.Proofs.KernelOrder
import DemandPaging.Proofs.MachineChanges

/-!
# Traps keep everything in order

A process that traps goes on where it was, or it is ended and all its pages are gone.  While it
goes on, its loads yield the bytes of its plain memory, and its stores change them.

* `Context.exit_ended` — the end of a process.
* `Context.handleTrap_inOrder` — one exception.
* `Context.accessPiece_inOrder`, `Context.userAccess_inOrder` — loads and stores.
-/

namespace DemandPaging

open Paging Kernel

variable {F : Type}

namespace Context

variable {x y z : Context F}

/-- The process goes on, on the same processor. -/
structure Resumes (x y : Context F) : Prop where
  kernel : Kernel.Stays x.kernel y.kernel
  tlb : y.cpu.tlb = x.cpu.tlb
  running : y.cpu.running = x.cpu.running
  process : y.process = x.process

theorem Resumes.refl (x : Context F) : Resumes x x := ⟨.refl _, rfl, rfl, rfl⟩

theorem Resumes.trans (h : Resumes x y) (h' : Resumes y z) : Resumes x z :=
  ⟨h.kernel.trans h'.kernel, h'.tlb.trans h.tlb, h'.running.trans h.running,
    h'.process.trans h.process⟩

theorem Resumes.note (x : Context F) (e : Event) : Resumes x (x.note e) :=
  ⟨.note _ _, rfl, rfl, rfl⟩

/-! ## Touching memory -/

/-- **An access to a frame does to it what it does to a page**, and yields the bytes that are there
afterwards. -/
theorem touchMemory_spec {access : Access} {q : Piece} {f : FrameNumber} {r : Except Halt Bytes}
    (hf : f.val < x.kernel.core.memory.frameCount)
    (hfits : x.kernel.core.memory.frameCount * pageSize < wordLimit)
    (hpage : q.address.offset + q.size ≤ pageSize)
    (hdata : ∀ data, access = .store data → q.place + q.size ≤ data.size)
    (h : x.touchMemory access q (f.byte q.address.offset) = (r, y)) :
    r = .ok ((access.change q (x.kernel.frame f)).slice q.address.offset q.size) ∧
      ∃ memory : Memory, memory.frameCount = x.kernel.core.memory.frameCount ∧
        (∀ g, memory.frame g = if g = f then access.change q (x.kernel.frame f)
          else x.kernel.frame g) ∧
        y = { x with
          kernel := { x.kernel with core := { x.kernel.core with memory := memory } } } := by
  have hle : (f.val + 1) * pageSize ≤ x.kernel.core.memory.frameCount * pageSize :=
    Nat.mul_le_mul_right _ hf
  have haddress : f.byte q.address.offset = ⟨f.val * pageSize + q.address.offset⟩ := by
    rw [FrameNumber.byte, FrameNumber.base, Nat.mod_eq_of_lt]
    exact Nat.lt_of_le_of_lt (Nat.mul_le_mul_right _ (Nat.le_of_lt hf)) hfits
  have hcovers : x.kernel.core.memory.covers ⟨f.val * pageSize + q.address.offset⟩ q.size = true := by
    rw [Memory.covers, Memory.size, decide_eq_true_eq]
    simp only [pageSize] at *
    omega
  unfold touchMemory at h
  dsimp only at h
  rw [haddress, if_pos hcovers] at h
  cases access with
  | load =>
      obtain ⟨rfl, rfl⟩ := Prod.mk.inj h
      refine ⟨?_, _, rfl, fun g => ?_, rfl⟩
      · rw [Memory.read_page _ hpage q.address.offset_lt]
        rfl
      · split
        · rename_i hg
          rw [hg]
          rfl
        · rfl
  | store data =>
      obtain ⟨rfl, rfl⟩ := Prod.mk.inj h
      have hpiece : (Bytes.slice data q.place q.size).size = q.size :=
        Bytes.size_slice (hdata data rfl)
      refine ⟨?_, x.kernel.core.memory.write _ _, rfl, fun g => ?_, rfl⟩
      · have hback := slice_splice (x.kernel.frame f) (o := q.address.offset)
          (by rw [hpiece]; exact hpage)
        rw [hpiece] at hback
        exact congrArg _ hback.symm
      · have hsize : f.val * pageSize + q.address.offset + (Bytes.slice data q.place q.size).size ≤
            x.kernel.core.memory.size := by
          rw [hpiece, Memory.size]
          simp only [pageSize] at *
          omega
        refine (x.kernel.core.memory.frame_write (by rw [hpiece]; exact hpage) hsize g.val).trans ?_
        have hval : g.val = f.val ↔ g = f :=
          ⟨fun hval => by cases g; cases f; exact congrArg _ hval, congrArg _⟩
        simp only [hval]
        rfl

/-! ## The end of a process -/

variable [BackingFile F] {view : Option (FileView F)} {tenants : Pid → Option Tenant}
  {seat : TlbId → Option Pid} {memory : Memory} {access : Access}

/-- The process is ended with a status, and gone from all tables and TLBs. -/
structure Ended (view : Option (FileView F)) (tenants : Pid → Option Tenant)
    (seat : TlbId → Option Pid) (status : Int) (x y : Context F) : Prop where
  kernel : Kernel.Stays x.kernel y.kernel
  inOrder : y.kernel.InOrder view (Function.update tenants x.process.pid none)
    (unseat seat x.process.pid)
  tlb : y.cpu.tlb = x.cpu.tlb
  running : y.cpu.running = if x.cpu.running = some x.process.pid then none else x.cpu.running
  process : y.process = { x.process with exitCode := some status, snapshot := {} }

theorem Resumes.ended {status : Int} (h : Resumes x y) (h' : Ended view tenants seat status y z) :
    Ended view tenants seat status x z where
  kernel := h.kernel.trans h'.kernel
  inOrder := h.process ▸ h'.inOrder
  tlb := h'.tlb.trans h.tlb
  running := by rw [h'.running, h.running, h.process]
  process := h.process ▸ h'.process

theorem Ended.note {status : Int} (h : Ended view tenants seat status x y) (e : Event) :
    Ended view tenants seat status x (y.note e) :=
  ⟨h.kernel.trans (.note _ _), inOrder_note h.inOrder e, h.tlb, h.running, h.process⟩

/-- **A process can always be ended**, if no other has pages in the TLB of the processor that it
runs on. -/
theorem exit_ended {status : Int} {r : Except Failure Unit} (hx : x.kernel.InOrder view tenants seat)
    (hseat : x.cpu.running = some x.process.pid → ∀ p, seat x.cpu.tlb = some p → p = x.process.pid)
    (h : x.exit status = (r, y)) :
    Ended view tenants seat status x y ∧ ∀ why, r ≠ .error (.halt why) := by
  have hfirst : Lost x.kernel.toPaging x.unschedule.kernel.toPaging x.process.pid ∧
      x.unschedule.kernel.swap = x.kernel.swap ∧
      x.unschedule.kernel.core.spaces = x.kernel.core.spaces ∧ x.unschedule.kernel.Consistent := by
    have hc := (unschedule_adjusted x).consistent hx.toConsistent
    rcases unschedule_spec x with ⟨hrunning, hcleared, -⟩ | ⟨-, hsame⟩
    · exact ⟨hcleared.lost hx.coherent hx.toAgrees (hseat hrunning), hcleared.swap, hcleared.spaces,
        hc⟩
    · rw [hsame] at hc ⊢
      exact ⟨(quiet_refl _).toStill.lost, rfl, rfl, hc⟩
  have hrest : Kernel.Stays x.kernel x.unschedule.kernel ∧ x.unschedule.cpu.tlb = x.cpu.tlb ∧
      x.unschedule.cpu.running =
        (if x.cpu.running = some x.process.pid then none else x.cpu.running) ∧
      x.unschedule.process = x.process := by
    have hshape := hfirst.1.toSameShape
    unfold unschedule at hshape ⊢
    split
    · rename_i hrunning
      rw [if_pos hrunning] at hshape
      exact ⟨⟨hshape, rfl, rfl⟩, rfl, rfl, rfl⟩
    · exact ⟨.refl _, rfl, rfl, rfl⟩
  obtain ⟨hlost, hswap, hspaces, hc⟩ := hfirst
  obtain ⟨hstays, htlb, hrunning, hprocess⟩ := hrest
  unfold exit at h
  dsimp only at h
  cases hd : x.unschedule.kernel.destroySpace x.unschedule.process.pid with
  | mk r' k =>
      rw [hd] at h
      rw [hprocess] at hd
      obtain ⟨hstays', hgone, hk, hhalt⟩ := destroySpace_gone hc hd
      have hend := hx.gone (hlost.gone hswap hspaces hgone) hk
      cases r' with
      | error e =>
          obtain ⟨rfl, rfl⟩ := Prod.mk.inj h
          exact ⟨⟨hstays.trans hstays', hend, htlb, hrunning, by rw [hprocess]⟩, hhalt⟩
      | ok _ =>
          obtain ⟨rfl, rfl⟩ := Prod.mk.inj h
          exact ⟨⟨(hstays.trans hstays').trans (.note _ _), inOrder_note hend _, htlb, hrunning,
            by rw [← hprocess]; rfl⟩, nofun⟩

theorem terminate_ended {cause : ExceptionCause} {r : Except Halt TrapOutcome}
    (hx : x.kernel.InOrder view tenants seat)
    (hseat : x.cpu.running = some x.process.pid → ∀ p, seat x.cpu.tlb = some p → p = x.process.pid)
    (h : x.terminate cause = (r, y)) :
    r = .ok (.terminated cause killedStatus) ∧ Ended view tenants seat killedStatus x y := by
  unfold terminate at h
  cases he : x.exit killedStatus with
  | mk r' z =>
      rw [he] at h
      obtain ⟨hended, hhalt⟩ := exit_ended hx hseat he
      split at h <;> rename_i heq <;> obtain ⟨rfl, rfl⟩ := Prod.mk.inj heq
      · obtain ⟨rfl, rfl⟩ := Prod.mk.inj h
        exact ⟨rfl, hended⟩
      · exact absurd rfl (hhalt _)
      · obtain ⟨rfl, rfl⟩ := Prod.mk.inj h
        exact ⟨rfl, hended.note _⟩

/-- A process is ended after an exception was noted. -/
theorem note_terminate_ended {e : Event} {cause : ExceptionCause} {r : Except Halt TrapOutcome}
    (hx : x.kernel.InOrder view tenants seat) (hseat : seat x.cpu.tlb = some x.process.pid)
    (h : (x.note e).terminate cause = (r, y)) :
    r = .ok (.terminated cause killedStatus) ∧ Ended view tenants seat killedStatus x y := by
  have hnote : (x.note e).kernel.InOrder view tenants seat := inOrder_note hx e
  obtain ⟨hr, hended⟩ := terminate_ended hnote
    (fun _ p hp => Option.some.inj (hp.symm.trans hseat)) h
  exact ⟨hr, (Resumes.note x e).ended hended⟩

/-! ## The trap handler -/

/-- What comes of an exception: the process goes on as if nothing had happened, or is ended. -/
inductive Handled (view : Option (FileView F)) (tenants : Pid → Option Tenant)
    (seat : TlbId → Option Pid) (x y : Context F) : TrapOutcome → Prop
  | resume (hresumes : Resumes x y) (horder : y.kernel.InOrder view tenants seat) :
    Handled view tenants seat x y .resume
  | terminated {cause : ExceptionCause} {status : Int}
    (hended : Ended view tenants seat killedStatus x y) :
    Handled view tenants seat x y (.terminated cause status)

theorem handlePage_inOrder {o : TrapOutcome} (hx : x.kernel.InOrder view tenants seat)
    (hT : tenants x.process.pid = some ⟨x.process.space, memory⟩)
    (hseat : seat x.cpu.tlb = some x.process.pid)
    (habsent : ∀ n, (x.kernel.slot x.cpu.tlb n).valid = true →
      (x.kernel.slot x.cpu.tlb n).page ≠ x.cpu.badAddress.page)
    (h : x.handlePage = (.ok o, y)) : Handled view tenants seat x y o := by
  have hpid : x.process.space.pid = x.process.pid := (hx.lodged.space hT).1
  unfold handlePage at h
  dsimp only at h
  cases hm : x.kernel.handleMiss x.cpu.tlb x.process.space x.process.strategy x.cpu.badAddress with
  | mk r k =>
      rw [hm] at h
      obtain ⟨hstays, hk⟩ := handleMiss_inOrder hx (by rw [hpid]; exact hT)
        (by rw [hpid]; exact hseat) habsent hm
      have hresumes : Resumes x { x with kernel := k } := ⟨hstays, rfl, rfl, rfl⟩
      split at h <;> rename_i heq <;> obtain ⟨rfl, rfl⟩ := Prod.mk.inj heq
      · obtain ⟨ho, rfl⟩ := Prod.mk.inj h
        obtain rfl := Except.ok.inj ho
        exact .resume hresumes hk
      · cases (Prod.mk.inj h).1
      · split at h
        · cases (Prod.mk.inj h).1
        · obtain ⟨ho, hended⟩ := note_terminate_ended (x := { x with kernel := k }) hk hseat h
          obtain rfl := Except.ok.inj ho
          exact .terminated (hresumes.ended hended)

/-- **An exception that a translation raises** is resolved, or ends the process. -/
theorem handleTrap_inOrder {c : ExceptionCause} {o : TrapOutcome}
    (hx : x.kernel.InOrder view tenants seat)
    (hT : tenants x.process.pid = some ⟨x.process.space, memory⟩)
    (hseat : seat x.cpu.tlb = some x.process.pid)
    {writing : Bool} (hraises : x.kernel.Raises x.cpu.tlb x.cpu.badAddress writing c)
    (h : x.handleTrap c.code = (.ok o, y)) : Handled view tenants seat x y o := by
  cases hraises with
  | missing haddress habsent => exact handlePage_inOrder hx hT hseat habsent h
  | outside haddress =>
      obtain ⟨ho, hended⟩ := note_terminate_ended hx hseat h
      obtain rfl := Except.ok.inj ho
      exact .terminated hended
  | readOnly haddress hmaps hpage hwriting hreadOnly =>
      obtain ⟨ho, hended⟩ := note_terminate_ended hx hseat h
      obtain rfl := Except.ok.inj ho
      exact .terminated hended

/-! ## Loads and stores -/

/-- **A page that the TLB has is the one that the process has in mind**: its bytes are those of the
plain memory, and a store changes both. -/
theorem accessed_inOrder {q : Piece} {k : Kernel F} {i : Nat} {f : FrameNumber}
    {b : Except Halt Bytes} (hx : x.kernel.InOrder view tenants seat)
    (hT : tenants x.process.pid = some ⟨x.process.space, memory⟩)
    (hseat : seat x.cpu.tlb = some x.process.pid)
    (hpage : q.address.offset + q.size ≤ pageSize)
    (hdata : ∀ data, access = .store data → q.place + q.size ≤ data.size)
    (hmaps : (x.kernel.slot x.cpu.tlb i).maps f = true)
    (hslot : (x.kernel.slot x.cpu.tlb i).page = q.address.page)
    (hro : ¬ (access.writing = true ∧ (x.kernel.slot x.cpu.tlb i).flags.readOnly = true))
    (hhit : Hit x.kernel.toPaging k.toPaging x.cpu.tlb i access.writing)
    (hconfig : k.config = x.kernel.config) (hpids : k.pids = x.kernel.pids)
    (h : touchMemory (({ x with kernel := k } : Context F).record
      (.accessed ⟨x.process.pid, q.address.page⟩ access.writing)) access q
        (f.byte q.address.offset) = (b, y)) :
    ∃ old, b = .ok ((access.change q old).slice q.address.offset q.size) ∧ Resumes x y ∧
      Turned view tenants seat x.process.pid x.process.space memory q.address.page
        (access.change q) old y.kernel := by
  have hpage' : (x.kernel.slot x.cpu.tlb i).page =
      (⟨x.process.pid, q.address.page⟩ : PageKey).page := hslot
  obtain ⟨d, hd, -, hdf⟩ := hx.coherent.entry_of_slot hmaps hseat hpage'
  obtain ⟨o, ho, -⟩ := holder_eq_some.1 (hx.toAgrees.holder_of_maps hd hdf)
  have hin : q.address.page.val < memory.frameCount := by
    have hlt := hx.lodged.lt_of_inRange hT (hx.resident hd)
    rwa [(hx.lodged.space hT).2.2]
  have hfound : (∃ w, view = some w) →
      x.kernel.frame f = memory.frame ⟨q.address.page.val⟩ := by
    rintro ⟨w, hw⟩
    exact (hx.faithful hw).resident hd hdf hT
  have hcount : k.core.memory.frameCount = x.kernel.core.memory.frameCount := hhit.memory
  have hf : f.val < k.core.memory.frameCount := hcount ▸ hx.toAgrees.lt_frameCount ho
  have hfits : k.core.memory.frameCount * pageSize < wordLimit := hcount ▸ hx.fits
  obtain ⟨rfl, physical, hphysical, hframes, rfl⟩ :=
    touchMemory_spec (by exact hf) (by exact hfits) hpage hdata h
  have hframe : k.frame f = x.kernel.frame f := hhit.frame f
  have hnow : ∀ g, physical.frame g =
      if g = f then access.change q (x.kernel.frame f) else x.kernel.frame g := by
    intro g
    have hg : physical.frame g =
        if g = f then access.change q (k.frame f) else k.frame g := hframes g
    rw [hg, hhit.frame, hhit.frame]
  have hused : Used x.kernel.toPaging _ ⟨x.process.pid, q.address.page⟩ x.cpu.tlb i f
      access.writing (access.change q (x.kernel.frame f)) := hhit.used hphysical hnow
  refine ⟨x.kernel.frame f, by rw [← hframe]; rfl,
    ⟨⟨hused.toSameShape, hconfig, hpids⟩, rfl, rfl, rfl⟩, hin, hfound,
    fun memory' hcount' hframes' => ?_⟩
  refine hx.used hused hmaps hseat hslot hro hT rfl hcount' (fun {w} hw p => ?_)
    fun hw => Access.change_of_not_writing hw q _
  rw [hfound ⟨w, hw⟩]
  exact Tenant.page_of_frames hframes' p

/-- **What a program finds on a page is what its plain memory has there**, and what it makes of
the page is made of the plain memory, too; if it may not have the page it is ended. -/
theorem accessPiece_inOrder {q : Piece} {attempts : Nat} {r : Except ExceptionCause Bytes}
    (hx : x.kernel.InOrder view tenants seat)
    (hT : tenants x.process.pid = some ⟨x.process.space, memory⟩)
    (hseat : seat x.cpu.tlb = some x.process.pid)
    (hpage : q.address.offset + q.size ≤ pageSize)
    (hdata : ∀ data, access = .store data → q.place + q.size ≤ data.size)
    (h : accessPiece access q attempts x = (.ok r, y)) :
    (∃ old, r = .ok ((access.change q old).slice q.address.offset q.size) ∧ Resumes x y ∧
        Turned view tenants seat x.process.pid x.process.space memory q.address.page
          (access.change q) old y.kernel) ∨
      ∃ cause, r = .error cause ∧ Ended view tenants seat killedStatus x y := by
  induction attempts generalizing x with
  | zero =>
      unfold accessPiece at h
      cases ht : (x.note (.neverTranslated q.address x.process.pid)).terminate .busError with
      | mk r' z =>
          rw [ht] at h
          obtain ⟨rfl, hended⟩ := note_terminate_ended hx hseat ht
          obtain ⟨hr, rfl⟩ := Prod.mk.inj h
          exact Or.inr ⟨_, (Except.ok.inj hr).symm, hended⟩
  | succ n ih =>
      unfold accessPiece at h
      cases ht : x.kernel.translate x.cpu q.address access.writing with
      | mk r' rest =>
          obtain ⟨k, cpu⟩ := rest
          rw [ht] at h
          dsimp only at h
          obtain ⟨hconfig, hpids, ⟨i, f, rfl, rfl, -, hmaps, hslot, hro, hhit⟩ |
            ⟨c, rfl, rfl, hquiet, hraises⟩⟩ := Kernel.translate_spec ht
          · dsimp only at h
            cases hm : touchMemory (({ x with kernel := k } : Context F).record
                (.accessed ⟨x.process.pid, q.address.page⟩ access.writing)) access q
                (f.byte q.address.offset) with
            | mk b z =>
                rw [hm] at h
                obtain ⟨old, rfl, hresumes, hturned⟩ := accessed_inOrder hx hT hseat hpage hdata
                  hmaps hslot hro hhit hconfig hpids hm
                obtain ⟨hr, rfl⟩ := Prod.mk.inj h
                obtain rfl := Except.ok.inj hr
                exact Or.inl ⟨old, rfl, hresumes, hturned⟩
          · dsimp only at h
            have hk := hx.quiet hquiet
            have hresumes : Resumes x { x with kernel := k, cpu := x.cpu.raise c q.address } :=
              ⟨⟨hquiet.toSameShape, hconfig, hpids⟩, rfl, rfl, rfl⟩
            have hraised : k.Raises x.cpu.tlb q.address access.writing c := hquiet.raises hraises
            cases hh : handleTrap { x with kernel := k, cpu := x.cpu.raise c q.address } c.code with
            | mk o z =>
                rw [hh] at h
                cases o with
                | error why => cases (Prod.mk.inj h).1
                | ok o =>
                    have hhandled := handleTrap_inOrder
                      (x := { x with kernel := k, cpu := x.cpu.raise c q.address })
                      hk hT hseat hraised hh
                    cases hhandled with
                    | resume hz horder =>
                        have hall := hresumes.trans hz
                        have hrec := ih horder (by rw [hall.process]; exact hT)
                          (by rw [hall.tlb, hall.process]; exact hseat) h
                        rcases hrec with ⟨old, hr, hy, hturned⟩ | ⟨cause, hr, hended⟩
                        · rw [hall.process] at hturned
                          exact Or.inl ⟨old, hr, hall.trans hy, hturned⟩
                        · exact Or.inr ⟨cause, hr, hall.ended hended⟩
                    | terminated hended =>
                        obtain ⟨hr, rfl⟩ := Prod.mk.inj h
                        exact Or.inr ⟨_, (Except.ok.inj hr).symm, hresumes.ended hended⟩

/-- What a process had does not matter when it is gone. -/
theorem Ended.of_update {T : Option Tenant} {status : Int}
    (h : Ended view (Function.update tenants x.process.pid T) seat status x y) :
    Ended view tenants seat status x y := by
  have horder := h.inOrder
  rw [Function.update_idem] at horder
  exact ⟨h.kernel, horder, h.tlb, h.running, h.process⟩

/-- **The pieces of a range are accessed** as if the process had a plain memory of its own. -/
theorem accessPieces_inOrder {a stop : Nat} {qs : List Piece} {moved : Bytes} {r : Accessed}
    (hqs : Pieces a moved.size stop qs)
    (hdata : ∀ data, access = .store data → stop ≤ data.size)
    (hmoved : access.Moved (∃ w, view = some w) memory a moved)
    (hx : x.kernel.InOrder view (Function.update tenants x.process.pid
      (some ⟨x.process.space, access.after memory a moved⟩)) seat)
    (hseat : seat x.cpu.tlb = some x.process.pid)
    (h : accessPieces access qs moved x = (.ok r, y)) :
    access.Moved (∃ w, view = some w) memory a r.moved ∧
      ((r.cause = none ∧ r.moved.size = stop ∧ Resumes x y ∧
          y.kernel.InOrder view (Function.update tenants x.process.pid
            (some ⟨x.process.space, access.after memory a r.moved⟩)) seat) ∨
        (r.cause ≠ none ∧ Ended view tenants seat killedStatus x y)) := by
  induction qs generalizing x moved with
  | nil =>
      obtain ⟨hr, rfl⟩ := Prod.mk.inj h
      obtain rfl := Except.ok.inj hr
      cases hqs
      exact ⟨hmoved, Or.inl ⟨rfl, rfl, .refl x, hx⟩⟩
  | cons q qs ih =>
      unfold accessPieces at h
      cases ha : accessPiece access q maxAttempts x with
      | mk b z =>
          rw [ha] at h
          cases b with
          | error why => cases (Prod.mk.inj h).1
          | ok b =>
              obtain ⟨hpage, hfits⟩ := hqs.fits hdata
              rcases accessPiece_inOrder hx (Function.update_self _ _ _) hseat hpage hfits ha with
                ⟨old, rfl, hz, hturned⟩ | ⟨cause, rfl, hended⟩
              · obtain ⟨_, rfl, hrest, hmoved', hnext⟩ := hturned.append hqs hdata hmoved
                rw [← hz.process] at hnext
                obtain ⟨hmoved, hlast⟩ := ih hrest hmoved' hnext
                  (by rw [hz.tlb, hz.process]; exact hseat) h
                refine ⟨hmoved, ?_⟩
                rcases hlast with ⟨hcause, hsize, hy, hy'⟩ | ⟨hcause, hended⟩
                · rw [hz.process] at hy'
                  exact Or.inl ⟨hcause, hsize, hz.trans hy, hy'⟩
                · exact Or.inr ⟨hcause, hz.ended hended⟩
              · obtain ⟨hr, rfl⟩ := Prod.mk.inj h
                obtain rfl := Except.ok.inj hr
                exact ⟨hmoved, Or.inr ⟨(fun hcause => by cases hcause), hended.of_update⟩⟩

/-- **A load or store of a program** goes to its plain memory, as far as it gets. -/
theorem userAccess_inOrder {address : VirtAddr} {count : Nat} {r : Accessed}
    (hx : x.kernel.InOrder view tenants seat)
    (hT : tenants x.process.pid = some ⟨x.process.space, memory⟩)
    (hseat : seat x.cpu.tlb = some x.process.pid)
    (hdata : ∀ data, access = .store data → count ≤ data.size)
    (h : x.userAccess address count access = (.ok r, y)) :
    access.Moved (∃ w, view = some w) memory address.val r.moved ∧
      ((r.cause = none ∧ r.moved.size = count ∧ Resumes x y ∧
          y.kernel.InOrder view (Function.update tenants x.process.pid
            (some ⟨x.process.space, access.after memory address.val r.moved⟩)) seat) ∨
        (r.cause ≠ none ∧ Ended view tenants seat killedStatus x y)) := by
  have hqs : Pieces address.val (#[] : Bytes).size count (pieces address count) :=
    pieces_spec address count
  have hstart : x.kernel.InOrder view (Function.update tenants x.process.pid
      (some ⟨x.process.space, access.after memory address.val #[]⟩)) seat :=
    hx.tenant_congr hT rfl (access.frameCount_after _ _ _) fun q =>
      access.frame_after_empty memory address.val q.val
  exact accessPieces_inOrder hqs hdata (access.moved_empty _ memory address.val) hstart hseat h

end Context

end DemandPaging
