import DemandPaging.Proofs.MirrorSteps
import DemandPaging.Proofs.Teardown

/-!
# What the kernel does for a page, step by step

A TLB miss and an access of the kernel itself both look for the entry of a page first, which
may take any number of steps of the pager, and then do one thing with it.

* `Kernel.handleMiss_spec` — the entry is put into a slot of the TLB.
* `Kernel.accessPage_spec` — the page is read or replaced, and its entry takes note.
-/

namespace DemandPaging

namespace Paging

variable {F : Type}

/-- The kernel reads or replaces a page, and the entry takes note of it. -/
structure Copied (s t : Paging F) (key : PageKey) (f : FrameNumber) (writing : Bool)
    (page : Page) : Prop extends SameShape s t where
  entry : ∀ k, t.entry k =
    if k = key then (s.entry k).map (·.touch writing) else s.entry k
  owner : ∀ g, t.owner g = s.owner g
  slot : ∀ id i, t.slot id i = s.slot id i
  frame : ∀ g, t.frame g = if g = f then page else s.frame g
  swap : t.swap = s.swap
  history : t.history = .accessed key writing :: s.history
  spaces : t.core.spaces = s.core.spaces

/-- A program reads or writes on a page through a copy of its entry, which takes note of it. -/
structure Used (s t : Paging F) (key : PageKey) (id : TlbId) (i : Nat) (f : FrameNumber)
    (writing : Bool) (page : Page) : Prop extends SameShape s t where
  entry : ∀ k, t.entry k = s.entry k
  owner : ∀ g, t.owner g = s.owner g
  slot : ∀ j n, t.slot j n = if j = id ∧ n = i then (s.slot j n).touch writing else s.slot j n
  frame : ∀ g, t.frame g = if g = f then page else s.frame g
  swap : t.swap = s.swap
  history : t.history = .accessed key writing :: s.history
  spaces : t.core.spaces = s.core.spaces

/-- The pager is asked for the entry of a page, and finds none. -/
def Unfound [BackingFile F] (s : Paging F) (strategy : Strategy) (tlb : TlbId) (retries : Nat)
    (space : AddressSpace) (p : PageNumber) (err : PagingError) (t : Paging F) : Prop :=
  ∃ a, Quiet s a ∧ a.translate strategy tlb retries space p = (.error err, t)

theorem SameShape.mem_attached {s t : Paging F} (h : SameShape s t) {id : TlbId}
    (hid : id ∈ s.attached) (hsize : 0 < (t.core.tlbs.tlb id).size) : id ∈ t.attached := by
  refine h.attached id hid ?_
  rw [← h.live]
  exact TlbBank.live_of_size_pos hsize

end Paging

namespace Kernel

open Paging

variable {F : Type} [BackingFile F] {k k' : Kernel F} {tlb : TlbId} {space : AddressSpace}
  {strategy : Strategy}

/-- **A miss is resolved by an entry of the page table**, which is put into a slot of the TLB. -/
theorem handleMiss_spec {address : VirtAddr} {r : Except Failure Nat} (hk : k.Agrees)
    (h : k.handleMiss tlb space strategy address = (r, k')) :
    k'.config = k.config ∧ k'.pids = k.pids ∧ ∃ m, Moves space false k.toPaging m ∧
      ((∃ why, r = .error why ∧ k'.toPaging = m ∧
          (0 < (k.core.tlbs.tlb tlb).size → ∃ err, why = .error err ∧
            ((maxUserAddr < address.val ∧ err = .invalidAddress address.val) ∨
              Unfound k.toPaging strategy tlb k.config.victimRetries space address.page err m))) ∨
        ∃ e i u, r = .ok i ∧ address.val ≤ maxUserAddr ∧ tlb ∈ m.attached ∧ m.entry (space.key address.page) = some e ∧
          k.InRange (space.key address.page) ∧ Installed m u tlb space.pid e i ∧
          Quiet u k'.toPaging) := by
  unfold handleMiss at h
  split at h
  · rename_i haddress
    obtain ⟨rfl, rfl⟩ := Prod.mk.inj h
    exact ⟨rfl, rfl, _, .refl, Or.inl ⟨_, rfl, rfl, fun _ => ⟨_, rfl, Or.inl ⟨haddress, rfl⟩⟩⟩⟩
  · rename_i haddress
    dsimp only at h
    have hcount := quiet_count k.toPaging fun c => { c with tlbMisses := c.tlbMisses + 1 }
    have hattach := quiet_attach (k.toPaging.count fun c => { c with tlbMisses := c.tlbMisses + 1 })
      tlb
    have hid := mem_attached_attach (k.toPaging.count fun c => { c with tlbMisses := c.tlbMisses + 1 })
      tlb
    have hquiet := hcount.trans hattach
    generalize (k.toPaging.count fun c => { c with tlbMisses := c.tlbMisses + 1 }).attach tlb = s
      at h hquiet hid
    have hstart : Moves space false k.toPaging s := .single (.quiet hquiet)
    cases ht : s.translate strategy tlb k.config.victimRetries space address.page with
    | mk r' m =>
        rw [ht] at h
        obtain ⟨hmoves, hentry⟩ := Paging.translate_spec (hstart.agrees hk) ht
        have hall : Moves space false k.toPaging m := hstart.trans hmoves
        cases r' with
        | error err =>
            obtain ⟨rfl, rfl⟩ := Prod.mk.inj h
            exact ⟨rfl, rfl, m, hall, Or.inl ⟨_, rfl, rfl, fun _ => ⟨_, rfl, Or.inr ⟨s, hquiet, ht⟩⟩⟩⟩
        | ok e =>
            obtain ⟨he, hrange⟩ := hentry e rfl
            dsimp only at h
            cases hi : m.install tlb space.pid e with
            | mk x u =>
                rw [hi] at h
                rcases install_spec hi with ⟨hsize, rfl, rfl⟩ | ⟨i, hlt, rfl, hinst⟩
                · obtain ⟨rfl, rfl⟩ := Prod.mk.inj h
                  refine ⟨rfl, rfl, u, hall, Or.inl ⟨_, rfl, rfl, fun hpos => ?_⟩⟩
                  rw [← hall.sameShape.size, hsize] at hpos
                  exact absurd hpos (Nat.lt_irrefl 0)
                · obtain ⟨rfl, rfl⟩ := Prod.mk.inj h
                  refine ⟨rfl, rfl, m, hall, Or.inr ⟨e, i, u, rfl, Nat.le_of_not_lt haddress, ?_, he, ?_,
                    hinst, quiet_note _ _⟩⟩
                  · exact hmoves.sameShape.mem_attached hid (by omega)
                  · rwa [InRange, hstart.spaces] at hrange

/-- **The kernel gets at a page through the entry that the page table has for it.** -/
theorem accessPage_spec {p : PageNumber} {writing : Bool} {change : Page → Page}
    {r : Except Failure (Option Page)} (hk : k.Agrees)
    (h : k.accessPage tlb space strategy p writing change = (r, k')) :
    k'.config = k.config ∧ k'.pids = k.pids ∧ ∃ m, Moves space false k.toPaging m ∧
      ((∃ err, r = .error (.error err) ∧ k'.toPaging = m ∧
          Unfound k.toPaging strategy tlb k.config.victimRetries space p err m) ∨
        (r = .ok none ∧ k'.toPaging = m ∧ writing = true ∧ k.InRange (space.key p) ∧
          ∃ e, m.entry (space.key p) = some e ∧ e.flags.readOnly = true) ∨
        ∃ e f, r = .ok (some (change (m.frame f))) ∧ m.entry (space.key p) = some e ∧
          e.maps f = true ∧ ¬ (writing = true ∧ e.flags.readOnly = true) ∧
          k.InRange (space.key p) ∧
          Paging.Copied m k'.toPaging (space.key p) f writing (change (m.frame f))) := by
  unfold accessPage at h
  dsimp only at h
  have hquiet := quiet_attach k.toPaging tlb
  generalize k.toPaging.attach tlb = s at h hquiet
  have hstart : Moves space false k.toPaging s := .single (.quiet hquiet)
  cases ht : s.translate strategy tlb k.config.victimRetries space p with
  | mk r' m =>
      rw [ht] at h
      obtain ⟨hmoves, hentry⟩ := Paging.translate_spec (hstart.agrees hk) ht
      have hall : Moves space false k.toPaging m := hstart.trans hmoves
      have hm := hall.agrees hk
      cases r' with
      | error err =>
          obtain ⟨rfl, rfl⟩ := Prod.mk.inj h
          exact ⟨rfl, rfl, m, hall, Or.inl ⟨err, rfl, rfl, s, hquiet, ht⟩⟩
      | ok e =>
          obtain ⟨he, hrange⟩ := hentry e rfl
          rw [InRange, hstart.spaces, ← InRange] at hrange
          dsimp only at h
          split at h
          · rename_i hro
            rw [Bool.and_eq_true] at hro
            obtain ⟨rfl, rfl⟩ := Prod.mk.inj h
            exact ⟨rfl, rfl, m, hall, Or.inr (Or.inl ⟨rfl, rfl, hro.1, hrange, e, he, hro.2⟩)⟩
          · rename_i hro
            obtain ⟨-, f, hf, hheld⟩ := hm.entry he
            obtain ⟨o, ho, -⟩ := holder_eq_some.1 hheld
            have hlt := hm.lt_frameCount ho
            rw [(Translation.maps_iff.1 hf).2] at h
            dsimp only at h
            rw [show m.core.memory.frame? f = some (m.frame f) from if_pos hlt] at h
            obtain ⟨rfl, rfl⟩ := Prod.mk.inj h
            refine ⟨rfl, rfl, m, hall,
              Or.inr (Or.inr ⟨e, f, rfl, he, hf, fun hw => hro ?_, hrange, ?_⟩)⟩
            · rw [hw.1, hw.2]
              rfl
            · refine ⟨sameShape_of_tlbs rfl rfl (Memory.frameCount_setFrame _ _ _), fun l => ?_,
                fun _ => rfl, fun _ _ => rfl, fun g => ?_, rfl, rfl, rfl⟩
              · refine (PageTable.getElem?_update _ _ _ _).trans ?_
                simp only [eq_comm (a := l)]
                rfl
              · refine (Memory.frame_setFrame _ _ _ _ hlt).trans ?_
                simp only [eq_comm (a := g)]
                rfl

end Kernel

end DemandPaging
