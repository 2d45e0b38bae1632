import DemandPaging.Proofs.PagerSteps
import DemandPaging.Kernel

/-!
# Taking pages and address spaces away

The resident pages of a process are removed one after the other.  When the last is gone, no
frame is left that the process has, so that nothing else is to be taken back.

* `Paging.removeResident_spec` — a process loses all its pages, and no other process any.
* `Paging.preload_spec` — a preload that fails is undone.
* `Kernel.destroySpace_spec` — a registered address space is always taken away.
-/

namespace DemandPaging

namespace Paging

variable {F : Type}

/-! ## Steps of a removal -/

/-- One step while the pages of a process are removed. -/
inductive Removal (pid : Pid) : Paging F → Paging F → Prop
  | quiet {s t} (h : Quiet s t) : Removal pid s t
  | removed {s t key f} (hkey : key.pid = pid) (h : Removed s t key f) : Removal pid s t

/-- Some pages of a process are removed. -/
abbrev Removals (pid : Pid) : Paging F → Paging F → Prop := Relation.ReflTransGen (Removal pid)

variable {pid : Pid} {s t : Paging F}

theorem Removal.agrees (h : Removal pid s t) (hs : s.Agrees) : t.Agrees := by
  cases h with
  | quiet h => exact h.agrees hs
  | removed _ h => exact h.agrees hs

theorem Removal.sameShape (h : Removal pid s t) : SameShape s t := by
  cases h with
  | quiet h => exact h.toSameShape
  | removed _ h => exact h.toSameShape

theorem Removal.rest (h : Removal pid s t) :
    t.swap = s.swap ∧ t.history = s.history ∧ t.core.spaces = s.core.spaces := by
  cases h with
  | quiet h => exact ⟨h.swap, h.history, h.spaces⟩
  | removed _ h => exact ⟨h.swap, h.history, h.spaces⟩

/-- Only entries of the process are erased. -/
theorem Removal.entry (h : Removal pid s t) (k : PageKey) :
    t.entry k = s.entry k ∨ (k.pid = pid ∧ t.entry k = none) := by
  cases h with
  | quiet h => exact Or.inl (h.entry k)
  | removed hkey h =>
      rw [h.toVacated.entry]
      split
      · rename_i hk
        exact Or.inr ⟨by rw [hk, hkey], rfl⟩
      · exact Or.inl rfl

theorem Removals.agrees (h : Removals pid s t) (hs : s.Agrees) : t.Agrees := by
  induction h with
  | refl => exact hs
  | tail _ hstep ih => exact hstep.agrees ih

theorem Removals.sameShape (h : Removals pid s t) : SameShape s t := by
  induction h with
  | refl => exact SameShape.refl s
  | tail _ hstep ih => exact ih.trans hstep.sameShape

theorem Removals.rest (h : Removals pid s t) :
    t.swap = s.swap ∧ t.history = s.history ∧ t.core.spaces = s.core.spaces := by
  induction h with
  | refl => exact ⟨rfl, rfl, rfl⟩
  | tail _ hstep ih =>
      obtain ⟨h₁, h₂, h₃⟩ := hstep.rest
      exact ⟨h₁.trans ih.1, h₂.trans ih.2.1, h₃.trans ih.2.2⟩

theorem Removals.entry (h : Removals pid s t) (k : PageKey) :
    t.entry k = s.entry k ∨ (k.pid = pid ∧ t.entry k = none) := by
  induction h with
  | refl => exact Or.inl rfl
  | tail _ hstep ih =>
      rcases hstep.entry k with hk | hk
      · rwa [hk]
      · exact Or.inr hk

/-! ## Removing pages -/

/-- A page that is resident is removed. -/
theorem removePage_spec {key : PageKey} {r : Except Halt Unit} (hs : s.Agrees)
    (h : s.removePage key = (r, t)) :
    r = .ok () ∧ ((s.entry key = none ∧ t = s) ∨ ∃ f, Removed s t key f) := by
  unfold removePage at h
  cases he : s.entry key with
  | none =>
      rw [show s.core.table[key]? = none from he] at h
      obtain ⟨rfl, rfl⟩ := Prod.mk.inj h
      exact ⟨rfl, Or.inl ⟨rfl, rfl⟩⟩
  | some e =>
      rw [show s.core.table[key]? = some e from he] at h
      obtain ⟨-, f, hf, hheld⟩ := hs.entry he
      obtain ⟨o, ho, -⟩ := holder_eq_some.1 hheld
      dsimp only at h
      rw [(Translation.maps_iff.1 hf).2] at h
      dsimp only at h
      have hlt : f.val < s.core.frames.size := FrameTable.lt_size_of_owner ho
      unfold freeFrame at h
      rw [if_pos (show f.val < ((s.setTable (s.core.table.erase key)).shootdown f).2.core.frames.size
        from hlt)] at h
      obtain ⟨rfl, ht⟩ := Prod.mk.inj h
      refine ⟨rfl, Or.inr ⟨f, vacated_of_core (b := (s.core.tlbs.shootdown f).2) hheld ?_
        (fun id => TlbBank.size_tlb_shootdown _ _ _) (fun id => TlbBank.live_shootdown _ _ _)
        (TlbBank.attached_shootdown _ _) fun id i => ?_, ?_, ?_⟩⟩
      · rw [← ht, core_release]
        exact ⟨_, rfl⟩
      · rw [TlbBank.slot_shootdown]
        by_cases hm : (s.slot id i).maps f = true
        · rw [if_pos hm, if_pos ⟨(hs.mirror hm).1, hm⟩]
          rfl
        · rw [if_neg hm, if_neg fun h => hm h.2]
          rfl
      · rw [← ht, swap_release]
        rfl
      · rw [← ht, history_release]
        rfl

/-- Some pages of a process are removed, those of them that are resident. -/
theorem removePages_spec {keys : List PageKey} {r : Except Halt Unit}
    (hkeys : ∀ k ∈ keys, k.pid = pid) (hs : s.Agrees) (h : removePages keys s = (r, t)) :
    r = .ok () ∧ Removals pid s t ∧ ∀ k ∈ keys, t.entry k = none := by
  induction keys generalizing s with
  | nil =>
      obtain ⟨rfl, rfl⟩ := Prod.mk.inj h
      exact ⟨rfl, .refl, fun k hk => by cases hk⟩
  | cons key keys ih =>
      unfold removePages at h
      cases hp : s.removePage key with
      | mk x m =>
          rw [hp] at h
          obtain ⟨rfl, hm⟩ := removePage_spec hs hp
          have hkey : key.pid = pid := hkeys key List.mem_cons_self
          have hstep : Removals pid s m ∧ m.entry key = none := by
            rcases hm with ⟨hnone, rfl⟩ | ⟨f, hremoved⟩
            · exact ⟨.refl, hnone⟩
            · exact ⟨.single (.removed hkey hremoved), by rw [hremoved.toVacated.entry, if_pos rfl]⟩
          obtain ⟨hr, hrest, hgone⟩ :=
            ih (fun k hk => hkeys k (List.mem_cons_of_mem _ hk)) (hstep.1.agrees hs) h
          refine ⟨hr, hstep.1.trans hrest, fun k hk => ?_⟩
          rcases List.mem_cons.1 hk with rfl | hk
          · rcases hrest.entry k with hsame | ⟨-, hnone⟩
            · rw [hsame, hstep.2]
            · exact hnone
          · exact hgone k hk

/-- All pages of a process are removed, and nothing else. -/
structure Emptied (s t : Paging F) (pid : Pid) : Prop where
  steps : Removals pid s t
  entry : ∀ k, k.pid = pid → t.entry k = none

theorem Emptied.entry_ne (h : Emptied s t pid) {k : PageKey} (hk : k.pid ≠ pid) :
    t.entry k = s.entry k := by
  rcases h.steps.entry k with hsame | ⟨hpid, -⟩
  · exact hsame
  · exact absurd hpid hk

/-- **All pages of a process are removed**, and no page of another process. -/
theorem removeResident_spec {r : Except Halt Nat} (hs : s.Agrees)
    (h : s.removeResident pid = (r, t)) :
    r = .ok (s.core.residentOf pid) ∧ Emptied s t pid := by
  unfold removeResident at h
  dsimp only at h
  cases hp : removePages (PageMap.keysOf s.core.table pid) s with
  | mk x m =>
      rw [hp] at h
      obtain ⟨rfl, hsteps, hgone⟩ :=
        removePages_spec (fun k hk => (PageMap.mem_keysOf.1 hk).2) hs hp
      have hentry : ∀ k, k.pid = pid → m.entry k = none := by
        intro k hk
        by_cases hmem : k ∈ s.core.table
        · exact hgone k (PageMap.mem_keysOf.2 ⟨hmem, hk⟩)
        · have hnone : s.entry k = none := Std.ExtTreeMap.getElem?_eq_none hmem
          rcases hsteps.entry k with hsame | ⟨-, hnone'⟩
          · rw [hsame, hnone]
          · exact hnone'
      -- whoever has a frame has an entry, so no frame of the process is left
      have hframes : m.core.frames.framesOf pid = [] := by
        rw [List.eq_nil_iff_forall_not_mem]
        intro f hf
        obtain ⟨o, ho, hpid⟩ := FrameTable.mem_framesOf.1 hf
        obtain ⟨e, he, -⟩ := (hsteps.agrees hs).owned (holder_eq_some.2 ⟨o, ho, rfl⟩)
        rw [hentry _ hpid] at he
        cases he
      dsimp only at h
      rw [hframes] at h
      obtain ⟨rfl, rfl⟩ := Prod.mk.inj h
      exact ⟨rfl, hsteps, hentry⟩

/-! ## Preloading -/

/-- The pages of a new process wait for their frames. -/
theorem awaits_pages {space : AddressSpace} (habsent : ∀ k, k.pid = space.pid → s.entry k = none)
    (hslot : ∀ k : PageKey, k.pid = space.pid → s.swap.slots[k]? = none)
    (hspace : s.core.spaces[space.pid]? = some space.pageCount) :
    s.Awaits space ((List.range space.pageCount).map PageNumber.mk) where
  nodup := List.Pairwise.map PageNumber.mk (fun _ _ hab h => hab (PageNumber.mk.inj h))
    List.nodup_range
  absent _ _ := habsent _ rfl
  slot _ _ := hslot _ rfl
  range p hp := by
    obtain ⟨n, hn, rfl⟩ := List.mem_map.1 hp
    exact ⟨_, hspace, List.mem_range.1 hn⟩

/-- **A preload that fails leaves no page of the process behind.** -/
theorem preload_spec [BackingFile F] {tlb : TlbId} {retries : Nat} {space : AddressSpace}
    {r : Except Failure Unit} (hs : s.Agrees) (habsent : ∀ k, k.pid = space.pid → s.entry k = none)
    (hslot : ∀ k : PageKey, k.pid = space.pid → s.swap.slots[k]? = none)
    (hspace : s.core.spaces[space.pid]? = some space.pageCount) (h : s.preload tlb retries space = (r, t)) :
    (r = .ok () ∧ Moves space true s t ∧
        ∀ q, q.val < space.pageCount → ∃ f, t.owner f = some ⟨space.key q, true⟩) ∨
      ((∃ err, r = .error (.error err)) ∧ ∃ m, Moves space true s m ∧ Emptied m t space.pid) := by
  have hawaits := awaits_pages habsent hslot hspace
  -- What is left if not all pages could be made resident.
  have hundone : ∀ {err m x u}, preloadPages tlb retries space
        ((List.range space.pageCount).map PageNumber.mk) s = (.error err, m) →
      m.removeResident space.pid = (x, u) →
      x = .ok (PageMap.keysOf m.core.table space.pid).length ∧ Moves space true s m ∧
        Emptied m u space.pid := by
    intro err m x u hpages hremoved
    obtain ⟨hmoves, -⟩ := preloadPages_spec hs hawaits hpages
    obtain ⟨hx, hemptied⟩ := removeResident_spec (hmoves.agrees hs) hremoved
    exact ⟨hx, hmoves, hemptied⟩
  cases preloads_of_preload h with
  | refused _ => exact Or.inr ⟨⟨_, rfl⟩, s, .refl, .refl, habsent⟩
  | loaded _ hpages =>
      obtain ⟨hmoves, hpinned⟩ := preloadPages_spec hs hawaits hpages
      exact Or.inl ⟨rfl, hmoves, fun q hq =>
        hpinned rfl q (List.mem_map.2 ⟨q.val, List.mem_range.2 hq, rfl⟩)⟩
  | halted _ hpages hremoved => cases (hundone hpages hremoved).1
  | undone _ hpages hremoved ht =>
      obtain ⟨-, hmoves, hemptied⟩ := hundone hpages hremoved
      subst ht
      exact Or.inr ⟨⟨_, rfl⟩, _, hmoves, hemptied.steps.tail (.quiet (quiet_note _ _)),
        hemptied.entry⟩

/-! ## Address spaces -/

/-- A process gets an address space. -/
structure Registered (s t : Paging F) (pid : Pid) (pages : Nat) : Prop extends Still s t where
  absent : s.core.spaces[pid]? = none
  swap : t.swap = s.swap
  spaces : t.core.spaces = s.core.spaces.insert pid pages

theorem Registered.not_mem {s t : Paging F} {pid : Pid} {pages : Nat}
    (h : Registered s t pid pages) : pid ∉ s.core.spaces := by
  rw [Std.ExtTreeMap.mem_iff_isSome_getElem?, h.absent]
  nofun

/-- A process is struck off the list of those with an address space. -/
structure Unregistered (s t : Paging F) (pid : Pid) : Prop extends Still s t where
  swap : t.swap = s.swap
  spaces : t.core.spaces = s.core.spaces.erase pid

theorem unregistered (s : Paging F) (pid : Pid) :
    Unregistered s { s with core := { s.core with spaces := s.core.spaces.erase pid } } pid :=
  ⟨⟨sameShape_of_tlbs rfl rfl rfl, fun _ => rfl, fun _ => rfl, fun _ _ => rfl, fun _ => rfl, rfl⟩,
    rfl, rfl⟩

/-- The swap slots of a process are taken back. -/
structure Freed (s t : Paging F) (pid : Pid) : Prop extends Still s t where
  swap : SwapStore.Released s.swap t.swap pid
  spaces : t.core.spaces = s.core.spaces

/-- A process loses its address space, its pages and its swap slots. -/
inductive Destroyed (s t : Paging F) (pid : Pid) : Prop
  | intro {a b : Paging F} (hreg : pid ∈ s.core.spaces) (hunreg : Unregistered s a pid)
    (hemptied : Emptied a b pid) (hfreed : Freed b t pid)

theorem Destroyed.spaces (h : Destroyed s t pid) : t.core.spaces = s.core.spaces.erase pid := by
  obtain ⟨-, hunreg, hemptied, hfreed⟩ := h
  rw [hfreed.spaces, hemptied.steps.rest.2.2, hunreg.spaces]

theorem Registered.agrees {pages : Nat} (h : Registered s t pid pages) (hs : s.Agrees) :
    t.Agrees :=
  h.toStill.agrees hs (by rw [h.swap]; exact hs.swap)

theorem Unregistered.agrees (h : Unregistered s t pid) (hs : s.Agrees) : t.Agrees :=
  h.toStill.agrees hs (by rw [h.swap]; exact hs.swap)

theorem Freed.agrees (h : Freed s t pid) (hs : s.Agrees) : t.Agrees :=
  h.toStill.agrees hs h.swap.sound

theorem Destroyed.agrees (h : Destroyed s t pid) (hs : s.Agrees) : t.Agrees := by
  obtain ⟨-, hunreg, hemptied, hfreed⟩ := h
  exact hfreed.agrees (hemptied.steps.agrees (hunreg.agrees hs))

end Paging

namespace Kernel

open Paging

variable {F : Type} {k k' : Kernel F} {pid : Pid}

/-- **A process gets an address space exactly if it has none.** -/
theorem createSpace_spec {pages : Nat} {r : Except PagingError Unit}
    (h : k.createSpace pid pages = (r, k')) :
    k'.config = k.config ∧ k'.pids = k.pids ∧
      ((r = .ok () ∧ Registered k.toPaging k'.toPaging pid pages) ∨
        (r = .error (.addressSpaceExists pid) ∧ pid ∈ k.core.spaces ∧ k' = k)) := by
  unfold createSpace CoreMap.register CoreMap.pageCount at h
  cases hp : k.core.spaces[pid]? with
  | some n =>
      rw [hp] at h
      obtain ⟨rfl, rfl⟩ := Prod.mk.inj h
      exact ⟨rfl, rfl, Or.inr ⟨rfl, Std.ExtTreeMap.mem_iff_isSome_getElem?.2 (by rw [hp]; rfl), rfl⟩⟩
  | none =>
      rw [hp] at h
      obtain ⟨rfl, rfl⟩ := Prod.mk.inj h
      refine ⟨rfl, rfl, Or.inl ⟨rfl, ⟨?_, fun _ => rfl, fun _ => rfl, fun _ _ => rfl, fun _ => rfl,
        rfl⟩, hp, rfl, rfl⟩⟩
      exact sameShape_of_tlbs rfl rfl rfl

theorem registered_of_createSpace {pages : Nat} (h : k.createSpace pid pages = (.ok (), k')) :
    k'.config = k.config ∧ k'.pids = k.pids ∧ Registered k.toPaging k'.toPaging pid pages := by
  obtain ⟨hconfig, hpids, ⟨-, hreg⟩ | ⟨hr, -⟩⟩ := createSpace_spec h
  · exact ⟨hconfig, hpids, hreg⟩
  · cases hr

theorem createSpace_error {pages : Nat} {e : PagingError}
    (h : k.createSpace pid pages = (.error e, k')) :
    e = .addressSpaceExists pid ∧ pid ∈ k.core.spaces ∧ k' = k := by
  obtain ⟨-, -, ⟨hr, -⟩ | ⟨hr, hmem, hsame⟩⟩ := createSpace_spec h
  · cases hr
  · exact ⟨Except.error.inj hr, hmem, hsame⟩

/-- **An address space can always be taken away**, with all pages and swap slots of its
process. -/
theorem destroySpace_spec {r : Except Failure Unit} (hk : k.Agrees)
    (h : k.destroySpace pid = (r, k')) :
    k'.config = k.config ∧ k'.pids = k.pids ∧
      ((r = .ok () ∧ Destroyed k.toPaging k'.toPaging pid) ∨
        (r = .error (.error (.noAddressSpace pid)) ∧ pid ∉ k.core.spaces ∧ k' = k)) := by
  unfold destroySpace CoreMap.unregister CoreMap.pageCount at h
  cases hp : k.core.spaces[pid]? with
  | none =>
      rw [hp] at h
      obtain ⟨rfl, rfl⟩ := Prod.mk.inj h
      refine ⟨rfl, rfl, Or.inr ⟨rfl, fun hmem => ?_, rfl⟩⟩
      rw [Std.ExtTreeMap.mem_iff_isSome_getElem?, hp] at hmem
      cases hmem
  | some n =>
      rw [hp] at h
      simp only [Option.isSome_some] at h
      have hunreg := unregistered k.toPaging pid
      cases hrem : removeResident
          { k.toPaging with core := { k.core with spaces := k.core.spaces.erase pid } } pid with
      | mk x m =>
          rw [hrem] at h
          obtain ⟨rfl, hemptied⟩ := removeResident_spec (hunreg.agrees hk) hrem
          obtain ⟨rfl, rfl⟩ := Prod.mk.inj h
          have hsound : m.swap.Sound := by
            rw [hemptied.steps.rest.1]
            exact hk.swap
          refine ⟨rfl, rfl, Or.inl ⟨rfl, ?_⟩⟩
          refine .intro (Std.ExtTreeMap.mem_iff_isSome_getElem?.2 (by rw [hp]; rfl)) hunreg hemptied
            ⟨⟨sameShape_of_tlbs rfl rfl rfl, fun _ => rfl, fun _ => rfl, fun _ _ => rfl, fun _ => rfl,
              rfl⟩, SwapStore.releaseAll_spec hsound pid, rfl⟩

end Kernel

end DemandPaging
