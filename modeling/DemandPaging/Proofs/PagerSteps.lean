import DemandPaging.Proofs.Agreement
import DemandPaging.Proofs.PagerStages

/-!
# What the pager does, step by step

Each operation of the pager is a row of steps, and what it answers is told by the state
that it leaves.

* `Paging.evict_spec` — an eviction is a recall, and then a loss of the frame or a failed
  write.
* `Paging.claimFrame_spec` — a frame for a page.
* `Paging.Resolves`, `Paging.resolve_spec`, `Paging.translate_spec` — the entry answered is the one in
  the page table.
* `Paging.preloadPages_spec` — pages that get frames for good.
-/

namespace DemandPaging

namespace Paging

variable {F : Type}

/-! ## Small operations -/

section Small

variable (s : Paging F)

@[simp] theorem core_note (e : Event) : (s.note e).core = s.core := rfl

@[simp] theorem swap_note (e : Event) : (s.note e).swap = s.swap := rfl

@[simp] theorem history_note (e : Event) : (s.note e).history = s.history := rfl

@[simp] theorem core_record (e : PageEvent) : (s.record e).core = s.core := rfl

@[simp] theorem swap_record (e : PageEvent) : (s.record e).swap = s.swap := rfl

@[simp] theorem history_record (e : PageEvent) : (s.record e).history = e :: s.history := rfl

@[simp] theorem core_count (change : Counters → Counters) :
    (s.count change).core = { s.core with counters := change s.core.counters } := rfl

@[simp] theorem swap_count (change : Counters → Counters) : (s.count change).swap = s.swap := rfl

@[simp] theorem history_count (change : Counters → Counters) :
    (s.count change).history = s.history := rfl

@[simp] theorem core_setTable (t : PageTable) :
    (s.setTable t).core = { s.core with table := t } := rfl

@[simp] theorem swap_setTable (t : PageTable) : (s.setTable t).swap = s.swap := rfl

@[simp] theorem history_setTable (t : PageTable) : (s.setTable t).history = s.history := rfl

@[simp] theorem core_release (f : FrameNumber) :
    (s.release f).core = { s.core with frames := s.core.frames.release f } := by
  unfold release
  cases s.core.frames.owner f <;> rfl

@[simp] theorem swap_release (f : FrameNumber) : (s.release f).swap = s.swap := by
  unfold release
  cases s.core.frames.owner f <;> rfl

@[simp] theorem history_release (f : FrameNumber) : (s.release f).history = s.history := by
  unfold release
  cases s.core.frames.owner f <;> rfl

end Small

/-! ## Steps that are not seen -/

theorem sameShape_of_tlbs {s t : Paging F} (htlbs : t.core.tlbs = s.core.tlbs)
    (hframes : t.core.frames.size = s.core.frames.size)
    (hmemory : t.core.memory.frameCount = s.core.memory.frameCount) : SameShape s t := by
  refine ⟨fun _ => ?_, fun _ => ?_, fun id hid _ => ?_, hframes, hmemory⟩
  · rw [htlbs]
  · rw [htlbs]
  · rw [attached, htlbs]
    exact hid

theorem quiet_of_core {s t : Paging F} {g : Random.Xoshiro} {n : Counters}
    (hcore : t.core = { s.core with generator := g, counters := n }) (hswap : t.swap = s.swap)
    (hhistory : t.history = s.history) : Quiet s t := by
  cases s
  cases t
  cases hcore
  cases hswap
  cases hhistory
  exact ⟨⟨⟨fun _ => rfl, fun _ => rfl, fun _ h _ => h, rfl, rfl⟩, fun _ => rfl, fun _ => rfl,
    fun _ _ => rfl, fun _ => rfl, rfl⟩, rfl, rfl⟩

theorem quiet_refl (s : Paging F) : Quiet s s := quiet_of_core rfl rfl rfl

theorem quiet_note (s : Paging F) (e : Event) : Quiet s (s.note e) := quiet_of_core rfl rfl rfl

theorem quiet_count (s : Paging F) (change : Counters → Counters) : Quiet s (s.count change) :=
  quiet_of_core rfl rfl rfl

/-- Attaching a TLB changes nothing that is seen. -/
theorem quiet_attach (s : Paging F) (id : TlbId) : Quiet s (s.attach id) := by
  have hcore : (s.attach id).core = { s.core with tlbs := (s.core.tlbs.attach id).2 } ∧
      (s.attach id).swap = s.swap ∧ (s.attach id).history = s.history := by
    unfold attach
    cases s.core.tlbs.attach id with
    | mk place tlbs => cases place <;> exact ⟨rfl, rfl, rfl⟩
  obtain ⟨hcore, hswap, hhistory⟩ := hcore
  refine ⟨⟨⟨fun j => ?_, fun j => ?_, fun j hj hl => ?_, ?_, ?_⟩, fun k => ?_, fun g => ?_,
    fun j i => ?_, fun g => ?_, hhistory⟩, hswap, ?_⟩
  · rw [hcore]
    exact congrArg Tlb.size (TlbBank.tlb_attach _ _ _)
  · rw [hcore]
    exact TlbBank.live_attach _ _ _
  · rw [attached, hcore]
    exact TlbBank.mem_attached_attach.2 (Or.inl ⟨hj, hl⟩)
  · rw [hcore]
  · rw [hcore]
  · rw [entry, hcore, entry]
  · rw [owner, hcore, owner]
  · rw [slot, hcore]
    exact TlbBank.slot_attach _ _ _ _
  · rw [frame, hcore, frame]
  · rw [hcore]

/-- A TLB is attached once it was. -/
theorem mem_attached_attach (s : Paging F) (id : TlbId) : id ∈ (s.attach id).attached := by
  have h : (s.attach id).core.tlbs = (s.core.tlbs.attach id).2 := by
    unfold attach
    cases s.core.tlbs.attach id with
    | mk place tlbs => cases place <;> rfl
  rw [attached, h]
  exact TlbBank.mem_attached_attach.2 (Or.inr rfl)

/-! ## Taking a frame -/

/-- A page's entry is erased, its frame is given back, and no TLB maps the frame. -/
theorem vacated_of_core {s t : Paging F} {key : PageKey} {f : FrameNumber} {b : TlbBank}
    (hheld : s.holder f = some key)
    (hcore : ∃ n, t.core = { s.core with
      table := s.core.table.erase key
      frames := s.core.frames.release f
      counters := n
      tlbs := b })
    (hsize : ∀ id, (b.tlb id).size = (s.core.tlbs.tlb id).size)
    (hlive : ∀ id, b.live id = s.core.tlbs.live id) (hattached : b.attached = s.attached)
    (hslot : ∀ id i, b.slot id i =
      if (s.slot id i).maps f = true then (s.slot id i).invalidate else s.slot id i) :
    Vacated s t key f := by
  obtain ⟨n, hcore⟩ := hcore
  refine ⟨⟨fun id => ?_, fun id => ?_, fun id hid _ => ?_, ?_, ?_⟩, hheld, fun k => ?_,
    fun id i => ?_, fun g => ?_, fun g => ?_, ?_⟩
  · rw [hcore]
    exact hsize id
  · rw [hcore]
    exact hlive id
  · rw [attached, hcore, hattached]
    exact hid
  · rw [hcore]
    exact FrameTable.size_release _ _
  · rw [hcore]
  · rw [entry, hcore, Std.ExtTreeMap.getElem?_erase]
    simp only [Std.LawfulEqCmp.compare_eq_iff_eq, eq_comm (a := k), entry]
  · rw [slot, hcore]
    exact hslot id i
  · rw [owner, hcore, FrameTable.owner_release]
    simp only [eq_comm, owner]
  · rw [frame, hcore, frame]
  · rw [hcore]

/-- **A recall moves the bits of all mirrors into the entry**, since every mirror of the
frame is one of the page that has it. -/
theorem recalled_shootdown {s : Paging F} (hs : s.Agrees) {key : PageKey} {f : FrameNumber}
    (hkey : s.holder f = some key) :
    Recalled s ((s.shootdown f).2.foldCopies key (s.shootdown f).1) key f := by
  refine ⟨⟨fun id => TlbBank.size_tlb_shootdown _ _ _, fun id => TlbBank.live_shootdown _ _ _,
    fun id hid _ => ?_, rfl, rfl⟩, hkey, fun k hk => ?_, fun e he => ?_, fun id i => ?_,
    fun _ => rfl, fun _ => rfl, rfl, rfl, rfl⟩
  · show id ∈ (s.core.tlbs.shootdown f).2.attached
    rw [TlbBank.attached_shootdown]
    exact hid
  · rw [entry, getElem?_foldCopies, if_neg (Ne.symm hk)]
    rfl
  · have hef : e.maps f = true := by
      obtain ⟨d, hd, hdf⟩ := hs.owned hkey
      rwa [Option.some.inj (he.symm.trans hd)]
    refine ⟨e.absorb (s.shootdown f).1, ?_, Translation.bare_absorb _ _, fun u => ?_⟩
    · rw [entry, getElem?_foldCopies, if_pos rfl]
      exact congrArg (Option.map _) he
    · rw [Translation.bit_absorb, marked_iff he hef]
      refine or_congr_right ?_
      constructor
      · rintro ⟨copy, hcopy, -, hbit⟩
        obtain ⟨id, -, i, rfl, hm⟩ := TlbBank.mem_shootdown.1 hcopy
        exact ⟨id, i, hm, hbit⟩
      · rintro ⟨id, i, hm, hbit⟩
        obtain ⟨hid, k, hk, hpage⟩ := hs.mirror hm
        obtain rfl : k = key := Option.some.inj (hk.symm.trans hkey)
        refine ⟨_, TlbBank.mem_shootdown.2 ⟨id, hid, i, rfl, hm⟩, ?_, hbit⟩
        rw [Translation.current_iff]
        exact ⟨(Translation.maps_iff.1 hef).2.trans (Translation.maps_iff.1 hm).2.symm,
          (hs.entry he).1.trans hpage⟩
  · show (s.core.tlbs.shootdown f).2.slot id i = _
    rw [TlbBank.slot_shootdown]
    by_cases hm : (s.slot id i).maps f = true
    · rw [if_pos hm, if_pos ⟨(hs.mirror hm).1, hm⟩]
      rfl
    · rw [if_neg hm, if_neg fun h => hm h.2]
      rfl

theorem Recalled.alone {s t : Paging F} {key : PageKey} {f : FrameNumber}
    (h : Recalled s t key f) (id : TlbId) (i : Nat) : (t.slot id i).maps f = false := by
  by_contra hm
  exact (maps_of_slot_shot (h.slot id i) (Bool.not_eq_false _ ▸ hm)).2.2 rfl

section Transfers

variable [BackingFile F]

/-- A page is handed to the swap store exactly if its entry says that its contents are new. -/
theorem writeBack_spec {s t : Paging F} {key : PageKey} {f : FrameNumber} {e : Translation}
    {r : Except PagingError Bool} (hs : s.swap.Sound) (he : s.entry key = some e)
    (h : s.writeBack key f = (r, t)) :
    (∃ n, t.core = { s.core with counters := n }) ∧
      t.history = .victim key e.needsWriteback :: s.history ∧
      ((r = .ok e.needsWriteback ∧
          ((e.needsWriteback = true ∧
              ∃ a, SwapStore.WroteOut s.swap t.swap key (s.frame f) a pageSize) ∨
            (e.needsWriteback = false ∧ t.swap = s.swap))) ∨
        (e.needsWriteback = true ∧ r = .error .shortTransfer ∧ t.core = s.core ∧
          ∃ a n, n ≠ pageSize ∧ SwapStore.WroteOut s.swap t.swap key (s.frame f) a n)) := by
  unfold writeBack at h
  rw [show s.core.table[key]? = some e from he, Option.map_some] at h
  cases hd : e.needsWriteback with
  | false =>
      simp only [hd, Prod.mk.injEq] at h
      obtain ⟨rfl, rfl⟩ := h
      exact ⟨⟨_, rfl⟩, rfl, Or.inl ⟨rfl, Or.inr ⟨rfl, rfl⟩⟩⟩
  | true =>
      simp only [hd, swapOut, writeOut, core_record] at h
      cases hw : (s.record (.victim key true)).swap.writeOut key (s.frame f) with
      | mk w u =>
          rw [show s.core.memory.frame f = s.frame f from rfl, hw] at h
          obtain ⟨a, n, hwrote, ⟨rfl, rfl⟩ | ⟨hn, rfl⟩⟩ := SwapStore.writeOut_spec hs hw
          · obtain ⟨rfl, rfl⟩ := Prod.mk.inj h
            exact ⟨⟨_, rfl⟩, rfl, Or.inl ⟨rfl, Or.inl ⟨rfl, a, hwrote⟩⟩⟩
          · obtain ⟨rfl, rfl⟩ := Prod.mk.inj h
            exact ⟨⟨_, rfl⟩, rfl, Or.inr ⟨rfl, rfl, rfl, a, n, hn, hwrote⟩⟩

/-- **An eviction takes the frame from every TLB first.**  Then the page loses it, or keeps
it because its contents could not be written out; by that nothing changes but its entry and TLBs. -/
theorem evict_spec {s t : Paging F} {f : FrameNumber} {o : FrameOwner}
    {r : Except PagingError Unit} (hs : s.Agrees) (ho : s.owner f = some o)
    (h : s.evict f = (r, t)) :
    ∃ m, Recalled s m o.key f ∧
      ((r = .ok () ∧ (o.pinned = false → ∃ handed, Evicted m t o.key f handed)) ∨
        (r = .error .shortTransfer ∧ Kept m t o.key f ∧
          ∃ table tlbs, t.core = { s.core with table, tlbs })) := by
  have hholder : s.holder f = some o.key := holder_eq_some.2 ⟨o, ho, rfl⟩
  have hrec := recalled_shootdown hs hholder
  have hcore : ∃ table tlbs, ((s.shootdown f).2.foldCopies o.key (s.shootdown f).1).core =
      { s.core with table, tlbs } := ⟨_, _, rfl⟩
  have hstages := evicts_of_evict ho h
  refine ⟨_, hrec, ?_⟩
  generalize hm : (s.shootdown f).2.foldCopies o.key (s.shootdown f).1 = m at hrec hcore ⊢
  have hagrees := hrec.agrees hs
  have hmo : m.owner f = some o := by rw [hrec.owner, ho]
  have hheld : m.holder f = some o.key := holder_eq_some.2 ⟨o, hmo, rfl⟩
  obtain ⟨e, he, hef⟩ := hagrees.owned hheld
  cases hstages with
  | taken hwrite ht =>
      rw [hm] at hwrite
      obtain ⟨⟨n, hucore⟩, hhist, ⟨-, hswap⟩ | ⟨-, hr, -⟩⟩ := writeBack_spec hagrees.swap he hwrite
      · subst ht
        refine Or.inl ⟨rfl, fun hpin => ⟨e.needsWriteback, ?_, hrec.alone, ⟨o, hmo, hpin⟩,
          ⟨e, he, rfl⟩, by simpa using hswap, by simpa using hhist⟩⟩
        refine vacated_of_core (b := m.core.tlbs) hheld ?_ (fun _ => rfl) (fun _ => rfl) rfl
          fun id i => ?_
        · simp only [core_note, core_count, core_release, core_setTable, hucore]
          exact ⟨_, rfl⟩
        · rw [if_neg (by rw [hrec.alone]; exact Bool.false_ne_true)]
          rfl
      · cases hr
  | kept hwrite =>
      rw [hm] at hwrite
      obtain ⟨-, hhist, ⟨hr, -⟩ | ⟨hd, hr, hucore, a, moved, hn, hwrote⟩⟩ :=
        writeBack_spec hagrees.swap he hwrite
      · cases hr
      · obtain rfl := Except.error.inj hr
        refine Or.inr ⟨rfl, ⟨?_, hheld, hrec.alone, ⟨e, he, hd⟩, fun k => ?_, fun id i => ?_,
          fun g => ?_, fun g => ?_, ⟨a, moved, hn, hwrote⟩, hd ▸ hhist, ?_⟩, hucore ▸ hcore⟩
        · exact sameShape_of_tlbs (by rw [hucore]) (by rw [hucore]) (by rw [hucore])
        · rw [entry, hucore, entry]
        · rw [slot, hucore, slot]
        · rw [owner, hucore, owner]
        · rw [frame, hucore, frame]
        · rw [hucore]

end Transfers

/-! ## A frame for a page -/

theorem sampleVictim_spec {mapped : FrameNumber → Bool} {retries : Nat} {c c' : CoreMap}
    {best r : Option FrameNumber} (hbest : ∀ f, best = some f → c.frames.evictable f = true)
    (h : sampleVictim mapped retries c best = (r, c')) :
    (∃ g, c' = { c with generator := g }) ∧
      ∀ f, r = some f → c.frames.evictable f = true := by
  have hframe : ∀ c : CoreMap, ∃ g, c.randomFrame.2 = { c with generator := g } :=
    fun c => c.randomBelow_snd c.frames.size
  induction retries generalizing c best with
  | zero =>
      obtain ⟨rfl, rfl⟩ := Prod.mk.inj h
      exact ⟨⟨_, rfl⟩, hbest⟩
  | succ n ih =>
      obtain ⟨g, hg⟩ := hframe c
      have step : ∀ {best : Option FrameNumber},
          (∀ f, best = some f → c.frames.evictable f = true) →
          sampleVictim mapped n c.randomFrame.2 best = (r, c') →
          (∃ g, c' = { c with generator := g }) ∧ ∀ f, r = some f → c.frames.evictable f = true := by
        intro best hbest hn
        rw [hg] at hn
        obtain ⟨⟨g', rfl⟩, hr⟩ := ih (c := { c with generator := g }) hbest hn
        exact ⟨⟨g', rfl⟩, hr⟩
      simp only [sampleVictim] at h
      split at h
      · exact step hbest h
      · rename_i hev
        have hev : c.frames.evictable c.randomFrame.1 = true := by
          rw [hg] at hev
          simpa using hev
        split at h
        · refine step (fun f hf => ?_) h
          rwa [← Option.some.inj hf]
        · obtain ⟨rfl, rfl⟩ := Prod.mk.inj h
          refine ⟨⟨g, hg⟩, fun f hf => ?_⟩
          rwa [← Option.some.inj hf]

/-- Only a frame that may be taken is chosen, and only the generator takes note. -/
theorem selectVictim_spec {s t : Paging F} {tlb : TlbId} {retries : Nat}
    {r : Except PagingError FrameNumber} (h : s.selectVictim tlb retries = (r, t)) :
    Quiet s t ∧ ∀ f, r = .ok f → ∃ o, s.owner f = some o ∧ o.pinned = false := by
  unfold selectVictim at h
  dsimp only at h
  cases hs : sampleVictim (s.core.tlbs.tlb tlb).mapsFrame retries s.core none with
  | mk sampled c =>
      obtain ⟨⟨g, rfl⟩, hsampled⟩ := sampleVictim_spec (by simp) hs
      rw [hs] at h
      dsimp only at h
      split at h <;> obtain ⟨rfl, rfl⟩ := Prod.mk.inj h
      · rename_i f hf
        refine ⟨quiet_of_core rfl rfl rfl, fun f' hf' => ?_⟩
        obtain rfl := Except.ok.inj hf'
        have hev : s.core.frames.evictable f = true := by
          rw [Option.or_eq_some_iff] at hf
          rcases hf with hf | ⟨-, hf⟩
          · exact hsampled f hf
          · rw [← FrameTable.mem_candidates]
            rw [firstVictim, Option.or_eq_some_iff] at hf
            rcases hf with hf | ⟨-, hf⟩
            · exact List.mem_of_find?_eq_some hf
            · exact List.mem_of_mem_head? hf
        unfold FrameTable.evictable at hev
        split at hev
        · rename_i o ho
          exact ⟨o, ho, by simpa using hev⟩
        · cases hev
      · exact ⟨quiet_of_core rfl rfl rfl, fun f hf => by cases hf⟩

/-- A frame is claimed for a page: one that was free. -/
theorem claim_spec {s t : Paging F} {key : PageKey} {pinned : Bool} {r : Option FrameNumber}
    (h : s.claim key pinned = (r, t)) :
    (r = none ∧ t = s) ∨ ∃ f, r = some f ∧ s.owner f = none ∧ t.swap = s.swap ∧
      t.history = s.history ∧ (∃ frames, t.core = { s.core with frames } ∧
        frames.size = s.core.frames.size) ∧
      ∀ g, t.owner g = if g = f then some ⟨key, pinned⟩ else s.owner g := by
  unfold claim at h
  cases hc : s.core.frames.claim key pinned with
  | none =>
      rw [hc] at h
      obtain ⟨rfl, rfl⟩ := Prod.mk.inj h
      exact Or.inl ⟨rfl, rfl⟩
  | some ft =>
      obtain ⟨f, frames⟩ := ft
      rw [hc] at h
      obtain ⟨rfl, rfl⟩ := Prod.mk.inj h
      obtain ⟨hfree, howner⟩ := FrameTable.owner_claim hc
      refine Or.inr ⟨f, rfl, hfree, rfl, rfl, ⟨frames, rfl, ?_⟩, fun g => ?_⟩
      · unfold FrameTable.claim at hc
        rw [Option.map_eq_some_iff] at hc
        obtain ⟨g, -, hg⟩ := hc
        obtain ⟨-, rfl⟩ := Prod.mk.inj hg
        exact FrameTable.size_assign _ _ _
      · refine (howner g).trans ?_
        simp only [eq_comm (a := g)]
        rfl

/-- Pages that are not resident do not become so, and nothing is written out for them. -/
def Recedes (s t : Paging F) : Prop :=
  ∀ k, s.entry k = none → t.entry k = none ∧ t.swap.slots[k]? = s.swap.slots[k]?

theorem Recedes.trans {s m t : Paging F} (h : Recedes s m) (h' : Recedes m t) : Recedes s t :=
  fun k hk => ⟨(h' k (h k hk).1).1, (h' k (h k hk).1).2.trans (h k hk).2⟩

theorem Quiet.recedes {s t : Paging F} (h : Quiet s t) : Recedes s t :=
  fun k hk => ⟨(h.entry k).trans hk, by rw [h.swap]⟩

theorem Agrees.ne_of_entry_none {s : Paging F} (hs : s.Agrees) {f : FrameNumber}
    {key k : PageKey} (h : s.holder f = some key) (hk : s.entry k = none) : k ≠ key := by
  rintro rfl
  obtain ⟨e, he, -⟩ := hs.owned h
  rw [hk] at he
  cases he

theorem Recalled.recedes {s t : Paging F} {key : PageKey} {f : FrameNumber}
    (h : Recalled s t key f) (hs : s.Agrees) : Recedes s t :=
  fun k hk => ⟨(h.entry_ne k (hs.ne_of_entry_none h.held hk)).trans hk, by rw [h.swap]⟩

variable [BackingFile F]

theorem Evicted.recedes {s t : Paging F} {key : PageKey} {f : FrameNumber} {handed : Bool}
    (h : Evicted s t key f handed) (hs : s.Agrees) : Recedes s t := by
  intro k hk
  have hne := hs.ne_of_entry_none h.held hk
  refine ⟨by rw [h.entry, if_neg hne, hk], ?_⟩
  rcases h.swap with ⟨-, a, hw⟩ | ⟨-, hw⟩
  · rw [hw.slots, if_neg fun hkey => hne hkey.1.symm]
  · rw [hw]

theorem Kept.recedes {s t : Paging F} {key : PageKey} {f : FrameNumber} (h : Kept s t key f) :
    Recedes s t := by
  intro k hk
  obtain ⟨a, n, hn, hw⟩ := h.swap
  exact ⟨(h.entry k).trans hk, by rw [hw.slots, if_neg fun hkey => hn hkey.2]⟩

/-- An eviction takes some steps of the pager, and makes no page resident. -/
theorem evict_moves (space : AddressSpace) (pinned : Bool) {s t : Paging F} {f : FrameNumber}
    {o : FrameOwner} {r : Except PagingError Unit} (hs : s.Agrees) (ho : s.owner f = some o)
    (hpin : o.pinned = false) (h : s.evict f = (r, t)) : Moves space pinned s t ∧ Recedes s t := by
  obtain ⟨m, hrec, ⟨-, hev⟩ | ⟨-, hkept, -⟩⟩ := evict_spec hs ho h
  · obtain ⟨handed, hev⟩ := hev hpin
    exact ⟨.tail (.single (.recalled hrec)) (.evicted hev),
      (hrec.recedes hs).trans (hev.recedes (hrec.agrees hs))⟩
  · exact ⟨.tail (.single (.recalled hrec)) (.kept hkept), (hrec.recedes hs).trans hkept.recedes⟩

/-- **A frame for a page is a free one, or one taken from another page.** -/
theorem claimFrame_spec (space : AddressSpace) {s t : Paging F} {tlb : TlbId} {retries : Nat}
    {key : PageKey} {pinned : Bool} {r : Except PagingError FrameNumber} (hs : s.Agrees)
    (h : s.claimFrame tlb retries key pinned = (r, t)) :
    ∃ m, Moves space pinned s m ∧ Recedes s m ∧
      ((∃ err, r = .error err ∧ t = m) ∨
        ∃ f, r = .ok f ∧ m.claim key pinned = (some f, t)) := by
  -- What comes before the frame is claimed at last, or not.
  have hevict : ∀ {g u x m}, s.selectVictim tlb retries = (.ok g, u) → u.evict g = (x, m) →
      Moves space pinned s m ∧ Recedes s m := by
    intro g u x m hvictim hevict
    obtain ⟨hquiet, hmay⟩ := selectVictim_spec hvictim
    obtain ⟨o, ho, hpin⟩ := hmay g rfl
    obtain ⟨hmoves, hrecedes⟩ :=
      evict_moves space pinned (hquiet.agrees hs) ((hquiet.owner g).trans ho) hpin hevict
    exact ⟨hmoves.head (.quiet hquiet), hquiet.recedes.trans hrecedes⟩
  cases claims_of_claimFrame h with
  | free hclaim => exact ⟨s, .refl, (quiet_refl s).recedes, Or.inr ⟨_, rfl, hclaim⟩⟩
  | refused _ hvictim =>
      obtain ⟨hquiet, -⟩ := selectVictim_spec hvictim
      exact ⟨t, .single (.quiet hquiet), hquiet.recedes, Or.inl ⟨_, rfl, rfl⟩⟩
  | kept _ hvictim hfail =>
      obtain ⟨hmoves, hrecedes⟩ := hevict hvictim hfail
      exact ⟨t, hmoves, hrecedes, Or.inl ⟨_, rfl, rfl⟩⟩
  | taken _ hvictim htaken hclaim =>
      obtain ⟨hmoves, hrecedes⟩ := hevict hvictim htaken
      exact ⟨_, hmoves, hrecedes, Or.inr ⟨_, rfl, hclaim⟩⟩
  | lost _ hvictim htaken hclaim =>
      obtain ⟨hmoves, hrecedes⟩ := hevict hvictim htaken
      obtain rfl := eq_of_claim_eq_none hclaim
      exact ⟨t, hmoves, hrecedes, Or.inl ⟨_, rfl, rfl⟩⟩

/-! ## Filling a frame -/

/-- What filling a frame leaves behind: the frame holds a page, and all tables are as they
were. -/
structure Loaded (s t : Paging F) (f : FrameNumber) (page : Page) : Prop where
  core : ∃ m n, t.core = { s.core with memory := m, counters := n } ∧
    m.frameCount = s.core.memory.frameCount
  frame : ∀ g, t.frame g = if g = f then page else s.frame g
  history : t.history = s.history

omit [BackingFile F] in
theorem loaded_setFrame {s t : Paging F} {f : FrameNumber} {page : Page} {n : Counters}
    (hf : f.val < s.core.memory.frameCount)
    (hcore : t.core = { s.core with memory := s.core.memory.setFrame f page, counters := n })
    (hhistory : t.history = s.history) : Loaded s t f page := by
  refine ⟨⟨_, n, hcore, Memory.frameCount_setFrame _ _ _⟩, fun g => ?_, hhistory⟩
  rw [frame, hcore, Memory.frame_setFrame _ _ _ _ hf]
  simp only [eq_comm (a := g), frame]

omit [BackingFile F] in
theorem Loaded.trans {s m t : Paging F} {f : FrameNumber} {page page' : Page}
    (h : Loaded s m f page) (h' : Loaded m t f page') : Loaded s t f page' := by
  obtain ⟨a, n, ha, hac⟩ := h.core
  obtain ⟨b, n', hb, hbc⟩ := h'.core
  refine ⟨⟨b, n', ?_, ?_⟩, fun g => ?_, h'.history.trans h.history⟩
  · rw [hb, ha]
  · rw [hbc, ha, hac]
  · rw [h'.frame, h.frame]
    split <;> rfl

omit [BackingFile F] in
/-- A frame filled afresh holds what the page starts with. -/
theorem fillFresh_spec {s t : Paging F} {space : AddressSpace} {p : PageNumber} {f : FrameNumber}
    {flags : EntryFlags} (hf : f.val < s.core.memory.frameCount)
    (h : s.fillFresh space p f = (flags, t)) :
    flags = .fresh ((space.image.backing p).any (·.2)) ∧
      Loaded s t f (space.initialPage p) ∧ t.swap = s.swap := by
  unfold fillFresh at h
  unfold AddressSpace.initialPage
  split at h <;> rename_i hb <;> obtain ⟨rfl, rfl⟩ := Prod.mk.inj h <;> rw [hb]
  · exact ⟨rfl, loaded_setFrame hf rfl rfl, rfl⟩
  · exact ⟨rfl, loaded_setFrame hf rfl rfl, rfl⟩

/-- **A frame is filled from the page's slot of the swap store**, or if it has none from its
program. -/
theorem fill_spec {s t : Paging F} {space : AddressSpace} {p : PageNumber} {f : FrameNumber}
    {r : Except PagingError EntryFlags} (hf : f.val < s.core.memory.frameCount)
    (h : s.fill space p f = (r, t)) :
    (∃ page readOnly, r = .ok (.fresh readOnly) ∧ Source s.swap t.swap space p page readOnly ∧
        Loaded s t f page) ∨
      (∃ a n page, r = .error .shortTransfer ∧ s.swap.slots[space.key p]? = some a ∧
        n ≠ pageSize ∧ SwapStore.ReadFrom s.swap t.swap a n page ∧ Loaded s t f page) := by
  unfold fill swapIn readIn at h
  cases hr : s.swap.readIn (space.key p) (s.core.memory.frame f) with
  | mk x rest =>
      obtain ⟨page, swap⟩ := rest
      rw [hr] at h
      obtain ⟨hnone, rfl, rfl, rfl⟩ | ⟨a, n, ha, hread, ⟨rfl, rfl⟩ | ⟨hn, rfl⟩⟩ :=
        SwapStore.readIn_spec hr
      · dsimp only at h
        -- the frame is put back as it was before it is filled
        have hback : Loaded s _ f (s.core.memory.frame f) :=
          loaded_setFrame (t := { s with core := { s.core with
            memory := s.core.memory.setFrame f (s.core.memory.frame f) } }) hf rfl rfl
        cases hff : fillFresh { s with core := { s.core with
            memory := s.core.memory.setFrame f (s.core.memory.frame f) } } space p f with
        | mk flags u =>
            rw [hff] at h
            obtain ⟨rfl, hload, hswap⟩ := fillFresh_spec
              (Nat.lt_of_lt_of_eq hf (Memory.frameCount_setFrame _ _ _).symm) hff
            obtain ⟨rfl, rfl⟩ := Prod.mk.inj h
            exact Or.inl ⟨_, _, rfl, .program hnone hswap, hback.trans hload⟩
      · dsimp only at h
        obtain ⟨rfl, rfl⟩ := Prod.mk.inj h
        exact Or.inl ⟨page, false, rfl, .slot a page ha hread, loaded_setFrame hf rfl rfl⟩
      · dsimp only at h
        obtain ⟨rfl, rfl⟩ := Prod.mk.inj h
        exact Or.inr ⟨a, n, page, rfl, ha, hn, hread, loaded_setFrame hf rfl rfl⟩

/-! ## Making pages resident -/

section Claimed

variable {m c u t : Paging F} {space : AddressSpace} {p : PageNumber} {f : FrameNumber}
  {pinned : Bool} {page : Page}

omit [BackingFile F] in
theorem lt_frameCount_of_claim {key : PageKey} (hm : m.Agrees)
    (hc : m.claim key pinned = (some f, c)) : f.val < c.core.memory.frameCount := by
  obtain ⟨h, -⟩ | ⟨g, hg, -, -, -, ⟨frames, hcore, hsize⟩, howner⟩ := claim_spec hc
  · cases h
  · obtain rfl := Option.some.inj hg
    have ho := howner f
    rw [if_pos rfl, owner, hcore] at ho
    rw [hcore]
    show f.val < m.core.memory.frameCount
    rw [hm.memory, ← hsize]
    exact FrameTable.lt_size_of_owner ho

omit [BackingFile F] in
theorem swap_of_claim {key : PageKey} (hc : m.claim key pinned = (some f, c)) : c.swap = m.swap := by
  obtain ⟨h, -⟩ | ⟨g, -, -, hswap, -⟩ := claim_spec hc
  · cases h
  · exact hswap

omit [BackingFile F] in
/-- A frame that was claimed for a page and loaded is the page's from now on. -/
theorem placed_of_claim {readOnly : Bool} (hc : m.claim (space.key p) pinned = (some f, c))
    (hload : Loaded c u f page) (habsent : m.entry (space.key p) = none)
    (hrange : m.InRange (space.key p))
    (hcore : t.core = { u.core with
      table := u.core.table.insert (space.key p)
        { page := p, frame := some f, flags := .fresh readOnly } })
    (hhistory : t.history = .resident (space.key p) :: u.history) :
    Placed m t space p f pinned page readOnly := by
  obtain ⟨h, -⟩ | ⟨g, hg, hfree, -, hchist, ⟨frames, hccore, hsize⟩, howner⟩ := claim_spec hc
  · cases h
  · obtain rfl := Option.some.inj hg
    obtain ⟨mem, n, hucore, hmem⟩ := hload.core
    have htcore := hcore
    rw [hucore, hccore] at htcore
    refine ⟨sameShape_of_tlbs (by rw [htcore]) (by rw [htcore]; exact hsize)
      (by rw [htcore, hmem, hccore]), hfree, habsent, hrange, fun k => ?_, fun g => ?_,
      fun id i => ?_, fun g => ?_, ?_, by rw [htcore]⟩
    · rw [entry, htcore, Std.ExtTreeMap.getElem?_insert]
      simp only [Std.LawfulEqCmp.compare_eq_iff_eq, eq_comm (a := k), entry]
    · rw [← howner, owner, htcore, owner, hccore]
    · rw [slot, htcore, slot]
    · rw [show t.frame g = u.frame g by rw [frame, hcore, frame], hload.frame]
      rw [show c.frame g = m.frame g by rw [frame, hccore, frame]]
    · rw [hhistory, hload.history, hchist]

omit [BackingFile F] in
/-- So is one that was filled with what the page starts with, -/
theorem placed_of_fillFresh {flags : EntryFlags} (hm : m.Agrees)
    (hc : m.claim (space.key p) pinned = (some f, c)) (hfill : c.fillFresh space p f = (flags, u))
    (habsent : m.entry (space.key p) = none) (hrange : m.InRange (space.key p))
    (ht : t = (u.setTable (u.core.table.insert (space.key p)
      { page := p, frame := some f, flags })).record (.resident (space.key p))) :
    t.swap = m.swap ∧ Placed m t space p f pinned (space.initialPage p)
      ((space.image.backing p).any (·.2)) := by
  obtain ⟨rfl, hload, hswap⟩ := fillFresh_spec (lt_frameCount_of_claim hm hc) hfill
  subst ht
  exact ⟨hswap.trans (swap_of_claim hc), placed_of_claim hc hload habsent hrange rfl rfl⟩

/-- and one that was filled with what the page held last. -/
theorem filled_of_claim {readOnly : Bool} (hc : m.claim (space.key p) pinned = (some f, c))
    (hload : Loaded c u f page) (hsource : Source c.swap u.swap space p page readOnly)
    (habsent : m.entry (space.key p) = none) (hrange : m.InRange (space.key p))
    (hcore : t.core = { u.core with
      table := u.core.table.insert (space.key p)
        { page := p, frame := some f, flags := .fresh readOnly } })
    (hswap : t.swap = u.swap) (hhistory : t.history = .resident (space.key p) :: u.history) :
    Filled m t space p f pinned page readOnly := by
  refine (placed_of_claim hc hload habsent hrange hcore hhistory).filled ?_
  rw [hswap, ← swap_of_claim hc]
  exact hsource

/-- A frame that was claimed for a page but could not be filled is free again. -/
theorem spoiled_of_claim {key : PageKey} {a : SwapSlot} {n : Nat}
    (hc : m.claim key pinned = (some f, c)) (hload : Loaded c u f page)
    (hread : SwapStore.ReadFrom c.swap u.swap a n page) : Spoiled m (u.release f) f := by
  obtain ⟨h, -⟩ | ⟨g, hg, hfree, hcswap, hchist, ⟨frames, hccore, hsize⟩, howner⟩ := claim_spec hc
  · cases h
  · obtain rfl := Option.some.inj hg
    obtain ⟨mem, n', hucore, hmem⟩ := hload.core
    have htcore := core_release u f
    rw [hucore, hccore] at htcore
    refine ⟨sameShape_of_tlbs (by rw [htcore]) ?_ (by rw [htcore, hmem, hccore]), hfree,
      fun k => ?_, fun g => ?_, fun id i => ?_, fun g hg => ?_, ⟨a, n, page, ?_⟩, ?_, by rw [htcore]⟩
    · rw [htcore]
      exact (FrameTable.size_release _ _).trans hsize
    · rw [entry, htcore, entry]
    · have hg := howner g
      rw [owner, hccore] at hg
      rw [owner, htcore, FrameTable.owner_release, hg]
      by_cases hgf : g = f
      · rw [if_pos hgf.symm, hgf, hfree]
      · rw [if_neg (Ne.symm hgf), if_neg hgf]
    · rw [slot, htcore, slot]
    · have hframe := hload.frame g
      rw [if_neg hg, frame, hucore, frame, hccore] at hframe
      rw [frame, htcore]
      exact hframe
    · rw [swap_release, ← hcswap]
      exact hread
    · rw [history_release, hload.history, hchist]

end Claimed

/-- **A page that is not resident becomes so**, or the tables stay in order. -/
theorem pageIn_spec {s t : Paging F} {tlb : TlbId} {retries : Nat} {space : AddressSpace}
    {p : PageNumber} {r : Except PagingError Translation} (hs : s.Agrees)
    (habsent : s.entry (space.key p) = none) (hrange : s.InRange (space.key p))
    (h : s.pageIn tlb retries space p = (r, t)) :
    Moves space false s t ∧ ∀ e, r = .ok e → t.entry (space.key p) = some e := by
  have hcount := quiet_count s fun c => { c with faults := c.faults + 1 }
  have hagrees := hcount.agrees hs
  have hstages := pagesIn_of_pageIn h
  rw [← hcount.entry] at habsent
  rw [InRange, ← hcount.spaces, ← InRange] at hrange
  generalize hs' : (s.count fun c => { c with faults := c.faults + 1 }) = s'
    at hcount hagrees habsent hrange
  cases hstages with
  | refused hclaim =>
      rw [hs'] at hclaim
      obtain ⟨m, hmoves, -, ⟨err, -, rfl⟩ | ⟨f, hr, -⟩⟩ := claimFrame_spec space hagrees hclaim
      · exact ⟨hmoves.head (.quiet hcount), fun e he => by cases he⟩
      · cases hr
  | spoiled hclaim hfill ht =>
      rw [hs'] at hclaim
      obtain ⟨m, hmoves, -, ⟨err, hr, -⟩ | ⟨f, hr, hm⟩⟩ := claimFrame_spec space hagrees hclaim
      · cases hr
      · obtain rfl := Except.ok.inj hr
        obtain ⟨_, _, hr, -⟩ | ⟨a, n, page, -, -, -, hread, hload⟩ :=
          fill_spec (lt_frameCount_of_claim (hmoves.agrees hagrees) hm) hfill
        · cases hr
        · subst ht
          exact ⟨(hmoves.head (.quiet hcount)).tail (.spoiled (spoiled_of_claim hm hload hread)),
            fun e he => by cases he⟩
  | filled hclaim hfill ht =>
      rw [hs'] at hclaim
      obtain ⟨m, hmoves, hrecedes, ⟨err, hr, -⟩ | ⟨f, hr, hm⟩⟩ :=
        claimFrame_spec space hagrees hclaim
      · cases hr
      · obtain rfl := Except.ok.inj hr
        obtain ⟨page, readOnly, hr, hsource, hload⟩ | ⟨_, _, _, hr, -⟩ :=
          fill_spec (lt_frameCount_of_claim (hmoves.agrees hagrees) hm) hfill
        · obtain rfl := Except.ok.inj hr
          have hfilled : Filled m t space p _ false page readOnly :=
            filled_of_claim hm hload hsource (hrecedes _ habsent).1 (hmoves.inRange hrange)
              (by rw [ht]; rfl) (by rw [ht]; rfl) (by rw [ht]; rfl)
          refine ⟨(hmoves.head (.quiet hcount)).tail (.filled hfilled), fun e he => ?_⟩
          obtain rfl := Except.ok.inj he
          exact (hfilled.entry _).trans (if_pos rfl)
        · cases hr

omit [BackingFile F] in
/-- Of a page that may not be asked for it is said why. -/
theorem checkRange_cases (s : Paging F) (pid : Pid) (p : PageNumber) :
    (s.core.spaces[pid]? = none ∧ s.checkRange pid p = .error (.noAddressSpace pid)) ∨
      (∃ count, s.core.spaces[pid]? = some count ∧ count ≤ p.val ∧
        s.checkRange pid p = .error (.invalidAddress p.base.val)) ∨
      (s.InRange ⟨pid, p⟩ ∧ s.checkRange pid p = .ok ()) := by
  unfold checkRange CoreMap.pageCount
  cases hcount : s.core.spaces[pid]? with
  | none => exact Or.inl ⟨rfl, rfl⟩
  | some count =>
      dsimp only
      split
      · rename_i hle
        exact Or.inr (Or.inl ⟨count, rfl, hle, rfl⟩)
      · rename_i hle
        exact Or.inr (Or.inr ⟨⟨count, hcount, Nat.lt_of_not_le hle⟩, rfl⟩)

omit [BackingFile F] in
theorem checkRange_ok {s : Paging F} {pid : Pid} {p : PageNumber}
    (h : s.checkRange pid p = .ok ()) : s.InRange ⟨pid, p⟩ := by
  rcases s.checkRange_cases pid p with ⟨-, hcheck⟩ | ⟨_, -, -, hcheck⟩ | ⟨hrange, -⟩
  · cases h.symm.trans hcheck
  · cases h.symm.trans hcheck
  · exact hrange

/-- How it is answered that a page was asked for: the process has no address space, or the page lies
outside it, or it is resident, or it is made so. -/
inductive Resolves (s : Paging F) (tlb : TlbId) (retries : Nat) (space : AddressSpace)
    (p : PageNumber) : Except PagingError Translation → Paging F → Prop
  | unregistered (hnone : s.core.spaces[space.pid]? = none) :
    Resolves s tlb retries space p (.error (.noAddressSpace space.pid)) s
  | outside {count} (hcount : s.core.spaces[space.pid]? = some count) (hle : count ≤ p.val) :
    Resolves s tlb retries space p (.error (.invalidAddress p.base.val)) s
  | resident {e} (hrange : s.InRange (space.key p)) (he : s.entry (space.key p) = some e) :
    Resolves s tlb retries space p (.ok e) s
  | missing {r t} (hrange : s.InRange (space.key p)) (habsent : s.entry (space.key p) = none)
    (h : s.pageIn tlb retries space p = (r, t)) : Resolves s tlb retries space p r t

theorem resolves_of_resolve {s t : Paging F} {tlb : TlbId} {retries : Nat} {space : AddressSpace}
    {p : PageNumber} {r : Except PagingError Translation} (hs : s.Agrees)
    (h : s.resolve tlb retries space p = (r, t)) : Resolves s tlb retries space p r t := by
  unfold resolve at h
  rw [hs.residentEntry_eq] at h
  rcases s.checkRange_cases space.pid p with ⟨hnone, hcheck⟩ | ⟨count, hcount, hle, hcheck⟩ |
    ⟨hrange, hcheck⟩ <;> rw [hcheck] at h
  · obtain ⟨rfl, rfl⟩ := Prod.mk.inj h
    exact .unregistered hnone
  · obtain ⟨rfl, rfl⟩ := Prod.mk.inj h
    exact .outside hcount hle
  · cases he : s.entry (space.key p) with
    | some e =>
        rw [he] at h
        obtain ⟨rfl, rfl⟩ := Prod.mk.inj h
        exact .resident hrange he
    | none =>
        rw [he] at h
        exact .missing hrange he h

/-- **The entry that a page is resolved to is the one in the page table.** -/
theorem resolve_spec {s t : Paging F} {tlb : TlbId} {retries : Nat} {space : AddressSpace}
    {p : PageNumber} {r : Except PagingError Translation} (hs : s.Agrees)
    (h : s.resolve tlb retries space p = (r, t)) :
    Moves space false s t ∧ ∀ e, r = .ok e → t.entry (space.key p) = some e ∧
      s.InRange (space.key p) := by
  cases resolves_of_resolve hs h with
  | unregistered _ => exact ⟨.refl, nofun⟩
  | outside _ _ => exact ⟨.refl, nofun⟩
  | resident hrange he => exact ⟨.refl, fun e he' => Except.ok.inj he' ▸ ⟨he, hrange⟩⟩
  | missing hrange habsent h =>
      obtain ⟨hmoves, hentry⟩ := pageIn_spec hs habsent hrange h
      exact ⟨hmoves, fun e he => ⟨hentry e he, hrange⟩⟩

/-- **So is the one that a strategy finds.** -/
theorem translate_spec {s t : Paging F} {strategy : Strategy} {tlb : TlbId} {retries : Nat}
    {space : AddressSpace} {p : PageNumber} {r : Except PagingError Translation} (hs : s.Agrees)
    (h : s.translate strategy tlb retries space p = (r, t)) :
    Moves space false s t ∧ ∀ e, r = .ok e → t.entry (space.key p) = some e ∧
      s.InRange (space.key p) := by
  cases strategy with
  | demand => exact resolve_spec hs h
  | eager =>
      unfold translate at h
      obtain ⟨rfl, rfl⟩ := Prod.mk.inj h
      refine ⟨.refl, fun e he => ?_⟩
      unfold lookupResident at he
      split at he
      · cases he
      · rename_i hcheck
        rw [hs.residentEntry_eq] at he
        split at he
        · rename_i d hd
          obtain rfl := Except.ok.inj he
          exact ⟨hd, checkRange_ok hcheck⟩
        · cases he

/-! ## Making all pages of a process resident -/

/-- Some pages of a process are to get frames for good: none of them is resident, or has a slot of
the swap store. -/
structure Awaits (s : Paging F) (space : AddressSpace) (ps : List PageNumber) : Prop where
  nodup : ps.Nodup
  absent : ∀ p ∈ ps, s.entry (space.key p) = none
  slot : ∀ p ∈ ps, s.swap.slots[space.key p]? = none
  range : ∀ p ∈ ps, s.InRange (space.key p)

/-- One page gets a frame for good, and the others go on waiting for theirs. -/
theorem preloadPage_spec {s t : Paging F} {tlb : TlbId} {retries : Nat} {space : AddressSpace}
    {p : PageNumber} {ps : List PageNumber} {r : Except PagingError Unit} (hs : s.Agrees)
    (hps : s.Awaits space (p :: ps)) (h : s.preloadPage tlb retries space p = (r, t)) :
    Moves space true s t ∧ (r = .ok () → ∃ f, t.owner f = some ⟨space.key p, true⟩) ∧
      t.Awaits space ps := by
  have habsent := hps.absent p List.mem_cons_self
  have hslot := hps.slot p List.mem_cons_self
  have hrange := hps.range p List.mem_cons_self
  obtain ⟨hnot, hnodup⟩ := List.nodup_cons.1 hps.nodup
  suffices hstep : Moves space true s t ∧
      (r = .ok () → ∃ f, t.owner f = some ⟨space.key p, true⟩) ∧
      ∀ k, k ≠ space.key p → s.entry k = none →
        t.entry k = none ∧ t.swap.slots[k]? = s.swap.slots[k]? by
    obtain ⟨hmoves, hpinned, hrest⟩ := hstep
    have hleft : ∀ q ∈ ps, t.entry (space.key q) = none ∧
        t.swap.slots[space.key q]? = s.swap.slots[space.key q]? := by
      intro q hq
      refine hrest _ ?_ (hps.absent q (List.mem_cons_of_mem _ hq))
      intro heq
      obtain rfl : q = p := congrArg PageKey.page heq
      exact hnot hq
    refine ⟨hmoves, hpinned, hnodup, fun q hq => (hleft q hq).1, fun q hq => ?_, fun q hq => ?_⟩
    · rw [(hleft q hq).2]
      exact hps.slot q (List.mem_cons_of_mem _ hq)
    · exact hmoves.inRange (hps.range q (List.mem_cons_of_mem _ hq))
  cases preloadsPage_of_preloadPage h with
  | refused hclaim =>
      obtain ⟨m, hmoves, hrecedes, ⟨err, -, rfl⟩ | ⟨f, hr, -⟩⟩ := claimFrame_spec space hs hclaim
      · exact ⟨hmoves, nofun, fun k _ hk => hrecedes k hk⟩
      · cases hr
  | filled hclaim hfill ht =>
      obtain ⟨m, hmoves, hrecedes, ⟨err, hr, -⟩ | ⟨f, hr, hm⟩⟩ := claimFrame_spec space hs hclaim
      · cases hr
      · obtain rfl := Except.ok.inj hr
        obtain ⟨hswap, hplaced⟩ := placed_of_fillFresh (hmoves.agrees hs) hm hfill
          (hrecedes _ habsent).1 (hmoves.inRange hrange) ht
        have hfilled : Filled m t space p _ true (space.initialPage p) _ :=
          hplaced.filled (.program ((hrecedes _ habsent).2.trans hslot) hswap)
        refine ⟨hmoves.tail (.filled hfilled),
          fun _ => ⟨_, (hplaced.owner _).trans (if_pos rfl)⟩, fun k hne hk => ⟨?_, ?_⟩⟩
        · rw [hplaced.entry, if_neg hne, (hrecedes k hk).1]
        · rw [hswap, (hrecedes k hk).2]

/-- **Some pages get frames for good**, as long as frames can be had. -/
theorem preloadPages_spec {tlb : TlbId} {retries : Nat} {space : AddressSpace}
    {ps : List PageNumber} {s t : Paging F} {r : Except PagingError Unit} (hs : s.Agrees)
    (hps : s.Awaits space ps) (h : preloadPages tlb retries space ps s = (r, t)) :
    Moves space true s t ∧
      (r = .ok () → ∀ p ∈ ps, ∃ f, t.owner f = some ⟨space.key p, true⟩) := by
  induction ps generalizing s with
  | nil =>
      obtain ⟨-, rfl⟩ := Prod.mk.inj h
      exact ⟨.refl, fun _ p hp => by cases hp⟩
  | cons p ps ih =>
      unfold preloadPages at h
      cases hpre : s.preloadPage tlb retries space p with
      | mk x m =>
          rw [hpre] at h
          obtain ⟨hmoves, hpinned, hrest⟩ := preloadPage_spec hs hps hpre
          cases x with
          | error err =>
              obtain ⟨rfl, rfl⟩ := Prod.mk.inj h
              exact ⟨hmoves, nofun⟩
          | ok _ =>
              obtain ⟨hmoves', hpinned'⟩ := ih (hmoves.agrees hs) hrest h
              refine ⟨hmoves.trans hmoves', fun hr q hq => ?_⟩
              rcases List.mem_cons.1 hq with rfl | hq
              · obtain ⟨f, hf⟩ := hpinned rfl
                exact ⟨f, hmoves'.pinned hf⟩
              · exact hpinned' hr q hq

end Paging

end DemandPaging
