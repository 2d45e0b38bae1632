import DemandPaging.Proofs.Coherence

/-!
# Pages that have their frames for good

A process whose pages are all loaded before it starts keeps each of them in the frame that it was
loaded into, until the process loses them.  If all processes are such, the pager has nothing to do.

* `Paging.Anchored` — a process has frames for good only, and no slot of the swap store.
* `Paging.Preloaded` — moreover every page has one; `Paging.Change.preloaded` says that every
  change that does not concern the process leaves it so.
* `Paging.Settled` — all processes are preloaded; `Paging.Settled.translate_eq` says that looking
  up a page changes nothing then.
-/

namespace DemandPaging

namespace Paging

variable {F : Type} {s t : Paging F} {pid : Pid} {pages : Nat}

/-! ## Frames for good -/

/-- A process has frames for good only, and no slot of the swap store. -/
structure Anchored (pid : Pid) (s : Paging F) : Prop where
  pinned : ∀ {f o}, s.owner f = some o → o.key.pid = pid → o.pinned = true
  slot : ∀ {key : PageKey}, key.pid = pid → s.swap.slots[key]? = none

/-- Whatever process has a frame has it for good, and no page has a slot of the swap store. -/
def Firm (s : Paging F) : Prop := ∀ pid, s.Anchored pid

theorem Firm.pinned (h : s.Firm) {f : FrameNumber} {o : FrameOwner} (ho : s.owner f = some o) :
    o.pinned = true := (h o.key.pid).pinned ho rfl

/-- A step by which the process gets neither a frame nor a slot. -/
theorem Anchored.of_subset (hs : s.Anchored pid)
    (howner : ∀ {f o}, t.owner f = some o → o.key.pid = pid → s.owner f = some o)
    (hslot : ∀ {key : PageKey} {a : SwapSlot}, t.swap.slots[key]? = some a → key.pid = pid →
      s.swap.slots[key]? = some a) : t.Anchored pid := by
  refine ⟨fun ho hpid => hs.pinned (howner ho hpid) hpid, fun {key} hkey => ?_⟩
  rw [Option.eq_none_iff_forall_ne_some]
  intro a ha
  have hold := hslot ha hkey
  rw [hs.slot hkey] at hold
  cases hold

/-- Every page of a process has a frame for good. -/
structure Preloaded (pid : Pid) (pages : Nat) (place : PageNumber → FrameNumber) (s : Paging F) :
    Prop extends Anchored pid s where
  space : s.core.spaces[pid]? = some pages
  owner : ∀ {q : PageNumber}, q.val < pages → s.owner (place q) = some ⟨⟨pid, q⟩, true⟩

variable {place : PageNumber → FrameNumber}

/-- Every page is resident where it was placed. -/
theorem Preloaded.entry (h : s.Preloaded pid pages place) (hs : s.Agrees) {q : PageNumber}
    (hq : q.val < pages) : ∃ e, s.entry ⟨pid, q⟩ = some e ∧ e.maps (place q) = true :=
  hs.owned (holder_eq_some.2 ⟨_, h.owner hq, rfl⟩)

/-- Every page is found without any change. -/
theorem Preloaded.translate [BackingFile F] {space : AddressSpace}
    (h : s.Preloaded space.pid pages place) (hs : s.Agrees) {q : PageNumber} (hq : q.val < pages)
    {e : Translation} (he : s.entry ⟨space.pid, q⟩ = some e) (tlb : TlbId) (retries : Nat) :
    s.translate .eager tlb retries space q = (.ok e, s) := by
  have hcheck : s.checkRange space.pid q = .ok () := by
    rw [checkRange, CoreMap.pageCount, h.space]
    exact if_neg (Nat.not_le.2 hq)
  have hresident : s.residentEntry (space.key q) = some e := by
    rw [hs.residentEntry_eq]
    exact he
  rw [Paging.translate, lookupResident, hcheck]
  dsimp only
  rw [hresident]

/-- A step that leaves owners of frames, slots and the space of the process alone. -/
theorem Preloaded.of_same (h : s.Preloaded pid pages place) (howner : ∀ f, t.owner f = s.owner f)
    (hswap : t.swap = s.swap) (hspace : t.core.spaces[pid]? = s.core.spaces[pid]?) :
    t.Preloaded pid pages place :=
  ⟨h.of_subset (fun ho _ => by rwa [howner] at ho) fun ha _ => by rwa [hswap] at ha,
    hspace.trans h.space, fun hq => (howner _).trans (h.owner hq)⟩

/-- A step by which another process loses pages. -/
theorem Preloaded.of_lost {p : Pid} (hs : s.Preloaded pid pages place) (h : Lost s t p)
    (hne : p ≠ pid) (hslot : ∀ {key : PageKey} {a : SwapSlot}, t.swap.slots[key]? = some a →
      s.swap.slots[key]? = some a) (hspace : t.core.spaces[pid]? = s.core.spaces[pid]?) :
    t.Preloaded pid pages place := by
  refine ⟨hs.of_subset (fun {f o} ho _ => ?_) fun ha _ => hslot ha, hspace.trans hs.space,
    fun {q} hq => ?_⟩
  · rcases h.owner f with hsame | ⟨hnone, -⟩
    · rwa [hsame] at ho
    · rw [hnone] at ho
      cases ho
  · rcases h.owner (place q) with hsame | ⟨-, o, ho, hpid⟩
    · rw [hsame, hs.owner hq]
    · obtain rfl := Option.some.inj ((hs.owner hq).symm.trans ho)
      exact absurd hpid.symm hne

variable [BackingFile F] {space : AddressSpace} {pinned : Bool} {may : Fate → Prop}

omit [BackingFile F] in
theorem Quiet.anchored (h : Quiet s t) (hs : s.Anchored pid) : t.Anchored pid :=
  hs.of_subset (fun ho _ => by rwa [h.owner] at ho) fun ha _ => by rwa [h.swap] at ha

/-- **The pager takes no frame from the process**, and gives it none but for good. -/
theorem Move.anchored (h : Move space pinned s t) (hs : s.Anchored pid)
    (hfill : ∀ {p f page readOnly}, Filled s t space p f pinned page readOnly → space.pid = pid →
      pinned = true) : t.Anchored pid := by
  cases h with
  | quiet h => exact h.anchored hs
  | recalled h =>
      exact hs.of_subset (fun ho _ => by rwa [h.owner] at ho) fun ha _ => by rwa [h.swap] at ha
  | @evicted key f handed h =>
      refine hs.of_subset (fun {g o} ho _ => ?_) fun {k a} ha hk => ?_
      · rw [h.owner] at ho
        split at ho
        · cases ho
        · exact ho
      · rcases h.swap with ⟨-, b, hw⟩ | ⟨-, hsame⟩
        · rw [hw.slots] at ha
          split at ha
          · -- the page that is written out has an owner that is not pinned
            rename_i hkey
            obtain ⟨o, ho, hunpinned⟩ := h.unpinned
            obtain ⟨o', ho', hheld⟩ := holder_eq_some.1 h.held
            obtain rfl := Option.some.inj (ho.symm.trans ho')
            rw [hs.pinned ho (by rw [hheld, hkey.1, hk])] at hunpinned
            cases hunpinned
          · exact ha
        · rwa [hsame] at ha
  | kept h =>
      obtain ⟨b, n, hn, hw⟩ := h.swap
      refine hs.of_subset (fun ho _ => by rwa [h.owner] at ho) fun ha _ => ?_
      rwa [hw.slots, if_neg fun hkey => hn hkey.2] at ha
  | @filled p f page readOnly h =>
      refine ⟨fun {g o} ho hpid => ?_, fun {key} hkey => ?_⟩
      · rw [h.owner] at ho
        split at ho
        · obtain rfl := Option.some.inj ho
          exact hfill h hpid
        · exact hs.pinned ho hpid
      · have hslots : t.swap.slots = s.swap.slots := by
          cases h.source with
          | program _ ht => rw [ht]
          | slot _ _ _ hread => exact hread.slots
        rw [hslots]
        exact hs.slot hkey
  | spoiled h =>
      obtain ⟨b, n, page, hread⟩ := h.swap
      exact hs.of_subset (fun ho _ => by rwa [h.owner] at ho) fun ha _ => by
        rwa [hread.slots] at ha

theorem Moves.anchored (h : Moves space true s t) (hs : s.Anchored pid) : t.Anchored pid := by
  induction h with
  | refl => exact hs
  | tail _ hmove ih => exact hmove.anchored ih fun _ _ => rfl

/-- **No change moves a page of the process** unless the process loses its pages. -/
theorem Change.preloaded (h : Change may s t) (hs : s.Agrees) (hnot : ¬ may (.loses pid))
    (hp : s.Preloaded pid pages place) : t.Preloaded pid pages place := by
  cases h with
  | quiet h => exact hp.of_same h.owner h.swap (by rw [h.spaces])
  | @move space pinned _ h =>
      refine ⟨h.anchored hp.toAnchored fun {p f page readOnly} hfill hpid => ?_,
        by rw [h.spaces, hp.space], fun hq => h.pinned (hp.owner hq)⟩
      -- all pages of the process are resident, so that none of them is filled in
      obtain ⟨count, hcount, hlt⟩ := hfill.range
      have habsent := hfill.absent
      rw [AddressSpace.key, hpid] at hcount habsent
      obtain rfl := Option.some.inj (hp.space.symm.trans hcount)
      obtain ⟨e, he, -⟩ := hp.entry hs hlt
      cases habsent.symm.trans he
  | adjusted h => exact hp.of_same h.owner h.swap (by rw [h.spaces])
  | @registered p count _ h =>
      have hne : p ≠ pid := by
        rintro rfl
        have hsome := hp.space
        rw [h.absent] at hsome
        cases hsome
      refine hp.of_same h.owner h.swap ?_
      rw [h.spaces, Std.ExtTreeMap.getElem?_insert, if_neg (by simpa using hne)]
  | @emptied p hmay _ h =>
      obtain ⟨hswap, -, hspaces⟩ := h.steps.rest
      exact hp.of_lost (h.steps.lost hs) (fun hne => hnot (hne ▸ hmay))
        (fun ha => by rwa [hswap] at ha) (by rw [hspaces])
  | @destroyed p hmay h =>
      have hgone := h.gone hs
      have hne : p ≠ pid := fun hne => hnot (hne ▸ hmay)
      refine hp.of_lost hgone.toLost hne (fun {key a} ha => ?_) ?_
      · rw [hgone.swap.slots] at ha
        split at ha
        · cases ha
        · exact ha
      · rw [hgone.spaces, if_neg hne.symm]

theorem Changes.preloaded (h : Changes may s t) (hs : s.Consistent) (hnot : ¬ may (.loses pid))
    (hp : s.Preloaded pid pages place) : t.Preloaded pid pages place := by
  suffices t.Consistent ∧ t.Preloaded pid pages place from this.2
  induction h with
  | refl => exact ⟨hs, hp⟩
  | tail _ hstep ih => exact ⟨hstep.consistent ih.1, hstep.preloaded ih.1.toAgrees hnot ih.2⟩

/-! ## All processes -/

/-- All processes are preloaded. -/
structure Settled (s : Paging F) : Prop extends Consistent s where
  preloaded : ∀ {pid pages}, s.core.spaces[pid]? = some pages → ∃ place, s.Preloaded pid pages place

namespace Settled

omit [BackingFile F]

/-- Nothing but frames for good is in use. -/
theorem firm (hs : s.Settled) : s.Firm := by
  refine fun pid => ⟨fun {f o} ho _ => ?_, fun {key} _ => ?_⟩
  · obtain ⟨e, he, hef⟩ := hs.owned (holder_eq_some.2 ⟨o, ho, rfl⟩)
    obtain ⟨count, hcount, hlt⟩ := hs.resident he
    obtain ⟨place, hplace⟩ := hs.preloaded hcount
    obtain ⟨d, hd, hdf⟩ := hplace.entry hs.toAgrees hlt
    obtain rfl := Option.some.inj (he.symm.trans hd)
    have hf : f = place o.key.page :=
      Option.some.inj ((Translation.maps_iff.1 hef).2.symm.trans (Translation.maps_iff.1 hdf).2)
    rw [hf, hplace.owner hlt] at ho
    exact (congrArg FrameOwner.pinned (Option.some.inj ho)).symm
  · rw [Option.eq_none_iff_forall_ne_some]
    intro a ha
    obtain ⟨count, hcount, -⟩ := hs.stored ha
    obtain ⟨place, hplace⟩ := hs.preloaded hcount
    cases (hplace.slot rfl).symm.trans ha

/-- **Every page that is looked up is resident**, so that nothing has to be done for it. -/
theorem translate_eq [BackingFile F] {strategy : Strategy} {tlb : TlbId} {retries : Nat}
    {space : AddressSpace} {p : PageNumber} {r : Except PagingError Translation} (hs : s.Settled)
    (h : s.translate strategy tlb retries space p = (r, t)) : t = s := by
  cases strategy with
  | eager => exact (Prod.mk.inj h).2.symm
  | demand =>
      unfold translate resolve at h
      dsimp only at h
      split at h
      · exact (Prod.mk.inj h).2.symm
      · rename_i hcheck
        obtain ⟨count, hcount, hlt⟩ := checkRange_ok hcheck
        obtain ⟨place, hplace⟩ := hs.preloaded hcount
        obtain ⟨e, he, -⟩ := hplace.entry hs.toAgrees hlt
        rw [hs.residentEntry_eq, show s.entry (space.key p) = some e from he] at h
        exact (Prod.mk.inj h).2.symm

end Settled

/-- A change by which no process comes to have pages. -/
theorem Change.settled (h : Change may s t) (hgains : ∀ pid, ¬ may (.gains pid))
    (hpins : ∀ pid, ¬ may (.pins pid)) (hs : s.Settled) : t.Settled := by
  refine ⟨h.consistent hs.toConsistent, fun {pid pages} hspace => ?_⟩
  suffices hstep : ∃ may' : Fate → Prop, Change may' s t ∧ ¬ may' (.loses pid) ∧
      s.core.spaces[pid]? = some pages by
    obtain ⟨may', hstep, hnot, hspace⟩ := hstep
    obtain ⟨place, hplace⟩ := hs.preloaded hspace
    exact ⟨place, hstep.preloaded hs.toAgrees hnot hplace⟩
  cases h with
  | quiet h => exact ⟨fun _ => False, .quiet h, id, h.spaces ▸ hspace⟩
  | move hpinned h =>
      exact ⟨fun _ => False, .move (fun hp => hpins _ (hpinned hp)) h, id, h.spaces ▸ hspace⟩
  | adjusted h => exact ⟨fun _ => False, .adjusted h, id, h.spaces ▸ hspace⟩
  | registered hmay _ => exact absurd hmay (hgains _)
  | emptied _ hmay _ => exact absurd hmay (hpins _)
  | @destroyed p _ h =>
      rw [h.spaces, Std.ExtTreeMap.getElem?_erase] at hspace
      split at hspace
      · cases hspace
      · rename_i hne
        refine ⟨(· = .loses p), .destroyed rfl h, fun heq => hne ?_, hspace⟩
        simpa using (Fate.loses.inj heq).symm

/-- **If all processes are preloaded they stay so**, as long as no other comes. -/
theorem Changes.settled (h : Changes may s t) (hgains : ∀ pid, ¬ may (.gains pid))
    (hpins : ∀ pid, ¬ may (.pins pid)) (hs : s.Settled) : t.Settled := by
  induction h with
  | refl => exact hs
  | tail _ hstep ih => exact hstep.settled hgains hpins ih

end Paging

end DemandPaging
