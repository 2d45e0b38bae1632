import DemandPaging.Proofs.Ample
import DemandPaging.Proofs.Preloaded
import Mathlib.Tactic.Ring

/-!
# The ledger of the pager

What the pager has counted so far fits what it did: to the transfers of the swap store, to the
pages that are resident, and to the pages that were dropped, which the journal tells.

* `Event.dropped`, `Event.shortfall` — what a line of the journal is about.
* `Paging.Posted` — how far the counters run ahead of what they are held against, after a step as
  compared to before.
* `Paging.pageIn_posted`, `Paging.preload_posted`, `Kernel.destroySpace_posted` — what making pages
  resident and dropping them comes to.
-/

namespace DemandPaging

/-! ## What is counted -/

/-- The pages that were dropped by what an event tells of: because their process lost its address
space, or because another page could not be preloaded with them. -/
def Event.dropped : Event → Nat
  | .spaceDestroyed _ frames _ => frames
  | .preloadFailed _ dropped => dropped
  | _ => 0

/-- The transfers that came up short by what an event tells of. -/
def Event.shortfall : Event → Nat
  | .shortWrite .. => 1
  | .shortRead .. => 1
  | _ => 0

/-- What the events of a journal amount to. -/
def Journal.total (amount : Event → Nat) (j : Journal) : Nat :=
  j.newestFirst.foldr (fun line n => n + amount line.event) 0

@[simp] theorem Journal.total_note (amount : Event → Nat) (j : Journal) (e : Event) :
    (j.note e).total amount = j.total amount + amount e := rfl

/-- The pages that were filled so far. -/
def Counters.fills (c : Counters) : Nat := c.swapReads + c.imageFills + c.zeroFills

/-- How often a page lost its frame to another, was written out or was read in so far. -/
def Counters.traffic (c : Counters) : Nat := c.evictions + c.swapWrites + c.swapReads

namespace PageTable

theorem size_insert_of_getElem? {t : PageTable} {key : PageKey} {d e : Translation}
    (h : t[key]? = some d) : (t.insert key e).size = t.size := by
  have hmem : key ∈ t := Std.ExtTreeMap.mem_iff_isSome_getElem?.2 (by rw [h]; rfl)
  rw [Std.ExtTreeMap.size_insert, if_pos (Std.ExtTreeMap.contains_iff_mem.2 hmem)]

theorem size_insert_of_getElem?_none {t : PageTable} {key : PageKey} {e : Translation}
    (h : t[key]? = none) : (t.insert key e).size = t.size + 1 := by
  have hmem : key ∉ t := by simp [Std.ExtTreeMap.mem_iff_isSome_getElem?, h]
  rw [Std.ExtTreeMap.size_insert, if_neg (mt Std.ExtTreeMap.contains_iff_mem.1 hmem)]

theorem size_erase_of_getElem? {t : PageTable} {key : PageKey} {e : Translation}
    (h : t[key]? = some e) : (t.erase key).size + 1 = t.size := by
  have hmem : key ∈ t := Std.ExtTreeMap.mem_iff_isSome_getElem?.2 (by rw [h]; rfl)
  have hpos : t.size ≠ 0 := by
    intro hzero
    rw [Std.ExtTreeMap.eq_empty_iff_size_eq_zero.2 hzero] at hmem
    exact Std.ExtTreeMap.not_mem_empty hmem
  rw [Std.ExtTreeMap.size_erase, if_pos (Std.ExtTreeMap.contains_iff_mem.2 hmem)]
  omega

theorem size_update (t : PageTable) (key : PageKey) (change : Translation → Translation) :
    (t.update key change).size = t.size := by
  unfold update
  split
  · rename_i h
    exact size_insert_of_getElem? h
  · rfl

theorem size_foldCopy (t : PageTable) (key : PageKey) (copy : Translation) :
    (t.foldCopy key copy).2.size = t.size := by
  unfold foldCopy
  split
  · rename_i h
    split
    · exact size_insert_of_getElem? h
    · rfl
  · rfl

theorem size_foldSlots (t : PageTable) (pid : Pid) (slots : List Translation) :
    (Paging.foldSlots t pid slots).size = t.size := by
  unfold Paging.foldSlots
  induction slots generalizing t with
  | nil => rfl
  | cons e slots ih =>
      rw [List.foldl_cons, ih]
      split
      · exact size_foldCopy _ _ _
      · rfl

end PageTable

namespace Paging

variable {F : Type} {s m t : Paging F}

/-- The pages that were dropped so far. -/
def dropped (s : Paging F) : Nat := s.journal.total Event.dropped

/-- The transfers that came up short so far. -/
def shortfalls (s : Paging F) : Nat := s.journal.total Event.shortfall

@[simp] theorem journal_note (s : Paging F) (e : Event) :
    (s.note e).journal = s.journal.note e := rfl

@[simp] theorem journal_record (s : Paging F) (e : PageEvent) :
    (s.record e).journal = s.journal := rfl

@[simp] theorem journal_count (s : Paging F) (change : Counters → Counters) :
    (s.count change).journal = s.journal := rfl

/-- What a step adds to the ledger: `loose` pages were filled but are not resident, or the other
way round, and `missed` faults neither filled a page nor met with a transfer that came up short, or
the other way round; and `moved` is what pages were moved for others.  All else is in balance as
before. -/
structure Posted (s t : Paging F) (loose missed : Int) (moved : Nat := 0) : Prop where
  writes : (t.core.counters.swapWrites : Int) - t.swap.writes =
    s.core.counters.swapWrites - s.swap.writes
  reads : (t.core.counters.swapReads : Int) - t.swap.reads =
    s.core.counters.swapReads - s.swap.reads
  written : (t.core.counters.swapWrites : Int) - t.core.counters.evictions ≤
    s.core.counters.swapWrites - s.core.counters.evictions
  pages : (t.core.counters.fills : Int) - t.core.counters.evictions - t.core.table.size - t.dropped =
    s.core.counters.fills - s.core.counters.evictions - s.core.table.size - s.dropped + loose
  faults : (t.core.counters.faults : Int) - t.core.counters.fills - t.shortfalls =
    s.core.counters.faults - s.core.counters.fills - s.shortfalls + missed
  traffic : t.core.counters.traffic = s.core.counters.traffic + moved

/-! ## Steps that need no posting -/

/-- A step that makes pages resident, or the other way round, and counts nothing. -/
theorem Posted.of_size (hcounters : t.core.counters = s.core.counters) (hswap : t.swap = s.swap)
    (hdropped : t.dropped = s.dropped) (hshort : t.shortfalls = s.shortfalls) :
    Posted s t (s.core.table.size - t.core.table.size) 0 := by
  constructor <;> simp only [hcounters, hswap, hdropped, hshort] <;> omega

/-- A step that touches nothing that is counted. -/
theorem Posted.of_same (hcounters : t.core.counters = s.core.counters)
    (htable : t.core.table.size = s.core.table.size) (hswap : t.swap = s.swap)
    (hdropped : t.dropped = s.dropped) (hshort : t.shortfalls = s.shortfalls) :
    Posted s t 0 0 := by
  simpa [htable] using Posted.of_size hcounters hswap hdropped hshort

theorem posted_refl (s : Paging F) : Posted s s 0 0 := .of_same rfl rfl rfl rfl rfl

theorem Posted.trans {loose loose' missed missed' : Int} {moved moved' : Nat}
    (h : Posted s m loose missed moved) (h' : Posted m t loose' missed' moved') :
    Posted s t (loose + loose') (missed + missed') (moved + moved') where
  writes := h'.writes.trans h.writes
  reads := h'.reads.trans h.reads
  written := h'.written.trans h.written
  pages := by
    have := h.pages
    have := h'.pages
    omega
  faults := by
    have := h.faults
    have := h'.faults
    omega
  traffic := by rw [h'.traffic, h.traffic, Nat.add_assoc]

theorem Posted.cast {loose loose' missed missed' : Int} {moved : Nat}
    (h : Posted s t loose missed moved) (hloose : loose = loose') (hmissed : missed = missed') :
    Posted s t loose' missed' moved :=
  hloose ▸ hmissed ▸ h

/-- A step is followed by one that needs no posting. -/
theorem Posted.tail {loose missed : Int} {moved : Nat} (h : Posted s m loose missed moved)
    (h' : Posted m t 0 0) : Posted s t loose missed moved := by
  simpa using h.trans h'

/-- A step comes after one that needs no posting. -/
theorem Posted.head {loose missed : Int} {moved : Nat} (h : Posted s m 0 0)
    (h' : Posted m t loose missed moved) : Posted s t loose missed moved := by
  simpa using h.trans h'

/-- An event that tells of nothing dropped and nothing short. -/
theorem posted_note (s : Paging F) {e : Event} (hdropped : e.dropped = 0)
    (hshort : e.shortfall = 0) : Posted s (s.note e) 0 0 :=
  .of_same rfl rfl rfl (congrArg (s.dropped + ·) hdropped) (congrArg (s.shortfalls + ·) hshort)

theorem posted_attach (s : Paging F) (id : TlbId) : Posted s (s.attach id) 0 0 := by
  unfold attach
  dsimp only
  split
  · exact .of_same rfl rfl rfl rfl rfl
  · exact .of_same rfl rfl rfl rfl rfl

@[simp] theorem dropped_release (s : Paging F) (f : FrameNumber) :
    (s.release f).dropped = s.dropped := by
  unfold release
  cases s.core.frames.owner f <;> rfl

@[simp] theorem shortfalls_release (s : Paging F) (f : FrameNumber) :
    (s.release f).shortfalls = s.shortfalls := by
  unfold release
  cases s.core.frames.owner f <;> rfl

theorem posted_release (s : Paging F) (f : FrameNumber) : Posted s (s.release f) 0 0 :=
  .of_same (by rw [core_release]) (by rw [core_release]) (by rw [swap_release])
    (dropped_release s f) (shortfalls_release s f)

theorem posted_foldCopies (s : Paging F) (key : PageKey) (copies : List Translation) :
    Posted s (s.foldCopies key copies) 0 0 := by
  refine .of_same rfl ?_ rfl rfl rfl
  show (copies.foldl (fun t copy => (PageTable.foldCopy t key copy).2) s.core.table).size = _
  induction copies generalizing s with
  | nil => rfl
  | cons copy copies ih =>
      exact (ih (s.setTable (PageTable.foldCopy s.core.table key copy).2)).trans
        (PageTable.size_foldCopy _ _ _)

theorem posted_claim {key : PageKey} {pinned : Bool} {r : Option FrameNumber}
    (h : s.claim key pinned = (r, t)) : Posted s t 0 0 := by
  unfold claim at h
  split at h <;> obtain ⟨-, rfl⟩ := Prod.mk.inj h
  · exact .of_same rfl rfl rfl rfl rfl
  · exact posted_refl _

theorem posted_selectVictim {tlb : TlbId} {retries : Nat} {r : Except PagingError FrameNumber}
    (h : s.selectVictim tlb retries = (r, t)) :
    Posted s t 0 0 ∧ (∀ e, r = .error e → e = .outOfFrames) := by
  unfold selectVictim at h
  dsimp only at h
  cases hs : sampleVictim (s.core.tlbs.tlb tlb).mapsFrame retries s.core none with
  | mk sampled c =>
      obtain ⟨⟨g, rfl⟩, -⟩ := sampleVictim_spec (by simp) hs
      rw [hs] at h
      dsimp only at h
      split at h <;> obtain ⟨rfl, rfl⟩ := Prod.mk.inj h
      · exact ⟨.of_same rfl rfl rfl rfl rfl, nofun⟩
      · exact ⟨.of_same rfl rfl rfl rfl rfl, fun e he => (Except.error.inj he).symm⟩

/-! ## TLBs -/

theorem posted_setTlb (s : Paging F) (id : TlbId) (t : Tlb) : Posted s (s.setTlb id t) 0 0 :=
  .of_same rfl rfl rfl rfl rfl

theorem install_posted {id : TlbId} {pid : Pid} {e : Translation} {r : Except Halt Nat}
    (h : s.install id pid e = (r, t)) : Posted s t 0 0 := by
  unfold install at h
  dsimp only at h
  cases hfree : (s.core.tlbs.tlb id).freeSlot with
  | some i =>
      rw [hfree] at h
      dsimp only at h
      split at h <;> obtain ⟨-, rfl⟩ := Prod.mk.inj h
      · exact posted_refl s
      · exact .of_same rfl (PageTable.size_foldSlots _ _ _) rfl rfl rfl
  | none =>
      rw [hfree] at h
      obtain ⟨g, hcore⟩ := s.core.randomBelow_snd (s.core.tlbs.tlb id).size
      dsimp only at h
      rw [hcore] at h
      split at h <;> obtain ⟨-, rfl⟩ := Prod.mk.inj h
      · exact .of_same rfl rfl rfl rfl rfl
      · exact .of_same rfl (PageTable.size_foldSlots _ _ _) rfl rfl rfl

theorem saveTlb_posted (s : Paging F) (id : TlbId) (pid : Pid) :
    Posted s (s.saveTlb id pid).2 0 0 :=
  .of_same rfl (PageTable.size_foldSlots _ _ _) rfl rfl rfl

theorem restoreSlots_posted {id : TlbId} {pid : Pid} (i : Nat) (pages : List (Option PageNumber))
    (s : Paging F) : Posted s (restoreSlots id pid i pages s).2 0 0 := by
  induction pages generalizing i s with
  | nil => exact posted_refl s
  | cons page pages ih =>
      cases page with
      | none => exact ih (i + 1) s
      | some p =>
          unfold restoreSlots
          split
          · exact (posted_setTlb s id _).head (ih (i + 1) _)
          · exact (posted_note s (e := .pageLeft ⟨pid, p⟩) rfl rfl).head (ih (i + 1) _)

theorem restoreTlb_posted (s : Paging F) (id : TlbId) (pid : Pid) (snapshot : TlbSnapshot) :
    Posted s (s.restoreTlb id pid snapshot).2 0 0 :=
  (posted_setTlb s id _).head (restoreSlots_posted 0 _ _)

/-! ## Evictions -/

variable [BackingFile F]

/-- A page that is written out is counted by the store and by the pager, or else it is a transfer
that came up short. -/
theorem writeBack_posted {key : PageKey} {f : FrameNumber} {r : Except PagingError Bool}
    (hs : s.swap.Sound) (h : s.writeBack key f = (r, t)) :
    t.core.table = s.core.table ∧
      (((∃ dirty, r = .ok dirty) ∧ ∃ moved,
          Posted s (t.count fun c => { c with evictions := c.evictions + 1 }) (-1) 0 moved) ∨
        (r = .error .shortTransfer ∧ Posted s t 0 (-1))) := by
  unfold writeBack at h
  split at h
  · unfold swapOut writeOut at h
    cases hw : (s.record (.victim key true)).swap.writeOut key
        ((s.record (.victim key true)).core.memory.frame f) with
    | mk w u =>
        rw [hw] at h
        obtain ⟨a, n, hwrote, ⟨rfl, rfl⟩ | ⟨hn, rfl⟩⟩ := SwapStore.writeOut_spec hs hw
        · have hwrites := hwrote.writes
          have hreads := hwrote.reads
          rw [if_pos rfl] at hwrites
          obtain ⟨rfl, rfl⟩ := Prod.mk.inj h
          refine ⟨rfl, Or.inl ⟨⟨_, rfl⟩, 2, ?_⟩⟩
          constructor <;> simp [Counters.fills, Counters.traffic, dropped, Paging.shortfalls,
            Event.dropped, Event.shortfall, hwrites, hreads] <;> omega
        · have hwrites := hwrote.writes
          have hreads := hwrote.reads
          rw [if_neg hn] at hwrites
          obtain ⟨rfl, rfl⟩ := Prod.mk.inj h
          refine ⟨rfl, Or.inr ⟨rfl, ?_⟩⟩
          constructor <;> simp [dropped, Paging.shortfalls, Event.dropped, Event.shortfall, hwrites,
            hreads]
          omega
  · obtain ⟨rfl, rfl⟩ := Prod.mk.inj h
    refine ⟨rfl, Or.inl ⟨⟨_, rfl⟩, 1, ?_⟩⟩
    constructor <;> simp [Counters.fills, Counters.traffic, dropped, Paging.shortfalls] <;> omega

/-- **An eviction is in balance**: a page that was filled is resident no more. -/
theorem evict_posted {f : FrameNumber} {o : FrameOwner} {r : Except PagingError Unit}
    (hs : s.Agrees) (ho : s.owner f = some o) (h : s.evict f = (r, t)) :
    (r = .ok () ∧ ∃ moved, Posted s t 0 0 moved) ∨
      (r = .error .shortTransfer ∧ Posted s t 0 (-1)) := by
  have hrec := recalled_shootdown hs (holder_eq_some.2 ⟨o, ho, rfl⟩)
  have hrecalled : Posted s ((s.shootdown f).2.foldCopies o.key (s.shootdown f).1) 0 0 :=
    .head (m := (s.shootdown f).2) (.of_same rfl rfl rfl rfl rfl) (posted_foldCopies _ _ _)
  have hstages := evicts_of_evict ho h
  generalize hm : (s.shootdown f).2.foldCopies o.key (s.shootdown f).1 = m at hrec hrecalled
  have hagrees := hrec.agrees hs
  obtain ⟨e, he, -⟩ := hagrees.owned (holder_eq_some.2 ⟨o, (hrec.owner f).trans ho, rfl⟩)
  cases hstages with
  | kept hwrite =>
      rw [hm] at hwrite
      obtain ⟨-, ⟨⟨_, hr⟩, -⟩ | ⟨hr, hposted⟩⟩ := writeBack_posted hagrees.swap hwrite
      · cases hr
      · obtain rfl := Except.error.inj hr
        exact Or.inr ⟨rfl, hrecalled.head hposted⟩
  | taken hwrite ht =>
      rename_i u
      rw [hm] at hwrite
      obtain ⟨htable, ⟨-, moved, hposted⟩ | ⟨hr, -⟩⟩ := writeBack_posted hagrees.swap hwrite
      · have hsize : (u.core.table.erase o.key).size + 1 = u.core.table.size :=
          PageTable.size_erase_of_getElem? (by rw [htable]; exact he)
        subst ht
        refine Or.inl ⟨rfl, moved,
          ((hrecalled.head hposted).trans (.of_size ?_ ?_ ?_ ?_)).cast ?_ rfl⟩
        · simp
        · simp
        · exact dropped_release (u.setTable (u.core.table.erase o.key)) f
        · exact shortfalls_release (u.setTable (u.core.table.erase o.key)) f
        · simp only [core_note, core_count, core_release, core_setTable]
          omega
      · cases hr

/-- **A frame is claimed without a posting**, unless a page is moved for it; what may go wrong is
that none is to be had, or that a page could not be written out. -/
theorem claimFrame_posted {tlb : TlbId} {retries : Nat} {key : PageKey} {pinned : Bool}
    {r : Except PagingError FrameNumber} (hs : s.Agrees)
    (h : s.claimFrame tlb retries key pinned = (r, t)) :
    ∃ moved, (s.Firm → moved = 0) ∧
      (((∃ f, r = .ok f) ∧ Posted s t 0 0 moved) ∨
        (r = .error .outOfFrames ∧ Posted s t 0 0 moved) ∨
          (r = .error .shortTransfer ∧ Posted s t 0 (-1) moved)) := by
  -- A frame that is taken is nobody's for good.
  have hevict : ∀ {g u x m}, s.selectVictim tlb retries = (.ok g, u) → u.evict g = (x, m) →
      (∀ moved : Nat, s.Firm → moved = 0) ∧
        ((x = .ok () ∧ ∃ moved, Posted s m 0 0 moved) ∨
          (x = .error .shortTransfer ∧ Posted s m 0 (-1))) := by
    intro g u x m hvictim hevict
    obtain ⟨hselect, -⟩ := posted_selectVictim hvictim
    obtain ⟨hquiet, hmay⟩ := selectVictim_spec hvictim
    obtain ⟨o, ho, hpinned⟩ := hmay g rfl
    refine ⟨fun _ hfirm => ?_, ?_⟩
    · rw [hfirm.pinned ho] at hpinned
      cases hpinned
    · rcases evict_posted (hquiet.agrees hs) ((hquiet.owner g).trans ho) hevict with
        ⟨hx, moved, hposted⟩ | ⟨hx, hposted⟩
      · exact Or.inl ⟨hx, moved, hselect.head hposted⟩
      · exact Or.inr ⟨hx, hselect.head hposted⟩
  cases claims_of_claimFrame h with
  | free hclaim => exact ⟨0, fun _ => rfl, Or.inl ⟨⟨_, rfl⟩, posted_claim hclaim⟩⟩
  | refused _ hvictim =>
      obtain ⟨hselect, herror⟩ := posted_selectVictim hvictim
      exact ⟨0, fun _ => rfl, Or.inr (Or.inl ⟨congrArg _ (herror _ rfl), hselect⟩)⟩
  | kept _ hvictim hfail =>
      obtain ⟨-, ⟨hx, -⟩ | ⟨hx, hposted⟩⟩ := hevict hvictim hfail
      · cases hx
      · exact ⟨0, fun _ => rfl, Or.inr (Or.inr ⟨congrArg _ (Except.error.inj hx), hposted⟩)⟩
  | taken _ hvictim htaken hclaim =>
      obtain ⟨hfirm, ⟨-, moved, hposted⟩ | ⟨hx, -⟩⟩ := hevict hvictim htaken
      · exact ⟨moved, hfirm _, Or.inl ⟨⟨_, rfl⟩, hposted.tail (posted_claim hclaim)⟩⟩
      · cases hx
  | lost _ hvictim htaken hclaim =>
      obtain ⟨f, hf⟩ := claim_of_evict hs hvictim htaken hclaim
      cases hf

/-! ## Filling frames -/

omit [BackingFile F] in
theorem fillFresh_posted {space : AddressSpace} {p : PageNumber} {f : FrameNumber}
    {flags : EntryFlags} (h : s.fillFresh space p f = (flags, t)) :
    Posted s t 1 (-1) ∧ t.core.table = s.core.table := by
  unfold fillFresh at h
  split at h <;> obtain ⟨-, rfl⟩ := Prod.mk.inj h
  · refine ⟨?_, rfl⟩
    constructor <;> simp [Counters.fills, Counters.traffic, dropped, Paging.shortfalls] <;> omega
  · refine ⟨?_, rfl⟩
    constructor <;> simp [Counters.fills, Counters.traffic, dropped, Paging.shortfalls] <;> omega

/-- **A frame that is filled is counted once**, wherever its contents come from. -/
theorem fill_posted {space : AddressSpace} {p : PageNumber} {f : FrameNumber}
    {r : Except PagingError EntryFlags} (h : s.fill space p f = (r, t)) :
    t.core.table = s.core.table ∧
      (((∃ flags, r = .ok flags) ∧ ∃ moved, Posted s t 1 (-1) moved) ∨
        (r = .error .shortTransfer ∧ Posted s t 0 (-1))) := by
  unfold fill swapIn readIn at h
  cases hr : s.swap.readIn (space.key p) (s.core.memory.frame f) with
  | mk x rest =>
      obtain ⟨page, swap⟩ := rest
      rw [hr] at h
      obtain ⟨-, rfl, rfl, rfl⟩ | ⟨a, n, -, hread, ⟨rfl, rfl⟩ | ⟨hn, rfl⟩⟩ :=
        SwapStore.readIn_spec hr
      · dsimp only at h
        cases hf : fillFresh { s with core := { s.core with
            memory := s.core.memory.setFrame f (s.core.memory.frame f) } } space p f with
        | mk flags u =>
            rw [hf] at h
            obtain ⟨rfl, rfl⟩ := Prod.mk.inj h
            obtain ⟨hposted, htable⟩ := fillFresh_posted hf
            have hback : Posted s { s with core := { s.core with
                memory := s.core.memory.setFrame f (s.core.memory.frame f) } } 0 0 :=
              .of_same rfl rfl rfl rfl rfl
            exact ⟨htable, Or.inl ⟨⟨_, rfl⟩, 0, hback.head hposted⟩⟩
      · obtain ⟨rfl, rfl⟩ := Prod.mk.inj h
        have hwrites := hread.writes
        have hreads := hread.reads
        rw [if_pos rfl] at hreads
        refine ⟨rfl, Or.inl ⟨⟨_, rfl⟩, 1, ?_⟩⟩
        constructor <;> simp [Counters.fills, Counters.traffic, dropped, Paging.shortfalls,
          Event.dropped, Event.shortfall, hwrites, hreads] <;> omega
      · obtain ⟨rfl, rfl⟩ := Prod.mk.inj h
        have hwrites := hread.writes
        have hreads := hread.reads
        rw [if_neg hn] at hreads
        refine ⟨rfl, Or.inr ⟨rfl, ?_⟩⟩
        constructor <;> simp [Counters.fills, dropped, Paging.shortfalls, Event.dropped,
          Event.shortfall, hwrites, hreads]
        omega

/-! ## Making pages resident -/

theorem entry_of_claimFrame {tlb : TlbId} {retries : Nat} {key : PageKey} {pinned : Bool}
    {f : FrameNumber} (space : AddressSpace) (hs : s.Agrees)
    (h : s.claimFrame tlb retries key pinned = (.ok f, t)) {k : PageKey}
    (hk : s.entry k = none) : t.entry k = none := by
  obtain ⟨m, -, hrecedes, ⟨_, hr, -⟩ | ⟨_, -, hm⟩⟩ := claimFrame_spec space hs h
  · cases hr
  · obtain ⟨hnone, -⟩ | ⟨_, -, -, -, -, ⟨frames, hcore, -⟩, -⟩ := claim_spec hm
    · cases hnone
    · rw [entry, hcore]
      exact (hrecedes k hk).1

omit [BackingFile F] in
/-- A page that was not resident is entered. -/
theorem Posted.entered {key : PageKey} {e : Translation} {missed : Int} {moved : Nat}
    (h : Posted s m 1 missed moved) (habsent : m.entry key = none) :
    Posted s (m.setTable (m.core.table.insert key e)) 0 missed moved := by
  have hsize : (m.core.table.insert key e).size = m.core.table.size + 1 :=
    PageTable.size_insert_of_getElem?_none habsent
  have hstep : Posted m (m.setTable (m.core.table.insert key e)) _ 0 := .of_size rfl rfl rfl rfl
  refine (h.trans hstep).cast ?_ (Int.add_zero _)
  rw [core_setTable, hsize]
  omega

/-- **A fault fills a page**, unless no frame is to be had or a transfer comes up short. -/
theorem pageIn_posted {tlb : TlbId} {retries : Nat} {space : AddressSpace} {p : PageNumber}
    {r : Except PagingError Translation} (hs : s.Agrees) (habsent : s.entry (space.key p) = none)
    (h : s.pageIn tlb retries space p = (r, t)) :
    ∃ moved, ((∃ e, r = .ok e) ∧ Posted s t 0 0 moved) ∨
      (r = .error .outOfFrames ∧ Posted s t 0 1 moved) ∨
        (r = .error .shortTransfer ∧ Posted s t 0 0 moved) := by
  have hfault : Posted s (s.count fun c => { c with faults := c.faults + 1 }) 0 1 := by
    constructor <;> simp [Counters.fills, Counters.traffic, dropped, Paging.shortfalls]
    omega
  have hcount := quiet_count s fun c => { c with faults := c.faults + 1 }
  have hagrees := hcount.agrees hs
  rw [← hcount.entry] at habsent
  cases pagesIn_of_pageIn h with
  | refused hclaim =>
      obtain ⟨moved, -, ⟨⟨f, hr⟩, -⟩ | ⟨hr, hclaimed⟩ | ⟨hr, hclaimed⟩⟩ :=
        claimFrame_posted hagrees hclaim
      · cases hr
      · exact ⟨_, Or.inr (Or.inl ⟨congrArg _ (Except.error.inj hr), hfault.trans hclaimed⟩)⟩
      · exact ⟨_, Or.inr (Or.inr ⟨congrArg _ (Except.error.inj hr), hfault.trans hclaimed⟩)⟩
  | spoiled hclaim hfill ht =>
      obtain ⟨moved, -, ⟨-, hclaimed⟩ | ⟨hr, -⟩ | ⟨hr, -⟩⟩ := claimFrame_posted hagrees hclaim
      · obtain ⟨-, ⟨⟨_, hr⟩, -⟩ | ⟨hr, hfilled⟩⟩ := fill_posted hfill
        · cases hr
        · subst ht
          exact ⟨_, Or.inr (Or.inr ⟨congrArg _ (Except.error.inj hr),
            (hfault.trans (hclaimed.trans hfilled)).tail (posted_release _ _)⟩)⟩
      · cases hr
      · cases hr
  | filled hclaim hfill ht =>
      rename_i f x flags u
      obtain ⟨moved, -, ⟨-, hclaimed⟩ | ⟨hr, -⟩ | ⟨hr, -⟩⟩ := claimFrame_posted hagrees hclaim
      · obtain ⟨htable, ⟨-, moved', hfilled⟩ | ⟨hr, -⟩⟩ := fill_posted hfill
        · have hu : u.entry (space.key p) = none := by
            rw [entry, htable]
            exact entry_of_claimFrame space hagrees hclaim habsent
          subst ht
          exact ⟨0 + (moved + moved'), Or.inl ⟨⟨_, rfl⟩,
            ((hfault.trans (hclaimed.trans hfilled)).entered hu).tail
              (.of_same rfl rfl rfl rfl rfl)⟩⟩
        · cases hr
      · cases hr
      · cases hr

/-- The ledger after some steps by which `may` happen to processes what may: it is in balance; if
no page is to have a frame for good then no fault was missed, and if all pages have theirs for good
and no process is to be new then no page was moved. -/
def Balanced (may : Fate → Prop) (s t : Paging F) : Prop :=
  ∃ missed moved, Posted s t 0 missed moved ∧
    ((∀ pid, ¬ may (.pins pid)) → s.Roomy → missed = 0) ∧
      ((∀ pid, ¬ may (.gains pid)) → (∀ pid, ¬ may (.pins pid)) → s.Settled → moved = 0)

variable {may may' : Fate → Prop}

omit [BackingFile F] in
theorem Posted.balanced (h : Posted s t 0 0) : Balanced may s t :=
  ⟨0, 0, h, fun _ _ => rfl, fun _ _ _ => rfl⟩

theorem Balanced.trans (h : Balanced may s m) (hchanges : Changes may s m)
    (h' : Balanced may m t) : Balanced may s t := by
  obtain ⟨missed, moved, hposted, hmissed, hmoved⟩ := h
  obtain ⟨missed', moved', hposted', hmissed', hmoved'⟩ := h'
  refine ⟨missed + missed', moved + moved', hposted.trans hposted', fun hpins hroomy => ?_,
    fun hgains hpins hsettled => ?_⟩
  · rw [hmissed hpins hroomy, hmissed' hpins (hchanges.roomy hpins hroomy)]
    rfl
  · rw [hmoved hgains hpins hsettled,
      hmoved' hgains hpins (hchanges.settled hgains hpins hsettled)]

omit [BackingFile F] in
/-- A step is followed by one that needs no posting. -/
theorem Balanced.tail (h : Balanced may s m) (h' : Posted m t 0 0) : Balanced may s t := by
  obtain ⟨missed, moved, hposted, hrest⟩ := h
  exact ⟨missed, moved, hposted.tail h', hrest⟩

/-- A step comes after one that needs no posting, and by which the frames stay whose they are. -/
theorem Balanced.head (h : Balanced may m t) (h' : Posted s m 0 0) (hquiet : Quiet s m) :
    Balanced may s t :=
  h'.balanced.trans (.single (.quiet hquiet)) h

omit [BackingFile F] in
theorem Balanced.mono (hmay : ∀ fate, may fate → may' fate) (h : Balanced may s t) :
    Balanced may' s t := by
  obtain ⟨missed, moved, hposted, hmissed, hmoved⟩ := h
  exact ⟨missed, moved, hposted, fun hpins => hmissed fun pid hfate => hpins pid (hmay _ hfate),
    fun hgains hpins => hmoved (fun pid hfate => hgains pid (hmay _ hfate))
      fun pid hfate => hpins pid (hmay _ hfate)⟩

/-- If there is room a frame is claimed, unless a page could not be written out. -/
theorem claimFrame_ne_outOfFrames {tlb : TlbId} {retries : Nat} {key : PageKey} {pinned : Bool}
    (hs : s.Agrees) (hroomy : s.Roomy) :
    s.claimFrame tlb retries key pinned ≠ (.error .outOfFrames, t) := by
  intro h
  obtain ⟨f, hr⟩ | ⟨m, g, o, err, hquiet, ho, hev, hr⟩ := claimFrame_or_evict hs hroomy h
  · cases hr
  · obtain ⟨hok, -⟩ | ⟨hshort, -⟩ := evict_posted (hquiet.agrees hs) ho hev
    · cases hok
    · obtain rfl := Except.error.inj hshort
      cases hr

theorem pageIn_ne_outOfFrames {tlb : TlbId} {retries : Nat} {space : AddressSpace}
    {p : PageNumber} (hs : s.Agrees) (hroomy : s.Roomy) :
    s.pageIn tlb retries space p ≠ (.error .outOfFrames, t) := by
  intro h
  have hcount := quiet_count s fun c => { c with faults := c.faults + 1 }
  cases pagesIn_of_pageIn h with
  | refused hclaim =>
      exact claimFrame_ne_outOfFrames (hcount.agrees hs) (hcount.toStill.roomy hroomy) hclaim
  | spoiled _ hfill _ =>
      obtain ⟨-, ⟨⟨_, hr⟩, -⟩ | ⟨hr, -⟩⟩ := fill_posted hfill
      · cases hr
      · cases hr

/-- **Looking a page up leaves the ledger in balance.** -/
theorem translate_balanced {strategy : Strategy} {tlb : TlbId} {retries : Nat}
    {space : AddressSpace} {p : PageNumber} {r : Except PagingError Translation} (hs : s.Agrees)
    (h : s.translate strategy tlb retries space p = (r, t)) : Balanced may s t := by
  -- If all processes are preloaded nothing happens at all, so that nothing is moved.
  have hidle : ∀ {missed : Int} {moved : Nat}, Posted s t 0 missed moved → s.Settled →
      moved = 0 := by
    intro missed moved hposted hsettled
    have htraffic := hposted.traffic
    rw [hsettled.translate_eq h] at htraffic
    omega
  cases strategy with
  | eager =>
      obtain ⟨-, rfl⟩ := Prod.mk.inj h
      exact (posted_refl _).balanced
  | demand =>
      have hlookup := h
      unfold translate resolve at h
      rw [hs.residentEntry_eq] at h
      dsimp only at h
      split at h
      · obtain ⟨-, rfl⟩ := Prod.mk.inj h
        exact (posted_refl _).balanced
      · split at h
        · obtain ⟨-, rfl⟩ := Prod.mk.inj h
          exact (posted_refl _).balanced
        · rename_i habsent
          obtain ⟨moved, ⟨-, hposted⟩ | ⟨rfl, hposted⟩ | ⟨-, hposted⟩⟩ := pageIn_posted hs habsent h
          · exact ⟨0, moved, hposted, fun _ _ => rfl, fun _ _ => hidle hposted⟩
          · exact ⟨1, moved, hposted, fun _ hroomy => absurd h (pageIn_ne_outOfFrames hs hroomy),
              fun _ _ => hidle hposted⟩
          · exact ⟨0, moved, hposted, fun _ _ => rfl, fun _ _ => hidle hposted⟩

/-! ## Preloading -/

/-- A page that is preloaded was filled without a fault. -/
theorem preloadPage_posted {tlb : TlbId} {retries : Nat} {space : AddressSpace} {p : PageNumber}
    {r : Except PagingError Unit} (hs : s.Agrees) (habsent : s.entry (space.key p) = none)
    (h : s.preloadPage tlb retries space p = (r, t)) :
    ∃ missed moved, Posted s t 0 missed moved ∧ (s.Firm → moved = 0) := by
  cases preloadsPage_of_preloadPage h with
  | refused hclaim =>
      obtain ⟨moved, hmoved, ⟨⟨f, hr⟩, -⟩ | ⟨-, hclaimed⟩ | ⟨-, hclaimed⟩⟩ :=
        claimFrame_posted hs hclaim
      · cases hr
      · exact ⟨_, _, hclaimed, hmoved⟩
      · exact ⟨_, _, hclaimed, hmoved⟩
  | filled hclaim hfill ht =>
      rename_i f x flags u
      obtain ⟨moved, hmoved, ⟨-, hclaimed⟩ | ⟨hr, -⟩ | ⟨hr, -⟩⟩ := claimFrame_posted hs hclaim
      · obtain ⟨hposted, htable⟩ := fillFresh_posted hfill
        have hu : u.entry (space.key p) = none := by
          rw [entry, htable]
          exact entry_of_claimFrame space hs hclaim habsent
        subst ht
        exact ⟨_, _, ((hclaimed.trans hposted).cast (Int.zero_add 1) rfl |>.entered hu).tail
          (.of_same rfl rfl rfl rfl rfl), hmoved⟩
      · cases hr
      · cases hr

theorem preloadPages_posted {tlb : TlbId} {retries : Nat} {space : AddressSpace}
    {ps : List PageNumber} {r : Except PagingError Unit} (hs : s.Agrees)
    (hps : s.Awaits space ps) (h : preloadPages tlb retries space ps s = (r, t)) :
    ∃ missed moved, Posted s t 0 missed moved ∧ (s.Firm → moved = 0) := by
  induction ps generalizing s with
  | nil =>
      obtain ⟨-, rfl⟩ := Prod.mk.inj h
      exact ⟨0, 0, posted_refl s, fun _ => rfl⟩
  | cons p ps ih =>
      unfold preloadPages at h
      cases hpre : s.preloadPage tlb retries space p with
      | mk x m =>
          rw [hpre] at h
          obtain ⟨hmoves, -, hrest⟩ := preloadPage_spec hs hps hpre
          obtain ⟨missed, moved, hposted, hmoved⟩ :=
            preloadPage_posted hs (hps.absent p List.mem_cons_self) hpre
          cases x with
          | error err =>
              obtain ⟨-, rfl⟩ := Prod.mk.inj h
              exact ⟨missed, moved, hposted, hmoved⟩
          | ok _ =>
              obtain ⟨missed', moved', hposted', hmoved'⟩ := ih (hmoves.agrees hs) hrest h
              refine ⟨_, _, hposted.trans hposted', fun hfirm => ?_⟩
              rw [hmoved hfirm, hmoved' fun pid => hmoves.anchored (hfirm pid)]

/-! ## Dropping pages -/

omit [BackingFile F] in
theorem removePage_posted {key : PageKey} {e : Translation} {r : Except Halt Unit}
    (he : s.entry key = some e) (h : s.removePage key = (r, t)) : Posted s t 1 0 := by
  have hsize := PageTable.size_erase_of_getElem? (show s.core.table[key]? = some e from he)
  have herased : Posted s (s.setTable (s.core.table.erase key)) 1 0 := by
    refine Posted.cast (.of_size rfl rfl rfl rfl) ?_ rfl
    show (s.core.table.size : Int) - (s.core.table.erase key).size = 1
    omega
  unfold removePage freeFrame at h
  rw [show s.core.table[key]? = some e from he] at h
  dsimp only at h
  split at h
  · obtain ⟨-, rfl⟩ := Prod.mk.inj h
    exact herased
  · rename_i f _
    have hshot : Posted s ((s.setTable (s.core.table.erase key)).shootdown f).2 1 0 :=
      herased.tail (.of_same rfl rfl rfl rfl rfl)
    split at h <;> rename_i hfree <;> split at hfree <;> obtain ⟨hr, rfl⟩ := Prod.mk.inj hfree <;>
      obtain ⟨-, rfl⟩ := Prod.mk.inj h
    · exact hshot.tail (posted_release _ _)
    · cases hr
    · cases hr
    · exact hshot

omit [BackingFile F] in
/-- **The pages that are removed were filled and are not resident any more**, until it is noted how
many there were. -/
theorem removePages_posted {keys : List PageKey} {r : Except Halt Unit} (hs : s.Agrees)
    (hkeys : keys.Nodup) (hresident : ∀ k ∈ keys, s.entry k ≠ none)
    (h : removePages keys s = (r, t)) : Posted s t keys.length 0 := by
  induction keys generalizing s with
  | nil =>
      obtain ⟨-, rfl⟩ := Prod.mk.inj h
      exact posted_refl s
  | cons key keys ih =>
      obtain ⟨hkey, hkeys⟩ := List.nodup_cons.1 hkeys
      unfold removePages at h
      cases hp : s.removePage key with
      | mk x m =>
          rw [hp] at h
          obtain ⟨e, he⟩ := Option.ne_none_iff_exists'.1 (hresident key List.mem_cons_self)
          have hposted := removePage_posted he hp
          obtain ⟨rfl, ⟨hnone, -⟩ | ⟨f, hremoved⟩⟩ := removePage_spec hs hp
          · rw [he] at hnone
            cases hnone
          · have hrest := ih (hremoved.agrees hs) hkeys (fun k hk => ?_) h
            · refine (hposted.trans hrest).cast ?_ rfl
              rw [List.length_cons]
              omega
            · rw [hremoved.toVacated.entry, if_neg (fun heq : k = key => hkey (heq ▸ hk))]
              exact hresident k (List.mem_cons_of_mem _ hk)

omit [BackingFile F] in
theorem posted_dropOrphans (pid : Pid) (s : Paging F) (frames : List FrameNumber) :
    Posted s (frames.foldl (dropOrphan pid) s) 0 0 := by
  induction frames generalizing s with
  | nil => exact posted_refl s
  | cons f frames ih =>
      have hnoted := posted_note s (e := .frameWithoutTranslation f pid) rfl rfl
      have hshot : Posted s ((s.note (.frameWithoutTranslation f pid)).shootdown f).2 0 0 :=
        hnoted.tail (.of_same rfl rfl rfl rfl rfl)
      exact (hshot.tail (posted_release _ f)).tail (ih _)

omit [BackingFile F] in
theorem removeResident_posted {pid : Pid} {r : Except Halt Nat} (hs : s.Agrees)
    (h : s.removeResident pid = (r, t)) : ∃ n, r = .ok n ∧ Posted s t n 0 := by
  have hr := (removeResident_spec hs h).1
  refine ⟨_, hr, ?_⟩
  unfold removeResident at h
  dsimp only at h
  have hkeys : (PageMap.keysOf s.core.table pid).Nodup :=
    (Std.ExtTreeMap.nodup_keys).filter _
  have hresident : ∀ k ∈ PageMap.keysOf s.core.table pid, s.entry k ≠ none := by
    intro k hk hnone
    have hmem := Std.ExtTreeMap.mem_iff_isSome_getElem?.1 (PageMap.mem_keysOf.1 hk).1
    rw [show s.core.table[k]? = none from hnone] at hmem
    cases hmem
  cases hp : removePages (PageMap.keysOf s.core.table pid) s with
  | mk x m =>
      rw [hp] at h
      have hposted := removePages_posted hs hkeys hresident hp
      split at h <;> rename_i heq <;> obtain ⟨-, rfl⟩ := Prod.mk.inj heq <;>
        obtain ⟨-, rfl⟩ := Prod.mk.inj h
      · exact hposted.tail (posted_dropOrphans _ _ _)
      · exact hposted

omit [BackingFile F] in
theorem posted_releaseAll (hs : s.swap.Sound) (pid : Pid) :
    Posted s { s with swap := (s.swap.releaseAll pid).2 } 0 0 := by
  have hreleased := SwapStore.releaseAll_spec hs pid
  constructor <;> simp [dropped, Paging.shortfalls, hreleased.writes, hreleased.reads]

omit [BackingFile F] in
/-- It is noted how many pages were dropped. -/
theorem Posted.noted {n moved : Nat} {missed : Int} {e : Event} (h : Posted s m n missed moved)
    (hdropped : e.dropped = n) (hshort : e.shortfall = 0) :
    Posted s (m.note e) 0 missed moved := by
  have hpages := h.pages
  have hfaults := h.faults
  refine ⟨h.writes, h.reads, h.written, ?_, ?_, h.traffic⟩
  · show (m.core.counters.fills : Int) - m.core.counters.evictions - m.core.table.size -
      (m.dropped + e.dropped : Nat) = _
    omega
  · show (m.core.counters.faults : Int) - m.core.counters.fills -
      (m.shortfalls + e.shortfall : Nat) = _
    omega

/-- **A preload leaves the ledger in balance**, also if it fails. -/
theorem preload_posted {tlb : TlbId} {retries : Nat} {space : AddressSpace}
    {r : Except Failure Unit} (hs : s.Agrees) (habsent : ∀ k, k.pid = space.pid → s.entry k = none)
    (hslot : ∀ k : PageKey, k.pid = space.pid → s.swap.slots[k]? = none)
    (hspace : s.core.spaces[space.pid]? = some space.pageCount)
    (h : s.preload tlb retries space = (r, t)) :
    ∃ missed moved, Posted s t 0 missed moved ∧ (s.Firm → moved = 0) := by
  have hpages := awaits_pages habsent hslot hspace
  cases preloads_of_preload h with
  | refused _ => exact ⟨0, 0, posted_refl s, fun _ => rfl⟩
  | loaded _ hp => exact preloadPages_posted hs hpages hp
  | halted _ hp hrem =>
      obtain ⟨hmoves, -⟩ := preloadPages_spec hs hpages hp
      cases (removeResident_spec (hmoves.agrees hs) hrem).1
  | undone _ hp hrem ht =>
      obtain ⟨hmoves, -⟩ := preloadPages_spec hs hpages hp
      obtain ⟨missed, moved, hposted, hmoved⟩ := preloadPages_posted hs hpages hp
      obtain ⟨n, hn, hremoved⟩ := removeResident_posted (hmoves.agrees hs) hrem
      obtain rfl := Except.ok.inj hn
      subst ht
      exact ⟨missed, moved, ((hposted.trans hremoved).cast (Int.zero_add _)
        (Int.add_zero _)).noted rfl rfl, hmoved⟩

end Paging

namespace Kernel

open Paging

variable {F : Type} {k k' : Kernel F} {pid : Pid}

theorem createSpace_posted {pages : Nat} {r : Except PagingError Unit}
    (h : k.createSpace pid pages = (r, k')) : Posted k.toPaging k'.toPaging 0 0 := by
  unfold createSpace CoreMap.register at h
  split at h <;> rename_i hreg <;> obtain ⟨-, rfl⟩ := Prod.mk.inj h
  · exact posted_refl _
  · split at hreg
    · cases hreg
    · obtain rfl := Except.ok.inj hreg
      exact .of_same rfl rfl rfl rfl rfl

theorem translate_posted {cpu cpu' : Processor} {address : VirtAddr} {writing : Bool}
    {r : Except ExceptionCause PhysAddr} (h : k.translate cpu address writing = (r, k', cpu')) :
    Posted k.toPaging k'.toPaging 0 0 := by
  unfold translate at h
  dsimp only at h
  obtain ⟨-, hk⟩ := Prod.mk.inj h
  obtain ⟨rfl, -⟩ := Prod.mk.inj hk
  exact posted_setTlb _ _ _

/-- **The pages that a process loses with its address space are noted.** -/
theorem destroySpace_posted {r : Except Failure Unit} (hk : k.Agrees)
    (h : k.destroySpace pid = (r, k')) : Posted k.toPaging k'.toPaging 0 0 := by
  have hunreg := unregistered k.toPaging pid
  unfold destroySpace CoreMap.unregister at h
  split at h <;> rename_i hcore <;> obtain ⟨-, rfl⟩ := Prod.mk.inj hcore
  · obtain ⟨-, rfl⟩ := Prod.mk.inj h
    exact posted_refl _
  · cases hrem : removeResident
        { k.toPaging with core := { k.core with spaces := k.core.spaces.erase pid } } pid with
    | mk x m =>
        rw [hrem] at h
        have hagrees := hunreg.agrees hk
        obtain ⟨n, rfl, hremoved⟩ := removeResident_posted hagrees hrem
        have hm := ((removeResident_spec hagrees hrem).2.steps.agrees hagrees).swap
        obtain ⟨-, rfl⟩ := Prod.mk.inj h
        have hstart : Posted k.toPaging
            { k.toPaging with core := { k.core with spaces := k.core.spaces.erase pid } } 0 0 :=
          .of_same rfl rfl rfl rfl rfl
        exact ((hstart.head hremoved).tail (posted_releaseAll hm pid)).noted rfl rfl

variable [BackingFile F] {may : Fate → Prop} {tlb : TlbId} {space : AddressSpace}
  {strategy : Strategy}

theorem handleMiss_balanced {address : VirtAddr} {r : Except Failure Nat} (hk : k.Agrees)
    (h : k.handleMiss tlb space strategy address = (r, k')) :
    Balanced may k.toPaging k'.toPaging := by
  unfold handleMiss at h
  split at h
  · obtain ⟨-, rfl⟩ := Prod.mk.inj h
    exact (posted_refl _).balanced
  · dsimp only at h
    have hmiss : Posted k.toPaging
        (k.toPaging.count fun c => { c with tlbMisses := c.tlbMisses + 1 }) 0 0 := by
      constructor <;> simp [Counters.fills, Counters.traffic, dropped, Paging.shortfalls]
    have hstart := hmiss.tail (posted_attach _ tlb)
    have hquiet := (quiet_count k.toPaging fun c => { c with tlbMisses := c.tlbMisses + 1 }).trans
      (quiet_attach _ tlb)
    generalize (k.toPaging.count fun c => { c with tlbMisses := c.tlbMisses + 1 }).attach tlb = s
      at h hquiet hstart
    cases ht : s.translate strategy tlb k.config.victimRetries space address.page with
    | mk r' m =>
        rw [ht] at h
        have hm : Balanced may k.toPaging m :=
          (translate_balanced (hquiet.agrees hk) ht).head hstart hquiet
        split at h <;> rename_i heq <;> obtain ⟨-, rfl⟩ := Prod.mk.inj heq
        · obtain ⟨-, rfl⟩ := Prod.mk.inj h
          exact hm
        · split at h <;> rename_i hinstall <;> obtain ⟨-, rfl⟩ := Prod.mk.inj h
          · exact hm.tail (install_posted hinstall)
          · exact hm.tail ((install_posted hinstall).tail (posted_note _ rfl rfl))

theorem accessPage_balanced {p : PageNumber} {writing : Bool} {change : Page → Page}
    {r : Except Failure (Option Page)} (hk : k.Agrees)
    (h : k.accessPage tlb space strategy p writing change = (r, k')) :
    Balanced may k.toPaging k'.toPaging := by
  unfold accessPage at h
  dsimp only at h
  have hquiet := quiet_attach k.toPaging tlb
  have hstart := posted_attach k.toPaging tlb
  generalize k.toPaging.attach tlb = s at h hquiet hstart
  cases ht : s.translate strategy tlb k.config.victimRetries space p with
  | mk r' m =>
      rw [ht] at h
      have hm : Balanced may k.toPaging m :=
        (translate_balanced (hquiet.agrees hk) ht).head hstart hquiet
      split at h <;> rename_i heq <;> obtain ⟨-, rfl⟩ := Prod.mk.inj heq
      · obtain ⟨-, rfl⟩ := Prod.mk.inj h
        exact hm
      · split at h
        · obtain ⟨-, rfl⟩ := Prod.mk.inj h
          exact hm
        · split at h
          · obtain ⟨-, rfl⟩ := Prod.mk.inj h
            exact hm
          · split at h <;> obtain ⟨-, rfl⟩ := Prod.mk.inj h
            · exact hm
            · exact hm.tail (.of_same rfl (PageTable.size_update _ _ _) rfl rfl rfl)

end Kernel

end DemandPaging
