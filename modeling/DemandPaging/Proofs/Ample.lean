import DemandPaging.Proofs.Changes
import DemandPaging.Proofs.SwapContents

/-!
# When nothing runs out

As long as no page has its frame for good and the swap file moves whole pages, a single frame is
enough: whichever page has it, it can be taken from it.  So every page of an address space can be
made resident at any time.

* `ReliableView` — swap files that never fail, with `MemoryFile.reliableView` for one,
  `FaultyFile.reliableView` for files that fail no more, and `HostFile.reliableView` for files of a
  host that puts no end to their growth.
* `Paging.Roomy` — there is a frame, and no frame is taken for good.
* `Paging.Ample` — moreover every slot of the swap store can be read.
* `Paging.Changes.roomy`, `Paging.Changes.ample` — the kernel keeps it so.
* `Paging.evict_ok`, `Paging.claimFrame_ok`, `Paging.resolve_ok` — then the pager does not fail.
-/

namespace DemandPaging

/-! ## Swap files that never fail -/

/-- What is seen of files whose transfers are all complete: every page can be written anywhere, and
what was written can be read. -/
structure ReliableView (F : Type) [BackingFile F] extends FileView F where
  /-- Has the file a page at this place? -/
  reaches : F → Nat → Prop
  wholeWrite : ∀ {f g : F} {offset n : Nat} {page : Page}, good f →
    BackingFile.writeAt f offset page.toArray = (n, g) →
      n = pageSize ∧ reaches g offset ∧ ∀ place, reaches f place → reaches g place
  wholeRead : ∀ {f g : F} {offset n : Nat} {buffer page : Page}, good f →
    BackingFile.readAt f offset buffer = (n, page, g) →
      (∀ place, reaches f place → reaches g place) ∧ (reaches f offset → n = pageSize)

/-- A file in memory never fails. -/
def MemoryFile.reliableView : ReliableView MemoryFile where
  toFileView := MemoryFile.view
  reaches f place := place + pageSize ≤ f.size
  wholeWrite {f g offset n page} _ h := by
    obtain ⟨rfl, rfl⟩ := Prod.mk.inj h
    have hsize : (f.writeAt offset page.toArray).size = max f.size (offset + pageSize) := by
      rw [MemoryFile.size, MemoryFile.writeAt, SparseBytes.size_write, Vector.size_toArray]
      rfl
    refine ⟨Vector.size_toArray page, ?_, fun place hplace => ?_⟩
    · rw [hsize]
      exact Nat.le_max_right _ _
    · rw [hsize]
      exact Nat.le_trans hplace (Nat.le_max_left _ _)
  wholeRead {f g offset n buffer page} _ h := by
    simp only [BackingFile.readAt, MemoryFile.readAt, Prod.mk.injEq] at h
    obtain ⟨rfl, -, rfl⟩ := h
    exact ⟨fun _ hplace => hplace, fun hplace => Nat.min_eq_left (by omega)⟩

/-- A file some of whose calls fail is a file in memory, once all its bad calls are over. -/
def FaultyFile.reliableView : ReliableView FaultyFile where
  good f :=
    (∀ n, f.reads ≤ n → FaultPlan.hits f.plan.badReads f.plan.badReadsFrom n = false) ∧
      ∀ n, f.writes ≤ n → FaultPlan.hits f.plan.badWrites f.plan.badWritesFrom n = false
  byte := FaultyFile.view.byte
  reaches f place := MemoryFile.reliableView.reaches f.content place
  writeAt {f g offset n page} hf h := by
    simp only [BackingFile.writeAt, hf.2 _ (Nat.le_refl _), Bool.false_eq_true, if_false] at h
    obtain ⟨rfl, rfl⟩ := Prod.mk.inj h
    exact ⟨⟨hf.1, fun n hn => hf.2 n (Nat.le_of_succ_le hn)⟩,
      (MemoryFile.view.writeAt (f := f.content) trivial rfl).2⟩
  readAt {f g offset n buffer page} hf h := by
    simp only [BackingFile.readAt, hf.1 _ (Nat.le_refl _), Bool.false_eq_true, if_false,
      Prod.mk.injEq] at h
    obtain ⟨rfl, rfl, rfl⟩ := h
    exact ⟨⟨fun n hn => hf.1 n (Nat.le_of_succ_le hn), hf.2⟩,
      (MemoryFile.view.readAt (f := f.content) trivial rfl).2⟩
  wholeWrite {f g offset n page} hf h := by
    simp only [BackingFile.writeAt, hf.2 _ (Nat.le_refl _), Bool.false_eq_true, if_false] at h
    obtain ⟨rfl, rfl⟩ := Prod.mk.inj h
    exact MemoryFile.reliableView.wholeWrite (f := f.content) trivial rfl
  wholeRead {f g offset n buffer page} hf h := by
    simp only [BackingFile.readAt, hf.1 _ (Nat.le_refl _), Bool.false_eq_true, if_false,
      Prod.mk.injEq] at h
    obtain ⟨rfl, rfl, rfl⟩ := h
    exact MemoryFile.reliableView.wholeRead (f := f.content) trivial
      (show BackingFile.readAt f.content offset buffer = _ from rfl)

/-- A file of a host never fails, in however many portions it is read, if there is no end to its
growth. -/
def HostFile.reliableView : ReliableView HostFile where
  good f := f.limit = none
  byte := HostFile.view.byte
  reaches f place := place + pageSize ≤ f.bytes.size
  writeAt {f g offset n page} hf h := by
    refine ⟨?_, (HostFile.view.writeAt trivial h).2⟩
    rw [HostFile.writeAt_room (by simp [hf])] at h
    obtain ⟨-, rfl⟩ := Prod.mk.inj h
    exact hf
  readAt {f g offset n buffer page} hf h := by
    refine ⟨?_, (HostFile.view.readAt trivial h).2⟩
    have hlimit := HostFile.limit_fill offset pageSize f 0 buffer
    rw [show HostFile.fill offset pageSize f 0 buffer = (n, page, g) from h] at hlimit
    exact hlimit.trans hf
  wholeWrite {f g offset n page} hf h := by
    rw [HostFile.writeAt_room (by simp [hf])] at h
    obtain ⟨rfl, rfl⟩ := Prod.mk.inj h
    have hsize := f.bytes.size_write offset page.toArray
    rw [Vector.size_toArray] at hsize
    refine ⟨rfl, ?_, fun place hplace => ?_⟩
    · exact hsize ▸ Nat.le_max_right _ _
    · exact hsize ▸ Nat.le_trans hplace (Nat.le_max_left _ _)
  wholeRead {f g offset n buffer page} _ h := by
    have hfill : HostFile.fill offset pageSize f 0 buffer = (n, page, g) := h
    have hbytes := (HostFile.fill_spec hfill).1
    refine ⟨fun place hplace => hbytes ▸ hplace, fun hplace => ?_⟩
    have hmoved : (HostFile.fill offset pageSize f 0 buffer).1 = _ :=
      HostFile.moved_fill (Nat.sub_le pageSize 0)
    rw [hfill] at hmoved
    simp only [pageSize] at hmoved hplace ⊢
    omega

namespace ReliableView

variable {F : Type} [BackingFile F] {v : ReliableView F} {s t : SwapStore F}

/-- The file never fails, and has a page in every slot that is some page's. -/
structure Keeps (v : ReliableView F) (s : SwapStore F) : Prop where
  good : v.good s.file
  stored : ∀ {key : PageKey} {a : SwapSlot}, s.slots[key]? = some a → v.reaches s.file a.offset

/-- **Every page that is written out is written whole.** -/
theorem Keeps.wroteOut {key : PageKey} {page : Page} {a : SwapSlot} {n : Nat} (hs : v.Keeps s)
    (h : SwapStore.WroteOut s t key page a n) : n = pageSize ∧ v.Keeps t := by
  obtain ⟨hfull, hnew, hold⟩ := v.wholeWrite hs.good h.file
  refine ⟨hfull, (v.writeAt hs.good h.file).1, fun {k b} hb => ?_⟩
  rw [h.slots] at hb
  split at hb
  · obtain rfl := Option.some.inj hb
    exact hnew
  · exact hold _ (hs.stored hb)

theorem Keeps.readFrom {a : SwapSlot} {n : Nat} {page : Page} (hs : v.Keeps s)
    (h : SwapStore.ReadFrom s t a n page) : v.Keeps t := by
  obtain ⟨buffer, hread⟩ := h.file
  refine ⟨(v.readAt hs.good hread).1, fun {k b} hb => ?_⟩
  rw [h.slots] at hb
  exact (v.wholeRead hs.good hread).1 _ (hs.stored hb)

/-- **Every page that has a slot is read back whole.** -/
theorem Keeps.whole {key : PageKey} {a : SwapSlot} {n : Nat} {page : Page} (hs : v.Keeps s)
    (ha : s.slots[key]? = some a) (h : SwapStore.ReadFrom s t a n page) : n = pageSize := by
  obtain ⟨buffer, hread⟩ := h.file
  exact (v.wholeRead hs.good hread).2 (hs.stored ha)

theorem Keeps.released {pid : Pid} (hs : v.Keeps s) (h : SwapStore.Released s t pid) :
    v.Keeps t := by
  refine ⟨h.file ▸ hs.good, fun {k a} ha => ?_⟩
  rw [h.slots] at ha
  split at ha
  · cases ha
  · exact h.file ▸ hs.stored ha

end ReliableView

namespace Paging

variable {F : Type} {s t : Paging F} {pid : Pid}

/-- There is a frame, and none is taken for good. -/
structure Roomy (s : Paging F) : Prop where
  frames : 0 < s.core.frames.size
  unpinned : ∀ {f : FrameNumber} {o : FrameOwner}, s.owner f = some o → o.pinned = false

theorem Roomy.of_frames (hs : s.Roomy) (h : t.core.frames = s.core.frames) : t.Roomy where
  frames := h ▸ hs.frames
  unpinned {f o} ho := by
    rw [owner, h] at ho
    exact hs.unpinned ho

/-- A step by which no page gets a frame for good. -/
theorem Roomy.of_shape (hs : s.Roomy) (h : SameShape s t)
    (howner : ∀ {f o}, t.owner f = some o → s.owner f = some o ∨ o.pinned = false) : t.Roomy where
  frames := h.frames ▸ hs.frames
  unpinned ho := (howner ho).elim hs.unpinned id

theorem Still.roomy (h : Still s t) (hs : s.Roomy) : t.Roomy :=
  hs.of_shape h.toSameShape fun ho => Or.inl ((h.owner _).symm.trans ho)

theorem Vacated.roomy {key : PageKey} {f : FrameNumber} (h : Vacated s t key f) (hs : s.Roomy) :
    t.Roomy := by
  refine hs.of_shape h.toSameShape fun {g o} ho => ?_
  rw [h.owner] at ho
  split at ho
  · cases ho
  · exact Or.inl ho

theorem Removals.roomy (h : Removals pid s t) (hs : s.Roomy) : t.Roomy := by
  induction h with
  | refl => exact hs
  | tail _ hstep ih =>
      cases hstep with
      | quiet h => exact h.toStill.roomy ih
      | removed _ h => exact h.toVacated.roomy ih

variable [BackingFile F] {v : ReliableView F} {may : Fate → Prop}

/-- There is a frame, none is taken for good, every TLB has a slot, and the swap store never
fails. -/
structure Ample (v : ReliableView F) (s : Paging F) : Prop extends Roomy s where
  slots : ∀ {id : TlbId}, s.core.tlbs.live id = true → 0 < (s.core.tlbs.tlb id).size
  swap : v.Keeps s.swap

/-! ## Changes that the kernel makes -/

/-- Making pages resident on demand takes no frame for good. -/
theorem Move.roomy {space : AddressSpace} (h : Move space false s t) (hs : s.Roomy) : t.Roomy := by
  cases h with
  | quiet h => exact h.toStill.roomy hs
  | recalled h =>
      exact hs.of_shape h.toSameShape fun ho => Or.inl ((h.owner _).symm.trans ho)
  | evicted h => exact h.toVacated.roomy hs
  | kept h =>
      exact hs.of_shape h.toSameShape fun ho => Or.inl ((h.owner _).symm.trans ho)
  | filled h =>
      refine hs.of_shape h.toSameShape fun {g o} ho => ?_
      rw [h.owner] at ho
      split at ho
      · exact Or.inr (congrArg FrameOwner.pinned (Option.some.inj ho).symm)
      · exact Or.inl ho
  | spoiled h =>
      exact hs.of_shape h.toSameShape fun ho => Or.inl ((h.owner _).symm.trans ho)

theorem Change.roomy (hmay : ∀ pid, ¬ may (.pins pid)) (h : Change may s t) (hs : s.Roomy) :
    t.Roomy := by
  cases h with
  | quiet h => exact h.toStill.roomy hs
  | move hpins h =>
      rename_i space pinned
      cases pinned with
      | false => exact h.roomy hs
      | true => exact absurd (hpins rfl) (hmay _)
  | adjusted h =>
      exact hs.of_shape h.toSameShape fun ho => Or.inl ((h.owner _).symm.trans ho)
  | registered _ h => exact h.toStill.roomy hs
  | emptied _ _ h => exact h.steps.roomy hs
  | destroyed _ h =>
      obtain ⟨-, hunreg, hemptied, hfreed⟩ := h
      exact hfreed.toStill.roomy (hemptied.steps.roomy (hunreg.toStill.roomy hs))

/-- **As long as nobody gets frames for good, there is room.** -/
theorem Changes.roomy (hmay : ∀ pid, ¬ may (.pins pid)) (h : Changes may s t) (hs : s.Roomy) :
    t.Roomy := by
  induction h with
  | refl => exact hs
  | tail _ hchange ih => exact hchange.roomy hmay ih

/-- A step that leaves room, and after which the swap store still does not fail. -/
theorem Ample.of_roomy (hs : s.Ample v) (h : SameShape s t) (hroomy : t.Roomy)
    (hswap : v.Keeps t.swap) : t.Ample v where
  toRoomy := hroomy
  slots {id} hl := by
    rw [h.size]
    rw [h.live] at hl
    exact hs.slots hl
  swap := hswap

theorem Still.ample (h : Still s t) (hs : s.Ample v) (hswap : v.Keeps t.swap) : t.Ample v :=
  hs.of_roomy h.toSameShape (h.roomy hs.toRoomy) hswap

theorem Quiet.ample (h : Quiet s t) (hs : s.Ample v) : t.Ample v :=
  h.toStill.ample hs (h.swap ▸ hs.swap)

/-- A swap file that does not fail goes on so, whatever the pager does with it. -/
theorem Move.keeps {space : AddressSpace} {pinned : Bool} (h : Move space pinned s t)
    (hv : v.Keeps s.swap) : v.Keeps t.swap := by
  cases h with
  | quiet h => exact h.swap ▸ hv
  | recalled h => exact h.swap ▸ hv
  | evicted h =>
      rcases h.swap with ⟨-, a, hw⟩ | ⟨-, hsame⟩
      · exact (hv.wroteOut hw).2
      · exact hsame ▸ hv
  | kept h =>
      obtain ⟨a, n, -, hw⟩ := h.swap
      exact (hv.wroteOut hw).2
  | filled h =>
      cases h.source with
      | program _ hsame => exact hsame ▸ hv
      | slot _ _ _ hread => exact hv.readFrom hread
  | spoiled h =>
      obtain ⟨a, n, page, hread⟩ := h.swap
      exact hv.readFrom hread

theorem Moves.keeps {space : AddressSpace} {pinned : Bool} (h : Moves space pinned s t)
    (hv : v.Keeps s.swap) : v.Keeps t.swap := by
  induction h with
  | refl => exact hv
  | tail _ hmove ih => exact hmove.keeps ih

/-- **The pager keeps up what it lives on** while it makes pages resident on demand. -/
theorem Move.ample {space : AddressSpace} (h : Move space false s t) (hs : s.Ample v) :
    t.Ample v :=
  hs.of_roomy h.sameShape (h.roomy hs.toRoomy) (h.keeps hs.swap)

theorem Moves.ample {space : AddressSpace} (h : Moves space false s t) (hs : s.Ample v) :
    t.Ample v := by
  induction h with
  | refl => exact hs
  | tail _ hmove ih => exact hmove.ample ih

theorem Removals.ample (h : Removals pid s t) (hs : s.Ample v) : t.Ample v :=
  hs.of_roomy h.sameShape (h.roomy hs.toRoomy) (h.rest.1 ▸ hs.swap)

theorem Change.ample (hmay : ∀ pid, ¬ may (.pins pid)) (h : Change may s t) (hs : s.Ample v) :
    t.Ample v := by
  cases h with
  | quiet h => exact h.ample hs
  | move hpins h =>
      rename_i space pinned
      cases pinned with
      | false => exact h.ample hs
      | true => exact absurd (hpins rfl) (hmay _)
  | adjusted h =>
      exact hs.of_roomy h.toSameShape ((Change.adjusted h).roomy hmay hs.toRoomy) (h.swap ▸ hs.swap)
  | registered _ h => exact h.toStill.ample hs (h.swap ▸ hs.swap)
  | emptied _ _ h => exact h.steps.ample hs
  | destroyed _ h =>
      obtain ⟨-, hunreg, hemptied, hfreed⟩ := h
      have hmid := hemptied.steps.ample (hunreg.toStill.ample hs (hunreg.swap ▸ hs.swap))
      exact hfreed.toStill.ample hmid (hmid.swap.released hfreed.swap)

/-- **As long as nobody gets frames for good, nothing runs out.** -/
theorem Changes.ample (hmay : ∀ pid, ¬ may (.pins pid)) (h : Changes may s t)
    (hs : s.Ample v) : t.Ample v := by
  induction h with
  | refl => exact hs
  | tail _ hchange ih => exact hchange.ample hmay ih

/-! ## The pager does not fail -/

omit [BackingFile F] in
/-- If any frame may be taken, one is found. -/
theorem selectVictim_ok {tlb : TlbId} {retries : Nat} {r : Except PagingError FrameNumber}
    {f : FrameNumber} (hf : s.core.frames.evictable f = true)
    (h : s.selectVictim tlb retries = (r, t)) : ∃ g, r = .ok g := by
  unfold selectVictim at h
  dsimp only at h
  cases hs : sampleVictim (s.core.tlbs.tlb tlb).mapsFrame retries s.core none with
  | mk sampled c =>
      obtain ⟨⟨g, rfl⟩, -⟩ := sampleVictim_spec (by simp) hs
      rw [hs] at h
      dsimp only at h
      split at h <;> rename_i hnone <;> obtain ⟨rfl, rfl⟩ := Prod.mk.inj h
      · exact ⟨_, rfl⟩
      · rw [Option.or_eq_none_iff, firstVictim, Option.or_eq_none_iff, List.head?_eq_none_iff] at hnone
        have hmem := FrameTable.mem_candidates.2 hf
        rw [hnone.2.2] at hmem
        cases hmem

/-- **A frame can be taken from any page**, which is written out if that is needed. -/
theorem evict_ok {f : FrameNumber} {o : FrameOwner} {r : Except PagingError Unit} (hs : s.Agrees)
    (hv : s.Ample v) (ho : s.owner f = some o) (h : s.evict f = (r, t)) : r = .ok () := by
  obtain ⟨m, hrecalled, ⟨rfl, -⟩ | ⟨-, hkept, -⟩⟩ := evict_spec hs ho h
  · rfl
  · obtain ⟨a, n, hn, hw⟩ := hkept.swap
    have hm : v.Keeps m.swap := hrecalled.swap ▸ hv.swap
    exact absurd (hm.wroteOut hw).1 hn

omit [BackingFile F] in
/-- If any frame is free, one is claimed. -/
theorem claim_ok {key : PageKey} {pinned : Bool} {f : FrameNumber} {r : Option FrameNumber}
    (hf : f.val < s.core.frames.size) (hfree : s.owner f = none)
    (h : s.claim key pinned = (r, t)) : ∃ g, r = some g := by
  unfold claim FrameTable.claim at h
  cases hfirst : s.core.frames.firstFree with
  | none =>
      have howned := FrameTable.firstFree_eq_none.1 hfirst f hf
      rw [show s.core.frames.owner f = none from hfree] at howned
      cases howned
  | some g =>
      rw [hfirst] at h
      exact ⟨g, (Prod.mk.inj h).1.symm⟩

/-- A frame that was taken from its page is free. -/
theorem free_of_evict {f : FrameNumber} {o : FrameOwner} (hs : s.Agrees) (ho : s.owner f = some o)
    (hpinned : o.pinned = false) (h : s.evict f = (.ok (), t)) :
    t.owner f = none ∧ f.val < t.core.frames.size := by
  obtain ⟨m, hrecalled, ⟨-, hevicted⟩ | ⟨hr, -⟩⟩ := evict_spec hs ho h
  · obtain ⟨handed, hevicted⟩ := hevicted hpinned
    refine ⟨(hevicted.owner f).trans (if_pos rfl), ?_⟩
    rw [hevicted.frames, hrecalled.frames]
    exact FrameTable.lt_size_of_owner ho
  · cases hr

/-- **Once a page has lost its frame to another, the other gets one.** -/
theorem claim_of_evict {tlb : TlbId} {retries : Nat} {g : FrameNumber} {u m : Paging F}
    {key : PageKey} {pinned : Bool} {c : Option FrameNumber} (hs : s.Agrees)
    (hvictim : s.selectVictim tlb retries = (.ok g, u)) (hevict : u.evict g = (.ok (), m))
    (hclaim : m.claim key pinned = (c, t)) : ∃ f, c = some f := by
  obtain ⟨hquiet, hmay⟩ := selectVictim_spec hvictim
  obtain ⟨o, ho, hpinned⟩ := hmay g rfl
  obtain ⟨hfree, hlt⟩ :=
    free_of_evict (hquiet.agrees hs) ((hquiet.owner g).trans ho) hpinned hevict
  exact claim_ok hlt hfree hclaim

/-- **There is always a frame for a page**, unless none is free and the page that is to lose its
frame cannot be written out. -/
theorem claimFrame_or_evict {tlb : TlbId} {retries : Nat} {key : PageKey} {pinned : Bool}
    {r : Except PagingError FrameNumber} (hs : s.Agrees) (hroomy : s.Roomy)
    (h : s.claimFrame tlb retries key pinned = (r, t)) :
    (∃ f, r = .ok f) ∨ ∃ m g o err, Quiet s m ∧ m.owner g = some o ∧
      m.evict g = (.error err, t) ∧ r = .error err := by
  cases claims_of_claimFrame h with
  | free _ => exact Or.inl ⟨_, rfl⟩
  | refused hfull hvictim =>
      have hevictable : s.core.frames.evictable ⟨0⟩ = true := by
        unfold FrameTable.evictable
        cases ho : s.core.frames.owner ⟨0⟩ with
        | none =>
            obtain ⟨g, hg⟩ := claim_ok hroomy.frames ho hfull
            cases hg
        | some o =>
            have hpinned : o.pinned = false := hroomy.unpinned ho
            simp [hpinned]
      obtain ⟨g, hg⟩ := selectVictim_ok hevictable hvictim
      cases hg
  | kept _ hvictim hevict =>
      obtain ⟨hquiet, hmay⟩ := selectVictim_spec hvictim
      obtain ⟨o, ho, -⟩ := hmay _ rfl
      exact Or.inr ⟨_, _, o, _, hquiet, (hquiet.owner _).trans ho, hevict, rfl⟩
  | taken _ _ _ _ => exact Or.inl ⟨_, rfl⟩
  | lost _ hvictim hevict hclaim =>
      obtain ⟨f, hf⟩ := claim_of_evict hs hvictim hevict hclaim
      cases hf

/-- **There is always a frame for a page** if all pages can be written out. -/
theorem claimFrame_ok {tlb : TlbId} {retries : Nat} {key : PageKey} {pinned : Bool}
    {r : Except PagingError FrameNumber} (hs : s.Agrees) (hv : s.Ample v)
    (h : s.claimFrame tlb retries key pinned = (r, t)) : ∃ f, r = .ok f := by
  obtain hok | ⟨m, g, o, err, hquiet, ho, hev, rfl⟩ := claimFrame_or_evict hs hv.toRoomy h
  · exact hok
  · cases evict_ok (hquiet.agrees hs) (hquiet.ample hv) ho hev

/-- **Every frame can be filled.** -/
theorem fill_ok {space : AddressSpace} {p : PageNumber} {f : FrameNumber}
    {r : Except PagingError EntryFlags} (hf : f.val < s.core.memory.frameCount)
    (hv : v.Keeps s.swap) (h : s.fill space p f = (r, t)) : ∃ flags, r = .ok flags := by
  obtain ⟨page, readOnly, rfl, -⟩ | ⟨a, n, page, -, ha, hn, hread, -⟩ := fill_spec hf h
  · exact ⟨_, rfl⟩
  · exact absurd (hv.whole ha hread) hn

/-- **Every page can be made resident.** -/
theorem pageIn_ok {tlb : TlbId} {retries : Nat} {space : AddressSpace} {p : PageNumber}
    {r : Except PagingError Translation} (hs : s.Agrees) (hv : s.Ample v)
    (h : s.pageIn tlb retries space p = (r, t)) : ∃ e, r = .ok e := by
  have hcount := quiet_count s fun c => { c with faults := c.faults + 1 }
  have hs' := hcount.agrees hs
  have hv' := hcount.ample hv
  cases pagesIn_of_pageIn h with
  | refused hclaim =>
      obtain ⟨f, hf⟩ := claimFrame_ok hs' hv' hclaim
      cases hf
  | spoiled hclaim hfill =>
      obtain ⟨m, hmoves, -, ⟨err, hr, -⟩ | ⟨f, hr, hm⟩⟩ := claimFrame_spec space hs' hclaim
      · cases hr
      · obtain rfl := Except.ok.inj hr
        have hswap := swap_of_claim hm ▸ (hmoves.ample hv').swap
        obtain ⟨flags, hflags⟩ :=
          fill_ok (lt_frameCount_of_claim (hmoves.agrees hs') hm) hswap hfill
        cases hflags
  | filled _ _ _ => exact ⟨_, rfl⟩

/-- **A page of an address space is always found**, on demand. -/
theorem resolve_ok {tlb : TlbId} {retries : Nat} {space : AddressSpace} {p : PageNumber}
    {r : Except PagingError Translation} (hs : s.Agrees) (hv : s.Ample v)
    (hrange : s.InRange (space.key p)) (h : s.resolve tlb retries space p = (r, t)) :
    ∃ e, r = .ok e := by
  cases resolves_of_resolve hs h with
  | unregistered hnone => exact absurd hnone hrange.ne_none
  | outside hcount hle => exact absurd hle (Nat.not_le.2 (hrange.lt hcount))
  | resident _ _ => exact ⟨_, rfl⟩
  | missing _ _ h => exact pageIn_ok hs hv h

end Paging

end DemandPaging
