import DemandPaging.Proofs.FaultAnswers
import Mathlib

/-!
# What a failed fault leaves behind

A fault may fail when the page that was to lose its frame cannot be written out, and when the page
itself cannot be read into the frame that it got, which may just have been taken from another page.
Whichever it is, the tables are as if nothing had been tried, except that a page may have lost its
frame; and the fault is answered if it is tried again with a swap file that works.

* `Paging.Spared`, `Paging.spared_of_evict` — a page that cannot be written out.
* `Paging.Undone`, `Paging.Faulted.undone` — what a failed fault leaves behind.
* `Paging.Recoverable`, `Paging.Shortage.recoverable` — it is tried again.
* `Paging.failures_undone` — all of this, in every state that a machine comes to.
-/

namespace DemandPaging

namespace Paging

variable {F : Type} [BackingFile F] {s m t u : Paging F} {tlb : TlbId} {retries : Nat}
  {space : AddressSpace} {p : PageNumber} {key : PageKey} {f : FrameNumber}

/-! ## A page that cannot be written out -/

/-- A page has kept its frame because it could not be written out.  No TLB maps the frame any more,
and the page's entry has the usage bits of the copies that some had. -/
structure Spared (s t : Paging F) (f : FrameNumber) (key : PageKey) : Prop where
  held : s.holder f = some key
  /-- Frames, memory and counters are as they were. -/
  core : ∃ table tlbs, t.core = { s.core with table, tlbs }
  slots : ∀ k : PageKey, t.swap.slots[k]? = s.swap.slots[k]?
  transfers : t.swap.writes = s.swap.writes ∧ t.swap.reads = s.swap.reads
  entry : ∃ e e', s.entry key = some e ∧ t.entry key = some e' ∧ e'.bare = e.bare ∧
    e'.maps f = true ∧ e'.needsWriteback = true ∧
      ∀ u : Usage, u.bit e'.flags = true ↔ u.bit e.flags = true ∨
        ∃ id i, (s.slot id i).maps f = true ∧ u.bit (s.slot id i).flags = true
  others : ∀ k, k ≠ key → t.entry k = s.entry k
  alone : ∀ id i, (t.slot id i).maps f = false
  slot : ∀ id i, (s.slot id i).maps f = false → t.slot id i = s.slot id i

/-- **An eviction fails only if the page cannot be written out**, and then the page is spared. -/
theorem spared_of_evict {e : PagingError} (hs : s.Agrees) (h : s.evict f = (.error e, t)) :
    e = .shortTransfer ∧ ∃ key, Spared s t f key := by
  have howned : ∃ o, s.owner f = some o := by
    rw [← Option.ne_none_iff_exists']
    intro hnone
    unfold evict at h
    rw [show s.core.frames.owner f = none from hnone] at h
    cases h
  obtain ⟨o, ho⟩ := howned
  obtain ⟨m, hrecalled, ⟨hr, -⟩ | ⟨hr, hkept, hcore⟩⟩ := evict_spec hs ho h
  · cases hr
  obtain ⟨a, n, hshort, hwrote⟩ := hkept.swap
  obtain ⟨e, he, hef⟩ := hs.owned hrecalled.held
  obtain ⟨e', he', hbare, hbits⟩ := hrecalled.entry e he
  obtain ⟨d, hd, hdirty⟩ := hkept.dirty
  obtain rfl := Option.some.inj (hd.symm.trans he')
  refine ⟨Except.error.inj hr, o.key,
    { held := hrecalled.held
      core := hcore
      slots := fun k => ?_
      transfers := ⟨?_, ?_⟩
      entry := ⟨e, d, he, (hkept.entry _).trans hd, hbare, by rwa [Translation.maps_congr hbare],
        hdirty, fun u => (hbits u).trans (marked_iff he hef)⟩
      others := fun k hk => (hkept.entry k).trans (hrecalled.entry_ne k hk)
      alone := fun id i => by rw [hkept.slot, hrecalled.alone]
      slot := fun id i hm => ?_ }⟩
  · rw [hwrote.slots, if_neg fun h => hshort h.2, hrecalled.swap]
  · rw [hwrote.writes, if_neg hshort, hrecalled.swap]
  · rw [hwrote.reads, hrecalled.swap]
  · rw [hkept.slot, hrecalled.slot, if_neg (by rw [hm]; exact Bool.false_ne_true)]

/-! ## A fault that has failed -/

/-- A page was not made resident.  It has no entry and no frame, and no frame was lost to it; one
other page may have lost its frame, after it was written out if it had to be. -/
structure Undone (s t : Paging F) (key : PageKey) : Prop where
  entry : t.entry key = none
  owner : ∀ {f o}, t.owner f = some o → o.key ≠ key
  free : s.core.frames.freeCount ≤ t.core.frames.freeCount
  others : (∀ k, Stays s t k) ∨ ∃ k g, Displaced s t k g

omit [BackingFile F] in
/-- A page without an entry has no frame. -/
theorem Agrees.owner_ne (ht : t.Agrees) (hentry : t.entry key = none) {o : FrameOwner}
    (ho : t.owner f = some o) : o.key ≠ key := by
  rintro rfl
  obtain ⟨e, he, -⟩ := ht.owned (holder_eq_some.2 ⟨o, ho, rfl⟩)
  rw [hentry] at he
  cases he

namespace Shortage

theorem freeCount_le (h : Shortage s t key) (hs : s.Agrees) :
    s.core.frames.freeCount ≤ t.core.frames.freeCount := by
  cases h with
  | write h =>
      obtain ⟨hfull, -⟩ := h
      exact hfull ▸ Nat.zero_le _
  | read hvacancy _ _ _ hspoiled =>
      rw [FrameTable.freeCount_congr hspoiled.frames hspoiled.owner]
      rcases hvacancy.cost hs with ⟨-, -, hcount, -⟩ | ⟨hfull, -⟩
      · exact hcount.ge
      · exact hfull ▸ Nat.zero_le _

/-- One page at most has lost its frame. -/
theorem others (h : Shortage s t key) (hs : s.Agrees) :
    (∀ k, Stays s t k) ∨ ∃ k g, Displaced s t k g := by
  cases h with
  | write h => exact Or.inl fun k => h.stays hs
  | @read m _ _ _ _ hvacancy _ _ hread hspoiled =>
      have hstays : ∀ k, Stays m t k := fun k => hspoiled.stays (hvacancy.agrees hs)
      rcases hvacancy.cost hs with ⟨-, -, -, hstay⟩ | ⟨-, -, -, k, g, hdisplaced⟩
      · exact Or.inl fun k => (hstay k).trans (hstays k)
      · exact Or.inr ⟨k, g, hdisplaced.tail (hspoiled.entry k) (fun l => by rw [hread.slots]) hstays⟩

/-- There is a frame that is free or can be taken, so that the next fault need not fail for want of
one. -/
theorem not_allPinned_after (h : Shortage s t key) (hs : s.Agrees) : ¬ t.AllPinned := by
  intro hall
  cases h with
  | write h =>
      obtain ⟨-, ⟨o, ho, hpinned⟩, -⟩ := id h
      exact hall.not_takable ⟨o, (h.owner _).trans ho, hpinned⟩
  | read hvacancy _ _ _ hspoiled =>
      have hfree := hvacancy.freeCount_pos hs
      rw [← FrameTable.freeCount_congr hspoiled.frames hspoiled.owner, hall.freeCount] at hfree
      cases hfree

/-- No page has lost anything. -/
theorem retained {w : FileView F} {k : PageKey} (h : Shortage s t (space.key p)) (hs : s.Agrees)
    (hgood : w.good s.swap.file) : Retained w s t k := by
  cases h with
  | write h => exact h.retained hs hgood
  | read hvacancy _ _ _ hspoiled =>
      exact (hvacancy.retained hs hgood).trans hs
        (hspoiled.retained (hvacancy.agrees hs) ((hvacancy.moves space false).good hs hgood))

/-- **A swap file that does not fail is no reason for a fault to do so.** -/
theorem not_of_keeps {v : ReliableView F} (hv : v.Keeps s.swap) : ¬ Shortage s t key := by
  intro h
  cases h with
  | write h => exact h.not_keeps hv
  | read hvacancy hslot hshort hread _ => exact hshort ((hvacancy.keeps hv).whole hslot hread)

end Shortage

/-- **A fault that has failed is undone.** -/
theorem Faulted.undone {e : PagingError} (h : Faulted s space p (.error e) t) (hs : s.Agrees)
    (habsent : s.entry (space.key p) = none) : Undone s t (space.key p) := by
  cases h with
  | exhausted _ hquiet =>
      have hentry := (hquiet.entry _).trans habsent
      exact ⟨hentry, fun ho => (hquiet.agrees hs).owner_ne hentry ho, hquiet.freeCount.ge,
        Or.inl fun k => hquiet.toStill.stays⟩
  | short h =>
      have hentry := h.absent hs habsent
      exact ⟨hentry, fun ho => ((h.moves space false).agrees hs).owner_ne hentry ho,
        h.freeCount_le hs, h.others hs⟩

/-! ## Another attempt -/

omit [BackingFile F] in
/-- The state with another swap file. -/
def onFile (s : Paging F) (g : F) : Paging F := { s with swap := { s.swap with file := g } }

omit [BackingFile F] in
theorem Agrees.onFile {g : F} (hs : s.Agrees) : (s.onFile g).Agrees :=
  ⟨hs.entry, hs.owned, hs.mirror, hs.memory, hs.swap.of_same rfl rfl rfl⟩

/-- What a page holds that has just become resident. -/
theorem Made.frame_eq {w : FileView F} {e : Translation} (h : Made s t space p e f)
    (hgood : w.good s.swap.file) : t.frame f = s.backing w space (space.key p) := by
  cases hslot : s.swap.slots[space.key p]? with
  | some a => rw [backing_of_slot hslot, h.swapped hgood hslot]
  | none =>
      rw [backing_of_no_slot hslot, AddressSpace.initialPage, AddressSpace.key]
      cases hbacking : space.image.backing p with
      | some covered => exact h.covered hslot hbacking
      | none => exact h.zeros hslot hbacking

/-- **With a swap file that works the page is made resident at once.** -/
theorem made_of_retry {v : ReliableView F} {g : F} (h : Shortage s t (space.key p)) (hs : s.Agrees)
    (hrange : s.InRange (space.key p)) (habsent : s.entry (space.key p) = none)
    (hv : v.Keeps (t.onFile g).swap) (tlb : TlbId) (retries : Nat) :
    ∃ e f u, (t.onFile g).resolve tlb retries space p = (.ok e, u) ∧
      Made (t.onFile g) u space p e f := by
  have hmoves := h.moves space false
  have hagrees : (t.onFile g).Agrees := (hmoves.agrees hs).onFile
  have habsent' : (t.onFile g).entry (space.key p) = none := h.absent hs habsent
  have hrange' : (t.onFile g).InRange (space.key p) := hmoves.inRange hrange
  cases hresolve : (t.onFile g).resolve tlb retries space p with
  | mk r u =>
      cases resolves_of_resolve hagrees hresolve with
      | unregistered hnone => exact absurd hnone hrange'.ne_none
      | outside hcount hle => exact absurd hle (Nat.not_le.2 (hrange'.lt hcount))
      | resident _ he => cases habsent'.symm.trans he
      | missing _ _ hpageIn =>
          have hanswered := (faulted_of_pageIn hagrees habsent' hrange' hpageIn).answered hagrees habsent'
          obtain ⟨e, f, rfl, hmade⟩ :=
            hanswered.made (h.not_allPinned_after hs) (Shortage.not_of_keeps hv)
          exact ⟨e, f, u, rfl, hmade⟩

/-- **It holds what it held before the first attempt**, if the slots do so. -/
theorem frame_of_retry {w : FileView F} {v : ReliableView F} {g : F} {e : Translation}
    (h : Shortage s t (space.key p)) (hs : s.Agrees) (habsent : s.entry (space.key p) = none)
    (hgood : w.good s.swap.file) (hv : v.Keeps (t.onFile g).swap)
    (hsame : ∀ {k : PageKey} {a}, t.swap.slots[k]? = some a →
      v.slotPage g a = w.slotPage t.swap.file a)
    (hmade : Made (t.onFile g) u space p e f) : u.frame f = s.contents w space (space.key p) := by
  have hbacking : (t.onFile g).backing v.toFileView space (space.key p) =
      t.backing w space (space.key p) := by
    have hslots : (t.onFile g).swap.slots[space.key p]? = t.swap.slots[space.key p]? := rfl
    cases hslot : t.swap.slots[space.key p]? with
    | some a =>
        rw [backing_of_slot hslot, backing_of_slot (hslots.trans hslot)]
        exact hsame hslot
    | none => rw [backing_of_no_slot hslot, backing_of_no_slot (hslots.trans hslot)]
  rw [hmade.frame_eq hv.good, hbacking, contents_of_absent habsent,
    (h.retained hs hgood).backing (not_unsaved_of_absent habsent)]

/-- The page is made resident if it is asked for again with a swap file that does not fail.  If that
file has in every slot that is some page's what the other has, the page holds what it held before,
which for a process whose pages are where they should be is what its plain memory holds. -/
def Recoverable (s t : Paging F) (space : AddressSpace) (p : PageNumber) : Prop :=
  ∀ {v : ReliableView F} {g : F}, v.Keeps (t.onFile g).swap → ∀ tlb retries,
    ∃ e f u, (t.onFile g).resolve tlb retries space p = (.ok e, u) ∧ Made (t.onFile g) u space p e f ∧
      ∀ {w : FileView F}, w.good s.swap.file →
        (∀ {k : PageKey} {a}, t.swap.slots[k]? = some a →
          v.slotPage g a = w.slotPage t.swap.file a) →
        u.frame f = s.contents w space (space.key p) ∧
          ∀ {tenants : Pid → Option Tenant} {T : Tenant}, s.Faithful w tenants → s.Lodged tenants →
            tenants space.pid = some T → T.space = space → u.frame f = T.page p

theorem Shortage.recoverable (h : Shortage s t (space.key p)) (hs : s.Agrees)
    (hrange : s.InRange (space.key p)) (habsent : s.entry (space.key p) = none) :
    Recoverable s t space p := by
  intro v g hv tlb retries
  obtain ⟨e, f, u, hresolve, hmade⟩ := made_of_retry h hs hrange habsent hv tlb retries
  refine ⟨e, f, u, hresolve, hmade, fun {w} hgood hsame => ?_⟩
  have hframe := frame_of_retry h hs habsent hgood hv hsame hmade
  refine ⟨hframe, fun {tenants T} hfaithful hlodged hT hspace => ?_⟩
  subst hspace
  rw [hframe, contents_of_absent habsent]
  have hclean : s.Clean (T.space.key p) := fun d hd => by
    rw [habsent] at hd
    cases hd
  exact hfaithful.stored (show tenants (T.space.key p).pid = some T from hT)
    (hlodged.lt_of_inRange (k := T.space.key p) hT hrange) hclean

/-! ## Whatever fails is undone -/

/-- A page that lies outside all address spaces was asked for in vain. -/
theorem undone_of_outside (hs : s.Consistent) (hrange : ¬ s.InRange (space.key p)) :
    Undone s s (space.key p) := by
  have habsent : s.entry (space.key p) = none :=
    Option.eq_none_iff_forall_ne_some.2 fun d hd => hrange (hs.resident hd)
  exact ⟨habsent, fun ho => hs.toAgrees.owner_ne habsent ho, Nat.le_refl _,
    Or.inl fun _ => (quiet_refl s).toStill.stays⟩

theorem undone_of_resolve {r : Except PagingError Translation} {e : PagingError} (hs : s.Consistent)
    (h : s.resolve tlb retries space p = (r, t)) (hr : r = .error e) :
    Undone s t (space.key p) ∧ (e = .shortTransfer → Recoverable s t space p) := by
  cases resolves_of_resolve hs.toAgrees h with
  | unregistered hnone =>
      obtain rfl := Except.error.inj hr
      exact ⟨undone_of_outside hs fun hrange => hrange.ne_none hnone, nofun⟩
  | outside hcount hle =>
      obtain rfl := Except.error.inj hr
      exact ⟨undone_of_outside hs fun hrange => absurd hle (Nat.not_le.2 (hrange.lt hcount)), nofun⟩
  | resident _ _ => cases hr
  | missing hrange habsent h =>
      subst hr
      have hfault := faulted_of_pageIn hs.toAgrees habsent hrange h
      refine ⟨hfault.undone hs.toAgrees habsent, fun he => ?_⟩
      subst he
      exact ((hfault.answered hs.toAgrees habsent).short.1 rfl).recoverable hs.toAgrees hrange habsent

/-- **Whatever fails is undone.**  A page that cannot be written out is spared.  A fault that fails
leaves nothing behind but the loss of one other page's frame perhaps, and nothing stands in the way
of another attempt. -/
theorem failures_undone (hs : s.Reachable) :
    (∀ {f e t}, s.evict f = (.error e, t) → e = .shortTransfer ∧ ∃ key, Spared s t f key) ∧
      ∀ {tlb retries space p e t}, s.resolve tlb retries space p = (.error e, t) →
        Undone s t (space.key p) ∧ (e = .shortTransfer → Recoverable s t space p) :=
  ⟨fun h => spared_of_evict hs.consistent.toAgrees h, fun h => undone_of_resolve hs.consistent h rfl⟩

set_option maxRecDepth 100000 in
/-- The first write of a swap file fails.  It is of a page that has the only frame of a machine and
was to lose it.  The page that was to have the frame gets it when it is asked for again. -/
theorem undone_after_first_write :
    ∃ (s t u : Paging FaultyFile) (space : AddressSpace) (e : Translation) (f : FrameNumber),
      s.resolve 0 0 space ⟨0⟩ = (.error .shortTransfer, t) ∧ Undone s t (space.key ⟨0⟩) ∧
        t.resolve 0 0 space ⟨0⟩ = (.ok e, u) ∧
          u.frame f = s.contents FaultyFile.view space (space.key ⟨0⟩) := by
  suffices hmachine : ∃ (m : Machine FaultyFile) (space : AddressSpace), m.Reached ∧
      (m.kernel.resolve 0 0 space ⟨0⟩).1 = .error .shortTransfer ∧
        m.kernel.swap.file.plan = { badWrites := [0] } ∧
          (m.kernel.resolve 0 0 space ⟨0⟩).2.swap.file.plan = { badWrites := [0] } ∧
            (m.kernel.resolve 0 0 space ⟨0⟩).2.swap.file.writes = 1 ∧
              (m.kernel.resolve 0 0 space ⟨0⟩).2.swap.slots.isEmpty = true by
    obtain ⟨m, space, hm, hr, hplan, hplan', hwrites, hslots⟩ := hmachine
    obtain ⟨t, ht⟩ : ∃ t, (m.kernel.resolve 0 0 space ⟨0⟩).2 = t := ⟨_, rfl⟩
    rw [ht] at hplan' hwrites hslots
    have hresolve : m.kernel.resolve 0 0 space ⟨0⟩ = (.error .shortTransfer, t) := Prod.ext hr ht
    obtain ⟨hundone, hrecover⟩ := (failures_undone (reachable_of_reached hm)).2 hresolve
    have hkeeps : FaultyFile.reliableView.Keeps (t.onFile t.swap.file).swap := by
      refine ⟨⟨fun n _ => ?_, fun n hn => ?_⟩, fun {k a} ha => ?_⟩
      · rw [onFile, hplan']
        rfl
      · rw [onFile, hwrites] at hn
        rw [onFile, hplan', FaultPlan.hits, Bool.or_false]
        simp [Nat.ne_of_gt hn]
      · rw [onFile, Std.ExtTreeMap.isEmpty_iff.1 hslots, Std.ExtTreeMap.getElem?_empty] at ha
        cases ha
    obtain ⟨e, f, u, hagain, -, hframe⟩ := hrecover rfl hkeeps 0 0
    have hgood : FaultyFile.view.good m.kernel.swap.file := by
      show m.kernel.swap.file.plan.claimed ≠ pageSize
      rw [hplan]
      exact (by decide : (0 : Nat) ≠ pageSize)
    exact ⟨m.kernel.toPaging, t, u, space, e, f, hresolve, hundone, hagain,
      (hframe hgood fun _ => rfl).1⟩
  have hboot : Kernel.boot { frames := 1, tlbSlots := 1, stackPages := 1 } []
      (some ({ plan := { badWrites := [0] } } : FaultyFile)) = (.ok _, _) := rfl
  exact ⟨_, ⟨0, .assembled { entry := 0 }, 0, 1, 1⟩,
    ((Machine.Reached.boot hboot).addCpu 1).after 0
      (.load (.assembled { entry := 0 }) ["a"] .demand),
    by decide_cbv⟩

end Paging

end DemandPaging
