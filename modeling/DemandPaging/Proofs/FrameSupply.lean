import DemandPaging.Proofs.Errands
import DemandPaging.Proofs.Ledger
import DemandPaging.Proofs.VictimChoice
import Mathlib.Data.List.Perm.Basic

/-!
# Where a frame comes from

A page that is to become resident needs a frame.  If one is free, the page gets it.  If none is, a
page that does not have its frame for good loses it, after it was written out if it has to be.  So
there are two reasons why there may be no frame: all pages have theirs for good, or the page that
was to lose its frame could not be written out and still has it.

* `FrameTable.freeCount_claim`, `FrameTable.freeCount_of_taken` — how many frames are free.
* `Paging.Tally` — the evictions, and the transfers that came up short.
* `Paging.AllPinned` — no frame is to be had.
* `Paging.Vacancy` — what was done for a frame to be free.
* `Paging.Withheld` — what was done in vain.
* `Paging.Supply`, `Paging.supply_of_claimFrame` — how a frame is claimed, or why not.
-/

namespace DemandPaging

/-! ## Free frames -/

namespace FrameTable

variable {t t' : FrameTable} {key : PageKey} {pinned : Bool} {f : FrameNumber}

theorem size_claim (h : t.claim key pinned = some (f, t')) : t'.size = t.size := by
  simp only [claim, Option.map_eq_some_iff, Prod.mk.injEq] at h
  obtain ⟨g, -, rfl, rfl⟩ := h
  exact size_assign _ _ _

/-- The owners of a table are the frames that somebody has. -/
theorem size_owners_congr (howner : ∀ f, t'.owner f = t.owner f) :
    t'.owners.size = t.owners.size := by
  have howners : t'.owners = t.owners := Std.ExtTreeMap.ext_getElem? fun n => howner ⟨n⟩
  rw [howners]

theorem freeCount_congr (hsize : t'.size = t.size) (howner : ∀ f, t'.owner f = t.owner f) :
    t'.freeCount = t.freeCount := by
  rw [freeCount, freeCount, hsize, size_owners_congr howner]

/-- A frame that is given to somebody is free no more. -/
theorem freeCount_of_given {o : FrameOwner} (hsize : t'.size = t.size) (hfree : t.owner f = none)
    (howner : ∀ g, t'.owner g = if f = g then some o else t.owner g) :
    t.freeCount = t'.freeCount + 1 := by
  have hinsert : t'.owners = t.owners.insert f.val o := by
    apply Std.ExtTreeMap.ext_getElem?
    intro n
    have hn := howner ⟨n⟩
    obtain ⟨f⟩ := f
    simpa only [owner, Std.ExtTreeMap.getElem?_insert, Nat.compare_eq_eq, FrameNumber.mk.injEq]
      using hn
  have hnot : f.val ∉ t.owners := by
    rw [mem_owners_iff, hfree]
    simp
  have howners : t'.owners.size = t.owners.size + 1 := by
    rw [hinsert, Std.ExtTreeMap.size_insert, if_neg (mt Std.ExtTreeMap.contains_iff_mem.1 hnot)]
  have hall := t.freeCount_add_size_owners
  have hall' := t'.freeCount_add_size_owners
  omega

/-- **A frame that is claimed is free no more.** -/
theorem freeCount_claim (h : t.claim key pinned = some (f, t')) :
    t.freeCount = t'.freeCount + 1 := by
  obtain ⟨hfree, howner⟩ := owner_claim h
  exact freeCount_of_given (size_claim h) hfree howner

/-- **A frame that is taken from somebody is free.** -/
theorem freeCount_of_taken {o : FrameOwner} (hsize : t'.size = t.size) (ho : t.owner f = some o)
    (howner : ∀ g, t'.owner g = if g = f then none else t.owner g) :
    t'.freeCount = t.freeCount + 1 := by
  refine freeCount_of_given hsize.symm ((howner f).trans (if_pos rfl)) (o := o) fun g => ?_
  rw [howner]
  by_cases hg : f = g
  · rw [if_pos hg, ← hg, ho]
  · rw [if_neg hg, if_neg (Ne.symm hg)]

/-- If somebody has every frame, none is free, -/
theorem freeCount_eq_zero (h : ∀ f : FrameNumber, f.val < t.size → (t.owner f).isSome = true) :
    t.freeCount = 0 := by
  have hsub : List.range t.size ⊆ t.owners.keys := by
    intro n hn
    rw [Std.ExtTreeMap.mem_keys]
    exact mem_owners_iff.2 (h ⟨n⟩ (List.mem_range.1 hn))
  have hle := (List.subperm_of_subset List.nodup_range hsub).length_le
  rw [List.length_range, Std.ExtTreeMap.length_keys] at hle
  rw [freeCount]
  omega

/-- and only then no frame can be claimed. -/
theorem owned_of_claim_eq_none (h : t.claim key pinned = none) :
    ∀ f : FrameNumber, f.val < t.size → (t.owner f).isSome = true :=
  firstFree_eq_none.1 (Option.map_eq_none_iff.1 h)

end FrameTable

namespace Paging

variable {F : Type} {s m t : Paging F} {tlb : TlbId} {retries : Nat} {key : PageKey}
  {pinned : Bool} {f : FrameNumber}

theorem freeCount_of_claim (h : s.claim key pinned = (some f, t)) :
    s.core.frames.freeCount = t.core.frames.freeCount + 1 := by
  unfold claim at h
  split at h
  · rename_i hclaim
    obtain ⟨-, rfl⟩ := Prod.mk.inj h
    exact FrameTable.freeCount_claim hclaim
  · cases h

theorem owned_of_full (h : s.claim key pinned = (none, t)) {f : FrameNumber}
    (hf : f.val < s.core.frames.size) : ∃ o, s.owner f = some o := by
  unfold claim at h
  split at h
  · cases h
  · rename_i hclaim
    exact Option.isSome_iff_exists.1 (FrameTable.owned_of_claim_eq_none hclaim f hf)

theorem freeCount_of_full (h : s.claim key pinned = (none, t)) : s.core.frames.freeCount = 0 :=
  FrameTable.freeCount_eq_zero fun _ hf => Option.isSome_iff_exists.2 (owned_of_full h hf)

/-! ## Evictions and shortfalls -/

/-- As many pages lost their frames to others, and as many transfers came up short. -/
structure Tally (s t : Paging F) (evicted short : Nat) : Prop where
  evictions : t.core.counters.evictions = s.core.counters.evictions + evicted
  shortfalls : t.shortfalls = s.shortfalls + short

theorem Tally.trans {a b c d : Nat} (h : Tally s m a b) (h' : Tally m t c d) :
    Tally s t (a + c) (b + d) where
  evictions := by rw [h'.evictions, h.evictions, Nat.add_assoc]
  shortfalls := by rw [h'.shortfalls, h.shortfalls, Nat.add_assoc]

theorem Tally.head {a b : Nat} (h : Tally s m 0 0) (h' : Tally m t a b) : Tally s t a b := by
  simpa using h.trans h'

theorem Tally.tail {a b : Nat} (h : Tally s m a b) (h' : Tally m t 0 0) : Tally s t a b :=
  h.trans h'

theorem tally_refl (s : Paging F) : Tally s s 0 0 := ⟨rfl, rfl⟩

theorem tally_claim {r : Option FrameNumber} (h : s.claim key pinned = (r, t)) :
    Tally s t 0 0 := by
  unfold claim at h
  split at h <;> obtain ⟨-, rfl⟩ := Prod.mk.inj h
  · exact ⟨rfl, rfl⟩
  · exact tally_refl _

theorem tally_selectVictim {r : Except PagingError FrameNumber}
    (h : s.selectVictim tlb retries = (r, t)) : Tally s t 0 0 := by
  unfold selectVictim at h
  dsimp only at h
  cases hs : sampleVictim (s.core.tlbs.tlb tlb).mapsFrame retries s.core none with
  | mk sampled c =>
      obtain ⟨⟨g, rfl⟩, -⟩ := sampleVictim_spec (by simp) hs
      rw [hs] at h
      dsimp only at h
      split at h <;> obtain ⟨-, rfl⟩ := Prod.mk.inj h <;> exact ⟨rfl, rfl⟩

theorem tally_release (s : Paging F) (f : FrameNumber) : Tally s (s.release f) 0 0 :=
  ⟨by rw [core_release]; rfl, shortfalls_release s f⟩

theorem tally_removePage {r : Except Halt Unit} (h : s.removePage key = (r, t)) :
    Tally s t 0 0 := by
  unfold removePage freeFrame at h
  split at h
  · obtain ⟨-, rfl⟩ := Prod.mk.inj h
    exact tally_refl _
  · dsimp only at h
    split at h
    · obtain ⟨-, rfl⟩ := Prod.mk.inj h
      exact ⟨rfl, rfl⟩
    · rename_i f _
      have hreleased : Tally s (((s.setTable (s.core.table.erase key)).shootdown f).2.release f) 0 0 :=
        Tally.head (m := ((s.setTable (s.core.table.erase key)).shootdown f).2) ⟨rfl, rfl⟩
          (tally_release _ f)
      split at h <;> rename_i hfree <;> split at hfree <;> obtain ⟨hr, rfl⟩ := Prod.mk.inj hfree <;>
        obtain ⟨-, rfl⟩ := Prod.mk.inj h
      · exact hreleased
      · cases hr
      · cases hr
      · exact ⟨rfl, rfl⟩

theorem tally_removePages {keys : List PageKey} {r : Except Halt Unit}
    (h : removePages keys s = (r, t)) : Tally s t 0 0 := by
  induction keys generalizing s with
  | nil =>
      obtain ⟨-, rfl⟩ := Prod.mk.inj h
      exact tally_refl _
  | cons key keys ih =>
      unfold removePages at h
      split at h <;> rename_i hremove
      · exact (tally_removePage hremove).head (ih h)
      · obtain ⟨-, rfl⟩ := Prod.mk.inj h
        exact tally_removePage hremove

theorem tally_dropOrphans (pid : Pid) (s : Paging F) (frames : List FrameNumber) :
    Tally s (frames.foldl (dropOrphan pid) s) 0 0 := by
  induction frames generalizing s with
  | nil => exact tally_refl s
  | cons f frames ih =>
      have hshot : Tally s ((s.note (.frameWithoutTranslation f pid)).shootdown f).2 0 0 := ⟨rfl, rfl⟩
      exact (hshot.head (tally_release _ f)).head (ih _)

/-- No page that is removed with its process loses its frame to another, or is written out. -/
theorem tally_removeResident {pid : Pid} {r : Except Halt Nat}
    (h : s.removeResident pid = (r, t)) : Tally s t 0 0 := by
  unfold removeResident at h
  dsimp only at h
  split at h <;> rename_i hremove <;> obtain ⟨-, rfl⟩ := Prod.mk.inj h
  · exact (tally_removePages hremove).head (tally_dropOrphans _ _ _)
  · exact tally_removePages hremove

theorem tally_fillFresh {space : AddressSpace} {p : PageNumber} {flags : EntryFlags}
    (h : s.fillFresh space p f = (flags, t)) : Tally s t 0 0 := by
  unfold fillFresh at h
  split at h <;> obtain ⟨-, rfl⟩ := Prod.mk.inj h <;> exact ⟨rfl, rfl⟩

/-! ## No frame is to be had -/

/-- Every frame is somebody's for good. -/
def AllPinned (s : Paging F) : Prop :=
  ∀ f : FrameNumber, f.val < s.core.frames.size → ∃ o, s.owner f = some o ∧ o.pinned = true

theorem AllPinned.not_takable (h : s.AllPinned) : ¬ s.Takable f := by
  rintro ⟨o, ho, hunpinned⟩
  obtain ⟨o', ho', hpinned⟩ := h f (FrameTable.lt_size_of_owner ho)
  obtain rfl := Option.some.inj (ho.symm.trans ho')
  rw [hunpinned] at hpinned
  cases hpinned

theorem AllPinned.freeCount (h : s.AllPinned) : s.core.frames.freeCount = 0 :=
  FrameTable.freeCount_eq_zero fun f hf => by
    obtain ⟨o, ho, -⟩ := h f hf
    exact Option.isSome_iff_exists.2 ⟨o, ho⟩

/-- **If no frame can be claimed and none can be taken, all are pinned.** -/
theorem allPinned_of_refused {e : PagingError} (hfull : s.claim key pinned = (none, s))
    (hvictim : s.selectVictim tlb retries = (.error e, t)) : s.AllPinned := by
  intro f hf
  obtain ⟨o, ho⟩ := owned_of_full hfull hf
  refine ⟨o, ho, ?_⟩
  by_contra hpinned
  have htakable : s.Takable f := ⟨o, ho, Bool.eq_false_iff.2 hpinned⟩
  obtain ⟨g, hg⟩ := selectVictim_ok (takable_iff.1 htakable) hvictim
  cases hg

variable [BackingFile F]

/-- A page that cannot be written out is a transfer that came up short. -/
theorem tally_writeBack {r : Except PagingError Bool} (h : s.writeBack key f = (r, t)) :
    (∀ dirty, r = .ok dirty → Tally s t 0 0) ∧ ∀ e, r = .error e → Tally s t 0 1 := by
  unfold writeBack at h
  split at h
  · unfold swapOut writeOut at h
    split at h <;> rename_i heq <;> obtain ⟨rfl, rfl⟩ := Prod.mk.inj h <;> split at heq <;>
      obtain ⟨hr, rfl⟩ := Prod.mk.inj heq
    · exact ⟨fun _ _ => ⟨rfl, rfl⟩, nofun⟩
    · cases hr
    · cases hr
    · exact ⟨nofun, fun _ _ => ⟨rfl, rfl⟩⟩
  · obtain ⟨rfl, rfl⟩ := Prod.mk.inj h
    exact ⟨fun _ _ => ⟨rfl, rfl⟩, nofun⟩

theorem tally_evict {o : FrameOwner} {r : Except PagingError Unit} (ho : s.owner f = some o)
    (h : s.evict f = (r, t)) :
    (r = .ok () → Tally s t 1 0) ∧ ∀ e, r = .error e → Tally s t 0 1 := by
  have hfolded : Tally s ((s.shootdown f).2.foldCopies o.key (s.shootdown f).1) 0 0 := ⟨rfl, rfl⟩
  cases evicts_of_evict ho h with
  | kept hwrite => exact ⟨nofun, fun _ _ => hfolded.head ((tally_writeBack hwrite).2 _ rfl)⟩
  | @taken dirty u _ hwrite ht =>
      have hwritten := hfolded.head ((tally_writeBack hwrite).1 _ rfl)
      have hreleased : Tally s ((u.setTable (u.core.table.erase o.key)).release f) 0 0 :=
        hwritten.tail (Tally.head (m := u.setTable (u.core.table.erase o.key)) ⟨rfl, rfl⟩
          (tally_release _ f))
      have hcounted : Tally s t (0 + 1) (0 + 0) := hreleased.trans (by rw [ht]; exact ⟨rfl, rfl⟩)
      exact ⟨fun _ => hcounted, nofun⟩

/-- A page that cannot be read back is one, too. -/
theorem tally_fill {space : AddressSpace} {p : PageNumber} {r : Except PagingError EntryFlags}
    (h : s.fill space p f = (r, t)) :
    (∀ flags, r = .ok flags → Tally s t 0 0) ∧ ∀ e, r = .error e → Tally s t 0 1 := by
  unfold fill swapIn readIn at h
  cases hread : s.swap.readIn (space.key p) (s.core.memory.frame f) with
  | mk x rest =>
      obtain ⟨page, swap⟩ := rest
      rw [hread] at h
      rcases x with e | _ | a <;> obtain ⟨rfl, rfl⟩ := Prod.mk.inj h
      · exact ⟨nofun, fun _ _ => ⟨rfl, rfl⟩⟩
      · refine ⟨fun _ _ => ?_, nofun⟩
        exact Tally.head (m := { s with core := { s.core with
          memory := s.core.memory.setFrame f (s.core.memory.frame f) } }) ⟨rfl, rfl⟩
            (tally_fillFresh rfl)
      · exact ⟨fun _ _ => ⟨rfl, rfl⟩, nofun⟩

/-! ## A frame is free -/

/-- A frame is free now: one was, or a page has lost its frame to make one so. -/
inductive Vacancy (s m : Paging F) : Prop
  | free (hfree : 0 < s.core.frames.freeCount) (hquiet : Quiet s m) (htally : Tally s m 0 0)
  | taken {u v : Paging F} {k : PageKey} {g : FrameNumber} {handed : Bool}
    (hfull : s.core.frames.freeCount = 0) (hquiet : Quiet s u) (hrecalled : Recalled u v k g)
    (hevicted : Evicted v m k g handed) (htally : Tally s m 1 0)

/-- No frame is free, and the page that was to lose its frame has kept it. -/
inductive Withheld (s t : Paging F) : Prop
  | intro {u m : Paging F} {k : PageKey} {g : FrameNumber} (hfull : s.core.frames.freeCount = 0)
    (htakable : s.Takable g) (hquiet : Quiet s u) (hrecalled : Recalled u m k g)
    (hkept : Kept m t k g) (htally : Tally s t 0 1)

/-- What is left when a frame was to be claimed for a page. -/
inductive Supply (s : Paging F) (key : PageKey) (pinned : Bool) :
    Except PagingError FrameNumber → Paging F → Prop
  | supplied {m t : Paging F} {f : FrameNumber} (hvacancy : Vacancy s m)
    (hclaim : m.claim key pinned = (some f, t)) :
    Supply s key pinned (.ok f) t
  | exhausted {t : Paging F} (hpinned : s.AllPinned) (hquiet : Quiet s t) (htally : Tally s t 0 0) :
    Supply s key pinned (.error .outOfFrames) t
  | withheld {t : Paging F} (h : Withheld s t) : Supply s key pinned (.error .shortTransfer) t

/-- **There are three ends to the claim of a frame**: there is one, all are pinned, or a page could
not be written out. -/
theorem supply_of_claimFrame {r : Except PagingError FrameNumber} (hs : s.Agrees)
    (h : s.claimFrame tlb retries key pinned = (r, t)) : Supply s key pinned r t := by
  have hevict : ∀ {g u x v}, s.claim key pinned = (none, s) →
      s.selectVictim tlb retries = (.ok g, u) → u.evict g = (x, v) →
      (x = .ok () ∧ Vacancy s v) ∨ (x = .error .shortTransfer ∧ Withheld s v) := by
    intro g u x v hfull hvictim hevict
    obtain ⟨hquiet, hmay⟩ := selectVictim_spec hvictim
    obtain ⟨o, ho, hpinned⟩ := hmay g rfl
    have hu : u.owner g = some o := (hquiet.owner g).trans ho
    have hcounted := tally_selectVictim hvictim
    obtain ⟨hok, hfail⟩ := tally_evict hu hevict
    obtain ⟨m, hrecalled, ⟨rfl, hevicted⟩ | ⟨rfl, hkept, -⟩⟩ := evict_spec (hquiet.agrees hs) hu hevict
    · obtain ⟨handed, hevicted⟩ := hevicted hpinned
      exact Or.inl ⟨rfl, .taken (freeCount_of_full hfull) hquiet hrecalled hevicted
        (hcounted.head (hok rfl))⟩
    · exact Or.inr ⟨rfl, freeCount_of_full hfull, ⟨o, ho, hpinned⟩, hquiet, hrecalled, hkept,
        hcounted.head (hfail _ rfl)⟩
  cases claims_of_claimFrame h with
  | free hclaim =>
      have hfree : 0 < s.core.frames.freeCount := by
        rw [freeCount_of_claim hclaim]
        exact Nat.succ_pos _
      exact .supplied (.free hfree (quiet_refl s) (tally_refl s)) hclaim
  | refused hfull hvictim =>
      obtain rfl := (posted_selectVictim hvictim).2 _ rfl
      exact .exhausted (allPinned_of_refused hfull hvictim) (selectVictim_spec hvictim).1
        (tally_selectVictim hvictim)
  | kept hfull hvictim hfail =>
      rcases hevict hfull hvictim hfail with ⟨hx, -⟩ | ⟨hx, hwithheld⟩
      · cases hx
      · obtain rfl := Except.error.inj hx
        exact .withheld hwithheld
  | taken hfull hvictim htaken hclaim =>
      rcases hevict hfull hvictim htaken with ⟨-, hvacancy⟩ | ⟨hx, -⟩
      · exact .supplied hvacancy hclaim
      · cases hx
  | lost _ hvictim htaken hclaim =>
      obtain ⟨f, hf⟩ := claim_of_evict hs hvictim htaken hclaim
      cases hf

/-! ## Pages that stay where they are -/

omit [BackingFile F] in
/-- If the page is resident it stays so, in its frame and with its bytes. -/
def Stays (s t : Paging F) (k : PageKey) : Prop :=
  ∀ e f, s.entry k = some e → e.maps f = true →
    ∃ e', t.entry k = some e' ∧ e'.bare = e.bare ∧ t.owner f = s.owner f ∧ t.frame f = s.frame f

section Stays

variable {k : PageKey} {g : FrameNumber} {space : AddressSpace} {p : PageNumber} {page : Page}
  {readOnly handed : Bool}

omit [BackingFile F]

theorem Stays.trans (h : Stays s m k) (h' : Stays m t k) : Stays s t k := by
  intro e f he hf
  obtain ⟨d, hd, hbare, howner, hframe⟩ := h e f he hf
  obtain ⟨c, hc, hbare', howner', hframe'⟩ :=
    h' d f hd (by rwa [Translation.maps_congr hbare])
  exact ⟨c, hc, hbare'.trans hbare, howner'.trans howner, hframe'.trans hframe⟩

theorem Still.stays (h : Still s t) : Stays s t k := fun e f he _ =>
  ⟨e, (h.entry k).trans he, rfl, h.owner f, h.frame f⟩

theorem Recalled.stays (h : Recalled s t key g) (hs : s.Agrees) : Stays s t k := by
  intro e f he _
  have hbare := h.bare hs k
  rw [he, Option.map_some, Option.map_eq_some_iff] at hbare
  obtain ⟨e', he', hbare⟩ := hbare
  exact ⟨e', he', hbare, h.owner f, h.frame f⟩

theorem Placed.stays (h : Placed s t space p g pinned page readOnly) (hs : s.Agrees) :
    Stays s t k := by
  intro e f he hf
  have hk : k ≠ space.key p := by
    rintro rfl
    rw [h.absent] at he
    cases he
  have hfg : f ≠ g := by
    rintro rfl
    obtain ⟨o, ho, -⟩ := holder_eq_some.1 (hs.holder_of_maps he hf)
    rw [h.free] at ho
    cases ho
  exact ⟨e, by rw [h.entry, if_neg hk, he], rfl, by rw [h.owner, if_neg hfg],
    by rw [h.frame, if_neg hfg]⟩

theorem Vacated.stays (h : Vacated s t key g) (hs : s.Agrees) (hk : k ≠ key) : Stays s t k := by
  intro e f he hf
  have hfg : f ≠ g := by
    rintro rfl
    exact hk (Option.some.inj ((hs.holder_of_maps he hf).symm.trans h.held))
  exact ⟨e, by rw [h.entry, if_neg hk, he], rfl, by rw [h.owner, if_neg hfg], h.frame f⟩

end Stays

theorem Kept.stays {k : PageKey} {g : FrameNumber} (h : Kept s t key g) : Stays s t k :=
  fun e f he _ => ⟨e, (h.entry k).trans he, rfl, h.owner f, h.frame f⟩

theorem Spoiled.stays {k : PageKey} {g : FrameNumber} (h : Spoiled s t g) (hs : s.Agrees) :
    Stays s t k := by
  intro e f he hf
  have hfg : f ≠ g := by
    rintro rfl
    obtain ⟨o, ho, -⟩ := holder_eq_some.1 (hs.holder_of_maps he hf)
    rw [h.free] at ho
    cases ho
  exact ⟨e, (h.entry k).trans he, rfl, h.owner f, h.frame f hfg⟩

/-- Who loses a frame did not have it for good. -/
theorem Evicted.owner_eq {k : PageKey} {g : FrameNumber} {handed : Bool}
    (h : Evicted s t k g handed) : s.owner g = some ⟨k, false⟩ := by
  obtain ⟨o, ho, hpinned⟩ := h.unpinned
  obtain ⟨o', ho', hkey⟩ := holder_eq_some.1 h.held
  obtain rfl := Option.some.inj (ho.symm.trans ho')
  rw [ho, ← hkey, ← hpinned]

/-- One page, which did not have its frame for good, has lost it.  If its usage bits asked for that
it was written out before, and all of it.  All other pages stay where they are. -/
structure Displaced (s t : Paging F) (k : PageKey) (g : FrameNumber) : Prop where
  owner : s.owner g = some ⟨k, false⟩
  gone : t.entry k = none
  saved : s.Unsaved k → ∃ a file, t.swap.slots[k]? = some a ∧
    BackingFile.writeAt s.swap.file a.offset (s.frame g).toArray = (pageSize, file)
  others : ∀ {l}, l ≠ k → Stays s t l

/-- A step by which no page is moved comes after. -/
theorem Displaced.tail {k : PageKey} {g : FrameNumber} (h : Displaced s m k g)
    (hentry : t.entry k = m.entry k) (hslots : ∀ l : PageKey, t.swap.slots[l]? = m.swap.slots[l]?)
    (hstays : ∀ l, Stays m t l) : Displaced s t k g where
  owner := h.owner
  gone := hentry.trans h.gone
  saved hu := by
    rw [hslots]
    exact h.saved hu
  others hl := (h.others hl).trans (hstays _)

/-- A page that is displaced was resident. -/
theorem Displaced.resident {k : PageKey} {g : FrameNumber} (h : Displaced s t k g)
    (hs : s.Agrees) : ∃ e, s.entry k = some e ∧ e.maps g = true :=
  hs.owned (holder_eq_some.2 ⟨_, h.owner, rfl⟩)

/-! ## What a vacancy costs -/

namespace Vacancy

/-- **If a frame is free nobody loses one.  If none is, exactly one page does.** -/
theorem cost (h : Vacancy s m) (hs : s.Agrees) :
    (0 < s.core.frames.freeCount ∧ Tally s m 0 0 ∧
        m.core.frames.freeCount = s.core.frames.freeCount ∧ ∀ k, Stays s m k) ∨
      (s.core.frames.freeCount = 0 ∧ Tally s m 1 0 ∧ m.core.frames.freeCount = 1 ∧
        ∃ k g, Displaced s m k g) := by
  cases h with
  | free hfree hquiet htally =>
      exact Or.inl ⟨hfree, htally, FrameTable.freeCount_congr hquiet.frames hquiet.owner,
        fun k => hquiet.toStill.stays⟩
  | @taken u v k g handed hfull hquiet hrecalled hevicted htally =>
      have hu := hquiet.agrees hs
      have hv := hrecalled.agrees hu
      have ho := hevicted.owner_eq
      have hsame : v.swap = s.swap ∧ v.frame g = s.frame g :=
        ⟨hrecalled.swap.trans hquiet.swap, (hrecalled.frame g).trans (hquiet.frame g)⟩
      have hcount : m.core.frames.freeCount = s.core.frames.freeCount + 1 := by
        rw [FrameTable.freeCount_of_taken hevicted.frames ho hevicted.owner,
          FrameTable.freeCount_congr hrecalled.frames hrecalled.owner,
          FrameTable.freeCount_congr hquiet.frames hquiet.owner]
      refine Or.inr ⟨hfull, htally, by rw [hcount, hfull], k, g, ?_, ?_, fun hunsaved => ?_,
        fun hl => ?_⟩
      · rw [← hquiet.owner, ← hrecalled.owner, ho]
      · rw [hevicted.entry, if_pos rfl]
      · rw [← hquiet.toStill.unsaved hs, ← hrecalled.unsaved hu, hevicted.unsaved_iff hv] at hunsaved
        rcases hevicted.swap with ⟨-, a, hw⟩ | ⟨hclean, -⟩
        · refine ⟨a, m.swap.file, by rw [hw.slots, if_pos ⟨rfl, rfl⟩], ?_⟩
          rw [← hsame.1, ← hsame.2]
          exact hw.file
        · rw [hunsaved] at hclean
          cases hclean
      · exact (hquiet.toStill.stays.trans (hrecalled.stays hu)).trans
          (hevicted.toVacated.stays hv hl)

/-- Now a frame is free. -/
theorem freeCount_pos (h : Vacancy s m) (hs : s.Agrees) : 0 < m.core.frames.freeCount := by
  rcases h.cost hs with ⟨hfree, -, hcount, -⟩ | ⟨-, -, hcount, -⟩
  · rwa [hcount]
  · rw [hcount]
    exact Nat.one_pos

theorem moves (space : AddressSpace) (pinned : Bool) (h : Vacancy s m) :
    Moves space pinned s m := by
  cases h with
  | free _ hquiet _ => exact .single (.quiet hquiet)
  | taken _ hquiet hrecalled hevicted _ =>
      exact ((Relation.ReflTransGen.single (.quiet hquiet)).tail (.recalled hrecalled)).tail
        (.evicted hevicted)

theorem agrees (h : Vacancy s m) (hs : s.Agrees) : m.Agrees := by
  cases h with
  | free _ hquiet _ => exact hquiet.agrees hs
  | taken _ hquiet hrecalled hevicted _ =>
      exact hevicted.agrees (hrecalled.agrees (hquiet.agrees hs))

/-- Nobody loses a frame that was to be kept for good. -/
theorem stays {k : PageKey} (h : Vacancy s m) (hs : s.Agrees) (hk : s.owner f = some ⟨k, true⟩) :
    Stays s m k := by
  rcases h.cost hs with ⟨-, -, -, hstays⟩ | ⟨-, -, -, l, g, hdisplaced⟩
  · exact hstays k
  · refine hdisplaced.others ?_
    rintro rfl
    obtain rfl := hs.frame_unique (holder_eq_some.2 ⟨_, hk, rfl⟩)
      (holder_eq_some.2 ⟨_, hdisplaced.owner, rfl⟩)
    cases hk.symm.trans hdisplaced.owner

theorem recedes (h : Vacancy s m) (hs : s.Agrees) : Recedes s m := by
  cases h with
  | free _ hquiet _ => exact hquiet.recedes
  | taken _ hquiet hrecalled hevicted _ =>
      have hu := hquiet.agrees hs
      exact (hquiet.recedes.trans (hrecalled.recedes hu)).trans
        (hevicted.recedes (hrecalled.agrees hu))

/-- No page loses anything by it. -/
theorem retained {w : FileView F} {k : PageKey} (h : Vacancy s m) (hs : s.Agrees)
    (hgood : w.good s.swap.file) : Retained w s m k := by
  cases h with
  | free _ hquiet _ => exact hquiet.toStill.retained hs hquiet.swap
  | taken _ hquiet hrecalled hevicted _ =>
      have hu := hquiet.agrees hs
      have hv := hrecalled.agrees hu
      exact ((hquiet.toStill.retained hs hquiet.swap).trans hs (hrecalled.retained hu)).trans hs
        (hevicted.retained hv (by rwa [hrecalled.swap, hquiet.swap]))

/-- A swap file that does not fail goes on so. -/
theorem keeps {v : ReliableView F} (h : Vacancy s m) (hv : v.Keeps s.swap) : v.Keeps m.swap := by
  cases h with
  | free _ hquiet _ => exact hquiet.swap ▸ hv
  | taken _ hquiet hrecalled hevicted _ =>
      rw [← hquiet.swap, ← hrecalled.swap] at hv
      rcases hevicted.swap with ⟨-, a, hw⟩ | ⟨-, hsame⟩
      · exact (hv.wroteOut hw).2
      · exact hsame ▸ hv

/-- It is not to be had if all frames are pinned. -/
theorem not_allPinned (h : Vacancy s m) (hs : s.Agrees) : ¬ s.AllPinned := by
  intro hpinned
  rcases h.cost hs with ⟨hfree, -⟩ | ⟨-, -, -, k, g, hdisplaced⟩
  · rw [hpinned.freeCount] at hfree
    cases hfree
  · exact hpinned.not_takable ⟨_, hdisplaced.owner, rfl⟩

end Vacancy

namespace Withheld

theorem moves (space : AddressSpace) (pinned : Bool) (h : Withheld s t) :
    Moves space pinned s t := by
  obtain ⟨-, -, hquiet, hrecalled, hkept, -⟩ := h
  exact ((Relation.ReflTransGen.single (.quiet hquiet)).tail (.recalled hrecalled)).tail
    (.kept hkept)

theorem agrees (h : Withheld s t) (hs : s.Agrees) : t.Agrees := by
  obtain ⟨-, -, hquiet, hrecalled, hkept, -⟩ := h
  exact hkept.agrees (hrecalled.agrees (hquiet.agrees hs))

theorem owner (h : Withheld s t) (f : FrameNumber) : t.owner f = s.owner f := by
  obtain ⟨-, -, hquiet, hrecalled, hkept, -⟩ := h
  exact (hkept.owner f).trans ((hrecalled.owner f).trans (hquiet.owner f))

/-- Nobody has lost a frame. -/
theorem stays {k : PageKey} (h : Withheld s t) (hs : s.Agrees) : Stays s t k := by
  obtain ⟨-, -, hquiet, hrecalled, hkept, -⟩ := h
  exact (hquiet.toStill.stays.trans (hrecalled.stays (hquiet.agrees hs))).trans hkept.stays

theorem recedes (h : Withheld s t) (hs : s.Agrees) : Recedes s t := by
  obtain ⟨-, -, hquiet, hrecalled, hkept, -⟩ := h
  exact (hquiet.recedes.trans (hrecalled.recedes (hquiet.agrees hs))).trans hkept.recedes

theorem retained {w : FileView F} {k : PageKey} (h : Withheld s t) (hs : s.Agrees)
    (hgood : w.good s.swap.file) : Retained w s t k := by
  obtain ⟨-, -, hquiet, hrecalled, hkept, -⟩ := h
  have hu := hquiet.agrees hs
  exact ((hquiet.toStill.retained hs hquiet.swap).trans hs (hrecalled.retained hu)).trans hs
    (hkept.retained (hrecalled.agrees hu) (by rwa [hrecalled.swap, hquiet.swap]))

/-- It does not come to that with a swap file that does not fail, -/
theorem not_keeps {v : ReliableView F} (h : Withheld s t) : ¬ v.Keeps s.swap := by
  obtain ⟨-, -, hquiet, hrecalled, hkept, -⟩ := h
  obtain ⟨a, n, hshort, hwrote⟩ := hkept.swap
  rw [hrecalled.swap, hquiet.swap] at hwrote
  exact fun hv => hshort (hv.wroteOut hwrote).1

/-- nor if all frames are pinned. -/
theorem not_allPinned (h : Withheld s t) : ¬ s.AllPinned := by
  obtain ⟨-, htakable, -⟩ := h
  exact fun hpinned => hpinned.not_takable htakable

end Withheld

end Paging

end DemandPaging
