import DemandPaging.Proofs.FrameSupply
import DemandPaging.Proofs.Processes
import DemandPaging.Proofs.Reach

/-!
# Loading with all pages

If all processes have their pages for good, another one can be loaded with all its pages exactly if
as many frames are free, and nothing is moved for it.

* `Paging.claimFrame_firm`, `Paging.preloadPages_firm`, `Kernel.prepare_firm` — as long as frames
  are held for good, frames can be had exactly if they are free.
* `Paging.Settled.size_table` — how many pages are resident.
* `Kernel.Loaded.settled`, `Kernel.Loaded.room` — a process that was loaded with all its pages has
  them for good, and there was room for them.
* `Kernel.ready_of_room`, `Kernel.load_traffic` — if there is room it can be loaded, and nothing is
  moved, whether or not it can.
* `Kernel.ready_of_provides`, `Kernel.provides_of_load` — processes that are all loaded alike.
-/

namespace DemandPaging

namespace Paging

variable {F : Type} [BackingFile F] {s t : Paging F} {tlb : TlbId} {retries : Nat}
  {space : AddressSpace}

/-! ## Frames that are held for good -/

/-- **As long as frames are held for good, one can be had exactly if it is free**, and nothing else
is done for it. -/
theorem claimFrame_firm {key : PageKey} {pinned : Bool} {r : Except PagingError FrameNumber}
    (hs : s.Firm) (h : s.claimFrame tlb retries key pinned = (r, t)) :
    (∃ f, r = .ok f ∧ s.core.frames.freeCount = t.core.frames.freeCount + 1) ∨
      (r = .error .outOfFrames ∧ s.core.frames.freeCount = 0) := by
  -- Nobody's frame may be taken.
  have hnobody : ∀ {f u}, s.selectVictim tlb retries ≠ (.ok f, u) := by
    intro f u hvictim
    obtain ⟨-, hmay⟩ := selectVictim_spec hvictim
    obtain ⟨o, ho, hpinned⟩ := hmay f rfl
    rw [hs.pinned ho] at hpinned
    cases hpinned
  cases claims_of_claimFrame h with
  | free hclaim => exact Or.inl ⟨_, rfl, freeCount_of_claim hclaim⟩
  | refused hfull hvictim =>
      exact Or.inr ⟨congrArg _ ((posted_selectVictim hvictim).2 _ rfl), freeCount_of_full hfull⟩
  | kept _ hvictim _ => exact absurd hvictim hnobody
  | taken _ hvictim _ _ => exact absurd hvictim hnobody
  | lost _ hvictim _ _ => exact absurd hvictim hnobody

omit [BackingFile F] in
theorem fillFresh_frames {p : PageNumber} {f : FrameNumber} {flags : EntryFlags}
    (h : s.fillFresh space p f = (flags, t)) : t.core.frames = s.core.frames := by
  unfold fillFresh at h
  split at h <;> obtain ⟨-, rfl⟩ := Prod.mk.inj h <;> rfl

theorem preloadPage_firm {p : PageNumber} {r : Except PagingError Unit} (hs : s.Firm)
    (h : s.preloadPage tlb retries space p = (r, t)) :
    (r = .ok () ∧ s.core.frames.freeCount = t.core.frames.freeCount + 1) ∨
      (r = .error .outOfFrames ∧ s.core.frames.freeCount = 0) := by
  cases preloadsPage_of_preloadPage h with
  | refused hclaim =>
      rcases claimFrame_firm hs hclaim with ⟨f, hr, -⟩ | ⟨hr, hfull⟩
      · cases hr
      · exact Or.inr ⟨congrArg _ (Except.error.inj hr), hfull⟩
  | filled hclaim hfill ht =>
      rcases claimFrame_firm hs hclaim with ⟨f, -, hfree⟩ | ⟨hr, -⟩
      · refine Or.inl ⟨rfl, ?_⟩
        rw [hfree, ← fillFresh_frames hfill, ht]
        rfl
      · cases hr

/-- **Some pages get frames for good exactly if as many frames are free.** -/
theorem preloadPages_firm {ps : List PageNumber} {r : Except PagingError Unit} (hs : s.Agrees)
    (hfirm : s.Firm) (hps : s.Awaits space ps) (h : preloadPages tlb retries space ps s = (r, t)) :
    (r = .ok () ∧ ps.length ≤ s.core.frames.freeCount) ∨
      (r = .error .outOfFrames ∧ s.core.frames.freeCount < ps.length) := by
  induction ps generalizing s with
  | nil =>
      obtain ⟨rfl, -⟩ := Prod.mk.inj h
      exact Or.inl ⟨rfl, Nat.zero_le _⟩
  | cons p ps ih =>
      unfold preloadPages at h
      cases hpre : s.preloadPage tlb retries space p with
      | mk x m =>
          rw [hpre] at h
          obtain ⟨hmoves, -, hrest⟩ := preloadPage_spec hs hps hpre
          rw [List.length_cons]
          rcases preloadPage_firm hfirm hpre with ⟨rfl, hfree⟩ | ⟨rfl, hfree⟩
          · have hm : m.Firm := fun pid => hmoves.anchored (hfirm pid)
            rcases ih (hmoves.agrees hs) hm hrest h with ⟨rfl, hroom⟩ | ⟨rfl, hroom⟩
            · exact Or.inl ⟨rfl, by omega⟩
            · exact Or.inr ⟨rfl, by omega⟩
          · obtain ⟨rfl, -⟩ := Prod.mk.inj h
            exact Or.inr ⟨rfl, by omega⟩

/-- **All pages of a new process get frames for good exactly if as many frames are free.** -/
theorem preload_firm {r : Except Failure Unit} (hs : s.Agrees) (hfirm : s.Firm)
    (habsent : ∀ k, k.pid = space.pid → s.entry k = none)
    (hslot : ∀ k : PageKey, k.pid = space.pid → s.swap.slots[k]? = none)
    (hspace : s.core.spaces[space.pid]? = some space.pageCount) (hpages : 0 < space.pageCount)
    (h : s.preload tlb retries space = (r, t)) :
    (r = .ok () ∧ space.pageCount ≤ s.core.frames.freeCount) ∨
      ((∃ e, r = .error (.error e)) ∧ s.core.frames.freeCount < space.pageCount) := by
  have hcheck : s.checkRange space.pid ⟨0⟩ = .ok () := by
    rw [checkRange, CoreMap.pageCount, hspace]
    exact if_neg (Nat.not_le.2 hpages)
  have hawaits := awaits_pages habsent hslot hspace
  have hroom : ∀ {x m}, preloadPages tlb retries space
      ((List.range space.pageCount).map PageNumber.mk) s = (x, m) →
      (x = .ok () ∧ space.pageCount ≤ s.core.frames.freeCount) ∨
        (x = .error .outOfFrames ∧ s.core.frames.freeCount < space.pageCount) := by
    intro x m hp
    have hroom := preloadPages_firm hs hfirm hawaits hp
    rwa [List.length_map, List.length_range] at hroom
  cases preloads_of_preload h with
  | refused hfail =>
      rw [hcheck] at hfail
      cases hfail
  | loaded _ hp =>
      rcases hroom hp with ⟨-, hle⟩ | ⟨hx, -⟩
      · exact Or.inl ⟨rfl, hle⟩
      · cases hx
  | halted _ hp hrem =>
      obtain ⟨hmoves, -⟩ := preloadPages_spec hs hawaits hp
      cases (removeResident_spec (hmoves.agrees hs) hrem).1
  | undone _ hp _ _ =>
      rcases hroom hp with ⟨hx, -⟩ | ⟨-, hlt⟩
      · cases hx
      · exact Or.inr ⟨⟨_, rfl⟩, hlt⟩

/-! ## Processes that have their pages for good -/

omit [BackingFile F] in
/-- **If all processes have their pages for good, then as many are resident as they have.** -/
theorem Settled.size_table {pids : Finset Pid} {pages : Nat} (hs : s.Settled)
    (hpids : ∀ pid, s.core.spaces[pid]? = if pid ∈ pids then some pages else none) :
    s.core.table.size = pids.card * pages := by
  have hmem : ∀ key : PageKey, key ∈ s.core.table ↔ key.pid ∈ pids ∧ key.page.val < pages := by
    intro key
    rw [Std.ExtTreeMap.mem_iff_isSome_getElem?, Option.isSome_iff_exists]
    constructor
    · rintro ⟨e, he⟩
      obtain ⟨count, hcount, hlt⟩ := hs.resident he
      rw [hpids] at hcount
      split at hcount
      · rename_i hpid
        exact ⟨hpid, Option.some.inj hcount ▸ hlt⟩
      · cases hcount
    · rintro ⟨hpid, hlt⟩
      obtain ⟨place, hplace⟩ := hs.preloaded ((hpids key.pid).trans (if_pos hpid))
      obtain ⟨e, he, -⟩ := hplace.entry hs.toAgrees hlt
      exact ⟨e, he⟩
  have hkeys : s.core.table.keys.toFinset =
      (pids ×ˢ Finset.range pages).image fun q => (⟨q.1, ⟨q.2⟩⟩ : PageKey) := by
    ext key
    rw [List.mem_toFinset, Std.ExtTreeMap.mem_keys, hmem, Finset.mem_image]
    constructor
    · rintro ⟨hpid, hlt⟩
      exact ⟨(key.pid, key.page.val), Finset.mem_product.2 ⟨hpid, Finset.mem_range.2 hlt⟩, rfl⟩
    · rintro ⟨⟨pid, n⟩, hq, rfl⟩
      exact ⟨(Finset.mem_product.1 hq).1, Finset.mem_range.1 (Finset.mem_product.1 hq).2⟩
  have hinj : Function.Injective fun q : Pid × Nat => (⟨q.1, ⟨q.2⟩⟩ : PageKey) := by
    rintro ⟨pid, n⟩ ⟨pid', n'⟩ heq
    simpa using heq
  rw [← Std.ExtTreeMap.length_keys, ← List.toFinset_card_of_nodup Std.ExtTreeMap.nodup_keys, hkeys,
    Finset.card_image_of_injective _ hinj, Finset.card_product, Finset.card_range]

omit [BackingFile F] in
/-- Nobody loses a frame to a process that gets an address space, -/
theorem Registered.firm {pid : Pid} {pages : Nat} (h : Registered s t pid pages) (hs : s.Firm) :
    t.Firm := by
  intro q
  refine (hs q).of_subset (fun ho _ => ?_) fun ha _ => ?_
  · rwa [h.owner] at ho
  · rwa [h.swap] at ha

omit [BackingFile F] in
/-- and as many frames are free as before. -/
theorem Registered.freeCount {pid : Pid} {pages : Nat} (h : Registered s t pid pages) :
    t.core.frames.freeCount = s.core.frames.freeCount :=
  FrameTable.freeCount_congr h.frames h.owner

end Paging

namespace Kernel

open Paging

variable {F : Type} [BackingFile F] {v : ReliableView F} {k k' m u : Kernel F} {tlb : TlbId}
  {space : AddressSpace} {pid : Pid} {image : Image} {args : List String} {p : Process}

/-- **A new process gets all its pages exactly if as many frames are free.** -/
theorem prepare_firm {r : Except Failure Unit} (hk : k.Agrees) (hfirm : k.Firm)
    (hnew : k.New space) (hframes : k.config.frames = k.core.frames.size)
    (hpages : 0 < space.pageCount) (h : k.prepare tlb .eager space = (r, k')) :
    (r = .ok () ∧ space.pageCount ≤ k.core.frames.freeCount) ∨
      ((∃ e, r = .error (.error e)) ∧ k.core.frames.freeCount < space.pageCount) := by
  unfold prepare at h
  dsimp only at h
  split at h
  · rename_i hlarge
    have hall := k.core.frames.freeCount_add_size_owners
    exact Or.inr ⟨⟨_, (Prod.mk.inj h).1.symm⟩, by omega⟩
  · have hattach := quiet_attach k.toPaging tlb
    have hfree : (k.toPaging.attach tlb).core.frames.freeCount = k.core.frames.freeCount :=
      FrameTable.freeCount_congr hattach.frames hattach.owner
    cases hp : (k.toPaging.attach tlb).preload tlb k.config.victimRetries space with
    | mk x s =>
        rw [hp] at h
        have hroom := preload_firm (hattach.agrees hk) (fun pid => hattach.anchored (hfirm pid))
          (fun key hkey => (hattach.entry key).trans (hnew.absent key hkey))
          (fun key hkey => by rw [hattach.swap]; exact hnew.slot key hkey)
          (by rw [hattach.spaces]; exact hnew.pages) hpages hp
        rw [hfree] at hroom
        rcases hroom with ⟨rfl, hroom⟩ | ⟨⟨e, rfl⟩, hroom⟩
        · exact Or.inl ⟨(Prod.mk.inj h).1.symm, hroom⟩
        · exact Or.inr ⟨⟨e, (Prod.mk.inj h).1.symm⟩, hroom⟩

/-- **A process that got all its pages has them for good.** -/
theorem preloaded_of_prepare (hk : k.Consistent) (hnew : k.New space)
    (h : k.prepare tlb .eager space = (.ok (), k')) :
    ∃ place, k'.Preloaded space.pid space.pageCount place := by
  obtain ⟨-, -, ⟨-, hmoves, hpinned⟩ | ⟨⟨err, hr⟩, -⟩⟩ := prepare_spec hk.toAgrees hnew h
  · have hstart : k.Anchored space.pid := by
      refine ⟨fun {f o} ho hkey => ?_, fun hkey => hnew.slot _ hkey⟩
      obtain ⟨e, he, -⟩ := hk.owned (holder_eq_some.2 ⟨o, ho, rfl⟩)
      rw [hnew.absent _ hkey] at he
      cases he
    have hplace : ∀ q : PageNumber, ∃ f, q.val < space.pageCount →
        k'.owner f = some ⟨space.key q, true⟩ := by
      intro q
      by_cases hq : q.val < space.pageCount
      · obtain ⟨f, hf⟩ := hpinned rfl q hq
        exact ⟨f, fun _ => hf⟩
      · exact ⟨⟨0⟩, fun h => absurd h hq⟩
    choose place hplace using hplace
    exact ⟨place, hmoves.anchored hstart, by rw [hmoves.spaces, hnew.pages],
      fun {q} hq => hplace q hq⟩
  · cases hr

/-- If all processes had their pages for good, they still have, and so has the new one. -/
theorem settled_of_prepare (hk : k.Settled)
    (hreg : Registered k.toPaging m.toPaging space.pid space.pageCount)
    (h : m.prepare tlb .eager space = (.ok (), u)) : u.Settled := by
  have hm := hreg.consistent hk.toConsistent
  have hnew := new_of_registered hk.toConsistent hreg
  have hstep : m.Evolves (fun fate => fate = .loses space.pid ∨ fate = .pins space.pid) u :=
    prepare_evolves hm hnew (Or.inl rfl) (fun _ => Or.inr rfl) h
  refine ⟨hstep.consistent hm, fun {pid pages} hspace => ?_⟩
  obtain ⟨-, -, ⟨-, hmoves, -⟩ | ⟨⟨err, hr⟩, -⟩⟩ := prepare_spec hm.toAgrees hnew h
  · rw [hmoves.spaces, hreg.spaces, Std.ExtTreeMap.getElem?_insert] at hspace
    by_cases hpid : space.pid = pid
    · subst hpid
      rw [if_pos (by simp)] at hspace
      obtain rfl := Option.some.inj hspace
      exact preloaded_of_prepare hm hnew h
    · rw [if_neg (by simpa using hpid)] at hspace
      obtain ⟨place, hplace⟩ := hk.preloaded hspace
      have hfirst : Changes (fun fate => fate = .gains space.pid) k.toPaging m.toPaging :=
        .single (.registered rfl hreg)
      have hplace' := hfirst.preloaded hk.toConsistent nofun hplace
      refine ⟨place, hstep.changes.preloaded hm ?_ hplace'⟩
      rintro (hloses | hpins)
      · exact hpid (Fate.loses.inj hloses).symm
      · cases hpins
  · cases hr

namespace Loaded

/-- **A process whose pages are all loaded at the start** has them all in frames for good. -/
theorem preloaded (h : k.Loaded k' tlb pid image .eager p) (hk : k.Consistent) :
    ∃ place, k'.Preloaded p.pid p.space.pageCount place := by
  obtain ⟨m, u, hreg, -, -, hprep, hrest⟩ := h.stages
  rw [h.strategy] at hprep
  have hpid := space_pid_of_make h.space
  have hm := hreg.consistent hk
  have hnew : m.New p.space := new_of_registered hk (hpid.symm ▸ hreg)
  obtain ⟨place, hplace⟩ := preloaded_of_prepare hm hnew hprep
  have hstep : m.Evolves (fun _ => True) u :=
    prepare_evolves hm hnew trivial (fun _ => trivial) hprep
  rw [← hpid]
  exact ⟨place, hrest.changes.preloaded (hstep.consistent hm) id hplace⟩

/-- **If all processes had their pages for good, they still have**, and so has the new one. -/
theorem settled (h : k.Loaded k' tlb pid image .eager p) (hk : k.Settled) : k'.Settled := by
  obtain ⟨m, u, hreg, -, -, hprep, hrest⟩ := h.stages
  rw [h.strategy] at hprep
  have hpid := space_pid_of_make h.space
  exact hrest.changes.settled (fun _ => id) (fun _ => id)
    (settled_of_prepare hk (hpid.symm ▸ hreg) hprep)

/-- **There was room for its pages.** -/
theorem room (h : k.Loaded k' tlb pid image .eager p) (hk : k.Settled)
    (hframes : k.config.frames = k.core.frames.size) :
    p.space.pageCount ≤ k.core.frames.freeCount := by
  obtain ⟨m, u, hreg, hconfig, -, hprep, -⟩ := h.stages
  rw [h.strategy] at hprep
  have hpid := space_pid_of_make h.space
  rw [← hpid] at hreg
  rcases Nat.eq_zero_or_pos p.space.pageCount with hzero | hpages
  · omega
  · obtain ⟨-, hroom⟩ | ⟨⟨e, he⟩, -⟩ := prepare_firm (hreg.consistent hk.toConsistent).toAgrees
      (hreg.firm hk.firm) (new_of_registered hk.toConsistent hreg)
      (by rw [hconfig, hframes, hreg.frames]) hpages hprep
    · rwa [hreg.freeCount] at hroom
    · cases he

end Loaded

/-- **If there is room for a program it can be loaded with all its pages.** -/
theorem ready_of_room (hk : k.Settled) (hframes : k.config.frames = k.core.frames.size)
    (hslots : ∀ {id : TlbId}, k.core.tlbs.live id = true → 0 < (k.core.tlbs.tlb id).size)
    (hroom : ∀ {space : AddressSpace}, AddressSpace.make pid image k.config = .ok space →
      0 < space.pageCount ∧ space.pageCount ≤ k.core.frames.freeCount) :
    k.Ready v tlb pid image .eager := by
  intro space m u r hmake hreg hconfig hprep
  obtain ⟨hpages, hroom⟩ := hroom hmake
  have hm := hreg.consistent hk.toConsistent
  have hnew := new_of_registered hk.toConsistent hreg
  obtain ⟨rfl, -⟩ | ⟨-, hfull⟩ := prepare_firm hm.toAgrees (hreg.firm hk.firm) hnew
    (by rw [hconfig, hframes, hreg.frames]) hpages hprep
  · obtain ⟨place, hplace⟩ := preloaded_of_prepare hm hnew hprep
    have hstep : m.Evolves (fun _ => True) u :=
      prepare_evolves hm hnew trivial (fun _ => trivial) hprep
    refine ⟨rfl, .eager hplace fun {id} hid => ?_⟩
    have hshape := hreg.toSameShape.trans hstep.changes.sameShape
    rw [hshape.size]
    rw [hshape.live] at hid
    exact hslots hid
  · rw [hreg.freeCount] at hfull
    exact absurd hroom (Nat.not_le.2 hfull)

/-! ## Traffic -/

omit [BackingFile F] in
theorem abandon_traffic {why r : Failure} (hk : k.Agrees) (h : k.abandon pid why = (r, k')) :
    k'.core.counters.traffic = k.core.counters.traffic := by
  obtain ⟨x, hd, -⟩ := destroySpace_of_abandon h
  exact (destroySpace_posted hk hd).traffic

theorem loadAs_traffic {r : Except Failure Process} (hk : k.Settled)
    (h : k.loadAs tlb pid image args .eager = (r, k')) :
    k'.core.counters.traffic = k.core.counters.traffic := by
  have hprepared : ∀ {space : AddressSpace} {m u : Kernel F} {x : Except Failure Unit},
      k.createSpace space.pid space.pageCount = (.ok (), m) → m.prepare tlb .eager space = (x, u) →
        u.Consistent ∧ u.core.counters.traffic = k.core.counters.traffic := by
    intro space m u x hcreate hprepare
    obtain ⟨-, -, hreg⟩ := registered_of_createSpace hcreate
    have hm := hreg.consistent hk.toConsistent
    have hnew := new_of_registered hk.toConsistent hreg
    have hstep : m.Evolves (fun _ => True) u :=
      prepare_evolves hm hnew trivial (fun _ => trivial) hprepare
    obtain ⟨missed, moved, hposted, hmoved⟩ := prepare_posted hm.toAgrees hnew hprepare
    refine ⟨hstep.consistent hm, ?_⟩
    rw [hposted.traffic, hmoved (hreg.firm hk.firm), Nat.add_zero,
      (createSpace_posted hcreate).traffic, Nat.add_zero]
  have hwritten : ∀ {space : AddressSpace} {m u v : Kernel F} {p : Process} {x : Except Failure Unit},
      k.createSpace space.pid space.pageCount = (.ok (), m) →
        m.prepare tlb .eager space = (.ok (), u) → u.writeArguments tlb p args = (x, v) →
          v.Consistent ∧ v.core.counters.traffic = k.core.counters.traffic := by
    intro space m u v p x hcreate hprepare hwrite
    obtain ⟨-, -, hreg⟩ := registered_of_createSpace hcreate
    obtain ⟨hu, htraffic⟩ := hprepared hcreate hprepare
    have hstep : u.Evolves (fun _ => False) v := writeArguments_evolves hu hwrite
    obtain ⟨missed, moved, hposted, -, hmoved⟩ := hstep.ledger
    refine ⟨hstep.consistent hu, ?_⟩
    rw [hposted.traffic, htraffic, hmoved (fun _ => id) (fun _ => id)
      (settled_of_prepare hk hreg hprepare), Nat.add_zero]
  cases loads_of_loadAs h with
  | unmade hmake => rfl
  | unregistered hmake hcreate =>
      obtain ⟨-, -, rfl⟩ := createSpace_error hcreate
      rfl
  | unprepared hmake hcreate hprepare habandon =>
      obtain ⟨hu, htraffic⟩ := hprepared hcreate hprepare
      rw [abandon_traffic hu.toAgrees habandon, htraffic]
  | unwritten hmake hcreate hprepare hwrite habandon =>
      obtain ⟨hv, htraffic⟩ := hwritten hcreate hprepare hwrite
      rw [abandon_traffic hv.toAgrees habandon, htraffic]
  | loaded hmake hcreate hprepare hwrite => exact (hwritten hcreate hprepare hwrite).2

/-- **If all processes have their pages for good, no page is moved for another** that is loaded
with all its pages, also if that fails. -/
theorem load_traffic {r : Except Failure Process} (hk : k.Settled)
    (h : k.load tlb image args .eager = (r, k')) :
    k'.core.counters.traffic = k.core.counters.traffic := by
  have hloaded {x m} (hload : ({ k with pids := k.pids.alloc.2 }).loadAs tlb k.pids.alloc.1 image
      args .eager = (x, m)) :=
    loadAs_traffic (k := { k with pids := k.pids.alloc.2 }) hk hload
  cases loadsNext_of_load h with
  | tooLong hargs => rfl
  | overflowed => rfl
  | loaded hargs hload =>
      have htraffic := hloaded hload
      exact htraffic
  | halted hargs hload => exact hloaded hload
  | failed hargs hload hdrop =>
      obtain ⟨-, hposted, -⟩ := dropPid_quiet hdrop
      exact hposted.traffic.trans (hloaded hload)
  | undropped hargs hload hdrop =>
      obtain ⟨-, hposted, -⟩ := dropPid_quiet hdrop
      exact hposted.traffic.trans (hloaded hload)

/-! ## Processes that are all loaded alike -/

/-- **Another process can be loaded like the others**, with all its pages if there is room. -/
theorem ready_of_provides {strategy : Strategy} (hv : k.Provides v strategy)
    (hframes : k.config.frames = k.core.frames.size)
    (hroom : strategy = .eager → ∀ {space : AddressSpace},
      AddressSpace.make pid image k.config = .ok space →
        0 < space.pageCount ∧ space.pageCount ≤ k.core.frames.freeCount) :
    k.Ready v tlb pid image strategy := by
  cases hv with
  | demand hample => exact ready_of_ample hample
  | eager hsettled hslots => exact ready_of_room hsettled hframes hslots (hroom rfl)

/-- **Then all of them still find their pages.** -/
theorem provides_of_load {strategy : Strategy} (hk : k.Consistent) (hv : k.Provides v strategy)
    (h : k.load tlb image args strategy = (.ok p, k')) : k'.Provides v strategy := by
  have hevolves : k.Evolves (fun fate => strategy = .demand → ∀ pid, fate ≠ .pins pid) k' :=
    load_evolves hk nofun nofun (fun heager hdemand => by cases heager.symm.trans hdemand) nofun h
  cases hv with
  | demand hample => exact .demand (hevolves.changes.ample (fun pid hnot => hnot rfl pid rfl) hample)
  | eager hsettled hslots htraffic =>
      have hshape := hevolves.changes.sameShape
      have hbase : ({ k with pids := k.pids.alloc.2 } : Kernel F).Settled := hsettled
      refine .eager ((loaded_of_load hk h).settled hbase) (fun {id} hid => ?_) ?_
      · rw [hshape.size]
        rw [hshape.live] at hid
        exact hslots hid
      · rw [load_traffic hsettled h, htraffic]

end Kernel

end DemandPaging
