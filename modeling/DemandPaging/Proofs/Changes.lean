import DemandPaging.Proofs.MirrorSteps
import DemandPaging.Proofs.Teardown

/-!
# All changes that the kernel makes

Whatever the kernel is asked to do, in whatever order, and whether or not it succeeds, comes
down to few kinds of changes.  An invariant of the kernel has to be shown for each kind once.

* `Paging.Adjusted` — usage bits and contents change, and slots of TLBs get copies of entries.
* `Paging.Change`, `Paging.Changes` — the kinds of changes, and rows of them.
* `Paging.Consistent` — the tables agree, and only address spaces that exist have pages.
* `Paging.Changes.consistent` — every row of changes keeps the tables consistent.
-/

namespace DemandPaging

namespace Paging

variable {F : Type}

/-! ## Adjustments -/

/-- Usage bits and contents of frames change, and slots of TLBs that are attached get copies
of entries. -/
structure Adjusted (s t : Paging F) : Prop extends SameShape s t where
  bare : ∀ k, (t.entry k).map (·.bare) = (s.entry k).map (·.bare)
  owner : ∀ g, t.owner g = s.owner g
  slot : ∀ {id i f}, (t.slot id i).maps f = true →
    ((s.slot id i).maps f = true ∧ (t.slot id i).page = (s.slot id i).page) ∨
      (id ∈ s.attached ∧ ∃ key e, s.entry key = some e ∧ e.maps f = true ∧
        e.page = (t.slot id i).page)
  swap : t.swap = s.swap
  spaces : t.core.spaces = s.core.spaces

section Adjusted

variable {s t : Paging F}

theorem bare_of_absorb {k : PageKey} {c : Prop} [Decidable c] {copies : List Translation}
    (h : t.entry k = if c then (s.entry k).map (·.absorb copies) else s.entry k) :
    (t.entry k).map (·.bare) = (s.entry k).map (·.bare) := by
  rw [h]
  split
  · rw [Option.map_map]
    cases s.entry k with
    | none => rfl
    | some e => exact congrArg some (Translation.bare_absorb e copies)
  · rfl

theorem Hit.adjusted {id : TlbId} {i : Nat} {writing : Bool} (h : Hit s t id i writing) :
    Adjusted s t := by
  refine ⟨h.toSameShape, fun k => by rw [h.entry], h.owner, fun {j n f} hm => ?_, h.swap, h.spaces⟩
  rw [h.slot] at hm ⊢
  split at hm
  · exact Or.inl ⟨hm, by split <;> rfl⟩
  · rename_i hjn
    rw [if_neg hjn]
    exact Or.inl ⟨hm, rfl⟩

theorem Installed.adjusted {id : TlbId} {pid : Pid} {e : Translation} {i : Nat} {key : PageKey}
    (h : Installed s t id pid e i) (hid : id ∈ s.attached) (he : s.entry key = some e) :
    Adjusted s t := by
  refine ⟨h.toSameShape, fun k => bare_of_absorb (h.entry k), h.owner, fun {j n f} hm => ?_, h.swap,
    h.spaces⟩
  rw [h.slot] at hm ⊢
  split at hm
  · rename_i hjn
    rw [if_pos hjn]
    exact Or.inr ⟨hjn.1 ▸ hid, key, e, he, hm, rfl⟩
  · rename_i hjn
    rw [if_neg hjn]
    exact Or.inl ⟨hm, rfl⟩

theorem Saved.adjusted {id : TlbId} {pid : Pid} (h : Saved s t id pid) : Adjusted s t := by
  refine ⟨h.toSameShape, fun k => bare_of_absorb (h.entry k), h.owner, fun {j n f} hm => ?_, h.swap,
    h.spaces⟩
  by_cases hj : j = id
  · subst hj
    have hv := h.slot n
    rw [Translation.valid_of_maps hm] at hv
    cases hv
  · rw [h.slot_ne j n hj] at hm ⊢
    exact Or.inl ⟨hm, rfl⟩

theorem Cleared.adjusted {id : TlbId} (h : Cleared s t id) : Adjusted s t := by
  refine ⟨h.toSameShape, fun k => by rw [h.entry], h.owner, fun {j n f} hm => ?_, h.swap, h.spaces⟩
  rw [h.slot] at hm ⊢
  split at hm
  · rw [Translation.maps_invalidate] at hm
    cases hm
  · rename_i hj
    rw [if_neg hj]
    exact Or.inl ⟨hm, rfl⟩

/-- A slot of a TLB that a process came to is valid only if the page there is resident. -/
theorem Restored.slot_of_valid {id : TlbId} {pid : Pid} {pages : List (Option PageNumber)}
    (h : Restored s t id pid pages) (hs : s.Agrees) {n : Nat} (hv : (t.slot id n).valid = true) :
    ∃ p, pages[n]? = some (some p) ∧ s.entry ⟨pid, p⟩ = some (t.slot id n) := by
  have hn : n < (s.core.tlbs.tlb id).size := by
    rw [← h.size]
    exact Tlb.lt_size_of_valid hv
  have hslot := h.slot n hn
  cases hp : pages[n]?.join with
  | none =>
      rw [hp, Option.bind_none, Option.getD_none] at hslot
      rw [hslot, Translation.valid_invalidate] at hv
      cases hv
  | some p =>
      rw [hp, Option.bind_some, hs.residentEntry_eq] at hslot
      refine ⟨p, Option.join_eq_some_iff.1 hp, ?_⟩
      cases he : s.entry ⟨pid, p⟩ with
      | none =>
          rw [he, Option.getD_none] at hslot
          rw [hslot, Translation.valid_invalidate] at hv
          cases hv
      | some e =>
          rw [he, Option.getD_some] at hslot
          rw [hslot]

theorem Restored.adjusted {id : TlbId} {pid : Pid} {pages : List (Option PageNumber)}
    (h : Restored s t id pid pages) (hs : s.Agrees) (hid : id ∈ s.attached) : Adjusted s t := by
  refine ⟨h.toSameShape, fun k => by rw [h.entry], h.owner, fun {j n f} hm => ?_, h.swap, h.spaces⟩
  by_cases hj : j = id
  · subst hj
    obtain ⟨p, -, he⟩ := h.slot_of_valid hs (Translation.valid_of_maps hm)
    exact Or.inr ⟨hid, _, _, he, hm, rfl⟩
  · rw [h.slot_ne j n hj] at hm ⊢
    exact Or.inl ⟨hm, rfl⟩

/-- **Mirrors of entries are mirrors of owned frames.** -/
theorem Adjusted.agrees (h : Adjusted s t) (hs : s.Agrees) : t.Agrees := by
  refine hs.of_bare h.toSameShape h.bare h.owner (fun {id i f} hm => ?_) (by rw [h.swap]; exact hs.swap)
  rcases h.slot hm with ⟨hold, hpage⟩ | ⟨hid, key, e, he, hef, hpage⟩
  · obtain ⟨-, key, hkey, hkp⟩ := hs.mirror hold
    exact ⟨h.attached_of_maps hs hold, key, hkey, hkp.trans hpage.symm⟩
  · have hlive : s.core.tlbs.live id = true := by
      rw [← h.live]
      exact TlbBank.live_of_valid (Translation.valid_of_maps hm)
    exact ⟨h.attached id hid hlive, key, hs.holder_of_maps he hef, (hs.entry he).1.symm.trans hpage⟩

end Adjusted

/-! ## Consistency -/

section Consistent

variable {s t : Paging F} {pid : Pid}

/-- The tables agree, and the pages that are resident or have a swap slot are pages of address
spaces that exist. -/
structure Consistent (s : Paging F) : Prop extends Agrees s where
  resident : ∀ {key : PageKey} {e : Translation}, s.entry key = some e → s.InRange key
  stored : ∀ {key : PageKey} {a : SwapSlot}, s.swap.slots[key]? = some a → s.InRange key

/-- A change that gives nothing to pages, and keeps the address spaces. -/
theorem Consistent.of_subset (hs : s.Consistent) (hagrees : t.Agrees)
    (hspaces : t.core.spaces = s.core.spaces)
    (hentry : ∀ {k e}, t.entry k = some e → ∃ d, s.entry k = some d)
    (hslot : ∀ {k : PageKey} {a : SwapSlot}, t.swap.slots[k]? = some a →
      s.swap.slots[k]? = some a ∨ ∃ d, s.entry k = some d) : t.Consistent := by
  have hrange : ∀ {k}, s.InRange k → t.InRange k := by
    intro k hk
    rw [InRange, hspaces]
    exact hk
  refine ⟨hagrees, fun he => ?_, fun ha => ?_⟩
  · obtain ⟨d, hd⟩ := hentry he
    exact hrange (hs.resident hd)
  · rcases hslot ha with ha | ⟨d, hd⟩
    · exact hrange (hs.stored ha)
    · exact hrange (hs.resident hd)

theorem Quiet.consistent (h : Quiet s t) (hs : s.Consistent) : t.Consistent :=
  hs.of_subset (h.agrees hs.toAgrees) h.spaces (fun he => ⟨_, (h.entry _).symm.trans he⟩)
    fun ha => Or.inl (by rwa [h.swap] at ha)

/-- A step after which the same pages are resident, and have the same swap slots. -/
theorem Consistent.of_bare (hs : s.Consistent) (hagrees : t.Agrees)
    (hbare : ∀ k, (t.entry k).map (·.bare) = (s.entry k).map (·.bare)) (hswap : t.swap = s.swap)
    (hspaces : t.core.spaces = s.core.spaces) : t.Consistent := by
  refine hs.of_subset hagrees hspaces (fun {k e} he => ?_) fun ha => Or.inl (by rwa [hswap] at ha)
  have hk := hbare k
  rw [he, Option.map_some, eq_comm, Option.map_eq_some_iff] at hk
  obtain ⟨d, hd, -⟩ := hk
  exact ⟨d, hd⟩

theorem Adjusted.consistent (h : Adjusted s t) (hs : s.Consistent) : t.Consistent :=
  hs.of_bare (h.agrees hs.toAgrees) h.bare h.swap h.spaces

/-- A change of TLBs by which nothing comes to be mapped. -/
theorem Consistent.of_tlbs {b : TlbBank} (hs : s.Consistent)
    (hcore : t.core = { s.core with tlbs := b }) (hswap : t.swap = s.swap)
    (hattached : b.attached = s.attached)
    (hslot : ∀ {id i f}, (b.slot id i).maps f = true → b.slot id i = s.slot id i) :
    t.Consistent := by
  have hentry : ∀ k, t.entry k = s.entry k := fun k => by rw [entry, hcore, entry]
  have hholder : ∀ f, t.holder f = s.holder f := fun f => by
    rw [holder, owner, hcore, holder, owner]
  have hrange : ∀ {k}, s.InRange k → t.InRange k := by
    intro k hk
    rw [InRange, hcore]
    exact hk
  refine ⟨⟨fun {k e} he => ?_, fun {f k} hf => ?_, fun {id i f} hm => ?_, ?_, ?_⟩,
    fun {k e} he => ?_, fun {k a} ha => ?_⟩
  · rw [hentry] at he
    obtain ⟨hpage, f, hf, hheld⟩ := hs.entry he
    exact ⟨hpage, f, hf, (hholder f).trans hheld⟩
  · rw [hholder] at hf
    obtain ⟨e, he, hef⟩ := hs.owned hf
    exact ⟨e, (hentry k).trans he, hef⟩
  · have ht : t.slot id i = b.slot id i := by rw [slot, hcore]
    rw [ht] at hm ⊢
    have hsame := hslot hm
    rw [hsame] at hm ⊢
    obtain ⟨hid, k, hk, hpage⟩ := hs.mirror hm
    refine ⟨?_, k, (hholder f).trans hk, hpage⟩
    rw [attached, hcore, hattached]
    exact hid
  · rw [hcore]
    exact hs.memory
  · rw [hswap]
    exact hs.swap
  · rw [hentry] at he
    exact hrange (hs.resident he)
  · rw [hswap] at ha
    exact hrange (hs.stored ha)

theorem Registered.consistent {pages : Nat} (h : Registered s t pid pages) (hs : s.Consistent) :
    t.Consistent := by
  have hrange : ∀ {k}, s.InRange k → t.InRange k := by
    rintro k ⟨count, hcount, hlt⟩
    refine ⟨count, ?_, hlt⟩
    have hne : pid ≠ k.pid := by
      rintro rfl
      rw [h.absent] at hcount
      cases hcount
    rw [h.spaces, Std.ExtTreeMap.getElem?_insert, if_neg (by simpa using hne), hcount]
  refine ⟨h.agrees hs.toAgrees, fun he => hrange (hs.resident ((h.entry _).symm.trans he)),
    fun {k a} ha => hrange (hs.stored (a := a) ?_)⟩
  rwa [h.swap] at ha

theorem Emptied.consistent (h : Emptied s t pid) (hs : s.Consistent) : t.Consistent := by
  obtain ⟨hswap, -, hspaces⟩ := h.steps.rest
  refine hs.of_subset (h.steps.agrees hs.toAgrees) hspaces (fun {k e} he => ?_)
    fun ha => Or.inl (by rwa [hswap] at ha)
  rcases h.steps.entry k with hk | ⟨-, hk⟩
  · exact ⟨e, hk.symm.trans he⟩
  · rw [hk] at he
    cases he

/-- **With its address space a process loses all that belongs to it.** -/
theorem Destroyed.consistent (h : Destroyed s t pid) (hs : s.Consistent) : t.Consistent := by
  have hagrees := h.agrees hs.toAgrees
  have hspaces := h.spaces
  obtain ⟨-, hunreg, hemptied, hfreed⟩ := h
  have hrange : ∀ {k}, k.pid ≠ pid → s.InRange k → t.InRange k := by
    rintro k hne ⟨count, hcount, hlt⟩
    refine ⟨count, ?_, hlt⟩
    rw [hspaces, Std.ExtTreeMap.getElem?_erase, if_neg (by simpa using Ne.symm hne), hcount]
  refine ⟨hagrees, fun {k e} he => ?_, fun {k c} hc => ?_⟩
  · rw [hfreed.entry] at he
    have hne : k.pid ≠ pid := by
      intro hk
      rw [hemptied.entry k hk] at he
      cases he
    rw [hemptied.entry_ne hne, hunreg.entry] at he
    exact hrange hne (hs.resident he)
  · rw [hfreed.swap.slots] at hc
    split at hc
    · cases hc
    · rename_i hne
      rw [hemptied.steps.rest.1, hunreg.swap] at hc
      exact hrange hne (hs.stored hc)

end Consistent

/-! ## The kinds of changes -/

variable [BackingFile F]

/-- What happens to a process now and then. -/
inductive Fate
  /-- It gets an address space. -/
  | gains (pid : Pid)
  /-- Its pages get frames for good. -/
  | pins (pid : Pid)
  /-- It loses its pages, and its address space with them or before. -/
  | loses (pid : Pid)
  /-- It is forgotten, and its pid is given back. -/
  | forgets (pid : Pid)

/-- One change that the kernel makes, while no process meets with a fate but those that `may`. -/
inductive Change (may : Fate → Prop) : Paging F → Paging F → Prop
  | quiet {s t} (h : Quiet s t) : Change may s t
  | move {s t space pinned} (hmay : pinned = true → may (.pins space.pid))
    (h : Move space pinned s t) : Change may s t
  | adjusted {s t} (h : Adjusted s t) : Change may s t
  | registered {s t pid pages} (hmay : may (.gains pid)) (h : Registered s t pid pages) :
    Change may s t
  /-- The pages of a process are removed again because there were no frames for all of them. -/
  | emptied {s t pid} (hmay : may (.loses pid)) (hpins : may (.pins pid)) (h : Emptied s t pid) :
    Change may s t
  | destroyed {s t pid} (hmay : may (.loses pid)) (h : Destroyed s t pid) : Change may s t

/-- Some changes, one after the other. -/
abbrev Changes (may : Fate → Prop) : Paging F → Paging F → Prop :=
  Relation.ReflTransGen (Change may)

variable {s t : Paging F} {may may' : Fate → Prop}

theorem Moves.changes {space : AddressSpace} {pinned : Bool} (h : Moves space pinned s t)
    (hmay : pinned = true → may (.pins space.pid)) : Changes may s t :=
  h.lift id fun _ _ h => .move hmay h

theorem Change.mono (hmay : ∀ fate, may fate → may' fate) (h : Change may s t) :
    Change may' s t := by
  cases h with
  | quiet h => exact .quiet h
  | move hpins h => exact .move (fun hp => hmay _ (hpins hp)) h
  | adjusted h => exact .adjusted h
  | registered hpid h => exact .registered (hmay _ hpid) h
  | emptied hpid hpins h => exact .emptied (hmay _ hpid) (hmay _ hpins) h
  | destroyed hpid h => exact .destroyed (hmay _ hpid) h

theorem Changes.mono (hmay : ∀ fate, may fate → may' fate) (h : Changes may s t) :
    Changes may' s t :=
  h.lift id fun _ _ h => h.mono hmay

theorem Change.sameShape (h : Change may s t) : SameShape s t := by
  cases h with
  | quiet h => exact h.toSameShape
  | move _ h => exact h.sameShape
  | adjusted h => exact h.toSameShape
  | registered _ h => exact h.toSameShape
  | emptied _ _ h => exact h.steps.sameShape
  | destroyed _ h =>
      obtain ⟨-, hunreg, hemptied, hfreed⟩ := h
      exact (hunreg.toSameShape.trans hemptied.steps.sameShape).trans hfreed.toSameShape

theorem Changes.sameShape (h : Changes may s t) : SameShape s t := by
  induction h with
  | refl => exact SameShape.refl _
  | tail _ hchange ih => exact ih.trans hchange.sameShape

/-- Only a page that is resident gets a swap slot. -/
theorem slot_of_wroteOut {key k : PageKey} {f : FrameNumber} {page : Page} {a b : SwapSlot}
    {n : Nat} (hs : s.Agrees) (hheld : s.holder f = some key)
    (hw : SwapStore.WroteOut s.swap t.swap key page a n) (hb : t.swap.slots[k]? = some b) :
    s.swap.slots[k]? = some b ∨ ∃ d, s.entry k = some d := by
  rw [hw.slots] at hb
  split at hb
  · rename_i hk
    obtain ⟨e, he, -⟩ := hs.owned hheld
    exact Or.inr ⟨e, hk.1 ▸ he⟩
  · exact Or.inl hb

/-- **Pages get frames and swap slots only within address spaces that exist.** -/
theorem Move.consistent {space : AddressSpace} {pinned : Bool} (h : Move space pinned s t)
    (hs : s.Consistent) : t.Consistent := by
  have hagrees := h.agrees hs.toAgrees
  cases h with
  | quiet h => exact h.consistent hs
  | recalled h => exact hs.of_bare hagrees (h.bare hs.toAgrees) h.swap h.spaces
  | evicted h =>
      refine hs.of_subset hagrees h.spaces (fun {k e} he => ?_) fun ha => ?_
      · rw [h.entry] at he
        split at he
        · cases he
        · exact ⟨e, he⟩
      · rcases h.swap with ⟨-, a, hw⟩ | ⟨-, hw⟩
        · exact slot_of_wroteOut hs.toAgrees h.held hw ha
        · exact Or.inl (by rwa [hw] at ha)
  | kept h =>
      obtain ⟨a, n, -, hw⟩ := h.swap
      refine hs.of_subset hagrees h.spaces (fun he => ⟨_, (h.entry _).symm.trans he⟩) fun ha => ?_
      exact slot_of_wroteOut hs.toAgrees h.held hw ha
  | filled h =>
      have hrange : ∀ {k}, s.InRange k → t.InRange k := by
        intro k hk
        rw [InRange, h.spaces]
        exact hk
      refine ⟨hagrees, fun {k e} he => ?_, fun {k a} ha => hrange (hs.stored (a := a) ?_)⟩
      · rw [h.entry] at he
        split at he
        · rename_i hk
          rw [hk]
          exact hrange h.range
        · exact hrange (hs.resident he)
      · cases h.source with
        | program _ ht => rwa [ht] at ha
        | slot _ _ _ hread => rwa [hread.slots] at ha
  | spoiled h =>
      obtain ⟨a, n, page, hread⟩ := h.swap
      refine hs.of_subset hagrees h.spaces (fun he => ⟨_, (h.entry _).symm.trans he⟩) fun ha => ?_
      exact Or.inl (by rwa [hread.slots] at ha)

theorem Change.consistent (h : Change may s t) (hs : s.Consistent) : t.Consistent := by
  cases h with
  | quiet h => exact h.consistent hs
  | move _ h => exact h.consistent hs
  | adjusted h => exact h.consistent hs
  | registered _ h => exact h.consistent hs
  | emptied _ _ h => exact h.consistent hs
  | destroyed _ h => exact h.consistent hs

/-- A process that has no address space gets none but by its fate. -/
theorem Change.not_mem_spaces (h : Change may s t) {pid : Pid} (hmay : ¬ may (.gains pid))
    (hpid : pid ∉ s.core.spaces) : pid ∉ t.core.spaces := by
  cases h with
  | quiet h => exact h.spaces ▸ hpid
  | move _ h => exact h.spaces ▸ hpid
  | adjusted h => exact h.spaces ▸ hpid
  | registered hgains h =>
    rename_i q pages
    have hne : q ≠ pid := by
      rintro rfl
      exact hmay hgains
    rw [h.spaces, Std.ExtTreeMap.mem_insert]
    simpa [hne] using hpid
  | emptied _ _ h => exact h.steps.rest.2.2 ▸ hpid
  | destroyed _ h =>
    rw [h.spaces, Std.ExtTreeMap.mem_erase]
    exact fun hmem => hpid hmem.2

theorem Changes.not_mem_spaces (h : Changes may s t) {pid : Pid} (hmay : ¬ may (.gains pid))
    (hpid : pid ∉ s.core.spaces) : pid ∉ t.core.spaces := by
  induction h with
  | refl => exact hpid
  | tail _ hchange ih => exact hchange.not_mem_spaces hmay ih

/-- A process that has an address space keeps it but by its fate. -/
theorem Change.mem_spaces (h : Change may s t) {pid : Pid} (hmay : ¬ may (.loses pid))
    (hpid : pid ∈ s.core.spaces) : pid ∈ t.core.spaces := by
  cases h with
  | quiet h => exact h.spaces ▸ hpid
  | move _ h => exact h.spaces ▸ hpid
  | adjusted h => exact h.spaces ▸ hpid
  | registered _ h =>
    rw [h.spaces, Std.ExtTreeMap.mem_insert]
    exact .inr hpid
  | emptied _ _ h => exact h.steps.rest.2.2 ▸ hpid
  | destroyed hloses h =>
    rename_i q
    have hne : q ≠ pid := by
      rintro rfl
      exact hmay hloses
    rw [h.spaces, Std.ExtTreeMap.mem_erase]
    exact ⟨by simpa using hne, hpid⟩

theorem Changes.mem_spaces (h : Changes may s t) {pid : Pid} (hmay : ¬ may (.loses pid))
    (hpid : pid ∈ s.core.spaces) : pid ∈ t.core.spaces := by
  induction h with
  | refl => exact hpid
  | tail _ hchange ih => exact hchange.mem_spaces hmay ih

/-- **Whatever changes the kernel makes, the tables are consistent afterwards.** -/
theorem Changes.consistent (h : Changes may s t) (hs : s.Consistent) : t.Consistent := by
  induction h with
  | refl => exact hs
  | tail _ hchange ih => exact hchange.consistent ih

end Paging

end DemandPaging
