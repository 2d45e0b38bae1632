import DemandPaging.Proofs.MachineChanges
import DemandPaging.Simulation

/-!
# The tables agree in every state

Whatever a machine is asked to do, in whatever order, by whichever processor, and however often
the swap file fails: the page table, the frame table, the TLBs and the slots of the swap store
tell one story afterwards.

* `Machine.Reached` — the machines that any requests lead to.
* `Kernel.TablesAgree` — what is said of the tables, the kernel's own check among it.
* `Machine.Reached.tablesAgree` — it holds of every machine that is reached.
-/

namespace DemandPaging

open Paging

variable {F : Type}

/-! ## As many entries as frames with owners -/

namespace Paging

theorem Agrees.entry_iff_holder {s : Paging F} (hs : s.Agrees) {key : PageKey} :
    (∃ e, s.entry key = some e) ↔ ∃ f, s.holder f = some key := by
  constructor
  · rintro ⟨e, he⟩
    obtain ⟨-, f, -, hf⟩ := hs.entry he
    exact ⟨f, hf⟩
  · rintro ⟨f, hf⟩
    obtain ⟨e, he, -⟩ := hs.owned hf
    exact ⟨e, he⟩

/-- **Resident pages and free frames make up all frames.** -/
theorem Agrees.size_table_add_freeCount {s : Paging F} (hs : s.Agrees) :
    s.core.table.size + s.core.frames.freeCount = s.core.frames.size := by
  have hmem : ∀ {f : Nat} {o : FrameOwner},
      (f, o) ∈ s.core.frames.owners.toList ↔ s.owner ⟨f⟩ = some o := by
    intro f o
    rw [Std.ExtTreeMap.mem_toList_iff_getElem?_eq_some, owner, FrameTable.owner]
  have hnodup : (s.core.frames.owners.toList.map (·.2.key)).Nodup := by
    rw [List.Nodup, List.pairwise_map]
    refine Std.ExtTreeMap.distinct_keys_toList.imp_of_mem ?_
    rintro ⟨f, o⟩ ⟨g, p⟩ hf hg hne hkey
    have hfg := hs.frame_unique (holder_eq_some.2 ⟨o, hmem.1 hf, rfl⟩)
      (holder_eq_some.2 ⟨p, hmem.1 hg, hkey.symm⟩)
    exact hne (by simp [FrameNumber.mk.inj hfg])
  have hperm : (s.core.frames.owners.toList.map (·.2.key)).Perm s.core.table.keys := by
    rw [List.perm_ext_iff_of_nodup hnodup Std.ExtTreeMap.nodup_keys]
    intro key
    rw [Std.ExtTreeMap.mem_keys, Std.ExtTreeMap.mem_iff_isSome_getElem?, Option.isSome_iff_exists]
    refine Iff.trans ?_ hs.entry_iff_holder.symm
    rw [List.mem_map]
    constructor
    · rintro ⟨⟨f, o⟩, ho, rfl⟩
      exact ⟨⟨f⟩, holder_eq_some.2 ⟨o, hmem.1 ho, rfl⟩⟩
    · rintro ⟨⟨f⟩, hf⟩
      obtain ⟨o, ho, rfl⟩ := holder_eq_some.1 hf
      exact ⟨(f, o), hmem.2 ho, rfl⟩
  have hlength := hperm.length_eq
  rw [List.length_map, Std.ExtTreeMap.length_toList, Std.ExtTreeMap.length_keys] at hlength
  have hall := s.core.frames.freeCount_add_size_owners
  omega

end Paging

/-! ## What the kernel's own check finds -/

namespace CoreMap

/-- No fault is found among entries whose frames belong to their pages, if none of the frames
was seen before. -/
theorem entriesFault_ok {c : CoreMap} {l : List (PageKey × Translation)}
    {used : Std.ExtTreeSet Nat} (hdistinct : l.Pairwise fun a b => a.1 ≠ b.1)
    (hframe : ∀ a ∈ l, ∃ f, a.2.maps f = true ∧ (c.frames.owner f).map (·.key) = some a.1 ∧
      f.val ∉ used)
    (hspace : ∀ a ∈ l, a.1.pid ∈ c.spaces) :
    ∃ used', c.entriesFault used l = .ok used' ∧ (∀ n ∈ used, n ∈ used') ∧
      ∀ a ∈ l, ∀ f, a.2.maps f = true → f.val ∈ used' := by
  induction l generalizing used with
  | nil => exact ⟨used, rfl, fun _ h => h, fun a ha => by cases ha⟩
  | cons a l ih =>
      obtain ⟨hne, hdistinct'⟩ := List.pairwise_cons.1 hdistinct
      obtain ⟨key, e⟩ := a
      obtain ⟨f, hf, hkey, hunused⟩ := hframe _ List.mem_cons_self
      have hwith : withFrameOf used e = used.insert f.val := by
        rw [withFrameOf, (Translation.maps_iff.1 hf).2]
      have hfault : c.entryFault used key e = none := by
        rw [entryFault, Translation.frame?_eq_some_iff.2 hf]
        simp only [hunused, hkey, hspace _ List.mem_cons_self, if_false, ne_eq, not_true]
      rw [entriesFault, hfault, hwith]
      dsimp only
      have hrest : ∀ b ∈ l, ∃ g, b.2.maps g = true ∧
          (c.frames.owner g).map (·.key) = some b.1 ∧ g.val ∉ used.insert f.val := by
        intro b hb
        obtain ⟨g, hg, hgkey, hgunused⟩ := hframe b (List.mem_cons_of_mem _ hb)
        refine ⟨g, hg, hgkey, fun hmem => ?_⟩
        rcases Std.ExtTreeSet.mem_insert.1 hmem with hfg | hmem
        · have hfg : f = g := by
            cases f
            cases g
            exact congrArg _ (Nat.compare_eq_eq.1 hfg)
          rw [← hfg, hkey] at hgkey
          exact hne b hb (Option.some.inj hgkey)
        · exact hgunused hmem
      obtain ⟨used', hok, hsub, hall⟩ :=
        ih hdistinct' hrest fun b hb => hspace b (List.mem_cons_of_mem _ hb)
      refine ⟨used', hok, fun n hn => hsub n (Std.ExtTreeSet.mem_insert.2 (Or.inr hn)),
        fun b hb g hg => ?_⟩
      rcases List.mem_cons.1 hb with rfl | hb
      · rw [Translation.maps_unique hg hf]
        exact hsub _ (Std.ExtTreeSet.mem_insert.2 (Or.inl (Nat.compare_eq_eq.2 rfl)))
      · exact hall b hb g hg

end CoreMap

namespace Paging

/-- No slot of an attached TLB is found at fault. -/
theorem Agrees.copiesFault_eq_none {s : Paging F} (hs : s.Agrees) :
    s.core.copiesFault = none := by
  rw [CoreMap.copiesFault, List.findSome?_eq_none_iff]
  rintro ⟨id, place⟩ -
  rw [List.findSome?_eq_none_iff]
  rintro ⟨copy, i⟩ hcopy
  have hslot : s.slot id i = copy := by
    have hi := List.mem_zipIdx_iff_getElem?.1 hcopy
    rw [Array.getElem?_toList] at hi
    rw [slot, TlbBank.slot, Tlb.slot, hi, Option.getD_some]
  show s.core.copyFault place i copy = none
  unfold CoreMap.copyFault
  split
  · rfl
  · rename_i f hf
    rw [Translation.frame?_eq_some_iff, ← hslot] at hf
    obtain ⟨-, key, hkey, hpage⟩ := hs.mirror hf
    obtain ⟨o, ho, rfl⟩ := holder_eq_some.1 hkey
    refine if_pos ?_
    rw [← hslot, ← hpage, show s.core.frames.owner f = some o from ho]
    rfl

/-- **The check of the core map finds nothing.** -/
theorem Consistent.core_inconsistency {s : Paging F} (hs : s.Consistent) :
    s.core.inconsistency = none := by
  have hmem : ∀ {a : PageKey × Translation}, a ∈ s.core.table.toList ↔ s.entry a.1 = some a.2 :=
    Std.ExtTreeMap.mem_toList_iff_getElem?_eq_some
  have hdistinct : s.core.table.toList.Pairwise fun a b => a.1 ≠ b.1 :=
    Std.ExtTreeMap.distinct_keys_toList.imp fun h heq => h (by simp [heq])
  have hframe : ∀ a ∈ s.core.table.toList, ∃ f, a.2.maps f = true ∧
      (s.core.frames.owner f).map (·.key) = some a.1 ∧ f.val ∉ (∅ : Std.ExtTreeSet Nat) := by
    intro a ha
    obtain ⟨-, f, hf, hheld⟩ := hs.entry (hmem.1 ha)
    exact ⟨f, hf, hheld, Std.ExtTreeSet.not_mem_empty⟩
  obtain ⟨used, hok, -, hall⟩ := CoreMap.entriesFault_ok (c := s.core) hdistinct hframe
    fun a ha => (hs.resident (hmem.1 ha)).mem_spaces
  rw [CoreMap.inconsistency, hok]
  dsimp only
  rw [List.find?_eq_none.2]
  · exact hs.copiesFault_eq_none
  · rintro ⟨f, o⟩ ho
    obtain ⟨e, he, hef⟩ := hs.owned (holder_eq_some.2 ⟨o, FrameTable.mem_allocated.1 ho, rfl⟩)
    have hused := hall (o.key, e) (hmem.2 he) f hef
    simpa using hused

end Paging

namespace Kernel

/-- No slot of the swap store is found at fault, if none was seen before. -/
theorem slotsFault_eq_none {k : Kernel F} {l : List (PageKey × SwapSlot)}
    {seen : Std.ExtTreeSet Nat} (hdistinct : l.Pairwise fun a b => a.2.index ≠ b.2.index)
    (hseen : ∀ a ∈ l, a.2.index ∉ seen) (hbelow : ∀ a ∈ l, a.2.index < k.swap.capacity)
    (hspace : ∀ a ∈ l, a.1.pid ∈ k.core.spaces) : k.slotsFault seen l = none := by
  induction l generalizing seen with
  | nil => rfl
  | cons a l ih =>
      obtain ⟨hne, hrest⟩ := List.pairwise_cons.1 hdistinct
      obtain ⟨key, slot⟩ := a
      have hunseen := hseen _ List.mem_cons_self
      have hlt := hbelow _ List.mem_cons_self
      have hpid := hspace _ List.mem_cons_self
      rw [slotsFault, if_neg hunseen, if_neg (Nat.not_le_of_lt hlt), if_neg (not_not_intro hpid)]
      refine ih hrest (fun b hb hmem => ?_) (fun b hb => hbelow b (List.mem_cons_of_mem _ hb))
        fun b hb => hspace b (List.mem_cons_of_mem _ hb)
      rcases Std.ExtTreeSet.mem_insert.1 hmem with heq | hmem
      · exact hne b hb (Nat.compare_eq_eq.1 heq)
      · exact hseen b (List.mem_cons_of_mem _ hb) hmem

/-- **The check of the kernel finds nothing.** -/
theorem inconsistency_eq_none {k : Kernel F} (hk : k.Consistent) : k.inconsistency = none := by
  have hmem : ∀ {a : PageKey × SwapSlot}, a ∈ k.swap.slots.toList ↔
      k.swap.slots[a.1]? = some a.2 :=
    Std.ExtTreeMap.mem_toList_iff_getElem?_eq_some
  rw [inconsistency, hk.core_inconsistency]
  refine slotsFault_eq_none ?_ (fun _ _ => Std.ExtTreeSet.not_mem_empty)
    (fun a ha => hk.swap.below (hmem.1 ha)) fun a ha => (hk.stored (hmem.1 ha)).mem_spaces
  refine Std.ExtTreeMap.distinct_keys_toList.imp_of_mem ?_
  rintro ⟨k₁, a⟩ ⟨k₂, b⟩ ha hb hne hindex
  obtain rfl : a = b := by
    cases a
    cases b
    exact congrArg _ hindex
  have hkey : k₁ = k₂ := hk.swap.distinct (hmem.1 ha) (hmem.1 hb)
  exact hne (by simp [hkey])

/-- The tables of the kernel tell one story. -/
structure TablesAgree (k : Kernel F) : Prop where
  /-- A resident page has a valid entry, for its own page, and owns the frame of the entry. -/
  entry : ∀ {key : PageKey} {e : Translation}, k.core.table[key]? = some e →
    e.flags.valid = true ∧ e.page = key.page ∧
      ∃ f o, e.frame = some f ∧ k.core.frames.owner f = some o ∧ o.key = key
  /-- A page that owns a frame has an entry for it. -/
  owned : ∀ {f : FrameNumber} {o : FrameOwner}, k.core.frames.owner f = some o →
    ∃ e, k.core.table[o.key]? = some e ∧ e.frame = some f
  /-- Resident pages and free frames make up all frames. -/
  count : k.core.table.size + k.core.frames.freeCount = k.core.frames.size
  /-- Resident pages belong to address spaces that exist. -/
  resident : ∀ {key : PageKey}, key ∈ k.core.table → key.pid ∈ k.core.spaces
  /-- A valid slot of a TLB that is attached maps a frame that its page owns. -/
  mirror : ∀ {id : TlbId} {i : Nat}, id ∈ k.core.tlbs.liveAttached →
    ((k.core.tlbs.tlb id).slot i).valid = true →
      ∃ f o, ((k.core.tlbs.tlb id).slot i).frame = some f ∧ k.core.frames.owner f = some o ∧
        o.key.page = ((k.core.tlbs.tlb id).slot i).page
  /-- No two pages have one slot of the swap store. -/
  slot_unique : ∀ {key key' : PageKey} {a : SwapSlot}, k.swap.slots[key]? = some a →
    k.swap.slots[key']? = some a → key = key'
  /-- Slots lie in the swap file, and belong to address spaces that exist. -/
  slot : ∀ {key : PageKey} {a : SwapSlot}, k.swap.slots[key]? = some a →
    a.index < k.swap.capacity ∧ key.pid ∈ k.core.spaces
  /-- The kernel's own check finds nothing. -/
  inconsistency : k.inconsistency = none

theorem tablesAgree_of_consistent {k : Kernel F} (hk : k.Consistent) : k.TablesAgree where
  entry {key e} he := by
    obtain ⟨hpage, f, hf, hheld⟩ := hk.toAgrees.entry he
    obtain ⟨o, ho, hkey⟩ := holder_eq_some.1 hheld
    exact ⟨(Translation.maps_iff.1 hf).1, hpage, f, o, (Translation.maps_iff.1 hf).2, ho, hkey⟩
  owned {f o} ho := by
    obtain ⟨e, he, hef⟩ := hk.owned (holder_eq_some.2 ⟨o, ho, rfl⟩)
    exact ⟨e, he, (Translation.maps_iff.1 hef).2⟩
  count := hk.size_table_add_freeCount
  resident {key} hkey := by
    rw [Std.ExtTreeMap.mem_iff_isSome_getElem?, Option.isSome_iff_exists] at hkey
    obtain ⟨e, he⟩ := hkey
    exact (hk.resident he).mem_spaces
  mirror {id i} _ hv := by
    obtain ⟨f, hf⟩ := Translation.valid_iff.1 hv
    obtain ⟨-, key, hkey, hpage⟩ := hk.mirror hf
    obtain ⟨o, ho, rfl⟩ := holder_eq_some.1 hkey
    exact ⟨f, o, (Translation.maps_iff.1 hf).2, ho, hpage⟩
  slot_unique := hk.swap.distinct
  slot ha := ⟨hk.swap.below ha, (hk.stored ha).mem_spaces⟩
  inconsistency := inconsistency_eq_none hk

end Kernel

/-! ## Machines -/

namespace Machine

theorem slot_drop (b : TlbBank) (id j : TlbId) (i : Nat) :
    (b.drop id).slot j i = if j = id then {} else b.slot j i := by
  rw [TlbBank.slot, TlbBank.tlb, TlbBank.drop, Array.getElem?_setIfInBounds]
  by_cases hj : id = j
  · subst hj
    rw [if_pos rfl, if_pos rfl]
    split <;> rfl
  · rw [if_neg hj, if_neg (Ne.symm hj)]
    rfl

variable [BackingFile F]

/-- The machines that requests lead to, of any kind and in any order, also after requests that
failed.  Processors come and go at any time. -/
inductive Reached : Machine F → Prop
  | boot {config : MachineConfig} {files : List String} {file : F} {k : Kernel F} {j : Journal}
    (h : Kernel.boot config files (some file) = (.ok k, j)) : Reached { kernel := k }
  | addCpu {m : Machine F} (h : Reached m) (slots : Nat) : Reached (m.addCpu slots)
  | dropCpu {m : Machine F} (h : Reached m) (cpu : CpuNumber) : Reached (m.dropCpu cpu)
  | perform {m m' : Machine F} {cpu : CpuNumber} {α : Type} {request : Request α}
    {r : Except Halt (Option α)} (h : Reached m) (hp : m.perform cpu request = (r, m')) :
    Reached m'

theorem Reached.after {m : Machine F} (h : Reached m) {α : Type} (cpu : CpuNumber)
    (request : Request α) : Reached (m.perform cpu request).2 :=
  h.perform (Prod.eta (m.perform cpu request)).symm

/-- **The tables of every machine that is reached are consistent.** -/
theorem Reached.consistent {m : Machine F} (h : Reached m) : m.kernel.Consistent := by
  induction h with
  | boot h => exact consistent_of_boot h
  | addCpu _ slots ih =>
      exact ih.of_tlbs rfl rfl rfl fun _ => TlbBank.slot_add _ _ _ _
  | dropCpu _ cpu ih =>
      unfold Machine.dropCpu
      split
      · exact ih
      · refine ih.of_tlbs rfl rfl rfl fun {id i f} hm => ?_
        rw [slot_drop] at hm ⊢
        split at hm
        · cases hm
        · rename_i hid
          rw [if_neg hid]
          rfl
  | perform _ hp ih => exact (perform_evolves ih hp).consistent ih

/-- **No pid is given out twice** by a machine that is reached. -/
theorem Reached.sound_pids {m : Machine F} (h : Reached m) : m.kernel.pids.Sound := by
  induction h with
  | boot h =>
      rw [pids_of_boot h]
      exact PidAllocator.sound_empty
  | addCpu _ _ ih => exact ih
  | dropCpu _ cpu ih =>
      unfold Machine.dropCpu
      split
      · exact ih
      · exact ih
  | perform h hp ih => exact (perform_evolves h.consistent hp).pids ih

/-- **In every machine that is reached the tables agree**, whatever was asked for in whatever
order, and whichever requests failed. -/
theorem tablesAgree_of_reached {m : Machine F} (h : Reached m) : m.kernel.TablesAgree :=
  Kernel.tablesAgree_of_consistent h.consistent

/-- A machine with one frame and a swap file that never writes, after a program was loaded and
its only frame had to change hands. -/
theorem tablesAgree_after_bad_writes :
    ∃ k j, Kernel.boot (.withFrames 1 1) []
        (some ({ plan := { badWritesFrom := some 0 } } : FaultyFile)) = (.ok k, j) ∧
      ((((Machine.addCpu { kernel := k } 1).perform 0
          (.load Simulation.builtinImage ["a"] .demand)).2.perform 0
            (.write 0 ⟨2048⟩ #[1, 2, 3])).2.perform 0 (.read 0 ⟨0⟩ 1)).2.kernel.TablesAgree := by
  have hboot : Kernel.boot (.withFrames 1 1) []
      (some ({ plan := { badWritesFrom := some 0 } } : FaultyFile)) = (.ok _, _) := rfl
  exact ⟨_, _, hboot, tablesAgree_of_reached
    (((((Reached.boot hboot).addCpu 1).after 0 _).after 0 _).after 0 _)⟩

end Machine

end DemandPaging
