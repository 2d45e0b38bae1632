import DemandPaging.Kernel
import DemandPaging.Proofs.Agreement

/-!
# What happens to mirrors, step by step

The operations on single TLBs, told by the slots and the entries that they leave.

* `Paging.install_spec` — an entry is put into a slot.
* `Paging.saveTlb_spec`, `Paging.restoreTlb_spec` — a process leaves a TLB and comes back.
* `Kernel.translate_spec` — a copy is used.
* `Paging.Mirrored` — what all of them have in common: usage bits move, and every slot maps
  what it mapped or what an entry maps.
-/

namespace DemandPaging

namespace Paging

variable {F : Type}

/-! ## Steps -/

/-- Nothing changes but the bits of entries and what slots of TLBs hold. -/
structure Steady (s t : Paging F) : Prop extends SameShape s t where
  owner : ∀ g, t.owner g = s.owner g
  frame : ∀ g, t.frame g = s.frame g
  swap : t.swap = s.swap
  history : t.history = s.history
  spaces : t.core.spaces = s.core.spaces

/-- A copy is used, and takes note of it. -/
structure Hit (s t : Paging F) (id : TlbId) (i : Nat) (writing : Bool) : Prop
    extends Steady s t where
  entry : ∀ k, t.entry k = s.entry k
  slot : ∀ j n, t.slot j n = if j = id ∧ n = i then (s.slot j n).touch writing else s.slot j n

/-- An entry is put into a slot, whose bits go back before. -/
structure Installed (s t : Paging F) (id : TlbId) (pid : Pid) (e : Translation) (i : Nat) : Prop
    extends Steady s t where
  entry : ∀ k, t.entry k =
    if k.pid = pid then (s.entry k).map (·.absorb (holding [s.slot id i] k.page)) else s.entry k
  slot : ∀ j n, t.slot j n = if j = id ∧ n = i then e else s.slot j n

/-- A process leaves a TLB: the bits of all slots go back, and none stays valid. -/
structure Saved (s t : Paging F) (id : TlbId) (pid : Pid) : Prop extends Steady s t where
  entry : ∀ k, t.entry k =
    if k.pid = pid then
      (s.entry k).map (·.absorb (holding (s.core.tlbs.tlb id).slots.toList k.page))
    else s.entry k
  slot_ne : ∀ j n, j ≠ id → t.slot j n = s.slot j n
  slot : ∀ n, (t.slot id n).valid = false

/-- A process comes to a TLB: the pages that it had there come back, if they are resident. -/
structure Restored (s t : Paging F) (id : TlbId) (pid : Pid) (pages : List (Option PageNumber)) :
    Prop extends Steady s t where
  entry : ∀ k, t.entry k = s.entry k
  slot_ne : ∀ j n, j ≠ id → t.slot j n = s.slot j n
  slot : ∀ n, n < (s.core.tlbs.tlb id).size → t.slot id n =
    (pages[n]?.join.bind fun p => s.residentEntry ⟨pid, p⟩).getD (s.slot id n).invalidate

/-- Every slot of a TLB is made invalid. -/
structure Cleared (s t : Paging F) (id : TlbId) : Prop extends Steady s t where
  entry : ∀ k, t.entry k = s.entry k
  slot : ∀ j n, t.slot j n = if j = id then (s.slot j n).invalidate else s.slot j n

/-! ## Replacing a TLB -/

theorem steady_of_core {s t : Paging F} {table : PageTable} {tlbs : TlbBank}
    {g : Random.Xoshiro}
    (hcore : t.core = { s.core with table, tlbs, generator := g }) (hswap : t.swap = s.swap)
    (hhistory : t.history = s.history)
    (hsize : ∀ id, (tlbs.tlb id).size = (s.core.tlbs.tlb id).size)
    (hlive : ∀ id, tlbs.live id = s.core.tlbs.live id) (hattached : tlbs.attached = s.attached) :
    Steady s t := by
  refine ⟨⟨fun id => ?_, fun id => ?_, fun id hid _ => ?_, ?_, ?_⟩, fun g => ?_, fun g => ?_, hswap,
    hhistory, ?_⟩
  · rw [hcore]
    exact hsize id
  · rw [hcore]
    exact hlive id
  · rw [attached, hcore, hattached]
    exact hid
  · rw [hcore]
  · rw [hcore]
  · rw [owner, hcore, owner]
  · rw [frame, hcore, frame]
  · rw [hcore]

/-- Only the page table and one TLB change, and the TLB keeps its size. -/
theorem steady_of_setTlb {s t : Paging F} {table : PageTable} {id : TlbId} {b : Tlb}
    {g : Random.Xoshiro}
    (hcore : t.core = { s.core with
      table
      tlbs := s.core.tlbs.setTlb id b
      generator := g })
    (hsize : b.size = (s.core.tlbs.tlb id).size) (hswap : t.swap = s.swap)
    (hhistory : t.history = s.history) : Steady s t :=
  steady_of_core hcore hswap hhistory (fun j => TlbBank.size_tlb_setTlb hsize j)
    (fun j => TlbBank.live_setTlb _ _ j _) (TlbBank.attached_setTlb _ _ _)

/-- Writing a slot of a TLB that is there and has it. -/
theorem slot_setTlb_write {b : TlbBank} {id : TlbId} {i : Nat} (hi : i < (b.tlb id).size)
    (e : Translation) (j : TlbId) (n : Nat) :
    (b.setTlb id ((b.tlb id).write i e)).slot j n =
      if j = id ∧ n = i then e else b.slot j n := by
  have hlive : b.live id = true := TlbBank.live_of_size_pos (by omega)
  rw [TlbBank.slot_setTlb hlive]
  by_cases hj : id = j
  · subst hj
    rw [if_pos rfl, Tlb.slot_write, TlbBank.slot]
    by_cases hn : i = n
    · rw [if_pos ⟨hn, hi⟩, if_pos ⟨rfl, hn.symm⟩]
    · rw [if_neg fun h => hn h.1, if_neg fun h => hn h.2.symm]
  · rw [if_neg hj, if_neg fun h => hj h.1.symm]

theorem cleared_of_core {s t : Paging F} {id : TlbId}
    (hcore : t.core = { s.core with
      tlbs := s.core.tlbs.setTlb id (s.core.tlbs.tlb id).invalidateAll })
    (hswap : t.swap = s.swap) (hhistory : t.history = s.history) : Cleared s t id := by
  refine ⟨steady_of_setTlb hcore (Tlb.size_invalidateAll _) hswap hhistory, fun k => ?_,
    fun j n => ?_⟩
  · rw [entry, hcore, entry]
  · rw [slot, hcore]
    refine (TlbBank.slot_setTlb_of_slot (fun i => Tlb.slot_invalidateAll _ i) rfl j n).trans ?_
    simp only [eq_comm (a := id)]
    rfl

/-! ## Installing -/

/-- What is done once a slot was chosen. -/
theorem installed_of_slot {s t : Paging F} {id : TlbId} {pid : Pid} {e : Translation} {i : Nat}
    {g : Random.Xoshiro} (hi : i < (s.core.tlbs.tlb id).size)
    (ht : t = (Paging.setTable { s with core := { s.core with generator := g } }
      (foldSlots s.core.table pid [(s.core.tlbs.tlb id).slot i])).setTlb id
        ((s.core.tlbs.tlb id).write i e)) :
    Installed s t id pid e i := by
  subst ht
  refine ⟨?_, fun k => ?_, fun j n => ?_⟩
  · exact steady_of_setTlb rfl (Tlb.size_write _ _ _) rfl rfl
  · exact getElem?_foldSlots _ _ _ _
  · exact slot_setTlb_write hi e j n

/-- **An entry is put into a slot that is not valid, or into another one.**  Only a TLB without
slots has no place for it. -/
theorem install_spec {s t : Paging F} {id : TlbId} {pid : Pid} {e : Translation}
    {r : Except Halt Nat} (h : s.install id pid e = (r, t)) :
    ((s.core.tlbs.tlb id).size = 0 ∧ r = .error .outOfBounds ∧ t = s) ∨
      ∃ i, i < (s.core.tlbs.tlb id).size ∧ r = .ok i ∧ Installed s t id pid e i := by
  unfold install at h
  dsimp only at h
  cases hfree : (s.core.tlbs.tlb id).freeSlot with
  | some i =>
      have hi : i < (s.core.tlbs.tlb id).size :=
        (Array.findIdx?_eq_some_iff_getElem.1 hfree).1
      rw [hfree] at h
      dsimp only at h
      rw [if_neg (Nat.not_le_of_lt hi)] at h
      obtain ⟨rfl, rfl⟩ := Prod.mk.inj h
      exact Or.inr ⟨i, hi, rfl, installed_of_slot hi rfl⟩
  | none =>
      rw [hfree] at h
      dsimp only at h
      by_cases hsize : (s.core.tlbs.tlb id).size = 0
      · rw [hsize] at h
        obtain ⟨rfl, rfl⟩ := Prod.mk.inj h
        exact Or.inl ⟨hsize, rfl, rfl⟩
      · have hi := s.core.randomBelow_lt (Nat.pos_of_ne_zero hsize)
        obtain ⟨g, hcore⟩ := s.core.randomBelow_snd (s.core.tlbs.tlb id).size
        rw [if_neg (Nat.not_le_of_lt hi), hcore] at h
        obtain ⟨rfl, rfl⟩ := Prod.mk.inj h
        exact Or.inr ⟨_, hi, rfl, installed_of_slot hi rfl⟩

/-! ## Leaving a TLB -/

theorem mem_slots_iff {t : Tlb} {e : Translation} (he : e.valid = true) :
    e ∈ t.slots.toList ↔ ∃ n, t.slot n = e := by
  rw [Array.mem_toList_iff, Array.mem_iff_getElem]
  constructor
  · rintro ⟨n, hn, rfl⟩
    exact ⟨n, Tlb.slot_eq_getElem hn⟩
  · rintro ⟨n, rfl⟩
    have hn := Tlb.lt_size_of_valid he
    exact ⟨n, hn, (Tlb.slot_eq_getElem hn).symm⟩

/-- **A process that leaves a TLB takes all usage bits along**, and remembers which pages it had
there. -/
theorem saveTlb_spec {s t : Paging F} {id : TlbId} {pid : Pid} {snapshot : TlbSnapshot}
    (h : s.saveTlb id pid = (snapshot, t)) :
    Saved s t id pid ∧ ∀ n p, snapshot.pages[n]? = some (some p) ↔
      (s.slot id n).valid = true ∧ (s.slot id n).page = p := by
  unfold saveTlb at h
  obtain ⟨rfl, rfl⟩ := Prod.mk.inj h
  refine ⟨⟨?_, fun k => ?_, fun j n hj => ?_, fun n => ?_⟩, fun n p => ?_⟩
  · refine steady_of_setTlb rfl ?_ rfl rfl
    simp [Tlb.size]
  · exact getElem?_foldSlots _ _ _ _
  · exact TlbBank.slot_setTlb_ne hj _ _
  · rw [slot]
    show ((s.core.tlbs.setTlb id _).slot id n).valid = false
    rw [TlbBank.slot_setTlb_of_slot (Tlb.slot_map _ (by rfl)) (by rfl), if_pos rfl]
    split
    · rfl
    · rename_i hv
      exact Bool.eq_false_iff.2 hv
  · simp only [List.getElem?_map, Array.getElem?_toList, Option.map_eq_some_iff]
    constructor
    · rintro ⟨e, he, hp⟩
      have hslot : s.slot id n = e := by
        rw [slot, TlbBank.slot, Tlb.slot, he, Option.getD_some]
      split at hp
      · rename_i hv
        rw [hslot]
        exact ⟨hv, Option.some.inj hp⟩
      · cases hp
    · rintro ⟨hv, rfl⟩
      have hn := Tlb.lt_size_of_valid hv
      refine ⟨s.slot id n, ?_, if_pos hv⟩
      rw [slot, TlbBank.slot, Tlb.slot_eq_getElem hn]
      exact Array.getElem?_eq_getElem hn

/-! ## Coming to a TLB -/

theorem Steady.refl (s : Paging F) : Steady s s :=
  ⟨SameShape.refl s, fun _ => rfl, fun _ => rfl, rfl, rfl, rfl⟩

theorem Steady.trans {s m t : Paging F} (h : Steady s m) (h' : Steady m t) : Steady s t where
  toSameShape := h.toSameShape.trans h'.toSameShape
  owner g := (h'.owner g).trans (h.owner g)
  frame g := (h'.frame g).trans (h.frame g)
  swap := h'.swap.trans h.swap
  history := h'.history.trans h.history
  spaces := h'.spaces.trans h.spaces

/-- The pages of a snapshot have come back from slot `i` on, each into its own. -/
structure RestoredFrom (s t : Paging F) (id : TlbId) (pid : Pid) (i : Nat)
    (pages : List (Option PageNumber)) : Prop extends Steady s t where
  table : t.core.table = s.core.table
  slot_ne : ∀ j n, j ≠ id → t.slot j n = s.slot j n
  slot : ∀ n, n < (s.core.tlbs.tlb id).size → t.slot id n =
    if i ≤ n then (pages[n - i]?.join.bind fun p => s.residentEntry ⟨pid, p⟩).getD (s.slot id n)
    else s.slot id n

/-- After the first page the rest of the snapshot comes back, behind it. -/
theorem RestoredFrom.cons {s m t : Paging F} {id : TlbId} {pid : Pid} {i : Nat}
    {p : Option PageNumber} {pages : List (Option PageNumber)} (hsteady : Steady s m)
    (htable : m.core.table = s.core.table) (hne : ∀ j n, j ≠ id → m.slot j n = s.slot j n)
    (hslot : ∀ n, n < (s.core.tlbs.tlb id).size → m.slot id n =
      if n = i then (p.bind fun p => s.residentEntry ⟨pid, p⟩).getD (s.slot id n)
      else s.slot id n)
    (h : RestoredFrom m t id pid (i + 1) pages) : RestoredFrom s t id pid i (p :: pages) := by
  refine ⟨hsteady.trans h.toSteady, h.table.trans htable,
    fun j n hj => (h.slot_ne j n hj).trans (hne j n hj), fun n hn => ?_⟩
  have hresident : ∀ key, m.residentEntry key = s.residentEntry key := fun key => by
    rw [residentEntry, htable, residentEntry]
  rw [h.slot n (by rw [hsteady.size]; exact hn), hslot n hn]
  simp only [hresident]
  rcases Nat.lt_trichotomy n i with hlt | rfl | hgt
  · rw [if_neg (by omega), if_neg (by omega), if_neg (by omega)]
  · rw [if_neg (by omega), if_pos rfl, if_pos (Nat.le_refl _), Nat.sub_self]
    rfl
  · have hsub : n - i = n - (i + 1) + 1 := by omega
    rw [if_pos (by omega), if_neg (by omega), if_pos (by omega), hsub, List.getElem?_cons_succ]

theorem restoreSlots_spec (id : TlbId) (pid : Pid) (i : Nat) (pages : List (Option PageNumber))
    (s : Paging F) : RestoredFrom s (restoreSlots id pid i pages s).2 id pid i pages := by
  induction pages generalizing i s with
  | nil =>
      refine ⟨Steady.refl s, rfl, fun _ _ _ => rfl, fun n _ => ?_⟩
      split <;> rfl
  | cons p pages ih =>
      cases p with
      | none =>
          refine .cons (Steady.refl s) rfl (fun _ _ _ => rfl) (fun n _ => ?_) (ih (i + 1) s)
          split <;> rfl
      | some p =>
          unfold restoreSlots
          cases he : s.core.table[(⟨pid, p⟩ : PageKey)]?.filter (·.valid) with
          | none =>
              have hnone : s.residentEntry ⟨pid, p⟩ = none := he
              have hnote : Steady s (s.note (.pageLeft ⟨pid, p⟩)) :=
                steady_of_core rfl rfl rfl (fun _ => rfl) (fun _ => rfl) rfl
              refine .cons hnote rfl (fun _ _ _ => rfl) (fun n _ => ?_) (ih (i + 1) _)
              rw [Option.bind_some, hnone]
              split <;> rfl
          | some e =>
              have hsome : s.residentEntry ⟨pid, p⟩ = some e := he
              have hwrite : Steady s (s.setTlb id ((s.core.tlbs.tlb id).write i e)) :=
                steady_of_setTlb rfl (Tlb.size_write _ _ _) rfl rfl
              refine .cons hwrite rfl (fun j n hj => TlbBank.slot_setTlb_ne hj _ _) (fun n hn => ?_)
                (ih (i + 1) _)
              rw [Option.bind_some, hsome, Option.getD_some]
              show (s.core.tlbs.setTlb id _).slot id n = _
              rw [TlbBank.slot_setTlb (TlbBank.live_of_size_pos (by omega)), if_pos rfl,
                Tlb.slot_write]
              by_cases hin : i = n
              · subst hin
                rw [if_pos ⟨rfl, hn⟩, if_pos rfl]
              · rw [if_neg fun h => hin h.1, if_neg (Ne.symm hin)]
                rfl

/-- **A process that comes to a TLB finds there what it had and is still resident**, each page
in the slot where it was, and nothing else. -/
theorem restoreTlb_spec (s : Paging F) (id : TlbId) (pid : Pid) (snapshot : TlbSnapshot) :
    Restored s (s.restoreTlb id pid snapshot).2 id pid snapshot.pages := by
  have hclear : Steady s (s.setTlb id (s.core.tlbs.tlb id).invalidateAll) :=
    steady_of_setTlb rfl (Tlb.size_invalidateAll _) rfl rfl
  have hslots := restoreSlots_spec id pid 0
    (snapshot.pages.take (s.core.tlbs.tlb id).invalidateAll.size)
    (s.setTlb id (s.core.tlbs.tlb id).invalidateAll)
  refine ⟨hclear.trans hslots.toSteady, fun k => ?_, fun j n hj => ?_, fun n hn => ?_⟩
  · exact congrArg (fun t : PageTable => t[k]?) hslots.table
  · exact (hslots.slot_ne j n hj).trans (TlbBank.slot_setTlb_ne hj _ _)
  · refine (hslots.slot n (by rw [hclear.size]; exact hn)).trans ?_
    rw [if_pos (Nat.zero_le n), Nat.sub_zero, Tlb.size_invalidateAll, List.getElem?_take_of_lt hn]
    congr 1
    show (s.core.tlbs.setTlb id _).slot id n = _
    rw [TlbBank.slot_setTlb (TlbBank.live_of_size_pos (by omega)), if_pos rfl,
      Tlb.slot_invalidateAll]
    rfl

/-! ## Using a copy -/

/-- **An access through the TLB finds a valid copy of its page**, which takes note of it. -/
theorem lookUp_spec {b b' : Tlb} {address : VirtAddr} {writing : Bool} {a : PhysAddr}
    (h : Processor.lookUp b address writing = .ok (a, b')) :
    address.val ≤ maxUserAddr ∧ ∃ i f, b.lookup address.page = some i ∧ (b.slot i).maps f = true ∧
      (b.slot i).page = address.page ∧ ¬ (writing = true ∧ (b.slot i).flags.readOnly = true) ∧
      a = f.byte address.offset ∧ b' = b.touch i writing := by
  unfold Processor.lookUp at h
  split at h
  · cases h
  · rename_i haddr
    split at h
    · cases h
    · rename_i i hi
      dsimp only at h
      split at h
      · cases h
      · rename_i hro
        split at h
        · cases h
        · rename_i f hf
          obtain ⟨rfl, rfl⟩ := Prod.mk.inj (Except.ok.inj h)
          obtain ⟨hlt, hfound, -⟩ := Array.findIdx?_eq_some_iff_getElem.1 hi
          rw [← Tlb.slot_eq_getElem hlt, Bool.and_eq_true, beq_iff_eq] at hfound
          refine ⟨Nat.le_of_not_lt haddr, i, f, hi, ?_, hfound.2, fun hw => hro ?_, rfl, rfl⟩
          · rw [Translation.maps_iff]
            refine ⟨?_, hf⟩
            have hv := hfound.1
            rw [Translation.valid, Bool.and_eq_true] at hv
            exact hv.1
          · rw [hw.1, hw.2]
            rfl

/-- A slot is looked up if the TLB has a valid copy of the page, and only then. -/
theorem lookup_eq_none {b : Tlb} {p : PageNumber} (h : b.lookup p = none) {i : Nat}
    (hv : (b.slot i).valid = true) : (b.slot i).page ≠ p := by
  intro hp
  have hi := Tlb.lt_size_of_valid hv
  have hnot := Array.findIdx?_eq_none_iff.1 h (b.slot i) (by
    rw [Tlb.slot_eq_getElem hi]
    exact Array.getElem_mem hi)
  rw [hv, hp, beq_self_eq_true] at hnot
  cases hnot

/-- A TLB that takes note of an access. -/
theorem hit_setTlb {s t : Paging F} {id : TlbId} {i : Nat} {writing : Bool}
    (hi : (s.slot id i).valid = true)
    (ht : t = s.setTlb id ((s.core.tlbs.tlb id).touch i writing)) : Hit s t id i writing := by
  subst ht
  have hlt : i < (s.core.tlbs.tlb id).size := Tlb.lt_size_of_valid hi
  refine ⟨steady_of_setTlb rfl (Tlb.size_write _ _ _) rfl rfl, fun _ => rfl, fun j n => ?_⟩
  show (s.core.tlbs.setTlb id _).slot j n = _
  rw [Tlb.touch, slot_setTlb_write hlt]
  split
  · rename_i h
    rw [h.1, h.2]
    rfl
  · rfl

/-- Putting a TLB back as it is changes nothing. -/
theorem quiet_setTlb_self (s : Paging F) (id : TlbId) :
    Quiet s (s.setTlb id (s.core.tlbs.tlb id)) := by
  have hsteady : Steady s (s.setTlb id (s.core.tlbs.tlb id)) := steady_of_setTlb rfl rfl rfl rfl
  refine ⟨⟨hsteady.toSameShape, fun _ => rfl, hsteady.owner, fun j n => ?_, hsteady.frame, rfl⟩,
    rfl, rfl⟩
  by_cases hj : j = id
  · subst hj
    by_cases hl : s.core.tlbs.live j = true
    · exact (TlbBank.slot_setTlb hl _ _ _).trans (if_pos rfl)
    · show (s.core.tlbs.setTlb j _).slot j n = _
      rw [TlbBank.setTlb_of_not_live (Bool.eq_false_iff.2 hl)]
      rfl
  · exact TlbBank.slot_setTlb_ne hj _ _

/-- Why a TLB does not translate an address: no user address lies there, the page is missing, or
it may not be written. -/
inductive Raises (s : Paging F) (id : TlbId) (address : VirtAddr) (writing : Bool) :
    ExceptionCause → Prop
  | outside (haddress : maxUserAddr < address.val) : Raises s id address writing .addressError
  | missing (haddress : address.val ≤ maxUserAddr)
    (hpage : ∀ n, (s.slot id n).valid = true → (s.slot id n).page ≠ address.page) :
    Raises s id address writing .tlbMiss
  | readOnly {i : Nat} {f : FrameNumber} (haddress : address.val ≤ maxUserAddr)
    (hmaps : (s.slot id i).maps f = true) (hpage : (s.slot id i).page = address.page)
    (hwriting : writing = true) (hreadOnly : (s.slot id i).flags.readOnly = true) :
    Raises s id address writing .readOnly

theorem Quiet.raises {s t : Paging F} {id : TlbId} {address : VirtAddr} {writing : Bool}
    {c : ExceptionCause} (h : Quiet s t) (hc : s.Raises id address writing c) :
    t.Raises id address writing c := by
  cases hc with
  | outside haddress => exact .outside haddress
  | missing haddress hpage =>
      refine .missing haddress fun n hv => ?_
      rw [h.slot] at hv ⊢
      exact hpage n hv
  | readOnly haddress hmaps hpage hwriting hreadOnly =>
      rw [← h.slot] at hmaps hpage hreadOnly
      exact .readOnly haddress hmaps hpage hwriting hreadOnly

/-- A valid copy of an entry names a frame, so that a bus has nothing to complain of. -/
theorem raises_of_lookUp {s : Paging F} {id : TlbId} {address : VirtAddr} {writing : Bool}
    {c : ExceptionCause} (h : Processor.lookUp (s.core.tlbs.tlb id) address writing = .error c) :
    s.Raises id address writing c := by
  unfold Processor.lookUp at h
  split at h
  · rename_i haddress
    obtain rfl := Except.error.inj h
    exact .outside haddress
  · rename_i haddress
    have haddress := Nat.le_of_not_lt haddress
    split at h
    · rename_i hnone
      obtain rfl := Except.error.inj h
      exact .missing haddress fun n hv => lookup_eq_none hnone hv
    · rename_i i hi
      obtain ⟨hlt, hfound, -⟩ := Array.findIdx?_eq_some_iff_getElem.1 hi
      rw [← Tlb.slot_eq_getElem hlt, Bool.and_eq_true, beq_iff_eq] at hfound
      obtain ⟨hvalid, hframe⟩ := Bool.and_eq_true_iff.1 hfound.1
      obtain ⟨f, hf⟩ := Option.isSome_iff_exists.1 hframe
      dsimp only at h
      split at h
      · rename_i hro
        rw [Bool.and_eq_true] at hro
        obtain rfl := Except.error.inj h
        exact .readOnly haddress (Translation.maps_iff.2 ⟨hvalid, hf⟩) hfound.2 hro.1 hro.2
      · rw [hf] at h
        cases h

end Paging

namespace Kernel

open Paging

variable {F : Type} {k k' : Kernel F}

/-- **A translation that succeeds uses a valid copy of the page**; one that fails leaves
everything as it is. -/
theorem translate_spec {cpu cpu' : Processor} {address : VirtAddr} {writing : Bool}
    {r : Except ExceptionCause PhysAddr}
    (h : k.translate cpu address writing = (r, k', cpu')) :
    k'.config = k.config ∧ k'.pids = k.pids ∧
      ((∃ i f, r = .ok (f.byte address.offset) ∧ cpu' = cpu ∧ address.val ≤ maxUserAddr ∧
          (k.slot cpu.tlb i).maps f = true ∧ (k.slot cpu.tlb i).page = address.page ∧
          ¬ (writing = true ∧ (k.slot cpu.tlb i).flags.readOnly = true) ∧
          Hit k.toPaging k'.toPaging cpu.tlb i writing) ∨
        ∃ c, r = .error c ∧ cpu' = cpu.raise c address ∧ Quiet k.toPaging k'.toPaging ∧
          k.Raises cpu.tlb address writing c) := by
  unfold Kernel.translate Processor.translate at h
  cases hl : Processor.lookUp (k.core.tlbs.tlb cpu.tlb) address writing with
  | ok at' =>
      obtain ⟨a, t⟩ := at'
      rw [hl] at h
      simp only [Prod.mk.injEq] at h
      obtain ⟨rfl, rfl, rfl⟩ := h
      obtain ⟨haddr, i, f, -, hmaps, hpage, hro, rfl, rfl⟩ := lookUp_spec hl
      exact ⟨rfl, rfl, Or.inl ⟨i, f, rfl, rfl, haddr, hmaps, hpage, hro,
        hit_setTlb (Translation.valid_of_maps hmaps) rfl⟩⟩
  | error c =>
      rw [hl] at h
      simp only [Prod.mk.injEq] at h
      obtain ⟨rfl, rfl, rfl⟩ := h
      exact ⟨rfl, rfl, Or.inr ⟨c, rfl, rfl, quiet_setTlb_self _ _, raises_of_lookUp hl⟩⟩

end Kernel

end DemandPaging
