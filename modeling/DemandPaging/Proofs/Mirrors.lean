import DemandPaging.Proofs.UsageBits
import Mathlib.Tactic.ByContra

/-!
# What the slots of all TLBs hold

The bank of TLBs is looked at slot by slot: `TlbBank.slot b id i` is what slot `i` of TLB
`id` holds.  Each operation on the bank is described by the slots afterwards.

* `TlbBank.slot_setTlb`, `TlbBank.slot_attach`, `TlbBank.slot_add` — single TLBs.
* `TlbBank.slot_shootdown` — a shootdown invalidates the slots of attached TLBs that map
  the frame, and no other.
* `TlbBank.mem_shootdown` — and answers exactly what those slots held.
-/

namespace DemandPaging

namespace Tlb

theorem slot_of_size_le {t : Tlb} {i : Nat} (h : t.size ≤ i) : t.slot i = {} := by
  rw [slot, Array.getElem?_eq_none h, Option.getD_none]

theorem lt_size_of_valid {t : Tlb} {i : Nat} (h : (t.slot i).valid = true) : i < t.size := by
  by_contra hi
  rw [slot_of_size_le (Nat.le_of_not_lt hi)] at h
  cases h

theorem slot_blank (n i : Nat) : (blank n).slot i = {} := by
  simp only [slot, blank, Array.getElem?_replicate]
  split <;> rfl

theorem slot_eq_getElem {t : Tlb} {i : Nat} (h : i < t.slots.size) : t.slot i = t.slots[i] := by
  rw [slot, Array.getElem?_eq_getElem h, Option.getD_some]

/-- A TLB changed slot by slot, in a way that leaves empty slots alone. -/
theorem slot_map (t : Tlb) {change : Translation → Translation} (hempty : change {} = {})
    (i : Nat) : (⟨t.slots.map change⟩ : Tlb).slot i = change (t.slot i) := by
  simp only [slot, Array.getElem?_map]
  cases t.slots[i]? with
  | none => exact hempty.symm
  | some e => rfl

theorem mem_slotsMapping {t : Tlb} {f : FrameNumber} {i : Nat} :
    i ∈ t.slotsMapping f ↔ (t.slot i).maps f = true := by
  simp only [slotsMapping, List.mem_filter, List.mem_range, and_iff_right_iff_imp]
  intro h
  exact lt_size_of_valid (Translation.valid_of_maps h)

theorem mem_shootdown {t : Tlb} {f : FrameNumber} {c : Translation} :
    c ∈ (t.shootdown f).1 ↔ ∃ i, t.slot i = c ∧ c.maps f = true := by
  simp only [shootdown, List.mem_map, mem_slotsMapping]
  constructor
  · rintro ⟨i, hi, rfl⟩
    exact ⟨i, rfl, hi⟩
  · rintro ⟨i, rfl, hi⟩
    exact ⟨i, hi, rfl⟩

end Tlb

namespace TlbBank

/-- What a slot of a TLB holds. -/
def slot (b : TlbBank) (id : TlbId) (i : Nat) : Translation := (b.tlb id).slot i

/-! ## TLBs that are gone -/

theorem tlb_of_not_live {b : TlbBank} {id : TlbId} (h : b.live id = false) :
    b.tlb id = ⟨#[]⟩ := by
  rw [live, Option.isSome_eq_false_iff, Option.isNone_iff_eq_none] at h
  rw [tlb, h, Option.getD_none]

theorem slot_of_not_live {b : TlbBank} {id : TlbId} (h : b.live id = false) (i : Nat) :
    b.slot id i = {} := by
  rw [slot, tlb_of_not_live h]
  rfl

theorem live_of_valid {b : TlbBank} {id : TlbId} {i : Nat} (h : (b.slot id i).valid = true) :
    b.live id = true := by
  by_contra hl
  rw [slot_of_not_live (Bool.eq_false_iff.2 hl)] at h
  cases h

theorem live_of_size_pos {b : TlbBank} {id : TlbId} (h : 0 < (b.tlb id).size) :
    b.live id = true := by
  by_contra hl
  rw [tlb_of_not_live (Bool.eq_false_iff.2 hl)] at h
  exact absurd h (Nat.lt_irrefl 0)

/-! ## Replacing a TLB -/

@[simp] theorem attached_setTlb (b : TlbBank) (id : TlbId) (t : Tlb) :
    (b.setTlb id t).attached = b.attached := by
  unfold setTlb
  split <;> rfl

theorem setTlb_of_not_live {b : TlbBank} {id : TlbId} (h : b.live id = false) (t : Tlb) :
    b.setTlb id t = b := by
  rw [setTlb, h, if_neg Bool.false_ne_true]

theorem slot_setTlb {b : TlbBank} {id : TlbId} (h : b.live id = true) (t : Tlb) (j : TlbId)
    (i : Nat) : (b.setTlb id t).slot j i = if id = j then t.slot i else b.slot j i := by
  rw [slot, tlb_setTlb b id j t h]
  split <;> rfl

/-- A TLB changed slot by slot, in a way that leaves empty slots alone. -/
theorem slot_setTlb_of_slot {b : TlbBank} {id : TlbId} {t : Tlb}
    {g : Translation → Translation} (ht : ∀ i, t.slot i = g (b.slot id i))
    (hempty : g {} = {}) (j : TlbId) (i : Nat) :
    (b.setTlb id t).slot j i = if id = j then g (b.slot j i) else b.slot j i := by
  by_cases h : b.live id = true
  · rw [slot_setTlb h]
    split
    · rename_i hj
      rw [ht, hj]
    · rfl
  · rw [Bool.not_eq_true] at h
    rw [setTlb_of_not_live h]
    split
    · rename_i hj
      rw [← hj, slot_of_not_live h, hempty]
    · rfl

theorem slot_setTlb_ne {b : TlbBank} {id j : TlbId} (h : j ≠ id) (t : Tlb) (i : Nat) :
    (b.setTlb id t).slot j i = b.slot j i := by
  by_cases hl : b.live id = true
  · rw [slot_setTlb hl, if_neg (Ne.symm h)]
  · rw [setTlb_of_not_live (Bool.eq_false_iff.2 hl)]

theorem size_tlb_setTlb {b : TlbBank} {id : TlbId} {t : Tlb} (ht : t.size = (b.tlb id).size)
    (j : TlbId) : ((b.setTlb id t).tlb j).size = (b.tlb j).size := by
  by_cases h : b.live id = true
  · rw [tlb_setTlb b id j t h]
    split
    · rename_i hj
      rw [ht, hj]
    · rfl
  · rw [setTlb_of_not_live (Bool.eq_false_iff.2 h)]

/-! ## Adding and attaching -/

theorem tlb_add (b : TlbBank) (n : Nat) (j : TlbId) :
    (b.add n).2.tlb j = if j = b.tlbs.size then .blank n else b.tlb j := by
  simp only [tlb, add, Array.getElem?_push]
  split <;> rfl

theorem slot_add (b : TlbBank) (n : Nat) (j : TlbId) (i : Nat) :
    (b.add n).2.slot j i = b.slot j i := by
  rw [slot, tlb_add]
  split
  · rename_i hj
    have hdead : b.live j = false := by
      rw [live, hj, Array.getElem?_eq_none (Nat.le_refl _)]
      rfl
    rw [Tlb.slot_blank, slot_of_not_live hdead]
  · rfl

theorem live_add (b : TlbBank) (n : Nat) (j : TlbId) :
    (b.add n).2.live j = (decide (j = b.tlbs.size) || b.live j) := by
  simp only [live, add, Array.getElem?_push]
  by_cases hj : j = b.tlbs.size <;> simp [hj]

@[simp] theorem tlb_attach (b : TlbBank) (id j : TlbId) : (b.attach id).2.tlb j = b.tlb j := by
  unfold attach
  dsimp only
  split <;> rfl

@[simp] theorem live_attach (b : TlbBank) (id j : TlbId) : (b.attach id).2.live j = b.live j := by
  unfold attach
  dsimp only
  split <;> rfl

@[simp] theorem slot_attach (b : TlbBank) (id j : TlbId) (i : Nat) :
    (b.attach id).2.slot j i = b.slot j i := by
  rw [slot, tlb_attach, slot]

/-- Attaching forgets the TLBs that are gone, and remembers one more. -/
theorem mem_attached_attach {b : TlbBank} {id j : TlbId} :
    j ∈ (b.attach id).2.attached ↔ (j ∈ b.attached ∧ b.live j = true) ∨ j = id := by
  unfold attach liveAttached
  dsimp only
  split
  · rename_i hmem
    simp only [List.mem_filter] at hmem ⊢
    constructor
    · exact Or.inl
    · rintro (h | rfl)
      · exact h
      · exact hmem
  · simp only [List.mem_append, List.mem_filter, List.mem_singleton]

/-! ## Shooting a frame down -/

/-- What one TLB of the bank holds after a frame was removed from it. -/
theorem slot_setTlb_shootdown (b : TlbBank) (f : FrameNumber) (id j : TlbId) (i : Nat) :
    (b.setTlb id ((b.tlb id).shootdown f).2).slot j i =
      if id = j ∧ (b.slot j i).maps f = true then (b.slot j i).invalidate else b.slot j i := by
  rw [slot_setTlb_of_slot (g := fun e => if e.maps f then e.invalidate else e)
    (fun i => Tlb.slot_shootdown _ _ _) rfl]
  by_cases hj : id = j <;> simp [hj]

theorem slot_shootdownIn (f : FrameNumber) (ids : List TlbId) (b : TlbBank) (j : TlbId)
    (i : Nat) :
    (shootdownIn f ids b).2.slot j i =
      if j ∈ ids ∧ (b.slot j i).maps f = true then (b.slot j i).invalidate else b.slot j i := by
  induction ids generalizing b with
  | nil => simp [shootdownIn]
  | cons id ids ih =>
      simp only [shootdownIn, ih, slot_setTlb_shootdown]
      by_cases hm : (b.slot j i).maps f = true
      · by_cases hj : id = j
        · simp [hm, hj]
        · simp [hm, hj, Ne.symm hj]
      · simp [hm]

theorem mem_shootdownIn {f : FrameNumber} {ids : List TlbId} {b : TlbBank} {c : Translation} :
    c ∈ (shootdownIn f ids b).1 ↔ ∃ id ∈ ids, ∃ i, b.slot id i = c ∧ c.maps f = true := by
  induction ids generalizing b with
  | nil => simp [shootdownIn]
  | cons id ids ih =>
      simp only [shootdownIn, List.mem_append, Tlb.mem_shootdown, ih, slot_setTlb_shootdown,
        List.mem_cons, exists_eq_or_imp]
      constructor
      · rintro (h | ⟨j, hj, i, hc, hm⟩)
        · exact Or.inl h
        · by_cases hs : id = j ∧ (b.slot j i).maps f = true
          · -- what was invalidated maps nothing any more
            rw [if_pos hs] at hc
            rw [← hc] at hm
            cases hm
          · rw [if_neg hs] at hc
            exact Or.inr ⟨j, hj, i, hc, hm⟩
      · rintro (h | ⟨j, hj, i, hc, hm⟩)
        · exact Or.inl h
        · by_cases hjd : id = j
          · exact Or.inl ⟨i, by rw [hjd]; exact hc, hm⟩
          · exact Or.inr ⟨j, hj, i, by rw [if_neg (fun h => hjd h.1)]; exact hc, hm⟩

theorem live_shootdownIn (f : FrameNumber) (ids : List TlbId) (b : TlbBank) (j : TlbId) :
    (shootdownIn f ids b).2.live j = b.live j := by
  induction ids generalizing b with
  | nil => rfl
  | cons id ids ih => simp only [shootdownIn, ih, live_setTlb]

theorem attached_shootdownIn (f : FrameNumber) (ids : List TlbId) (b : TlbBank) :
    (shootdownIn f ids b).2.attached = b.attached := by
  induction ids generalizing b with
  | nil => rfl
  | cons id ids ih => simp only [shootdownIn, ih, attached_setTlb]

theorem size_shootdownIn (f : FrameNumber) (ids : List TlbId) (b : TlbBank) (j : TlbId) :
    ((shootdownIn f ids b).2.tlb j).size = (b.tlb j).size := by
  induction ids generalizing b with
  | nil => rfl
  | cons id ids ih => simp only [shootdownIn, ih, size_tlb_setTlb (Tlb.size_shootdown _ _)]

theorem mem_liveAttached {b : TlbBank} {id : TlbId} :
    id ∈ b.liveAttached ↔ id ∈ b.attached ∧ b.live id = true := by
  simp [liveAttached]

/-- **A shootdown invalidates the slots of attached TLBs that map the frame**, and leaves
every other slot alone. -/
theorem slot_shootdown (b : TlbBank) (f : FrameNumber) (j : TlbId) (i : Nat) :
    (b.shootdown f).2.slot j i =
      if j ∈ b.attached ∧ (b.slot j i).maps f = true then (b.slot j i).invalidate
      else b.slot j i := by
  rw [shootdown, slot_shootdownIn]
  by_cases hm : (b.slot j i).maps f = true
  · have hlive : b.live j = true := live_of_valid (Translation.valid_of_maps hm)
    simp only [mem_liveAttached, hlive, and_true]
  · simp [hm]

/-- **A shootdown answers what it invalidated.** -/
theorem mem_shootdown {b : TlbBank} {f : FrameNumber} {c : Translation} :
    c ∈ (b.shootdown f).1 ↔ ∃ id ∈ b.attached, ∃ i, b.slot id i = c ∧ c.maps f = true := by
  rw [shootdown, mem_shootdownIn]
  constructor
  · rintro ⟨id, hid, h⟩
    exact ⟨id, (mem_liveAttached.1 hid).1, h⟩
  · rintro ⟨id, hid, i, rfl, hm⟩
    have hlive : b.live id = true := live_of_valid (Translation.valid_of_maps hm)
    exact ⟨id, mem_liveAttached.2 ⟨hid, hlive⟩, i, rfl, hm⟩

@[simp] theorem live_shootdown (b : TlbBank) (f : FrameNumber) (j : TlbId) :
    (b.shootdown f).2.live j = b.live j :=
  live_shootdownIn f _ b j

@[simp] theorem attached_shootdown (b : TlbBank) (f : FrameNumber) :
    (b.shootdown f).2.attached = b.attached :=
  attached_shootdownIn f _ b

@[simp] theorem size_tlb_shootdown (b : TlbBank) (f : FrameNumber) (j : TlbId) :
    ((b.shootdown f).2.tlb j).size = (b.tlb j).size :=
  size_shootdownIn f _ b j

end TlbBank

end DemandPaging
