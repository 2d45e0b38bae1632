import DemandPaging.CoreMap
import DemandPaging.Proofs.Mirrors
import Mathlib.Data.List.Nodup

/-!
# Which TLBs a shootdown reaches

TLBs come and go and are written to, and a TLB is attached again at every fault of its processor.
A frame that is shot down then is gone from every TLB that was ever attached, and what the slots
held is answered once for each.

* `TlbBank.after` — the TLBs after some changes, told from a bank without any.
* `TlbBank.EverAttached` — a TLB was attached at some time, told from the changes alone.
* `TlbBank.Listed` — those that are still there are in the list, and no TLB is in it twice.
* `TlbBank.mirrors` — the slots that map a frame; `TlbBank.shootdownIn_copies` — they are answered.
* `CoreMap.shootdown_reaches` — what a shootdown does after any changes.
-/

namespace DemandPaging

/-- What happens to TLBs and to the list of those attached. -/
inductive TlbChange
  | create (slots : Nat)
  | drop (id : TlbId)
  | write (id : TlbId) (i : Nat) (e : Translation)
  | attach (id : TlbId)
  | shootdown (f : FrameNumber)

namespace TlbBank

/-- One change.  A TLB has to be there to be attached. -/
def change (b : TlbBank) : TlbChange → TlbBank
  | .create slots => (b.add slots).2
  | .drop id => b.drop id
  | .write id i e => b.setTlb id ((b.tlb id).write i e)
  | .attach id => if b.live id = true then (b.attach id).2 else b
  | .shootdown f => (b.shootdown f).2

/-- The TLBs after some changes, the last one first, where there were none before. -/
def after : List TlbChange → TlbBank
  | [] => {}
  | x :: earlier => (after earlier).change x

/-- Was the TLB attached at some time, by one of the changes? -/
def EverAttached : List TlbChange → TlbId → Prop
  | [], _ => False
  | x :: earlier, id =>
    (x = .attach id ∧ (after earlier).live id = true) ∨ EverAttached earlier id

/-! ## One change -/

theorem live_drop (b : TlbBank) (id j : TlbId) :
    (b.drop id).live j = (decide (j ≠ id) && b.live j) := by
  simp only [live, drop, Array.getElem?_setIfInBounds]
  by_cases hj : id = j
  · subst hj
    rw [if_pos rfl]
    split <;> simp
  · simp [hj, Ne.symm hj]

/-- A TLB that is there after a change was there before, unless it is new. -/
theorem live_change {b : TlbBank} {x : TlbChange} {id : TlbId} (h : (b.change x).live id = true) :
    id = b.tlbs.size ∨ b.live id = true := by
  cases x with
  | create slots =>
    rw [change, live_add, Bool.or_eq_true, decide_eq_true_eq] at h
    exact h
  | drop j =>
    rw [change, live_drop, Bool.and_eq_true] at h
    exact .inr h.2
  | write j i e =>
    rw [change, live_setTlb] at h
    exact .inr h
  | attach j =>
    rw [change] at h
    split at h
    · exact .inr (live_attach b j id ▸ h)
    · exact .inr h
  | shootdown f => exact .inr (live_shootdown b f id ▸ h)

theorem lt_size_of_live {b : TlbBank} {id : TlbId} (h : b.live id = true) : id < b.tlbs.size := by
  by_contra hlt
  rw [live, Array.getElem?_eq_none (Nat.le_of_not_lt hlt)] at h
  cases h

theorem size_tlbs_setTlb (b : TlbBank) (id : TlbId) (t : Tlb) :
    (b.setTlb id t).tlbs.size = b.tlbs.size := by
  unfold setTlb
  split
  · exact Array.size_setIfInBounds
  · rfl

theorem size_tlbs_shootdownIn (f : FrameNumber) (ids : List TlbId) (b : TlbBank) :
    (shootdownIn f ids b).2.tlbs.size = b.tlbs.size := by
  induction ids generalizing b with
  | nil => rfl
  | cons id ids ih => simp only [shootdownIn, ih, size_tlbs_setTlb]

/-- Numbers of TLBs are never used again. -/
theorem size_le_change (b : TlbBank) (x : TlbChange) : b.tlbs.size ≤ (b.change x).tlbs.size := by
  cases x with
  | create slots => simp [change, add]
  | drop id => simp [change, drop]
  | write id i e => exact Nat.le_of_eq (size_tlbs_setTlb b id _).symm
  | attach id =>
    rw [change, attach]
    split
    · split <;> exact Nat.le_refl _
    · exact Nat.le_refl _
  | shootdown f => exact Nat.le_of_eq (size_tlbs_shootdownIn f _ b).symm

/-- Only attaching changes the list, which forgets TLBs that are gone then. -/
theorem mem_attached_change {b : TlbBank} {x : TlbChange} {id : TlbId} :
    id ∈ (b.change x).attached ↔
      (x = .attach id ∧ b.live id = true) ∨
        (id ∈ b.attached ∧ ∀ j, x = .attach j → b.live j = true → b.live id = true) := by
  cases x with
  | attach j =>
    rw [change]
    by_cases hj : b.live j = true
    · rw [if_pos hj, mem_attached_attach]
      constructor
      · rintro (⟨hmem, hlive⟩ | rfl)
        · exact .inr ⟨hmem, fun _ _ _ => hlive⟩
        · exact .inl ⟨rfl, hj⟩
      · rintro (⟨hx, -⟩ | ⟨hmem, hlive⟩)
        · exact .inr (TlbChange.attach.inj hx).symm
        · exact .inl ⟨hmem, hlive j rfl hj⟩
    · rw [if_neg hj]
      constructor
      · exact fun hmem => .inr ⟨hmem, fun k hk hlive =>
          absurd hlive (TlbChange.attach.inj hk ▸ hj)⟩
      · rintro (⟨hx, hlive⟩ | ⟨hmem, -⟩)
        · exact absurd hlive (TlbChange.attach.inj hx ▸ hj)
        · exact hmem
  | create slots => simp [change, add]
  | drop j => simp [change, drop]
  | write j i e => simp [change]
  | shootdown f => simp [change]

theorem nodup_attached_change {b : TlbBank} (h : b.attached.Nodup) (x : TlbChange) :
    (b.change x).attached.Nodup := by
  cases x with
  | attach id =>
    rw [change]
    split
    · rw [attach]
      split
      · exact h.filter _
      · next hnew =>
        exact (h.filter _).append (List.nodup_singleton id) (List.disjoint_singleton.2 hnew)
    · exact h
  | create slots => exact h
  | drop id => exact h
  | write id i e => rwa [change, attached_setTlb]
  | shootdown f => rwa [change, attached_shootdown]

/-! ## The list after any changes -/

/-- The list of attached TLBs is what it should be, for some TLBs that were ever attached. -/
structure Listed (b : TlbBank) (ever : TlbId → Prop) : Prop where
  nodup : b.attached.Nodup
  /-- No other TLB is in the list. -/
  past : ∀ {id}, id ∈ b.attached → ever id
  /-- One that is still there is. -/
  kept : ∀ {id}, ever id → b.live id = true → id ∈ b.attached
  /-- They all have been there. -/
  known : ∀ {id}, ever id → id < b.tlbs.size

theorem Listed.change {b : TlbBank} {ever : TlbId → Prop} (h : b.Listed ever) (x : TlbChange) :
    (b.change x).Listed fun id => (x = .attach id ∧ b.live id = true) ∨ ever id where
  nodup := nodup_attached_change h.nodup x
  past hmem := (mem_attached_change.1 hmem).imp_right fun hold => h.past hold.1
  kept {id} hever hlive := by
    refine mem_attached_change.2 (hever.imp_right fun hold => ?_)
    -- a TLB that is made now has a number that none had before
    have hthere : b.live id = true :=
      (live_change hlive).resolve_left (Nat.ne_of_lt (h.known hold))
    exact ⟨h.kept hold hthere, fun _ _ _ => hthere⟩
  known hever := by
    refine Nat.lt_of_lt_of_le ?_ (b.size_le_change x)
    rcases hever with ⟨-, hlive⟩ | hold
    · exact lt_size_of_live hlive
    · exact h.known hold

theorem listed_after (changes : List TlbChange) :
    (after changes).Listed (EverAttached changes) := by
  induction changes with
  | nil => exact ⟨List.nodup_nil, fun hmem => absurd hmem List.not_mem_nil, False.elim, False.elim⟩
  | cons x earlier ih => exact ih.change x

/-! ## What is answered -/

/-- The slots of some TLBs that map a frame, one TLB after the other. -/
def mirrors (b : TlbBank) (f : FrameNumber) (ids : List TlbId) : List (TlbId × Nat) :=
  ids.flatMap fun id => ((b.tlb id).slotsMapping f).map (id, ·)

theorem mirrors_cons (b : TlbBank) (f : FrameNumber) (id : TlbId) (ids : List TlbId) :
    b.mirrors f (id :: ids) = ((b.tlb id).slotsMapping f).map (id, ·) ++ b.mirrors f ids :=
  List.flatMap_cons

theorem mem_mirrors {b : TlbBank} {f : FrameNumber} {ids : List TlbId} {id : TlbId} {i : Nat} :
    (id, i) ∈ b.mirrors f ids ↔ id ∈ ids ∧ (b.slot id i).maps f = true := by
  simp only [mirrors, List.mem_flatMap, List.mem_map, Prod.mk.injEq, Tlb.mem_slotsMapping]
  constructor
  · rintro ⟨_, hid, _, hmaps, rfl, rfl⟩
    exact ⟨hid, hmaps⟩
  · rintro ⟨hid, hmaps⟩
    exact ⟨id, hid, i, hmaps, rfl, rfl⟩

theorem nodup_mirrors (b : TlbBank) (f : FrameNumber) {ids : List TlbId} (h : ids.Nodup) :
    (b.mirrors f ids).Nodup := by
  refine List.nodup_flatMap.2 ⟨fun id _ => ?_, h.imp fun {id j} hne => ?_⟩
  · exact (List.nodup_range.filter _).map fun _ _ heq => (Prod.mk.inj heq).2
  · intro place hid hj
    obtain ⟨_, -, rfl⟩ := List.mem_map.1 hid
    obtain ⟨_, -, heq⟩ := List.mem_map.1 hj
    exact hne (Prod.mk.inj heq).1.symm

theorem tlb_setTlb_ne {b : TlbBank} {id j : TlbId} (h : j ≠ id) (t : Tlb) :
    (b.setTlb id t).tlb j = b.tlb j := by
  by_cases hl : b.live id = true
  · rw [tlb_setTlb b id j t hl, if_neg (Ne.symm h)]
  · rw [setTlb_of_not_live (Bool.eq_false_iff.2 hl)]

/-- **What is answered is what the slots held**, if no TLB is visited twice: what a visit takes out
of one TLB is not missed in the next. -/
theorem shootdownIn_copies (f : FrameNumber) {ids : List TlbId} (h : ids.Nodup) (b : TlbBank) :
    (shootdownIn f ids b).1 = (b.mirrors f ids).map fun place => b.slot place.1 place.2 := by
  induction ids generalizing b with
  | nil => rfl
  | cons id ids ih =>
    obtain ⟨hid, hids⟩ := List.nodup_cons.1 h
    have hrest : ∀ j ∈ ids, (b.setTlb id ((b.tlb id).shootdown f).2).tlb j = b.tlb j :=
      fun j hj => tlb_setTlb_ne (ne_of_mem_of_not_mem hj hid) _
    have hmirrors : (b.setTlb id ((b.tlb id).shootdown f).2).mirrors f ids = b.mirrors f ids :=
      List.flatMap_congr fun j hj => by rw [hrest j hj]
    simp only [shootdownIn, ih hids, hmirrors]
    rw [mirrors_cons, List.map_append, List.map_map]
    refine congrArg₂ _ rfl (List.map_congr_left fun place hplace => ?_)
    rw [slot, hrest place.1 (mem_mirrors.1 hplace).1, slot]

/-! ## What a shootdown does -/

/-- What comes of shooting a frame down, `attached` being the TLBs that were ever attached. -/
structure ShotDown (b : TlbBank) (f : FrameNumber) (attached : TlbId → Prop)
    (copies : List Translation) (t : TlbBank) : Prop where
  /-- None of them maps the frame any more. -/
  gone : ∀ {id : TlbId}, attached id → ∀ i, (t.slot id i).maps f = false
  /-- What their slots held that mapped it is answered, once for each slot. -/
  answered : ∃ places : List (TlbId × Nat), places.Nodup ∧
    (∀ id i, (id, i) ∈ places ↔ attached id ∧ (b.slot id i).maps f = true) ∧
      copies = places.map fun place => b.slot place.1 place.2
  /-- These slots are invalid from then on. -/
  invalid : ∀ {id : TlbId} {i : Nat}, attached id → (b.slot id i).maps f = true →
    t.slot id i = (b.slot id i).invalidate
  /-- Every other slot holds what it held. -/
  spared : ∀ {id : TlbId} {i : Nat}, ¬ (attached id ∧ (b.slot id i).maps f = true) →
    t.slot id i = b.slot id i
  /-- No TLB comes or goes, or has another number of slots. -/
  live : ∀ id, t.live id = b.live id
  size : ∀ id, (t.tlb id).size = (b.tlb id).size

variable {b : TlbBank} {ever : TlbId → Prop} {f : FrameNumber}

/-- A TLB with a slot that maps a frame is still there, so it is listed if it ever was. -/
theorem Listed.mem_attached_iff (h : b.Listed ever) {id : TlbId} {i : Nat}
    (hmaps : (b.slot id i).maps f = true) : id ∈ b.attached ↔ ever id := by
  constructor
  · intro hmem
    exact h.past hmem
  · intro hever
    exact h.kept hever (live_of_valid (Translation.valid_of_maps hmaps))

theorem Listed.shotDown (h : b.Listed ever) (f : FrameNumber) :
    b.ShotDown f ever (b.shootdown f).1 (b.shootdown f).2 where
  gone {id} hever i := by
    rw [slot_shootdown]
    split
    · exact Translation.maps_invalidate _ f
    · next hother =>
      by_contra hmaps
      rw [Bool.not_eq_false] at hmaps
      exact hother ⟨(h.mem_attached_iff hmaps).2 hever, hmaps⟩
  answered := by
    have hnodup : b.liveAttached.Nodup := h.nodup.filter _
    refine ⟨b.mirrors f b.liveAttached, b.nodup_mirrors f hnodup, fun id i => ?_,
      shootdownIn_copies f hnodup b⟩
    rw [mem_mirrors, mem_liveAttached]
    constructor
    · rintro ⟨⟨hmem, -⟩, hmaps⟩
      exact ⟨h.past hmem, hmaps⟩
    · rintro ⟨hever, hmaps⟩
      exact ⟨⟨(h.mem_attached_iff hmaps).2 hever, live_of_valid (Translation.valid_of_maps hmaps)⟩,
        hmaps⟩
  invalid {id i} hever hmaps := by
    rw [slot_shootdown, if_pos ⟨(h.mem_attached_iff hmaps).2 hever, hmaps⟩]
  spared {id i} hother := by
    rw [slot_shootdown, if_neg]
    rintro ⟨hmem, hmaps⟩
    exact hother ⟨h.past hmem, hmaps⟩
  live id := b.live_shootdown f id
  size id := b.size_tlb_shootdown f id

end TlbBank

namespace CoreMap

/-- **A shootdown reaches every mirror of a frame, and each once.**  Whatever happened to TLBs
before, and however often each was attached, none is in the list twice.  All tables but the TLBs stay
as they are. -/
theorem shootdown_reaches (c : CoreMap) (changes : List TlbChange) (f : FrameNumber) :
    (TlbBank.after changes).attached.Nodup ∧
      ∃ (copies : List Translation) (tlbs : TlbBank),
        ({ c with tlbs := .after changes } : CoreMap).shootdown f = (copies, { c with tlbs }) ∧
          (TlbBank.after changes).ShotDown f (TlbBank.EverAttached changes) copies tlbs := by
  have h := TlbBank.listed_after changes
  exact ⟨h.nodup, _, _, rfl, h.shotDown f⟩

end CoreMap

end DemandPaging
