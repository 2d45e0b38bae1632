import Std.Data.ExtTreeMap
import Std.Data.ExtTreeSet
import DemandPaging.PageKey

/-!
# The frame table

Who has each frame: nobody, or one page.  A page's frame may be *pinned*, and is
then not taken from it while the page lives.

* `FrameTable.claim` — gives the first free frame to a page.
* `FrameTable.release` — takes a frame back.
* `FrameTable.owner_claim`, `FrameTable.owner_release` — who has each frame
  afterwards.
* `FrameTable.firstFree_spec`, `FrameTable.firstFree_eq_none` — the first free frame
  is free, all before it have owners, and there is none only if all frames have one.
-/

namespace DemandPaging

/-- The page that has a frame. -/
structure FrameOwner where
  key : PageKey
  /-- the frame stays with the page while it lives -/
  pinned : Bool
  deriving DecidableEq, Repr, Inhabited

/-- Who has each frame.  Frames are given out from 0 on, and those that were given back
before any new one, so that a free frame is found without going through the table. -/
structure FrameTable where
  /-- the number of frames -/
  size : Nat
  /-- the owners of the frames that have one -/
  owners : Std.ExtTreeMap Nat FrameOwner := ∅
  /-- the frames from here on were never given out -/
  fresh : Nat := 0
  /-- the frames that were given back -/
  returned : Std.ExtTreeSet Nat := ∅
  fresh_le : fresh ≤ size
  returned_lt : ∀ f ∈ returned, f < fresh
  mem_owners : ∀ f, f ∈ owners ↔ f < fresh ∧ f ∉ returned

namespace FrameTable

/-- A table of `n` frames that nobody has. -/
def blank (n : Nat) : FrameTable :=
  { size := n, fresh_le := n.zero_le, returned_lt := by simp, mem_owners := by simp }

/-- Who has the frame. -/
def owner (t : FrameTable) (f : FrameNumber) : Option FrameOwner := t.owners[f.val]?

/-- The number of free frames. -/
def freeCount (t : FrameTable) : Nat := t.size - t.owners.size

/-- The first free frame. -/
def firstFree (t : FrameTable) : Option FrameNumber :=
  match t.returned.min? with
  | some f => some ⟨f⟩
  | none => if t.fresh < t.size then some ⟨t.fresh⟩ else none

/-- The table after a frame that was given out before, or the first that was not, was
given to an owner. -/
def assign (t : FrameTable) (f : FrameNumber) (o : FrameOwner) : FrameTable :=
  if h : f.val < t.fresh then
    { t with
      owners := t.owners.insert f.val o
      returned := t.returned.erase f.val
      returned_lt := fun g hg => t.returned_lt g (Std.ExtTreeSet.mem_erase.1 hg).2
      mem_owners := fun g => by
        rw [Std.ExtTreeMap.mem_insert, Std.ExtTreeSet.mem_erase, t.mem_owners,
          Nat.compare_eq_eq]
        by_cases hfg : f.val = g
        · subst hfg; simp [h]
        · simp [hfg] }
  else if h : f.val = t.fresh ∧ t.fresh < t.size then
    { t with
      owners := t.owners.insert f.val o
      fresh := t.fresh + 1
      fresh_le := h.2
      returned_lt := fun g hg => Nat.lt_succ_of_lt (t.returned_lt g hg)
      mem_owners := fun g => by
        rw [Std.ExtTreeMap.mem_insert, t.mem_owners, Nat.compare_eq_eq, h.1]
        by_cases hfg : t.fresh = g
        · subst hfg
          simp only [true_or, true_iff]
          exact ⟨by omega, fun hr => Nat.lt_irrefl _ (t.returned_lt _ hr)⟩
        · simp only [hfg, false_or, and_congr_left_iff]
          omega }
  else t

/-- Gives the first free frame to a page, if a frame is free. -/
def claim (t : FrameTable) (key : PageKey) (pinned : Bool) : Option (FrameNumber × FrameTable) :=
  t.firstFree.map fun f => (f, t.assign f ⟨key, pinned⟩)

/-- Takes a frame back. -/
def release (t : FrameTable) (f : FrameNumber) : FrameTable :=
  if h : f.val < t.fresh then
    { t with
      owners := t.owners.erase f.val
      returned := t.returned.insert f.val
      returned_lt := fun g hg => by
        rcases Std.ExtTreeSet.mem_insert.1 hg with hfg | hg
        · rwa [← Nat.compare_eq_eq.1 hfg]
        · exact t.returned_lt g hg
      mem_owners := fun g => by
        rw [Std.ExtTreeMap.mem_erase, Std.ExtTreeSet.mem_insert, t.mem_owners,
          Nat.compare_eq_eq, ne_eq, Nat.compare_eq_eq]
        by_cases hfg : f.val = g
        · simp [hfg]
        · simp [hfg] }
  else t

/-- May the frame be taken from the page that has it? -/
def evictable (t : FrameTable) (f : FrameNumber) : Bool :=
  match t.owner f with
  | some o => !o.pinned
  | none => false

/-- The frames that somebody has, with their owners, by number. -/
def allocated (t : FrameTable) : List (FrameNumber × FrameOwner) :=
  t.owners.toList.map fun (f, o) => (⟨f⟩, o)

/-- The frames that may be taken from the pages that have them. -/
def candidates (t : FrameTable) : List FrameNumber :=
  (t.allocated.filter fun (_, o) => !o.pinned).map (·.1)

/-- The frames of one process. -/
def framesOf (t : FrameTable) (pid : Pid) : List FrameNumber :=
  (t.allocated.filter fun (_, o) => o.key.pid == pid).map (·.1)

/-! ## Who has a frame afterwards -/

theorem mem_owners_iff {t : FrameTable} {f : FrameNumber} :
    f.val ∈ t.owners ↔ (t.owner f).isSome := Std.ExtTreeMap.mem_iff_isSome_getElem?

theorem lt_fresh_of_owner {t : FrameTable} {f : FrameNumber} {o : FrameOwner}
    (h : t.owner f = some o) : f.val < t.fresh :=
  ((t.mem_owners f.val).1 (mem_owners_iff.2 (Option.isSome_of_eq_some h))).1

theorem lt_size_of_owner {t : FrameTable} {f : FrameNumber} {o : FrameOwner}
    (h : t.owner f = some o) : f.val < t.size :=
  Nat.lt_of_lt_of_le (lt_fresh_of_owner h) t.fresh_le

theorem owner_assign (t : FrameTable) (f g : FrameNumber) (o : FrameOwner)
    (hf : f.val ≤ t.fresh) (h : f.val < t.size) :
    (t.assign f o).owner g = if f = g then some o else t.owner g := by
  cases f
  cases g
  unfold owner assign
  split
  · simp only [Std.ExtTreeMap.getElem?_insert, Nat.compare_eq_eq, FrameNumber.mk.injEq]
  · rename_i hlt
    rw [dif_pos ⟨by omega, by omega⟩]
    simp only [Std.ExtTreeMap.getElem?_insert, Nat.compare_eq_eq, FrameNumber.mk.injEq]

theorem owner_release (t : FrameTable) (f g : FrameNumber) :
    (t.release f).owner g = if f = g then none else t.owner g := by
  unfold release
  split
  · cases f
    cases g
    simp only [owner, Std.ExtTreeMap.getElem?_erase, Nat.compare_eq_eq, FrameNumber.mk.injEq]
  · rename_i hlt
    split
    · rename_i hfg
      subst hfg
      cases ho : t.owner f with
      | none => rfl
      | some o => exact absurd (lt_fresh_of_owner ho) hlt
    · rfl

@[simp] theorem size_assign (t : FrameTable) (f : FrameNumber) (o : FrameOwner) :
    (t.assign f o).size = t.size := by
  unfold assign
  split
  · rfl
  · split <;> rfl

@[simp] theorem size_release (t : FrameTable) (f : FrameNumber) :
    (t.release f).size = t.size := by
  unfold release
  split <;> rfl

theorem mem_allocated {t : FrameTable} {f : FrameNumber} {o : FrameOwner} :
    (f, o) ∈ t.allocated ↔ t.owner f = some o := by
  cases f
  simp [allocated, owner, Std.ExtTreeMap.mem_toList_iff_getElem?_eq_some]

theorem mem_candidates {t : FrameTable} {f : FrameNumber} :
    f ∈ t.candidates ↔ t.evictable f = true := by
  simp only [candidates, evictable, List.mem_map, List.mem_filter, Prod.exists, mem_allocated]
  cases h : t.owner f with
  | none => simp [h]
  | some o => simp [h]

theorem mem_framesOf {t : FrameTable} {f : FrameNumber} {pid : Pid} :
    f ∈ t.framesOf pid ↔ ∃ o, t.owner f = some o ∧ o.key.pid = pid := by
  simp [framesOf, mem_allocated]

/-! ## Free frames -/

/-- The first free frame is free, and all before it have owners. -/
theorem firstFree_spec {t : FrameTable} {f : FrameNumber} (h : t.firstFree = some f) :
    f.val ≤ t.fresh ∧ f.val < t.size ∧ t.owner f = none ∧
      ∀ g : FrameNumber, g.val < f.val → (t.owner g).isSome := by
  have hfresh := t.fresh_le
  unfold firstFree at h
  split at h
  · rename_i k hk
    cases h
    obtain ⟨hmem, hmin⟩ := Std.ExtTreeSet.min?_eq_some_iff_mem_and_forall.1 hk
    have hlt := t.returned_lt k hmem
    refine ⟨by simp only; omega, by simp only; omega, ?_, fun g hg => mem_owners_iff.1 ?_⟩
    · refine Option.not_isSome_iff_eq_none.1 fun hsome => ?_
      exact ((t.mem_owners k).1 (mem_owners_iff.2 hsome)).2 hmem
    · refine (t.mem_owners g.val).2 ⟨by simp only at hg; omega, fun hg' => ?_⟩
      have := Nat.isLE_compare.1 (hmin g.val hg')
      simp only at hg
      omega
  · rename_i hnone
    split at h
    · rename_i hlt
      cases h
      refine ⟨Nat.le_refl _, hlt, ?_, fun g hg => mem_owners_iff.1 ?_⟩
      · refine Option.not_isSome_iff_eq_none.1 fun hsome => ?_
        exact Nat.lt_irrefl _ ((t.mem_owners t.fresh).1 (mem_owners_iff.2 hsome)).1
      · refine (t.mem_owners g.val).2 ⟨hg, ?_⟩
        rw [Std.ExtTreeSet.min?_eq_none_iff.1 hnone]
        simp
    · simp at h

/-- There is no first free frame only if every frame has an owner. -/
theorem firstFree_eq_none {t : FrameTable} :
    t.firstFree = none ↔ ∀ f : FrameNumber, f.val < t.size → (t.owner f).isSome := by
  constructor
  · intro h f hf
    unfold firstFree at h
    split at h
    · simp at h
    · rename_i hnone
      split at h
      · simp at h
      · refine mem_owners_iff.1 ((t.mem_owners f.val).2 ⟨by omega, ?_⟩)
        rw [Std.ExtTreeSet.min?_eq_none_iff.1 hnone]
        simp
  · intro h
    cases hfree : t.firstFree with
    | none => rfl
    | some f =>
      obtain ⟨-, hlt, hnone, -⟩ := firstFree_spec hfree
      have := h f hlt
      simp [hnone] at this

/-- A claimed frame was free, and only its owner changes. -/
theorem owner_claim {t t' : FrameTable} {key : PageKey} {pinned : Bool} {f : FrameNumber}
    (h : t.claim key pinned = some (f, t')) :
    t.owner f = none ∧ ∀ g, t'.owner g = if f = g then some ⟨key, pinned⟩ else t.owner g := by
  simp only [claim, Option.map_eq_some_iff, Prod.mk.injEq] at h
  obtain ⟨g, hg, rfl, rfl⟩ := h
  obtain ⟨hle, hlt, hnone, -⟩ := firstFree_spec hg
  exact ⟨hnone, fun _ => owner_assign _ _ _ _ hle hlt⟩

/-- An ascending list has no more numbers than the range it lies in. -/
theorem length_le_of_ascending (k n : Nat) (fs : List Nat) (hs : fs.Pairwise (· < ·))
    (hk : ∀ f ∈ fs, k ≤ f ∧ f < n) : fs.length ≤ n - k := by
  induction fs generalizing k with
  | nil => simp
  | cons f fs ih =>
    obtain ⟨hf, hs⟩ := List.pairwise_cons.1 hs
    have := hk f (by simp)
    have := ih (f + 1) hs fun g hg => ⟨hf g hg, (hk g (by simp [hg])).2⟩
    simp only [List.length_cons]
    omega

/-- The free frames and those with an owner are all frames. -/
theorem freeCount_add_size_owners (t : FrameTable) : t.freeCount + t.owners.size = t.size := by
  have h := length_le_of_ascending 0 t.size t.owners.keys
    (Std.ExtTreeMap.ordered_keys.imp Nat.compare_eq_lt.1) fun f hf =>
      ⟨f.zero_le, Nat.lt_of_lt_of_le ((t.mem_owners f).1 (Std.ExtTreeMap.mem_keys.1 hf)).1
        t.fresh_le⟩
  rw [Std.ExtTreeMap.length_keys] at h
  simp only [freeCount]
  omega

end FrameTable

end DemandPaging
