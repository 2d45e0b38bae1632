import DemandPaging.PidAllocator
import Mathlib.Data.List.Nodup

/-!
# Who has which id

Somebody has an id from when it is handed out until it is given back.  Ids are handed out and given
back in any order, and it is also tried to give back ids that nobody has.

* `PidAllocator.owned` — the ids that somebody has, told from what was handed out and given back.
* `PidAllocator.peak` — how many it were at most at any one time.
* `PidAllocator.Tracks` — the ids of a list are those that the allocator takes to be somebody's.
* `PidAllocator.ids_accounted` — they do at all times, no more ids are made than were needed at one
  time, and an id cannot be given back exactly if nobody has it.
-/

namespace DemandPaging

/-- What an allocator is used for. -/
inductive IdUse
  | alloc
  | dealloc (id : Nat)

namespace PidAllocator

/-- One use.  An id that cannot be given back leaves the allocator as it was. -/
def use (a : PidAllocator) : IdUse → PidAllocator
  | .alloc => a.alloc.2
  | .dealloc id =>
    match a.dealloc id with
    | .ok b => b
    | .error _ => a

/-- A new allocator after some uses, the last one first. -/
def after : List IdUse → PidAllocator
  | [] => {}
  | u :: earlier => (after earlier).use u

/-- The ids that were handed out and not given back since. -/
def owned : List IdUse → List Nat
  | [] => []
  | .alloc :: earlier => (after earlier).alloc.1 :: owned earlier
  | .dealloc id :: earlier =>
    match (after earlier).dealloc id with
    | .ok _ => (owned earlier).erase id
    | .error _ => owned earlier

/-- The largest number of ids that somebody had at one time. -/
def peak : List IdUse → Nat
  | [] => 0
  | u :: earlier => max (peak earlier) (owned (u :: earlier)).length

/-! ## One use -/

/-- The ids in the list are those that the allocator takes to be somebody's. -/
structure Tracks (a : PidAllocator) (ids : List Nat) : Prop where
  sound : a.Sound
  nodup : ids.Nodup
  mem_iff : ∀ id, id ∈ ids ↔ a.live id

namespace Tracks

variable {a : PidAllocator} {ids : List Nat}

theorem alloc (h : a.Tracks ids) : a.alloc.2.Tracks (a.alloc.1 :: ids) := by
  obtain ⟨hfree, hsound, hlive⟩ := h.sound.alloc
  refine ⟨hsound, List.nodup_cons.2 ⟨fun hmem => hfree ((h.mem_iff _).1 hmem), h.nodup⟩,
    fun id => ?_⟩
  rw [hlive, List.mem_cons, h.mem_iff, or_comm]

theorem dealloc (h : a.Tracks ids) {b : PidAllocator} {id : Nat} (hb : a.dealloc id = .ok b) :
    b.Tracks (ids.erase id) := by
  obtain ⟨hsound, hlive⟩ := h.sound.dealloc hb
  refine ⟨hsound, h.nodup.erase id, fun n => ?_⟩
  rw [hlive, h.nodup.mem_erase_iff, h.mem_iff, and_comm]

/-- The ids of the list and those given back are all ids that were made. -/
theorem perm (h : a.Tracks ids) : (ids ++ a.recycled).Perm (List.range a.next) := by
  have happart : ids.Disjoint a.recycled := fun id hid => ((h.mem_iff id).1 hid).2
  refine (List.perm_ext_iff_of_nodup (h.nodup.append h.sound.nodup happart) List.nodup_range).2
    fun id => ?_
  rw [List.mem_append, List.mem_range, h.mem_iff]
  constructor
  · rintro (hlive | hback)
    · exact hlive.1
    · exact h.sound.below id hback
  · intro hlt
    by_cases hback : id ∈ a.recycled
    · exact .inr hback
    · exact .inl ⟨hlt, hback⟩

theorem length_add (h : a.Tracks ids) : ids.length + a.recycled.length = a.next := by
  simpa using h.perm.length_eq

/-- An id cannot be given back exactly if it is not in the list. -/
theorem refused_iff (h : a.Tracks ids) (id : Nat) :
    (∃ why, a.dealloc id = .error why) ↔ id ∉ ids := by
  rw [h.mem_iff, ← a.dealloc_isOk_iff]
  cases a.dealloc id <;> simp [Except.isOk, Except.toBool]

end Tracks

theorem next_dealloc {a b : PidAllocator} {id : Nat} (hb : a.dealloc id = .ok b) :
    b.next = a.next := by
  unfold dealloc at hb
  split at hb
  · cases hb
  · split at hb
    · cases hb
    · rw [← Except.ok.inj hb]

/-- An id is made only if none of those made before is free. -/
theorem next_use (a : PidAllocator) (u : IdUse) :
    (a.use u).next = a.next ∨ (a.use u).next = a.next + 1 ∧ (a.use u).recycled = [] := by
  cases u with
  | alloc =>
    obtain ⟨next, _ | ⟨id, rest⟩⟩ := a
    · exact .inr ⟨rfl, rfl⟩
    · exact .inl rfl
  | dealloc id =>
    rw [use]
    cases hb : a.dealloc id with
    | ok b => exact .inl (next_dealloc hb)
    | error _ => exact .inl rfl

/-! ## Any number of uses -/

theorem tracks_after (uses : List IdUse) : (after uses).Tracks (owned uses) := by
  induction uses with
  | nil => exact ⟨sound_empty, List.nodup_nil, fun id => by simp [owned, after, live]⟩
  | cons u earlier ih =>
    cases u with
    | alloc => exact ih.alloc
    | dealloc id =>
      rw [after, use, owned]
      cases hb : (after earlier).dealloc id with
      | ok b => exact ih.dealloc hb
      | error _ => exact ih

/-- As many ids are made as somebody has at the time when it is the most. -/
theorem next_after (uses : List IdUse) : (after uses).next = peak uses := by
  induction uses with
  | nil => rfl
  | cons u earlier ih =>
    have hcount := (tracks_after (u :: earlier)).length_add
    have hnext := (after earlier).next_use u
    rw [peak, ← ih]
    rw [after] at hcount ⊢
    rcases hnext with hsame | ⟨hmade, hnone⟩
    · omega
    · rw [hnone, List.length_nil] at hcount
      omega

/-- Two ids are enough where one is given back before the next is asked for. -/
example : (after [.alloc, .dealloc 0, .alloc, .alloc]).next = 2 := by decide

/-- What an allocator does with ids, after some uses of it. -/
structure Accounts (uses : List IdUse) : Prop where
  /-- Nobody has the id that is handed out next. -/
  fresh : (after uses).alloc.1 ∉ owned uses
  /-- Nobody has an id twice, and no two have the same. -/
  owned_nodup : (owned uses).Nodup
  /-- No id is kept twice to be handed out again. -/
  recycled_nodup : (after uses).recycled.Nodup
  /-- Nobody has an id that is kept to be handed out again. -/
  disjoint : ∀ id, ¬ (id ∈ owned uses ∧ id ∈ (after uses).recycled)
  /-- The ids from 0 on, up to `next`, are somebody's or kept; and there are no others. -/
  covered : ∀ id, id ∈ owned uses ∨ id ∈ (after uses).recycled ↔ id < (after uses).next
  /-- There are as many ids as somebody had at one time. -/
  highest : (after uses).next = peak uses
  /-- An id cannot be given back exactly if nobody has it. -/
  refused : ∀ id, (∃ why, (after uses).dealloc id = .error why) ↔ id ∉ owned uses

/-- **Every id is one owner's at a time.**  Whatever was handed out and given back before, the ids
that somebody has and those that were given back share out the ids that were made between them. -/
theorem ids_accounted (uses : List IdUse) : Accounts uses := by
  have h := tracks_after uses
  have hnodup : (owned uses ++ (after uses).recycled).Nodup :=
    h.perm.nodup_iff.2 List.nodup_range
  obtain ⟨-, -, happart⟩ := List.nodup_append.1 hnodup
  refine ⟨fun hmem => h.sound.alloc.1 ((h.mem_iff _).1 hmem), h.nodup, h.sound.nodup,
    fun id hboth => happart id hboth.1 id hboth.2 rfl, fun id => ?_, next_after uses, h.refused_iff⟩
  rw [← List.mem_append, h.perm.mem_iff, List.mem_range]

end PidAllocator

end DemandPaging
