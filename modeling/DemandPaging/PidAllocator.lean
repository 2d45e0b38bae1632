import DemandPaging.Fault

/-!
# Handing out ids

Ids are handed out from 0 on.  One that is given back is handed out again before
a new one, the last one given back first.

* `PidAllocator.alloc`, `PidAllocator.dealloc`.
* `PidAllocator.live` — the ids that somebody has; `PidAllocator.Sound.alloc` and
  `PidAllocator.Sound.dealloc` say how they change.
-/

namespace DemandPaging

/-- The ids that were handed out so far, and those of them given back. -/
structure PidAllocator where
  /-- ids from here on were never handed out -/
  next : Nat := 0
  /-- ids given back, the last one first -/
  recycled : List Nat := []
  deriving DecidableEq, Repr, Inhabited

namespace PidAllocator

/-- Hands out an id. -/
def alloc (a : PidAllocator) : Nat × PidAllocator :=
  match a.recycled with
  | id :: rest => (id, { a with recycled := rest })
  | [] => (a.next, { a with next := a.next + 1 })

/-- Gives an id back, which somebody has to have. -/
def dealloc (a : PidAllocator) (id : Nat) : Except Halt PidAllocator :=
  if a.next ≤ id then .error (.neverAllocated id)
  else if id ∈ a.recycled then .error (.givenBackTwice id)
  else .ok { a with recycled := id :: a.recycled }

/-- Has somebody the id? -/
def live (a : PidAllocator) (id : Nat) : Prop := id < a.next ∧ id ∉ a.recycled

/-- An id can be given back exactly if somebody has it. -/
theorem dealloc_isOk_iff (a : PidAllocator) (id : Nat) :
    (a.dealloc id).isOk = true ↔ a.live id := by
  unfold dealloc live
  by_cases h : a.next ≤ id
  · simp only [h, if_true, Except.isOk, Except.toBool, Bool.false_eq_true, false_iff]
    exact fun hl => absurd hl.1 (Nat.not_lt.2 h)
  · by_cases hm : id ∈ a.recycled <;>
      simp [h, hm, Except.isOk, Except.toBool, Nat.lt_of_not_le h]

/-- Ids that were given back are noted once each, and were handed out before. -/
structure Sound (a : PidAllocator) : Prop where
  nodup : a.recycled.Nodup
  below : ∀ id ∈ a.recycled, id < a.next

theorem sound_empty : Sound {} := ⟨List.nodup_nil, fun _ h => by cases h⟩

/-- **Nobody has the id that is handed out next**, and afterwards somebody has it. -/
theorem Sound.alloc {a : PidAllocator} (h : a.Sound) :
    ¬ a.live a.alloc.1 ∧ a.alloc.2.Sound ∧ ∀ id, a.alloc.2.live id ↔ a.live id ∨ id = a.alloc.1 := by
  obtain ⟨next, recycled⟩ := a
  cases recycled with
  | nil =>
      refine ⟨fun hl => Nat.lt_irrefl _ hl.1, ⟨List.nodup_nil, fun _ hid => by cases hid⟩,
        fun id => ?_⟩
      simp only [PidAllocator.alloc, live, List.not_mem_nil, not_false_eq_true, and_true]
      omega
  | cons first rest =>
      obtain ⟨hnot, hnodup⟩ := List.nodup_cons.1 h.nodup
      have hlt := h.below first List.mem_cons_self
      refine ⟨fun hl => hl.2 List.mem_cons_self,
        ⟨hnodup, fun id hid => h.below id (List.mem_cons_of_mem _ hid)⟩, fun id => ?_⟩
      simp only [PidAllocator.alloc, live, List.mem_cons, not_or]
      by_cases hid : id = first
      · subst hid
        exact ⟨fun _ => Or.inr rfl, fun _ => ⟨hlt, hnot⟩⟩
      · simp [hid]

/-- **Nobody has an id any more that was given back.** -/
theorem Sound.dealloc {a b : PidAllocator} {id : Nat} (h : a.Sound) (hb : a.dealloc id = .ok b) :
    b.Sound ∧ ∀ n, b.live n ↔ a.live n ∧ n ≠ id := by
  unfold PidAllocator.dealloc at hb
  split at hb
  · cases hb
  · rename_i hlt
    split at hb
    · cases hb
    · rename_i hnot
      obtain rfl := Except.ok.inj hb
      refine ⟨⟨List.nodup_cons.2 ⟨hnot, h.nodup⟩, fun n hn => ?_⟩, fun n => ?_⟩
      · rcases List.mem_cons.1 hn with rfl | hn
        · exact Nat.lt_of_not_le hlt
        · exact h.below n hn
      · simp only [live, List.mem_cons, not_or]
        exact ⟨fun ⟨hn, hne, hm⟩ => ⟨⟨hn, hm⟩, hne⟩, fun ⟨⟨hn, hm⟩, hne⟩ => ⟨hn, hne, hm⟩⟩

/-- An id that somebody has can be given back. -/
theorem exists_dealloc {a : PidAllocator} {id : Nat} (h : a.live id) :
    ∃ b, a.dealloc id = .ok b := by
  have hok := (a.dealloc_isOk_iff id).2 h
  cases hd : a.dealloc id with
  | ok b => exact ⟨b, rfl⟩
  | error e =>
      rw [hd] at hok
      cases hok

end PidAllocator

end DemandPaging
