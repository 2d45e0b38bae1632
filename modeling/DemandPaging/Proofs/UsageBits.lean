import DemandPaging.Pager
import DemandPaging.Tlb.Snapshot

/-!
# What folding and touching do to the status bits

An entry and its copies differ in their two usage bits only.  `Translation.bare` is
what they share, and `Translation.absorb` is an entry after several copies were
folded back into it.

* `Translation.bit_absorb` — a bit is set after folding exactly if it was set in the
  entry or in a copy that is still one of the entry.
* `Paging.getElem?_foldCopies`, `Paging.getElem?_foldSlots` — the two ways in which the
  page table takes bits back are both an `absorb`, entry by entry.
-/

namespace DemandPaging

/-! ## The bit that shows a usage -/

/-- The status bit that shows a usage. -/
def Usage.bit : Usage → EntryFlags → Bool
  | .referenced, f => f.referenced
  | .written, f => f.dirty

namespace Translation

theorem maps_iff {e : Translation} {f : FrameNumber} :
    e.maps f = true ↔ e.flags.valid = true ∧ e.frame = some f := by
  obtain ⟨p, fr, fl⟩ := e
  cases fr <;> simp [maps, valid]

theorem valid_iff {e : Translation} :
    e.valid = true ↔ ∃ f, e.maps f = true := by
  obtain ⟨p, fr, fl⟩ := e
  cases fr <;> simp [maps_iff, valid]

theorem valid_of_maps {e : Translation} {f : FrameNumber} (h : e.maps f = true) :
    e.valid = true :=
  valid_iff.2 ⟨f, h⟩

@[simp] theorem maps_invalidate (e : Translation) (f : FrameNumber) :
    e.invalidate.maps f = false := rfl

theorem maps_unique {e : Translation} {f g : FrameNumber} (hf : e.maps f = true)
    (hg : e.maps g = true) : f = g :=
  Option.some.inj ((maps_iff.1 hf).2.symm.trans (maps_iff.1 hg).2)

/-- An access sets the bits of the usages that it counts for. -/
theorem bit_touch (u : Usage) (e : Translation) (w : Bool) :
    u.bit (e.touch w).flags = (u.bit e.flags || u.counts w) := by
  cases u <;> simp [Usage.bit, Usage.counts, touch]

theorem bit_fold (u : Usage) (e copy : Translation) :
    u.bit (e.fold copy).flags = (u.bit e.flags || u.bit copy.flags) := by
  cases u <;> rfl

/-! ## What an entry and its copies share -/

/-- The entry with its usage bits cleared. -/
def bare (e : Translation) : Translation :=
  { e with flags := { e.flags with referenced := false, dirty := false } }

theorem bare_eq_iff {e d : Translation} :
    e.bare = d.bare ↔ e.page = d.page ∧ e.frame = d.frame ∧ e.flags.valid = d.flags.valid ∧
      e.flags.readOnly = d.flags.readOnly := by
  obtain ⟨p, f, v, r, a, b⟩ := e
  obtain ⟨p', f', v', r', a', b'⟩ := d
  simp [bare]

theorem maps_congr {e d : Translation} (h : e.bare = d.bare) (f : FrameNumber) :
    e.maps f = d.maps f := by
  obtain ⟨-, hf, hv, -⟩ := bare_eq_iff.1 h
  rw [Bool.eq_iff_iff, maps_iff, maps_iff, hf, hv]

theorem current_congr {e d : Translation} (h : e.bare = d.bare) (copy : Translation) :
    PageTable.current e copy = PageTable.current d copy := by
  obtain ⟨hp, hf, -, -⟩ := bare_eq_iff.1 h
  rw [PageTable.current, PageTable.current, hp, hf]

theorem current_iff {e copy : Translation} :
    PageTable.current e copy = true ↔ e.frame = copy.frame ∧ e.page = copy.page := by
  simp [PageTable.current]

/-! ## Folding several copies -/

/-- The entry after some copies were folded into it, stale ones being passed over. -/
def absorb (e : Translation) (copies : List Translation) : Translation :=
  copies.foldl (fun e copy => if PageTable.current e copy then e.fold copy else e) e

theorem absorb_cons (e copy : Translation) (copies : List Translation) :
    e.absorb (copy :: copies) =
      (if PageTable.current e copy then e.fold copy else e).absorb copies := rfl

theorem bare_ite_fold (c : Bool) (e copy : Translation) :
    (if c then e.fold copy else e).bare = e.bare := by
  cases c <;> rfl

@[simp] theorem bare_absorb (e : Translation) (copies : List Translation) :
    (e.absorb copies).bare = e.bare := by
  induction copies generalizing e with
  | nil => rfl
  | cons copy copies ih => rw [absorb_cons, ih, bare_ite_fold]

/-- **Folding loses no bit and makes none up.** -/
theorem bit_absorb (u : Usage) (e : Translation) (copies : List Translation) :
    u.bit (e.absorb copies).flags = true ↔
      u.bit e.flags = true ∨
        ∃ copy ∈ copies, PageTable.current e copy = true ∧ u.bit copy.flags = true := by
  induction copies generalizing e with
  | nil => simp [absorb]
  | cons copy copies ih =>
      rw [absorb_cons, ih]
      simp only [current_congr (bare_ite_fold _ e copy), List.mem_cons,
        exists_eq_or_imp]
      by_cases hc : PageTable.current e copy = true
      · simp only [hc, if_true, bit_fold, Bool.or_eq_true, true_and, or_assoc]
      · simp [hc]

end Translation

/-! ## Folding into the page table -/

namespace Paging

variable {F : Type}

theorem getElem?_foldCopies (s : Paging F) (key k : PageKey) (copies : List Translation) :
    (s.foldCopies key copies).core.table[k]? =
      if key = k then s.core.table[k]?.map (·.absorb copies) else s.core.table[k]? := by
  suffices h : ∀ t : PageTable,
      (copies.foldl (fun t copy => (t.foldCopy key copy).2) t)[k]? =
        if key = k then t[k]?.map (·.absorb copies) else t[k]? from h _
  induction copies with
  | nil =>
      intro t
      split <;> simp [Translation.absorb]
  | cons copy copies ih =>
      intro t
      rw [List.foldl_cons, ih, PageTable.getElem?_foldCopy]
      split
      · rw [Option.map_map]
        rfl
      · rfl

/-- The valid ones of some slots that hold a page. -/
def holding (slots : List Translation) (p : PageNumber) : List Translation :=
  slots.filter fun e => e.valid && e.page == p

theorem mem_holding {slots : List Translation} {p : PageNumber} {e : Translation} :
    e ∈ holding slots p ↔ e ∈ slots ∧ e.valid = true ∧ e.page = p := by
  simp [holding]

theorem getElem?_foldSlots (t : PageTable) (pid : Pid) (slots : List Translation) (k : PageKey) :
    (foldSlots t pid slots)[k]? =
      if k.pid = pid then t[k]?.map (·.absorb (holding slots k.page)) else t[k]? := by
  induction slots generalizing t with
  | nil =>
      rw [foldSlots, List.foldl_nil]
      split <;> simp [holding, Translation.absorb]
  | cons e slots ih =>
      rw [foldSlots, List.foldl_cons, ← foldSlots, ih]
      by_cases hv : e.valid = true
      · rw [if_pos hv, PageTable.getElem?_foldCopy]
        by_cases hk : (⟨pid, e.page⟩ : PageKey) = k
        · subst hk
          rw [if_pos rfl, if_pos rfl, if_pos rfl, Option.map_map]
          simp only [holding, List.filter_cons, hv, beq_self_eq_true, Bool.and_self, if_true]
          rfl
        · rw [if_neg hk]
          split
          · rename_i hpid
            have hp : ¬ e.page = k.page := by
              intro hp
              refine hk ?_
              cases k
              simp only at hpid hp
              rw [hpid, hp]
            simp [holding, hv, hp]
          · rfl
      · simp [holding, hv]

end Paging

end DemandPaging
