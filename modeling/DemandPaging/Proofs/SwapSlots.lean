import DemandPaging.Swap.Store

/-!
# The slots of the swap store

Which page has which slot, after transfers that may fail and slots that are used again.

* `SwapStore.Sound` — no slot is held twice, held while it is free, free twice, or past
  the end of the file.
* `SwapStore.PlaceFor` — where a page is written: the slot it has, or one that no page has.
* `SwapStore.writeOut_spec`, `SwapStore.readIn_spec`, `SwapStore.releaseAll_spec` — what
  the operations do to slots and file.
-/

namespace DemandPaging

namespace SwapStore

variable {F : Type}

/-- Slots are handed out to one page at a time. -/
structure Sound (s : SwapStore F) : Prop where
  /-- No two pages have one slot. -/
  distinct : ∀ {k l : PageKey} {a : SwapSlot}, s.slots[k]? = some a → s.slots[l]? = some a → k = l
  /-- A page's slot lies in the file. -/
  below : ∀ {k : PageKey} {a : SwapSlot}, s.slots[k]? = some a → a.index < s.capacity
  /-- So does a free one. -/
  free_below : ∀ {a : SwapSlot}, a ∈ s.free → a.index < s.capacity
  /-- No slot is free twice. -/
  free_nodup : s.free.Nodup
  /-- A free slot is no page's. -/
  free_unused : ∀ {k : PageKey} {a : SwapSlot}, s.slots[k]? = some a → a ∉ s.free

theorem sound_blank (f : F) : Sound { file := f } where
  distinct h := by simp at h
  below h := by simp at h
  free_below h := by simp at h
  free_nodup := List.nodup_nil
  free_unused h := by simp at h

/-! ## Taking a slot -/

/-- The slot that a page has, or else one that no page has. -/
def PlaceFor (s : SwapStore F) (key : PageKey) (a : SwapSlot) : Prop :=
  s.slots[key]? = some a ∨ (s.slots[key]? = none ∧ ∀ k : PageKey, s.slots[k]? ≠ some a)

/-- Only the page itself can have the slot that it is written to. -/
theorem PlaceFor.unique {s : SwapStore F} (hs : s.Sound) {key k : PageKey} {a : SwapSlot}
    (h : s.PlaceFor key a) (hk : s.slots[k]? = some a) : k = key := by
  rcases h with h | ⟨-, h⟩
  · exact hs.distinct hk h
  · exact absurd hk (h k)

theorem Sound.allocate {s t : SwapStore F} {a : SwapSlot} (hs : s.Sound)
    (h : s.allocate = (a, t)) :
    t.Sound ∧ t.slots = s.slots ∧ t.file = s.file ∧ a.index < t.capacity ∧ a ∉ t.free ∧
      ∀ k : PageKey, s.slots[k]? ≠ some a := by
  unfold SwapStore.allocate at h
  split at h
  · rename_i slot rest hfree
    obtain ⟨rfl, rfl⟩ := Prod.mk.inj h
    have hmem : slot ∈ s.free := by rw [hfree]; exact List.mem_cons_self
    have hnd : (slot :: rest).Nodup := hfree ▸ hs.free_nodup
    have hrest : ∀ {b}, b ∈ rest → b ∈ s.free := fun hb => by
      rw [hfree]
      exact List.mem_cons_of_mem _ hb
    refine ⟨⟨hs.distinct, hs.below, fun hb => hs.free_below (hrest hb), hnd.of_cons,
      fun hk hb => hs.free_unused hk (hrest hb)⟩, rfl, rfl, hs.free_below hmem,
      (List.nodup_cons.1 hnd).1, fun k hk => hs.free_unused hk hmem⟩
  · rename_i hfree
    obtain ⟨rfl, rfl⟩ := Prod.mk.inj h
    refine ⟨⟨hs.distinct, fun hk => Nat.lt_succ_of_lt (hs.below hk), fun hb => ?_,
      hs.free_nodup, hs.free_unused⟩, rfl, rfl, Nat.lt_succ_self _, ?_, fun k hk => ?_⟩
    · exact Nat.lt_succ_of_lt (hs.free_below hb)
    · rw [hfree]
      exact List.not_mem_nil
    · exact absurd (hs.below hk) (Nat.lt_irrefl _)

/-- Only the slots of pages, the free slots and the capacity matter. -/
theorem Sound.of_same {s t : SwapStore F} (hs : s.Sound) (hslots : t.slots = s.slots)
    (hfree : t.free = s.free) (hcapacity : t.capacity = s.capacity) : t.Sound := by
  cases s
  cases t
  cases hslots
  cases hfree
  cases hcapacity
  exact ⟨hs.distinct, hs.below, hs.free_below, hs.free_nodup, hs.free_unused⟩

/-- A slot that nobody has can be given to a page. -/
theorem Sound.given {s : SwapStore F} (hs : s.Sound) {a : SwapSlot} (hbelow : a.index < s.capacity)
    (hfree : a ∉ s.free) (hunused : ∀ k : PageKey, s.slots[k]? ≠ some a) (key : PageKey) :
    ({ s with slots := s.slots.insert key a } : SwapStore F).Sound := by
  have hlook : ∀ {k : PageKey} {b : SwapSlot}, (s.slots.insert key a)[k]? = some b →
      (k = key ∧ b = a) ∨ s.slots[k]? = some b := by
    intro k b hb
    rw [Std.ExtTreeMap.getElem?_insert] at hb
    split at hb
    · rename_i hk
      exact Or.inl ⟨(Std.LawfulEqCmp.eq_of_compare hk).symm, (Option.some.inj hb).symm⟩
    · exact Or.inr hb
  refine ⟨fun {k l b} hk hl => ?_, fun {k b} hk => ?_, hs.free_below, hs.free_nodup,
    fun {k b} hk => ?_⟩
  · rcases hlook hk with ⟨hk', hb⟩ | hk' <;> rcases hlook hl with ⟨hl', hb'⟩ | hl'
    · exact hk'.trans hl'.symm
    · exact absurd (hb ▸ hl') (hunused l)
    · exact absurd (hb' ▸ hk') (hunused k)
    · exact hs.distinct hk' hl'
  · rcases hlook hk with ⟨-, rfl⟩ | hk
    · exact hbelow
    · exact hs.below hk
  · rcases hlook hk with ⟨-, rfl⟩ | hk
    · exact hfree
    · exact hs.free_unused hk

/-- A slot that nobody has can become a free one. -/
theorem Sound.returned {s : SwapStore F} (hs : s.Sound) {a : SwapSlot}
    (hbelow : a.index < s.capacity) (hfree : a ∉ s.free)
    (hunused : ∀ k : PageKey, s.slots[k]? ≠ some a) :
    ({ s with free := a :: s.free } : SwapStore F).Sound := by
  refine ⟨hs.distinct, hs.below, fun {b} hb => ?_, List.nodup_cons.2 ⟨hfree, hs.free_nodup⟩,
    fun {k b} hk hb => ?_⟩
  · rcases List.mem_cons.1 hb with rfl | hb
    · exact hbelow
    · exact hs.free_below hb
  · rcases List.mem_cons.1 hb with rfl | hb
    · exact hunused k hk
    · exact hs.free_unused hk hb

/-! ## Writing a page out -/

variable [BackingFile F]

theorem transferOut_spec (s : SwapStore F) (a : SwapSlot) (page : Page) :
    ∃ n f, BackingFile.writeAt s.file a.offset page.toArray = (n, f) ∧
      ((n = pageSize ∧ s.transferOut a page = (.ok (), { s with file := f, writes := s.writes + 1 })) ∨
        (n ≠ pageSize ∧ s.transferOut a page = (.error ⟨a, n⟩, { s with file := f }))) := by
  refine ⟨_, _, rfl, ?_⟩
  unfold transferOut
  dsimp only
  split
  · rename_i h
    exact Or.inl ⟨h, rfl⟩
  · rename_i h
    exact Or.inr ⟨h, rfl⟩

/-- What a write of a page leaves behind: the file after a transfer to a place for the
page, and the page's slot, if the transfer was complete. -/
structure WroteOut (s t : SwapStore F) (key : PageKey) (page : Page) (a : SwapSlot) (n : Nat) :
    Prop where
  sound : t.Sound
  place : s.PlaceFor key a
  file : BackingFile.writeAt s.file a.offset page.toArray = (n, t.file)
  slots : ∀ k : PageKey, t.slots[k]? = if key = k ∧ n = pageSize then some a else s.slots[k]?
  reads : t.reads = s.reads
  writes : t.writes = if n = pageSize then s.writes + 1 else s.writes

/-- **A page is written to its own slot or to an unused one**, and it has the slot
afterwards if the transfer was complete. -/
theorem writeOut_spec {s t : SwapStore F} (hs : s.Sound) {key : PageKey} {page : Page}
    {r : Except ShortTransfer SwapSlot} (h : s.writeOut key page = (r, t)) :
    ∃ a n, WroteOut s t key page a n ∧
      ((n = pageSize ∧ r = .ok a) ∨ (n ≠ pageSize ∧ r = .error ⟨a, n⟩)) := by
  unfold writeOut at h
  cases hk : s.slots[key]? with
  | some a =>
      simp only [hk] at h
      obtain ⟨n, f, hf, ⟨hn, ht⟩ | ⟨hn, ht⟩⟩ := s.transferOut_spec a page
      · rw [ht] at h
        obtain ⟨rfl, rfl⟩ := Prod.mk.inj h
        refine ⟨a, n, ⟨hs.of_same rfl rfl rfl, Or.inl hk, hf, fun k => ?_, rfl, by rw [if_pos hn]⟩,
          Or.inl ⟨hn, rfl⟩⟩
        by_cases hkey : key = k
        · simp [← hkey, hk]
        · simp [hkey]
      · rw [ht] at h
        obtain ⟨rfl, rfl⟩ := Prod.mk.inj h
        exact ⟨a, n, ⟨hs.of_same rfl rfl rfl, Or.inl hk, hf, fun k => by simp [hn], rfl,
          by rw [if_neg hn]⟩, Or.inr ⟨hn, rfl⟩⟩
  | none =>
      simp only [hk] at h
      cases ha : s.allocate with
      | mk a u =>
          obtain ⟨hu, hslots, hfile, hbelow, hfree, hunused⟩ := hs.allocate ha
          have hcounts : u.reads = s.reads ∧ u.writes = s.writes := by
            unfold SwapStore.allocate at ha
            split at ha <;> obtain ⟨-, rfl⟩ := Prod.mk.inj ha <;> exact ⟨rfl, rfl⟩
          have hunused' : ∀ k : PageKey, u.slots[k]? ≠ some a := hslots ▸ hunused
          rw [ha] at h
          dsimp only at h
          obtain ⟨n, f, hf, ⟨hn, ht⟩ | ⟨hn, ht⟩⟩ := u.transferOut_spec a page
          · rw [ht] at h
            obtain ⟨rfl, rfl⟩ := Prod.mk.inj h
            have hsound := hu.given hbelow hfree hunused' key
            refine ⟨a, n, ⟨hsound.of_same rfl rfl rfl, Or.inr ⟨hk, hunused⟩, hfile ▸ hf, fun k => ?_,
              hcounts.1, ?_⟩, Or.inl ⟨hn, rfl⟩⟩
            · rw [Std.ExtTreeMap.getElem?_insert, hslots]
              by_cases hkey : key = k <;> simp [hkey, hn]
            · rw [if_pos hn, ← hcounts.2]
          · rw [ht] at h
            obtain ⟨rfl, rfl⟩ := Prod.mk.inj h
            have hsound := hu.returned hbelow hfree hunused'
            refine ⟨a, n, ⟨hsound.of_same rfl rfl rfl, Or.inr ⟨hk, hunused⟩, hfile ▸ hf,
              fun k => by simp [hn, hslots], hcounts.1, ?_⟩, Or.inr ⟨hn, rfl⟩⟩
            rw [if_neg hn, ← hcounts.2]

/-! ## Reading a page back -/

/-- What a read from a slot leaves behind: what the file makes of it, and nothing else. -/
structure ReadFrom (s t : SwapStore F) (a : SwapSlot) (n : Nat) (page : Page) : Prop where
  file : ∃ buffer : Page, BackingFile.readAt s.file a.offset buffer = (n, page, t.file)
  slots : t.slots = s.slots
  free : t.free = s.free
  capacity : t.capacity = s.capacity
  writes : t.writes = s.writes
  reads : t.reads = if n = pageSize then s.reads + 1 else s.reads

theorem ReadFrom.sound {s t : SwapStore F} {a : SwapSlot} {n : Nat} {page : Page}
    (h : ReadFrom s t a n page) (hs : s.Sound) : t.Sound where
  distinct := by
    rw [h.slots]
    exact hs.distinct
  below := by
    rw [h.slots, h.capacity]
    exact hs.below
  free_below := by
    rw [h.free, h.capacity]
    exact hs.free_below
  free_nodup := by
    rw [h.free]
    exact hs.free_nodup
  free_unused := by
    rw [h.slots, h.free]
    exact hs.free_unused

/-- **A page without a slot is not read**; of a page with one, the file answers, and the page
keeps the slot. -/
theorem readIn_spec {s t : SwapStore F} {key : PageKey} {buffer page : Page}
    {r : Except ShortTransfer (Option SwapSlot)} (h : s.readIn key buffer = (r, page, t)) :
    (s.slots[key]? = none ∧ r = .ok none ∧ page = buffer ∧ t = s) ∨
      ∃ a n, s.slots[key]? = some a ∧ ReadFrom s t a n page ∧
        ((n = pageSize ∧ r = .ok (some a)) ∨ (n ≠ pageSize ∧ r = .error ⟨a, n⟩)) := by
  unfold readIn at h
  cases hk : s.slots[key]? with
  | none =>
      simp only [hk, Prod.mk.injEq] at h
      obtain ⟨rfl, rfl, rfl⟩ := h
      exact Or.inl ⟨rfl, rfl, rfl, rfl⟩
  | some a =>
      simp only [hk] at h
      split at h <;> rename_i hn <;> simp only [Prod.mk.injEq] at h <;> obtain ⟨rfl, rfl, rfl⟩ := h
      · exact Or.inr ⟨a, _, rfl, ⟨⟨buffer, rfl⟩, rfl, rfl, rfl, rfl, (if_pos hn).symm⟩,
          Or.inl ⟨hn, rfl⟩⟩
      · exact Or.inr ⟨a, _, rfl, ⟨⟨buffer, rfl⟩, rfl, rfl, rfl, rfl, (if_neg hn).symm⟩,
          Or.inr ⟨hn, rfl⟩⟩

/-! ## Taking slots back -/

omit [BackingFile F]

theorem getElem?_release (s : SwapStore F) (key k : PageKey) :
    (s.release key).slots[k]? = if key = k then none else s.slots[k]? := by
  unfold release
  cases hk : s.slots[key]? with
  | none =>
      dsimp only
      split
      · rename_i h
        rw [← h, hk]
      · rfl
  | some a => simp [Std.ExtTreeMap.getElem?_erase]

theorem Sound.release {s : SwapStore F} (hs : s.Sound) (key : PageKey) : (s.release key).Sound := by
  have hlook := s.getElem?_release key
  unfold SwapStore.release at hlook ⊢
  cases hk : s.slots[key]? with
  | none => exact hs
  | some a =>
      simp only [hk] at hlook ⊢
      have hold : ∀ {k : PageKey} {b}, (s.slots.erase key)[k]? = some b →
          k ≠ key ∧ s.slots[k]? = some b := by
        intro k b hb
        rw [hlook k] at hb
        split at hb
        · cases hb
        · rename_i h
          exact ⟨Ne.symm h, hb⟩
      have herased : ({ s with slots := s.slots.erase key } : SwapStore F).Sound :=
        ⟨fun hk hl => hs.distinct (hold hk).2 (hold hl).2, fun hk => hs.below (hold hk).2,
          hs.free_below, hs.free_nodup, fun hk => hs.free_unused (hold hk).2⟩
      exact herased.returned (hs.below hk) (hs.free_unused hk)
        fun k hka => (hold hka).1 (hs.distinct (hold hka).2 hk)

theorem release_rest (s : SwapStore F) (key : PageKey) :
    (s.release key).file = s.file ∧ (s.release key).capacity = s.capacity ∧
      (s.release key).reads = s.reads ∧ (s.release key).writes = s.writes := by
  unfold release
  split <;> exact ⟨rfl, rfl, rfl, rfl⟩

theorem foldl_release_spec (keys : List PageKey) {s : SwapStore F} (hs : s.Sound) :
    (keys.foldl release s).Sound ∧
      (∀ k : PageKey, (keys.foldl release s).slots[k]? = if k ∈ keys then none else s.slots[k]?) ∧
      (keys.foldl release s).file = s.file ∧ (keys.foldl release s).capacity = s.capacity ∧
      (keys.foldl release s).reads = s.reads ∧ (keys.foldl release s).writes = s.writes := by
  induction keys generalizing s with
  | nil => exact ⟨hs, fun k => by simp, rfl, rfl, rfl, rfl⟩
  | cons key keys ih =>
      obtain ⟨h₁, h₂, h₃, h₄, h₅, h₆⟩ := ih (hs.release key)
      obtain ⟨r₃, r₄, r₅, r₆⟩ := s.release_rest key
      refine ⟨h₁, fun k => ?_, h₃.trans r₃, h₄.trans r₄, h₅.trans r₅, h₆.trans r₆⟩
      rw [List.foldl_cons, h₂, getElem?_release]
      by_cases hk : k ∈ keys
      · simp [hk]
      · by_cases hkey : key = k
        · simp [hkey]
        · simp [hk, hkey, Ne.symm hkey]

/-- What is left when the slots of a process were taken back. -/
structure Released (s t : SwapStore F) (pid : Pid) : Prop where
  sound : t.Sound
  slots : ∀ k : PageKey, t.slots[k]? = if k.pid = pid then none else s.slots[k]?
  file : t.file = s.file
  capacity : t.capacity = s.capacity
  reads : t.reads = s.reads
  writes : t.writes = s.writes

/-- **A process loses all its slots, and no other process any.** -/
theorem releaseAll_spec {s : SwapStore F} (hs : s.Sound) (pid : Pid) :
    Released s (s.releaseAll pid).2 pid := by
  obtain ⟨h₁, h₂, h₃, h₄, h₅, h₆⟩ := foldl_release_spec (PageMap.keysOf s.slots pid) hs
  refine ⟨h₁, fun k => ?_, h₃, h₄, h₅, h₆⟩
  rw [releaseAll, h₂]
  simp only [PageMap.mem_keysOf]
  by_cases hk : k.pid = pid
  · by_cases hm : k ∈ s.slots
    · simp [hk, hm]
    · simp [hk, hm]
  · simp [hk]

end SwapStore

end DemandPaging
