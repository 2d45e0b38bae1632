import DemandPaging.Proofs.SwapHistory

/-!
# Where the slots are

Every slot that the swap file has grown to is one page's or is free, whatever was written, read and
taken back before, and however the file answered.

* `SwapStore.Partitioned` — the slots of pages and the free ones share out the file between them.
* `SwapStore.Taken` — the ways of finding a slot for a page, and what is left of the free ones.
* `SwapStore.Thrifty` — the file grows only if it must, and pages keep their slots until these are
  taken back and free again.
* `LoggedFile` — a file that remembers which transfers it was asked for.
* `SwapStore.slots_accounted` — all of this holds of every store that was empty once.
-/

namespace DemandPaging

namespace SwapStore

variable {F : Type}

/-- No slot is lost, and none is handed out twice. -/
structure Partitioned (s : SwapStore F) : Prop extends Sound s where
  /-- A slot in the file is some page's, or free. -/
  covered : ∀ {a : SwapSlot}, a.index < s.capacity →
    (∃ k : PageKey, s.slots[k]? = some a) ∨ a ∈ s.free

theorem partitioned_blank (f : F) : Partitioned { file := f } where
  toSound := sound_blank f
  covered h := absurd h (Nat.not_lt_zero _)

/-! ## Taking a slot -/

/-- How a slot is found for a page, and whether it is given back afterwards. -/
inductive Taken (s t : SwapStore F) (key : PageKey) (a : SwapSlot) (complete : Bool) : Prop
  /-- The page has one. -/
  | own (hkey : s.slots[key]? = some a) (hfree : t.free = s.free)
    (hcapacity : t.capacity = s.capacity)
  /-- The last one that became free. -/
  | reused {rest : List SwapSlot} (hkey : s.slots[key]? = none) (hfirst : s.free = a :: rest)
    (hfree : t.free = if complete then rest else a :: rest) (hcapacity : t.capacity = s.capacity)
  /-- One more, since none is free. -/
  | grown (hkey : s.slots[key]? = none) (hnone : s.free = []) (ha : a = ⟨s.capacity⟩)
    (hfree : t.free = if complete then [] else [a]) (hcapacity : t.capacity = s.capacity + 1)

/-- The slot that a write was meant for. -/
def destination : Except ShortTransfer SwapSlot → SwapSlot
  | .ok a => a
  | .error e => e.slot

variable [BackingFile F] {s t : SwapStore F} {key : PageKey} {page : Page}
  {r : Except ShortTransfer SwapSlot}

theorem taken_of_writeOut (h : s.writeOut key page = (r, t)) :
    Taken s t key (destination r) r.isOk := by
  unfold writeOut at h
  cases hk : s.slots[key]? with
  | some a =>
      simp only [hk] at h
      obtain ⟨n, f, -, ⟨-, ht⟩ | ⟨-, ht⟩⟩ := s.transferOut_spec a page <;> rw [ht] at h <;>
        obtain ⟨rfl, rfl⟩ := Prod.mk.inj h <;> exact .own hk rfl rfl
  | none =>
      simp only [hk] at h
      unfold allocate at h
      cases hfree : s.free with
      | cons a rest =>
          simp only [hfree] at h
          obtain ⟨n, f, -, ⟨-, ht⟩ | ⟨-, ht⟩⟩ :=
            ({ s with free := rest } : SwapStore F).transferOut_spec a page <;> rw [ht] at h <;>
            obtain ⟨rfl, rfl⟩ := Prod.mk.inj h <;> exact .reused hk hfree rfl rfl
      | nil =>
          simp only [hfree] at h
          obtain ⟨n, f, -, ⟨-, ht⟩ | ⟨-, ht⟩⟩ :=
            ({ s with capacity := s.capacity + 1 } : SwapStore F).transferOut_spec ⟨s.capacity⟩
              page <;>
            rw [hfree] at ht <;> rw [ht] at h <;> obtain ⟨rfl, rfl⟩ := Prod.mk.inj h <;>
            exact .grown hk hfree rfl rfl rfl

omit [BackingFile F] in
/-- The slot lies in the file from then on. -/
theorem Taken.below {a : SwapSlot} {complete : Bool} (h : Taken s t key a complete) (hs : s.Sound) :
    a.index < t.capacity := by
  cases h with
  | own hkey _ hcapacity => exact hcapacity ▸ hs.below hkey
  | reused _ hfirst _ hcapacity =>
    exact hcapacity ▸ hs.free_below (hfirst ▸ List.mem_cons_self)
  | grown _ _ ha _ hcapacity =>
    rw [ha, hcapacity]
    exact Nat.lt_succ_self _

omit [BackingFile F] in
theorem Taken.capacity_le {a : SwapSlot} {complete : Bool} (h : Taken s t key a complete) :
    s.capacity ≤ t.capacity := by
  cases h <;> omega

omit [BackingFile F] in
/-- Any other slot is some page's still, or free. -/
theorem Taken.others {a b : SwapSlot} {complete : Bool} (h : Taken s t key a complete)
    (hs : s.Partitioned) (hb : b.index < t.capacity) (hne : b ≠ a) :
    (∃ k : PageKey, s.slots[k]? = some b) ∨ b ∈ t.free := by
  cases h with
  | own _ hfree hcapacity => exact hfree ▸ hs.covered (hcapacity ▸ hb)
  | @reused rest _ hfirst hfree hcapacity =>
    refine (hs.covered (hcapacity ▸ hb)).imp_right fun hmem => ?_
    have hrest : b ∈ rest := (List.mem_cons.1 (hfirst ▸ hmem)).resolve_left hne
    rw [hfree]
    split
    · exact hrest
    · exact List.mem_cons_of_mem a hrest
  | grown _ hnone ha _ hcapacity =>
    have hindex : b.index ≠ s.capacity := fun hi => hne (by rw [ha, ← hi])
    refine (hs.covered (by omega)).imp_right fun hmem => ?_
    simp [hnone] at hmem

omit [BackingFile F] in
/-- If the page was not written, the slot is free again, unless the page had it before. -/
theorem Taken.returned {a : SwapSlot} (h : Taken s t key a false) :
    s.slots[key]? = some a ∨ a ∈ t.free := by
  cases h with
  | own hkey _ _ => exact .inl hkey
  | reused _ _ hfree _ => exact .inr (hfree ▸ List.mem_cons_self)
  | grown _ _ _ hfree _ => exact .inr (hfree ▸ List.mem_cons_self)

/-- Whatever happens to a write, pages that have slots keep them. -/
theorem WroteOut.kept {a : SwapSlot} {n : Nat} (h : WroteOut s t key page a n) {k : PageKey}
    {b : SwapSlot} (hb : s.slots[k]? = some b) : t.slots[k]? = some b := by
  rw [h.slots]
  split
  · next hk =>
    rcases h.place with ha | ⟨hnone, -⟩
    · rw [← ha, hk.1, hb]
    · rw [hk.1, hb] at hnone
      cases hnone
  · exact hb

/-- A read gives no slot out and takes none back. -/
theorem readIn_keeps (s : SwapStore F) (key : PageKey) (buffer : Page) :
    (s.readIn key buffer).2.2.slots = s.slots ∧ (s.readIn key buffer).2.2.free = s.free ∧
      (s.readIn key buffer).2.2.capacity = s.capacity := by
  unfold readIn
  split
  · exact ⟨rfl, rfl, rfl⟩
  · dsimp only
    split <;> exact ⟨rfl, rfl, rfl⟩

/-! ## No slot is lost -/

namespace Partitioned

omit [BackingFile F] in
/-- Only the slots of pages, the free slots and the capacity matter. -/
theorem of_same (hs : s.Partitioned) (hslots : t.slots = s.slots) (hfree : t.free = s.free)
    (hcapacity : t.capacity = s.capacity) : t.Partitioned where
  toSound := hs.toSound.of_same hslots hfree hcapacity
  covered h := by
    rw [hslots, hfree]
    exact hs.covered (hcapacity ▸ h)

/-- A slot that was taken for a page is the page's, or free again. -/
theorem writeOut (hs : s.Partitioned) (h : s.writeOut key page = (r, t)) : t.Partitioned := by
  obtain ⟨a, n, hwrote, hr⟩ := writeOut_spec hs.toSound h
  have htaken := taken_of_writeOut h
  refine ⟨hwrote.sound, fun {b} hb => ?_⟩
  by_cases hba : b = a
  · subst hba
    rcases hr with ⟨hn, rfl⟩ | ⟨-, rfl⟩
    · exact .inl ⟨key, by rw [hwrote.slots, if_pos ⟨rfl, hn⟩]⟩
    · exact (Taken.returned htaken).imp (fun hkey => ⟨key, hwrote.kept hkey⟩) id
  · have hne : b ≠ destination r := by rcases hr with ⟨-, rfl⟩ | ⟨-, rfl⟩ <;> exact hba
    exact (htaken.others hs hb hne).imp (fun ⟨k, hk⟩ => ⟨k, hwrote.kept hk⟩) id

theorem readIn (hs : s.Partitioned) (key : PageKey) (buffer : Page) :
    (s.readIn key buffer).2.2.Partitioned := by
  obtain ⟨hslots, hfree, hcapacity⟩ := s.readIn_keeps key buffer
  exact hs.of_same hslots hfree hcapacity

omit [BackingFile F] in
/-- A slot that a page gives up is free. -/
theorem release (hs : s.Partitioned) (key : PageKey) : (s.release key).Partitioned := by
  refine ⟨hs.toSound.release key, fun {b} hb => ?_⟩
  rw [(s.release_rest key).2.1] at hb
  cases hkey : s.slots[key]? with
  | none =>
    rw [SwapStore.release, hkey]
    exact hs.covered hb
  | some a =>
    have hfree : (s.release key).free = a :: s.free := by rw [SwapStore.release, hkey]
    rw [hfree]
    rcases hs.covered hb with ⟨k, hk⟩ | hb
    · by_cases hne : key = k
      · obtain rfl : a = b := Option.some.inj (hkey.symm.trans (hne ▸ hk))
        exact .inr List.mem_cons_self
      · exact .inl ⟨k, by rw [getElem?_release, if_neg hne, hk]⟩
    · exact .inr (List.mem_cons_of_mem a hb)

omit [BackingFile F] in
theorem releaseAll (hs : s.Partitioned) (pid : Pid) : (s.releaseAll pid).2.Partitioned := by
  unfold SwapStore.releaseAll
  induction PageMap.keysOf s.slots pid generalizing s with
  | nil => exact hs
  | cons key keys ih => exact ih (hs.release key)

theorem use (hs : s.Partitioned) (u : SwapUse) : (s.use u).2.Partitioned := by
  cases u with
  | write k page => exact hs.writeOut (Prod.eta (s.writeOut k page)).symm
  | read k buffer => exact hs.readIn k buffer
  | release pid => exact hs.releaseAll pid

theorem after (hs : s.Partitioned) (uses : List SwapUse) : (s.after uses).Partitioned := by
  induction uses with
  | nil => exact hs
  | cons u earlier ih => exact ih.use u

end Partitioned

/-! ## No slot is wasted -/

/-- How slots are given out and kept from some moment on. -/
structure Thrifty (s : SwapStore F) : Prop where
  /-- The file grows only for a page without a slot, when no slot is free, and by one slot. -/
  grows : ∀ {u : SwapUse}, (s.use u).2.capacity ≠ s.capacity →
    ∃ (key : PageKey) (page : Page), u = .write key page ∧ s.slots[key]? = none ∧ s.free = [] ∧
      (s.use u).2.capacity = s.capacity + 1
  /-- A write that fails changes no page's slot. -/
  failed : ∀ {key : PageKey} {page : Page} {e : ShortTransfer} {t : SwapStore F},
    s.writeOut key page = (.error e, t) → t.slots = s.slots
  /-- After one that succeeds, the page has the slot of the answer. -/
  written : ∀ {key : PageKey} {page : Page} {a : SwapSlot} {t : SwapStore F},
    s.writeOut key page = (.ok a, t) → t.slots[key]? = some a
  /-- A page keeps its slot until the slots of its process are taken back. -/
  kept : ∀ {key : PageKey} {a : SwapSlot}, s.slots[key]? = some a →
    ∀ more : List SwapUse, SwapUse.release key.pid ∉ more → (s.after more).slots[key]? = some a
  /-- Then its pages have none, -/
  released : ∀ {pid : Pid} {key : PageKey},
    (s.use (.release pid)).2.slots[key]? = if key.pid = pid then none else s.slots[key]?
  /-- and every slot that one of them had is free again, beside those that were free before. -/
  freed : ∀ {pid : Pid} {a : SwapSlot}, a ∈ (s.use (.release pid)).2.free ↔
    a ∈ s.free ∨ ∃ key : PageKey, key.pid = pid ∧ s.slots[key]? = some a

/-- One use after which the page's process can still have slots. -/
theorem Sound.kept_use (hs : s.Sound) {u : SwapUse} {a : SwapSlot}
    (hu : u ≠ .release key.pid) (ha : s.slots[key]? = some a) :
    (s.use u).2.slots[key]? = some a := by
  cases u with
  | write k page =>
    obtain ⟨b, n, hwrote, -⟩ := writeOut_spec hs (Prod.eta (s.writeOut k page)).symm
    exact hwrote.kept ha
  | read k buffer =>
    have hslots := (s.readIn_keeps k buffer).1
    exact (congrArg (fun slots : PageMap SwapSlot => slots[key]?) hslots).trans ha
  | release pid =>
    have hslot := (releaseAll_spec hs pid).slots key
    rw [if_neg fun hpid => hu (congrArg SwapUse.release hpid.symm)] at hslot
    exact hslot.trans ha

omit [BackingFile F] in
/-- **The slots of a process are free when they are taken back**, and no others. -/
theorem Partitioned.mem_free_releaseAll (hs : s.Partitioned) {pid : Pid} {a : SwapSlot} :
    a ∈ (s.releaseAll pid).2.free ↔
      a ∈ s.free ∨ ∃ key : PageKey, key.pid = pid ∧ s.slots[key]? = some a := by
  have ht := hs.releaseAll pid
  have hreleased := releaseAll_spec hs.toSound pid
  constructor
  · intro hfree
    have hbelow : a.index < s.capacity := hreleased.capacity ▸ ht.free_below hfree
    rcases hs.covered hbelow with ⟨key, hkey⟩ | hfree'
    · refine .inr ⟨key, ?_, hkey⟩
      -- the page would have kept the slot, which could then not be free
      by_contra hpid
      have hkept : (s.releaseAll pid).2.slots[key]? = some a := by
        rw [hreleased.slots, if_neg hpid, hkey]
      exact ht.free_unused hkept hfree
    · exact .inl hfree'
  · intro hbefore
    have hbelow : a.index < (s.releaseAll pid).2.capacity := by
      rw [hreleased.capacity]
      exact hbefore.elim hs.free_below fun ⟨_, _, hkey⟩ => hs.below hkey
    refine (ht.covered hbelow).resolve_left fun ⟨k, hk⟩ => ?_
    rw [hreleased.slots] at hk
    split at hk
    · cases hk
    · rename_i hpid
      rcases hbefore with hfree | ⟨key, rfl, hkey⟩
      · exact hs.free_unused hk hfree
      · exact hpid (congrArg PageKey.pid (hs.distinct hk hkey))

theorem Partitioned.thrifty (hs : s.Partitioned) : s.Thrifty where
  grows {u} hu := by
    cases u with
    | write k page =>
      cases taken_of_writeOut (Prod.eta (s.writeOut k page)).symm with
      | own _ _ hcapacity => exact absurd hcapacity hu
      | reused _ _ _ hcapacity => exact absurd hcapacity hu
      | grown hkey hnone _ _ hcapacity => exact ⟨k, page, rfl, hkey, hnone, hcapacity⟩
    | read k buffer => exact absurd (s.readIn_keeps k buffer).2.2 hu
    | release pid => exact absurd (releaseAll_spec hs.toSound pid).capacity hu
  failed h := by
    obtain ⟨a, n, hwrote, ⟨-, hr⟩ | ⟨hn, -⟩⟩ := writeOut_spec hs.toSound h
    · cases hr
    · refine Std.ExtTreeMap.ext_getElem? fun k => ?_
      rw [hwrote.slots, if_neg fun hk => hn hk.2]
  written h := by
    obtain ⟨a, n, hwrote, ⟨hn, hr⟩ | ⟨-, hr⟩⟩ := writeOut_spec hs.toSound h
    · rw [hwrote.slots, if_pos ⟨rfl, hn⟩, Except.ok.inj hr]
    · cases hr
  kept {key a} ha more hmore := by
    induction more with
    | nil => exact ha
    | cons u earlier ih =>
      obtain ⟨hu, hearlier⟩ := List.ne_and_not_mem_of_not_mem_cons hmore
      exact (hs.after earlier).toSound.kept_use hu.symm (ih hearlier)
  released {pid key} := (releaseAll_spec hs.toSound pid).slots key
  freed := hs.mem_free_releaseAll

/-! ## Over another file -/

omit [BackingFile F] in
/-- The store over another file. -/
def mapFile {G : Type} (g : F → G) (s : SwapStore F) : SwapStore G where
  file := g s.file
  slots := s.slots
  free := s.free
  capacity := s.capacity
  writes := s.writes
  reads := s.reads

/-- A page is written to the slot it has, or to the next one. -/
theorem destination_writeOut (s : SwapStore F) (key : PageKey) (page : Page) :
    destination (s.writeOut key page).1 = s.slots[key]?.getD s.allocate.1 := by
  unfold writeOut
  cases s.slots[key]? with
  | some a =>
    obtain ⟨n, f, -, ⟨-, ht⟩ | ⟨-, ht⟩⟩ := s.transferOut_spec a page <;> simp only [ht] <;> rfl
  | none =>
    obtain ⟨n, f, -, ⟨-, ht⟩ | ⟨-, ht⟩⟩ := s.allocate.2.transferOut_spec s.allocate.1 page <;>
      simp only [ht] <;> rfl

section

variable {G : Type} [BackingFile G] {g : F → G}

omit [BackingFile F] [BackingFile G] in
theorem mapFile_allocate (s : SwapStore F) :
    (s.mapFile g).allocate = s.allocate.map id (mapFile g) := by
  obtain ⟨file, slots, _ | ⟨a, rest⟩, capacity, writes, reads⟩ := s <;> rfl

theorem mapFile_transferOut {a : SwapSlot}
    (h : BackingFile.writeAt (g s.file) a.offset page.toArray =
      (BackingFile.writeAt s.file a.offset page.toArray).map id g) :
    (s.mapFile g).transferOut a page = (s.transferOut a page).map id (mapFile g) := by
  unfold transferOut
  simp only [mapFile, h, Prod.map_fst, Prod.map_snd, id_eq]
  split <;> rfl

/-- **A page is written out alike** if it is to its slot in the two files. -/
theorem mapFile_writeOut (h : ∀ a, a = destination (s.writeOut key page).1 →
      BackingFile.writeAt (g s.file) a.offset page.toArray =
        (BackingFile.writeAt s.file a.offset page.toArray).map id g) :
    (s.mapFile g).writeOut key page = (s.writeOut key page).map id (mapFile g) := by
  have hslot : (s.mapFile g).slots[key]? = s.slots[key]? := rfl
  rw [destination_writeOut] at h
  unfold writeOut
  cases hkey : s.slots[key]? with
  | some a =>
    simp only [hslot, hkey, mapFile_transferOut (h a (by rw [hkey]; rfl))]
    rcases s.transferOut a page with ⟨_ | _, t⟩ <;> rfl
  | none =>
    have hfile : s.allocate.2.file = s.file := by
      unfold allocate
      split <;> rfl
    have htransfer : (s.allocate.2.mapFile g).transferOut s.allocate.1 page =
        (s.allocate.2.transferOut s.allocate.1 page).map id (mapFile g) :=
      mapFile_transferOut (hfile ▸ h s.allocate.1 (by rw [hkey]; rfl))
    simp only [hslot, hkey, mapFile_allocate, Prod.map_fst, Prod.map_snd, id_eq, htransfer]
    rcases s.allocate.2.transferOut s.allocate.1 page with ⟨_ | _, t⟩ <;> rfl

/-- **A page is read back alike** if it is from its slot in the two files. -/
theorem mapFile_readIn {buffer : Page} (h : ∀ a, s.slots[key]? = some a →
      BackingFile.readAt (g s.file) a.offset buffer =
        (BackingFile.readAt s.file a.offset buffer).map id (·.map id g)) :
    (s.mapFile g).readIn key buffer = (s.readIn key buffer).map id (·.map id (mapFile g)) := by
  have hslot : (s.mapFile g).slots[key]? = s.slots[key]? := rfl
  unfold readIn
  cases hkey : s.slots[key]? with
  | some a =>
    simp only [hkey, mapFile, h a hkey, Prod.map_fst, Prod.map_snd, id_eq]
    split <;> rfl
  | none => simp only [hslot, hkey, Prod.map_apply, id_eq]

omit [BackingFile F] [BackingFile G] in
theorem mapFile_release (s : SwapStore F) (key : PageKey) :
    (s.mapFile g).release key = (s.release key).mapFile g := by
  unfold release
  cases hkey : s.slots[key]? <;> simp only [mapFile, hkey]

omit [BackingFile F] [BackingFile G] in
/-- Slots are taken back whatever the file is. -/
theorem mapFile_releaseAll (s : SwapStore F) (pid : Pid) :
    (s.mapFile g).releaseAll pid = (s.releaseAll pid).map id (mapFile g) := by
  have hkeys : PageMap.keysOf (s.mapFile g).slots pid = PageMap.keysOf s.slots pid := rfl
  simp only [releaseAll, hkeys, Prod.map_apply, id_eq, Prod.mk.injEq, true_and]
  induction PageMap.keysOf s.slots pid generalizing s with
  | nil => rfl
  | cons key keys ih => rw [List.foldl_cons, List.foldl_cons, mapFile_release, ih _ rfl]

end

end SwapStore

/-! ## What the file is asked for -/

/-- A number of bytes to be moved from or to a place of a file. -/
structure Transfer where
  offset : Nat
  count : Nat
  deriving DecidableEq, Repr, Inhabited

/-- A file with a list of the transfers that were asked of it, the last one first. -/
structure LoggedFile (F : Type) where
  file : F
  transfers : List Transfer := []

instance {F : Type} [BackingFile F] : BackingFile (LoggedFile F) where
  readAt {n} f offset buffer :=
    let (moved, buffer, file) := BackingFile.readAt f.file offset buffer
    (moved, buffer, ⟨file, ⟨offset, n⟩ :: f.transfers⟩)
  writeAt f offset data :=
    let (moved, file) := BackingFile.writeAt f.file offset data
    (moved, ⟨file, ⟨offset, data.size⟩ :: f.transfers⟩)
  close f := { f with file := BackingFile.close f.file }

namespace SwapStore

variable {F : Type}

/-- The store over the file itself. -/
def unlogged (s : SwapStore (LoggedFile F)) : SwapStore F where
  file := s.file.file
  slots := s.slots
  free := s.free
  capacity := s.capacity
  writes := s.writes
  reads := s.reads

variable [BackingFile F] {s : SwapStore (LoggedFile F)}

/-- The store does not depend on the log. -/
theorem unlogged_use (s : SwapStore (LoggedFile F)) (u : SwapUse) :
    (s.use u).2.unlogged = (s.unlogged.use u).2 := by
  have h : s.unlogged = s.mapFile LoggedFile.file := rfl
  rw [h]
  cases u with
  | write key page =>
    have hwrite : (s.mapFile LoggedFile.file).writeOut key page = _ :=
      mapFile_writeOut fun _ _ => rfl
    exact (congrArg Prod.snd hwrite).symm
  | read key buffer =>
    have hread : (s.mapFile LoggedFile.file).readIn key buffer = _ := mapFile_readIn fun _ _ => rfl
    exact (congrArg (·.2.2) hread).symm
  | release pid => exact (congrArg Prod.snd (s.mapFile_releaseAll pid)).symm

theorem unlogged_after (s : SwapStore (LoggedFile F)) (uses : List SwapUse) :
    (s.after uses).unlogged = s.unlogged.after uses := by
  induction uses with
  | nil => rfl
  | cons u earlier ih => rw [after, unlogged_use, ih, after]

/-- Only whole pages are moved, and only from and to slots in the file. -/
def Paged (s : SwapStore (LoggedFile F)) : Prop :=
  ∀ x ∈ s.file.transfers,
    x.count = pageSize ∧ pageSize ∣ x.offset ∧ x.offset < s.capacity * pageSize

omit [BackingFile F] in
/-- One more transfer, for a slot in the file. -/
theorem Paged.logged {t : SwapStore (LoggedFile F)} {a : SwapSlot} (hs : s.Paged)
    (hcapacity : s.capacity ≤ t.capacity) (ha : a.index < t.capacity)
    (hlog : t.file.transfers = ⟨a.offset, pageSize⟩ :: s.file.transfers) : t.Paged := by
  intro x hx
  rw [hlog] at hx
  rcases List.mem_cons.1 hx with rfl | hx
  · exact ⟨rfl, Nat.dvd_mul_left _ _, Nat.mul_lt_mul_of_pos_right ha (by decide)⟩
  · obtain ⟨hcount, hoffset, hbelow⟩ := hs x hx
    exact ⟨hcount, hoffset, hbelow.trans_le (Nat.mul_le_mul_right _ hcapacity)⟩

theorem Paged.use (hpaged : s.Paged) (hs : s.Sound) (u : SwapUse) : (s.use u).2.Paged := by
  cases u with
  | write k page =>
    have h := (Prod.eta (s.writeOut k page)).symm
    obtain ⟨a, n, hwrote, hr⟩ := writeOut_spec hs h
    have htaken := taken_of_writeOut h
    have ha : destination (s.writeOut k page).1 = a := by
      rcases hr with ⟨-, hr⟩ | ⟨-, hr⟩ <;> rw [hr] <;> rfl
    refine hpaged.logged htaken.capacity_le (ha ▸ htaken.below hs) ?_
    rw [← page.size_toArray]
    exact congrArg (·.2.transfers) hwrote.file.symm
  | read k buffer =>
    rcases readIn_spec (t := (s.readIn k buffer).2.2) (r := (s.readIn k buffer).1) rfl with
      ⟨-, -, -, ht⟩ | ⟨a, n, ha, hread, -⟩
    · exact (congrArg Paged ht).mpr hpaged
    · obtain ⟨buffer', hfile⟩ := hread.file
      exact hpaged.logged hread.capacity.ge (hread.capacity ▸ hs.below ha)
        (congrArg (·.2.2.transfers) hfile.symm)
  | release pid =>
    have h := releaseAll_spec hs pid
    show (s.releaseAll pid).2.Paged
    rw [Paged, h.file, h.capacity]
    exact hpaged

theorem paged_after (f : F) (uses : List SwapUse) :
    (after { file := (⟨f, []⟩ : LoggedFile F) } uses).Paged := by
  induction uses with
  | nil => intro x hx; cases hx
  | cons u earlier ih => exact ih.use (((partitioned_blank _).after earlier).toSound) u

/-- **Slots are neither lost nor wasted**, whatever is written, read and taken back, in whatever
order, and whether or not the transfers are complete.  After any uses of a store that was empty,
the slots of pages and the free ones share out the file between them; the file grows and pages
change their slots only if they must; and every transfer so far, of which the same store over a
file with a log has the list, moves one slot of the file. -/
theorem slots_accounted (f : F) (uses : List SwapUse) :
    (after { file := f } uses).Partitioned ∧ (after { file := f } uses).Thrifty ∧
      ∃ t : SwapStore (LoggedFile F), after { file := ⟨f, []⟩ } uses = t ∧
        t.unlogged = after { file := f } uses ∧
        ∀ x ∈ t.file.transfers, x.count = pageSize ∧ pageSize ∣ x.offset ∧
          x.offset < t.capacity * pageSize := by
  have hs : (after { file := f } uses).Partitioned := (partitioned_blank f).after uses
  exact ⟨hs, hs.thrifty, _, rfl, unlogged_after _ uses, paged_after f uses⟩

end SwapStore

end DemandPaging
