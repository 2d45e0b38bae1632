import DemandPaging.Proofs.Mirrors
import DemandPaging.Proofs.SwapSlots
import Mathlib.Logic.Relation

/-!
# When the tables agree

A state of the paging layer is looked at through what it answers: the entry of each page,
the owner and the contents of each frame, and what each slot of each TLB holds.

* `Paging.Agrees` — entries and owned frames are one to one, and slots of TLBs map owned
  frames.
* `Paging.Marked` — a usage shows in the entry of a page or in a mirror of its frame.
* `Paging.Still`, `Paging.Quiet`, `Paging.Recalled`, `Paging.Vacated`, `Paging.Kept`, `Paging.Placed`,
  `Paging.Filled`, `Paging.Spoiled` — the steps that the pager consists of; each keeps the tables in
  agreement.
-/

namespace DemandPaging

namespace Paging

variable {F : Type}

/-! ## What is seen of a state -/

/-- The entry of a page, if it is resident. -/
def entry (s : Paging F) (key : PageKey) : Option Translation := s.core.table[key]?

/-- Who has a frame. -/
def owner (s : Paging F) (f : FrameNumber) : Option FrameOwner := s.core.frames.owner f

/-- Which page has a frame. -/
def holder (s : Paging F) (f : FrameNumber) : Option PageKey := (s.owner f).map (·.key)

/-- What a slot of a TLB holds. -/
def slot (s : Paging F) (id : TlbId) (i : Nat) : Translation := s.core.tlbs.slot id i

/-- The contents of a frame. -/
def frame (s : Paging F) (f : FrameNumber) : Page := s.core.memory.frame f

/-- The TLBs that shootdowns reach. -/
def attached (s : Paging F) : List TlbId := s.core.tlbs.attached

/-- Does the page lie in the address space of a process that has one? -/
def InRange (s : Paging F) (key : PageKey) : Prop :=
  ∃ count, s.core.spaces[key.pid]? = some count ∧ key.page.val < count

theorem InRange.mem_spaces {s : Paging F} {key : PageKey} (h : s.InRange key) :
    key.pid ∈ s.core.spaces := by
  obtain ⟨n, hn, -⟩ := h
  rw [Std.ExtTreeMap.mem_iff_isSome_getElem?, hn]
  rfl

theorem InRange.ne_none {s : Paging F} {key : PageKey} (h : s.InRange key) :
    s.core.spaces[key.pid]? ≠ none := by
  obtain ⟨n, hn, -⟩ := h
  rw [hn]
  exact Option.some_ne_none n

theorem InRange.lt {s : Paging F} {key : PageKey} {count : Nat} (h : s.InRange key)
    (hcount : s.core.spaces[key.pid]? = some count) : key.page.val < count := by
  obtain ⟨n, hn, hlt⟩ := h
  obtain rfl := Option.some.inj (hn.symm.trans hcount)
  exact hlt

theorem holder_eq_some {s : Paging F} {f : FrameNumber} {key : PageKey} :
    s.holder f = some key ↔ ∃ o, s.owner f = some o ∧ o.key = key := by
  rw [holder, Option.map_eq_some_iff]

theorem holder_eq_none {s : Paging F} {f : FrameNumber} :
    s.holder f = none ↔ s.owner f = none := by
  rw [holder, Option.map_eq_none_iff]

/-! ## Agreement -/

/-- The page table, the frame table and the TLBs tell one story, and the swap slots are
handed out properly. -/
structure Agrees (s : Paging F) : Prop where
  /-- A page with an entry has the frame of the entry. -/
  entry : ∀ {key : PageKey} {e : Translation}, s.entry key = some e →
    e.page = key.page ∧ ∃ f, e.maps f = true ∧ s.holder f = some key
  /-- A page with a frame has an entry for it. -/
  owned : ∀ {f : FrameNumber} {key : PageKey}, s.holder f = some key →
    ∃ e, s.entry key = some e ∧ e.maps f = true
  /-- A slot that maps a frame belongs to a TLB that shootdowns reach, and is of the page
  that has the frame. -/
  mirror : ∀ {id : TlbId} {i : Nat} {f : FrameNumber}, (s.slot id i).maps f = true →
    id ∈ s.attached ∧ ∃ key, s.holder f = some key ∧ key.page = (s.slot id i).page
  /-- Memory has the frames that are handed out. -/
  memory : s.core.memory.frameCount = s.core.frames.size
  /-- The slots of the swap store are handed out to one page at a time. -/
  swap : s.swap.Sound

namespace Agrees

variable {s : Paging F}

/-- No two pages have one frame. -/
theorem key_unique (hs : s.Agrees) {k l : PageKey} {d e : Translation} {f : FrameNumber}
    (hk : s.entry k = some d) (hl : s.entry l = some e) (hd : d.maps f = true)
    (he : e.maps f = true) : k = l := by
  obtain ⟨-, g, hg, hgk⟩ := hs.entry hk
  obtain ⟨-, h, hh, hhl⟩ := hs.entry hl
  rw [Translation.maps_unique hg hd] at hgk
  rw [Translation.maps_unique hh he] at hhl
  exact Option.some.inj (hgk.symm.trans hhl)

/-- No two frames have one owner. -/
theorem frame_unique (hs : s.Agrees) {f g : FrameNumber} {key : PageKey}
    (hf : s.holder f = some key) (hg : s.holder g = some key) : f = g := by
  obtain ⟨d, hd, hdf⟩ := hs.owned hf
  obtain ⟨e, he, heg⟩ := hs.owned hg
  obtain rfl := Option.some.inj (hd.symm.trans he)
  exact Translation.maps_unique hdf heg

/-- An entry names the frame that its page has. -/
theorem holder_of_maps (hs : s.Agrees) {key : PageKey} {e : Translation} {f : FrameNumber}
    (he : s.entry key = some e) (hf : e.maps f = true) : s.holder f = some key := by
  obtain ⟨-, g, hg, hgk⟩ := hs.entry he
  rwa [Translation.maps_unique hf hg]

theorem valid_of_entry (hs : s.Agrees) {key : PageKey} {e : Translation}
    (he : s.entry key = some e) : e.valid = true := by
  obtain ⟨-, f, hf, -⟩ := hs.entry he
  exact Translation.valid_of_maps hf

theorem residentEntry_eq (hs : s.Agrees) (key : PageKey) :
    s.residentEntry key = s.entry key := by
  show (s.entry key).filter (·.valid) = s.entry key
  cases he : s.entry key with
  | none => rfl
  | some e => rw [Option.filter_some, if_pos (hs.valid_of_entry he)]

/-- A frame that somebody has lies in memory. -/
theorem lt_frameCount (hs : s.Agrees) {f : FrameNumber} {o : FrameOwner}
    (h : s.owner f = some o) : f.val < s.core.memory.frameCount := by
  rw [hs.memory]
  exact FrameTable.lt_size_of_owner h

end Agrees

/-! ## The usage of a page -/

/-- A usage of a resident page shows: in its entry, or in a mirror of its frame. -/
def Marked (s : Paging F) (u : Usage) (key : PageKey) : Prop :=
  ∃ e f, s.entry key = some e ∧ e.maps f = true ∧
    (u.bit e.flags = true ∨ ∃ id i, (s.slot id i).maps f = true ∧ u.bit (s.slot id i).flags = true)

theorem marked_iff {s : Paging F} {u : Usage} {key : PageKey} {e : Translation} {f : FrameNumber}
    (he : s.entry key = some e) (hf : e.maps f = true) :
    s.Marked u key ↔ u.bit e.flags = true ∨
      ∃ id i, (s.slot id i).maps f = true ∧ u.bit (s.slot id i).flags = true := by
  constructor
  · rintro ⟨d, g, hd, hg, h⟩
    obtain rfl : d = e := Option.some.inj (hd.symm.trans he)
    obtain rfl : g = f := Translation.maps_unique hg hf
    exact h
  · intro h
    exact ⟨e, f, he, hf, h⟩

/-! ## Steps -/

/-- What no step of the pager changes: the size of every table, and which TLBs there are.
TLBs that are attached stay so. -/
structure SameShape (s t : Paging F) : Prop where
  size : ∀ id, (t.core.tlbs.tlb id).size = (s.core.tlbs.tlb id).size
  live : ∀ id, t.core.tlbs.live id = s.core.tlbs.live id
  attached : ∀ id, id ∈ s.attached → s.core.tlbs.live id = true → id ∈ t.attached
  frames : t.core.frames.size = s.core.frames.size
  memory : t.core.memory.frameCount = s.core.memory.frameCount

theorem SameShape.refl (s : Paging F) : SameShape s s :=
  ⟨fun _ => rfl, fun _ => rfl, fun _ h _ => h, rfl, rfl⟩

theorem SameShape.trans {s m t : Paging F} (h : SameShape s m) (h' : SameShape m t) :
    SameShape s t where
  size id := (h'.size id).trans (h.size id)
  live id := (h'.live id).trans (h.live id)
  attached id ha hl := h'.attached id (h.attached id ha hl) (by rw [h.live, hl])
  frames := h'.frames.trans h.frames
  memory := h'.memory.trans h.memory

/-- A TLB with a valid slot stays attached. -/
theorem SameShape.attached_of_maps {s t : Paging F} (h : SameShape s t) (hs : s.Agrees)
    {id : TlbId} {i : Nat} {f : FrameNumber} (hm : (s.slot id i).maps f = true) :
    id ∈ t.attached :=
  h.attached id (hs.mirror hm).1 (TlbBank.live_of_valid (Translation.valid_of_maps hm))

/-- Nothing changes that is seen of the tables and of memory. -/
structure Still (s t : Paging F) : Prop extends SameShape s t where
  entry : ∀ k, t.entry k = s.entry k
  owner : ∀ g, t.owner g = s.owner g
  slot : ∀ id i, t.slot id i = s.slot id i
  frame : ∀ g, t.frame g = s.frame g
  history : t.history = s.history

/-- Nothing at all changes that is seen. -/
structure Quiet (s t : Paging F) : Prop extends Still s t where
  swap : t.swap = s.swap
  spaces : t.core.spaces = s.core.spaces

theorem Quiet.trans {s m t : Paging F} (h : Quiet s m) (h' : Quiet m t) : Quiet s t :=
  ⟨⟨h.toSameShape.trans h'.toSameShape, fun k => (h'.entry k).trans (h.entry k),
    fun g => (h'.owner g).trans (h.owner g), fun id i => (h'.slot id i).trans (h.slot id i),
    fun g => (h'.frame g).trans (h.frame g), h'.history.trans h.history⟩, h'.swap.trans h.swap,
    h'.spaces.trans h.spaces⟩

/-- Every TLB loses a frame, the bits of the copies going to the entry of the page that has
it. -/
structure Recalled (s t : Paging F) (key : PageKey) (f : FrameNumber) : Prop
    extends SameShape s t where
  held : s.holder f = some key
  entry_ne : ∀ k, k ≠ key → t.entry k = s.entry k
  entry : ∀ e, s.entry key = some e → ∃ e', t.entry key = some e' ∧ e'.bare = e.bare ∧
    ∀ u : Usage, u.bit e'.flags = true ↔ s.Marked u key
  slot : ∀ id i, t.slot id i =
    if (s.slot id i).maps f = true then (s.slot id i).invalidate else s.slot id i
  owner : ∀ g, t.owner g = s.owner g
  frame : ∀ g, t.frame g = s.frame g
  swap : t.swap = s.swap
  history : t.history = s.history
  spaces : t.core.spaces = s.core.spaces

/-- A page loses its frame, and every TLB too. -/
structure Vacated (s t : Paging F) (key : PageKey) (f : FrameNumber) : Prop
    extends SameShape s t where
  held : s.holder f = some key
  entry : ∀ k, t.entry k = if k = key then none else s.entry k
  slot : ∀ id i, t.slot id i =
    if (s.slot id i).maps f = true then (s.slot id i).invalidate else s.slot id i
  owner : ∀ g, t.owner g = if g = f then none else s.owner g
  frame : ∀ g, t.frame g = s.frame g
  spaces : t.core.spaces = s.core.spaces

/-- A page is removed together with its process. -/
structure Removed (s t : Paging F) (key : PageKey) (f : FrameNumber) : Prop
    extends Vacated s t key f where
  swap : t.swap = s.swap
  history : t.history = s.history

/-! ## These steps keep the tables in agreement -/

/-- A step that changes neither who has a frame, nor what entries map. -/
theorem Agrees.of_bare {s t : Paging F} (hs : s.Agrees) (h : SameShape s t)
    (hentry : ∀ k, (t.entry k).map (·.bare) = (s.entry k).map (·.bare))
    (howner : ∀ g, t.owner g = s.owner g)
    (hslot : ∀ {id i f}, (t.slot id i).maps f = true →
      id ∈ t.attached ∧ ∃ key, s.holder f = some key ∧ key.page = (t.slot id i).page)
    (hswap : t.swap.Sound) : t.Agrees := by
  have hholder : ∀ g, t.holder g = s.holder g := fun g => by rw [holder, holder, howner]
  refine ⟨fun {key e} he => ?_, fun {f key} hf => ?_, fun {id i f} hm => ?_, ?_, hswap⟩
  · have hbare := hentry key
    rw [he, Option.map_some, eq_comm, Option.map_eq_some_iff] at hbare
    obtain ⟨d, hd, hde⟩ := hbare
    obtain ⟨hpage, f, hf, hfk⟩ := hs.entry hd
    refine ⟨(Translation.bare_eq_iff.1 hde).1.symm.trans hpage, f, ?_, (hholder f).trans hfk⟩
    rwa [← Translation.maps_congr hde]
  · obtain ⟨d, hd, hdf⟩ := hs.owned ((hholder f).symm.trans hf)
    have hbare := hentry key
    rw [hd, Option.map_some, Option.map_eq_some_iff] at hbare
    obtain ⟨e, he, hed⟩ := hbare
    exact ⟨e, he, by rwa [Translation.maps_congr hed]⟩
  · obtain ⟨hid, key, hkey, hpage⟩ := hslot hm
    exact ⟨hid, key, (hholder f).trans hkey, hpage⟩
  · rw [h.memory, h.frames, hs.memory]

/-- A step after which no slot of a TLB maps anything new. -/
theorem Agrees.of_same {s t : Paging F} (hs : s.Agrees) (h : SameShape s t)
    (hentry : ∀ k, (t.entry k).map (·.bare) = (s.entry k).map (·.bare))
    (howner : ∀ g, t.owner g = s.owner g)
    (hslot : ∀ {id i f}, (t.slot id i).maps f = true →
      (s.slot id i).maps f = true ∧ (t.slot id i).page = (s.slot id i).page)
    (hswap : t.swap.Sound) : t.Agrees := by
  refine hs.of_bare h hentry howner (fun hm => ?_) hswap
  obtain ⟨hold, hpage⟩ := hslot hm
  obtain ⟨-, key, hkey, hkp⟩ := hs.mirror hold
  exact ⟨h.attached_of_maps hs hold, key, hkey, hkp.trans hpage.symm⟩

theorem Still.agrees {s t : Paging F} (h : Still s t) (hs : s.Agrees) (hswap : t.swap.Sound) :
    t.Agrees := by
  refine hs.of_same h.toSameShape (fun k => by rw [h.entry]) h.owner (fun hm => ?_) hswap
  rw [h.slot] at hm
  exact ⟨hm, by rw [h.slot]⟩

theorem Quiet.agrees {s t : Paging F} (h : Quiet s t) (hs : s.Agrees) : t.Agrees :=
  h.toStill.agrees hs (by rw [h.swap]; exact hs.swap)

/-- What a slot maps after a frame was taken from all TLBs, it mapped before, and it is not
that frame. -/
theorem maps_of_slot_shot {a b : Translation} {f g : FrameNumber}
    (h : b = if a.maps f = true then a.invalidate else a) (hm : b.maps g = true) :
    a.maps g = true ∧ b.page = a.page ∧ g ≠ f := by
  by_cases ha : a.maps f = true
  · rw [if_pos ha] at h
    rw [h, Translation.maps_invalidate] at hm
    cases hm
  · rw [if_neg ha] at h
    subst h
    exact ⟨hm, rfl, fun hgf => ha (hgf ▸ hm)⟩

theorem Recalled.bare {s t : Paging F} {key : PageKey} {f : FrameNumber} (h : Recalled s t key f)
    (hs : s.Agrees) (k : PageKey) : (t.entry k).map (·.bare) = (s.entry k).map (·.bare) := by
  by_cases hk : k = key
  · subst hk
    obtain ⟨e, he, -⟩ := hs.owned h.held
    obtain ⟨e', he', hbare, -⟩ := h.entry e he
    rw [he, he', Option.map_some, Option.map_some, hbare]
  · rw [h.entry_ne k hk]

theorem Recalled.agrees {s t : Paging F} {key : PageKey} {f : FrameNumber}
    (h : Recalled s t key f) (hs : s.Agrees) : t.Agrees := by
  refine hs.of_same h.toSameShape (h.bare hs) h.owner (fun hm => ?_) ?_
  · obtain ⟨hold, hpage, -⟩ := maps_of_slot_shot (h.slot _ _) hm
    exact ⟨hold, hpage⟩
  · rw [h.swap]
    exact hs.swap

theorem Vacated.holder {s t : Paging F} {key : PageKey} {f : FrameNumber}
    (h : Vacated s t key f) (g : FrameNumber) :
    t.holder g = if g = f then none else s.holder g := by
  rw [Paging.holder, h.owner]
  split <;> rfl

/-- **Agreement outlives the loss of a frame.**  The page and the frame belong to each other
and to nobody else, and no slot of any TLB maps the frame any more. -/
theorem Vacated.agrees {s t : Paging F} {key : PageKey} {f : FrameNumber}
    (h : Vacated s t key f) (hs : s.Agrees) (hswap : t.swap.Sound) : t.Agrees := by
  refine ⟨fun {k e} he => ?_, fun {g k} hg => ?_, fun {id i g} hm => ?_, ?_, hswap⟩
  · rw [h.entry] at he
    split at he
    · cases he
    · rename_i hk
      obtain ⟨hpage, g, hg, hgk⟩ := hs.entry he
      refine ⟨hpage, g, hg, ?_⟩
      have hgf : g ≠ f := by
        intro hgf
        rw [hgf, h.held] at hgk
        exact hk (Option.some.inj hgk).symm
      rw [h.holder, if_neg hgf, hgk]
  · rw [h.holder] at hg
    split at hg
    · cases hg
    · rename_i hgf
      obtain ⟨e, he, heg⟩ := hs.owned hg
      refine ⟨e, ?_, heg⟩
      have hk : k ≠ key := by
        intro hk
        obtain ⟨d, hd, hdf⟩ := hs.owned h.held
        rw [hk, hd, Option.some.injEq] at he
        exact hgf (Translation.maps_unique (he ▸ heg) hdf)
      rw [h.entry, if_neg hk, he]
  · obtain ⟨hold, hpage, hgf⟩ := maps_of_slot_shot (h.slot id i) hm
    obtain ⟨-, k, hk, hkp⟩ := hs.mirror hold
    refine ⟨h.attached_of_maps hs hold, k, ?_, hkp.trans hpage.symm⟩
    rw [h.holder, if_neg hgf, hk]
  · rw [h.memory, h.frames, hs.memory]

theorem Removed.agrees {s t : Paging F} {key : PageKey} {f : FrameNumber}
    (h : Removed s t key f) (hs : s.Agrees) : t.Agrees :=
  h.toVacated.agrees hs (by rw [h.swap]; exact hs.swap)

/-! ## Steps that the swap store has a part in -/

variable [BackingFile F]

/-- A page that no TLB maps loses its frame, after its contents were written out if its entry
says that they are new. -/
structure Evicted (s t : Paging F) (key : PageKey) (f : FrameNumber) (handed : Bool) : Prop
    extends Vacated s t key f where
  alone : ∀ id i, (s.slot id i).maps f = false
  unpinned : ∃ o, s.owner f = some o ∧ o.pinned = false
  dirty : ∃ e, s.entry key = some e ∧ e.needsWriteback = handed
  swap : (handed = true ∧ ∃ a, SwapStore.WroteOut s.swap t.swap key (s.frame f) a pageSize) ∨
    (handed = false ∧ t.swap = s.swap)
  history : t.history = .victim key handed :: s.history

/-- A page keeps its frame, because its contents could not be written out. -/
structure Kept (s t : Paging F) (key : PageKey) (f : FrameNumber) : Prop
    extends SameShape s t where
  held : s.holder f = some key
  alone : ∀ id i, (s.slot id i).maps f = false
  dirty : ∃ e, s.entry key = some e ∧ e.needsWriteback = true
  entry : ∀ k, t.entry k = s.entry k
  slot : ∀ id i, t.slot id i = s.slot id i
  owner : ∀ g, t.owner g = s.owner g
  frame : ∀ g, t.frame g = s.frame g
  swap : ∃ a n, n ≠ pageSize ∧ SwapStore.WroteOut s.swap t.swap key (s.frame f) a n
  history : t.history = .victim key true :: s.history
  spaces : t.core.spaces = s.core.spaces

/-- Where the contents of a page that becomes resident come from: from its slot of the swap
store, or if it has none from its program. -/
inductive Source (s t : SwapStore F) (space : AddressSpace) (p : PageNumber) :
    (page : Page) → (readOnly : Bool) → Prop
  | program (h : s.slots[space.key p]? = none) (ht : t = s) :
    Source s t space p (space.initialPage p) ((space.image.backing p).any (·.2))
  | slot (a : SwapSlot) (page : Page) (h : s.slots[space.key p]? = some a)
    (ht : SwapStore.ReadFrom s t a pageSize page) : Source s t space p page false

/-- A page gets a frame that was free, and contents from anywhere. -/
structure Placed (s t : Paging F) (space : AddressSpace) (p : PageNumber) (f : FrameNumber)
    (pinned : Bool) (page : Page) (readOnly : Bool) : Prop extends SameShape s t where
  free : s.owner f = none
  absent : s.entry (space.key p) = none
  range : s.InRange (space.key p)
  entry : ∀ k, t.entry k =
    if k = space.key p then some { page := p, frame := some f, flags := .fresh readOnly }
    else s.entry k
  owner : ∀ g, t.owner g = if g = f then some ⟨space.key p, pinned⟩ else s.owner g
  slot : ∀ id i, t.slot id i = s.slot id i
  frame : ∀ g, t.frame g = if g = f then page else s.frame g
  history : t.history = .resident (space.key p) :: s.history
  spaces : t.core.spaces = s.core.spaces

/-- A page gets a frame that was free, and contents. -/
structure Filled (s t : Paging F) (space : AddressSpace) (p : PageNumber) (f : FrameNumber)
    (pinned : Bool) (page : Page) (readOnly : Bool) : Prop extends SameShape s t where
  free : s.owner f = none
  absent : s.entry (space.key p) = none
  range : s.InRange (space.key p)
  entry : ∀ k, t.entry k =
    if k = space.key p then some { page := p, frame := some f, flags := .fresh readOnly }
    else s.entry k
  owner : ∀ g, t.owner g = if g = f then some ⟨space.key p, pinned⟩ else s.owner g
  slot : ∀ id i, t.slot id i = s.slot id i
  frame : ∀ g, t.frame g = if g = f then page else s.frame g
  source : Source s.swap t.swap space p page readOnly
  history : t.history = .resident (space.key p) :: s.history
  spaces : t.core.spaces = s.core.spaces

/-- A page could not be read back: only the free frame that it was to have is changed. -/
structure Spoiled (s t : Paging F) (f : FrameNumber) : Prop extends SameShape s t where
  free : s.owner f = none
  entry : ∀ k, t.entry k = s.entry k
  owner : ∀ g, t.owner g = s.owner g
  slot : ∀ id i, t.slot id i = s.slot id i
  frame : ∀ g, g ≠ f → t.frame g = s.frame g
  swap : ∃ a n page, SwapStore.ReadFrom s.swap t.swap a n page
  history : t.history = s.history
  spaces : t.core.spaces = s.core.spaces

theorem Evicted.agrees {s t : Paging F} {key : PageKey} {f : FrameNumber} {handed : Bool}
    (h : Evicted s t key f handed) (hs : s.Agrees) : t.Agrees := by
  refine h.toVacated.agrees hs ?_
  rcases h.swap with ⟨-, a, hw⟩ | ⟨-, hw⟩
  · exact hw.sound
  · rw [hw]
    exact hs.swap

theorem Kept.agrees {s t : Paging F} {key : PageKey} {f : FrameNumber} (h : Kept s t key f)
    (hs : s.Agrees) : t.Agrees := by
  obtain ⟨a, n, -, hw⟩ := h.swap
  refine hs.of_same h.toSameShape (fun k => by rw [h.entry]) h.owner (fun hm => ?_) hw.sound
  rw [h.slot] at hm
  exact ⟨hm, by rw [h.slot]⟩

theorem Source.sound {s t : SwapStore F} {space : AddressSpace} {p : PageNumber} {page : Page}
    {readOnly : Bool} (h : Source s t space p page readOnly) (hs : s.Sound) : t.Sound := by
  cases h with
  | program _ ht => rwa [ht]
  | slot a _ _ ht => exact ht.sound hs

omit [BackingFile F] in
/-- **Agreement outlives the filling of a free frame.**  No entry and no slot of any TLB can
have named the frame, since it had no owner. -/
theorem Placed.agrees {s t : Paging F} {space : AddressSpace} {p : PageNumber} {f : FrameNumber}
    {pinned : Bool} {page : Page} {readOnly : Bool}
    (h : Placed s t space p f pinned page readOnly) (hs : s.Agrees) (hswap : t.swap.Sound) :
    t.Agrees := by
  have hfree : s.holder f = none := holder_eq_none.2 h.free
  have hholder : ∀ g, t.holder g = if g = f then some (space.key p) else s.holder g := by
    intro g
    rw [holder, h.owner]
    split <;> rfl
  refine ⟨fun {k e} he => ?_, fun {g k} hg => ?_, fun {id i g} hm => ?_, ?_, hswap⟩
  · rw [h.entry] at he
    split at he
    · rename_i hk
      obtain rfl := Option.some.inj he
      refine ⟨by rw [hk]; rfl, f, Translation.maps_iff.2 ⟨rfl, rfl⟩, ?_⟩
      rw [hholder, if_pos rfl, hk]
    · obtain ⟨hpage, g, hg, hgk⟩ := hs.entry he
      refine ⟨hpage, g, hg, ?_⟩
      have hgf : g ≠ f := by
        intro hgf
        rw [hgf, hfree] at hgk
        cases hgk
      rw [hholder, if_neg hgf, hgk]
  · rw [hholder] at hg
    split at hg
    · rename_i hgf
      obtain rfl := Option.some.inj hg
      refine ⟨_, by rw [h.entry, if_pos rfl], ?_⟩
      rw [hgf]
      exact Translation.maps_iff.2 ⟨rfl, rfl⟩
    · obtain ⟨e, he, heg⟩ := hs.owned hg
      refine ⟨e, ?_, heg⟩
      have hk : k ≠ space.key p := by
        intro hk
        rw [hk, h.absent] at he
        cases he
      rw [h.entry, if_neg hk, he]
  · rw [h.slot] at hm ⊢
    obtain ⟨-, k, hk, hkp⟩ := hs.mirror hm
    have hgf : g ≠ f := by
      intro hgf
      rw [hgf, hfree] at hk
      cases hk
    exact ⟨h.attached_of_maps hs hm, k, by rw [hholder, if_neg hgf, hk], hkp⟩
  · rw [h.memory, h.frames, hs.memory]

theorem Placed.filled {s t : Paging F} {space : AddressSpace} {p : PageNumber} {f : FrameNumber}
    {pinned : Bool} {page : Page} {readOnly : Bool}
    (h : Placed s t space p f pinned page readOnly)
    (hsource : Source s.swap t.swap space p page readOnly) :
    Filled s t space p f pinned page readOnly :=
  ⟨h.toSameShape, h.free, h.absent, h.range, h.entry, h.owner, h.slot, h.frame, hsource, h.history,
    h.spaces⟩

theorem Filled.placed {s t : Paging F} {space : AddressSpace} {p : PageNumber} {f : FrameNumber}
    {pinned : Bool} {page : Page} {readOnly : Bool}
    (h : Filled s t space p f pinned page readOnly) : Placed s t space p f pinned page readOnly :=
  ⟨h.toSameShape, h.free, h.absent, h.range, h.entry, h.owner, h.slot, h.frame, h.history, h.spaces⟩

theorem Filled.agrees {s t : Paging F} {space : AddressSpace} {p : PageNumber} {f : FrameNumber}
    {pinned : Bool} {page : Page} {readOnly : Bool}
    (h : Filled s t space p f pinned page readOnly) (hs : s.Agrees) : t.Agrees :=
  h.placed.agrees hs (h.source.sound hs.swap)

theorem Spoiled.agrees {s t : Paging F} {f : FrameNumber} (h : Spoiled s t f) (hs : s.Agrees) :
    t.Agrees := by
  obtain ⟨a, n, page, hr⟩ := h.swap
  refine hs.of_same h.toSameShape (fun k => by rw [h.entry]) h.owner (fun hm => ?_)
    (hr.sound hs.swap)
  rw [h.slot] at hm
  exact ⟨hm, by rw [h.slot]⟩

/-! ## What the pager does -/

/-- One step of the pager while it makes pages of a space resident, `pinned` for good or not. -/
inductive Move (space : AddressSpace) (pinned : Bool) : Paging F → Paging F → Prop
  | quiet {s t} (h : Quiet s t) : Move space pinned s t
  | recalled {s t key f} (h : Recalled s t key f) : Move space pinned s t
  | evicted {s t key f handed} (h : Evicted s t key f handed) : Move space pinned s t
  | kept {s t key f} (h : Kept s t key f) : Move space pinned s t
  | filled {s t p f page readOnly} (h : Filled s t space p f pinned page readOnly) :
    Move space pinned s t
  | spoiled {s t f} (h : Spoiled s t f) : Move space pinned s t

/-- Some steps of the pager, one after the other. -/
abbrev Moves (space : AddressSpace) (pinned : Bool) : Paging F → Paging F → Prop :=
  Relation.ReflTransGen (Move space pinned)

theorem Move.agrees {space : AddressSpace} {pinned : Bool} {s t : Paging F}
    (h : Move space pinned s t) (hs : s.Agrees) : t.Agrees := by
  cases h with
  | quiet h => exact h.agrees hs
  | recalled h => exact h.agrees hs
  | evicted h => exact h.agrees hs
  | kept h => exact h.agrees hs
  | filled h => exact h.agrees hs
  | spoiled h => exact h.agrees hs

theorem Move.sameShape {space : AddressSpace} {pinned : Bool} {s t : Paging F}
    (h : Move space pinned s t) : SameShape s t := by
  cases h with
  | quiet h => exact h.toSameShape
  | recalled h => exact h.toSameShape
  | evicted h => exact h.toSameShape
  | kept h => exact h.toSameShape
  | filled h => exact h.toSameShape
  | spoiled h => exact h.toSameShape

theorem Move.spaces {space : AddressSpace} {pinned : Bool} {s t : Paging F}
    (h : Move space pinned s t) : t.core.spaces = s.core.spaces := by
  cases h with
  | quiet h => exact h.spaces
  | recalled h => exact h.spaces
  | evicted h => exact h.spaces
  | kept h => exact h.spaces
  | filled h => exact h.spaces
  | spoiled h => exact h.spaces

/-- **The pager takes no frame that a page has for good.** -/
theorem Move.pinned {space : AddressSpace} {pinned : Bool} {s t : Paging F} {key : PageKey}
    {f : FrameNumber} (h : Move space pinned s t) (hf : s.owner f = some ⟨key, true⟩) :
    t.owner f = some ⟨key, true⟩ := by
  cases h with
  | quiet h => rw [h.owner, hf]
  | recalled h => rw [h.owner, hf]
  | @evicted key' g handed h =>
      obtain ⟨o, ho, hunpinned⟩ := h.unpinned
      have hfg : f ≠ g := by
        rintro rfl
        obtain rfl := Option.some.inj (hf.symm.trans ho)
        cases hunpinned
      rw [h.owner, if_neg hfg, hf]
  | kept h => rw [h.owner, hf]
  | @filled p g page readOnly h =>
      have hfg : f ≠ g := by
        rintro rfl
        rw [h.free] at hf
        cases hf
      rw [h.owner, if_neg hfg, hf]
  | spoiled h => rw [h.owner, hf]

/-- **Whatever the pager does, the tables agree afterwards.** -/
theorem Moves.agrees {space : AddressSpace} {pinned : Bool} {s t : Paging F}
    (h : Moves space pinned s t) (hs : s.Agrees) : t.Agrees := by
  induction h with
  | refl => exact hs
  | tail _ hmove ih => exact hmove.agrees ih

theorem Moves.sameShape {space : AddressSpace} {pinned : Bool} {s t : Paging F}
    (h : Moves space pinned s t) : SameShape s t := by
  induction h with
  | refl => exact SameShape.refl s
  | tail _ hmove ih => exact ih.trans hmove.sameShape

theorem Moves.spaces {space : AddressSpace} {pinned : Bool} {s t : Paging F}
    (h : Moves space pinned s t) : t.core.spaces = s.core.spaces := by
  induction h with
  | refl => rfl
  | tail _ hmove ih => exact hmove.spaces.trans ih

theorem Moves.pinned {space : AddressSpace} {pinned : Bool} {s t : Paging F} {key : PageKey}
    {f : FrameNumber} (h : Moves space pinned s t) (hf : s.owner f = some ⟨key, true⟩) :
    t.owner f = some ⟨key, true⟩ := by
  induction h with
  | refl => exact hf
  | tail _ hmove ih => exact hmove.pinned ih

theorem Moves.inRange {space : AddressSpace} {pinned : Bool} {s t : Paging F} {key : PageKey}
    (h : Moves space pinned s t) (hk : s.InRange key) : t.InRange key := by
  rw [InRange, h.spaces]
  exact hk

end Paging

end DemandPaging
