import DemandPaging.Proofs.SwapContents
import DemandPaging.Proofs.UsageHistory
import Mathlib.Logic.Function.Basic

/-!
# Where the bytes of a process are

Every process is to find in its pages what it would find in a plain memory of its own.  A page
that is resident has these bytes in its frame; unless it was written there, it has them in its
slot of the swap store as well, or, if it has none, in its program.

* `Tenant` — a process with the plain memory that it should seem to have.
* `Paging.Lodged` — the tenants are the processes with address spaces.
* `Paging.Faithful` — the bytes are where they should be.
* `Paging.Evicted.faithful`, `Paging.Filled.faithful` and the like — each step keeps them there.
-/

namespace DemandPaging

theorem AddressSpace.frameCount_initialMemory (space : AddressSpace) :
    space.initialMemory.frameCount = space.pageCount := by
  have hfold : ∀ (pages : List Nat) (memory : Memory),
      (pages.foldl (fun m k => m.setFrame ⟨k⟩ (space.initialPage ⟨k⟩)) memory).frameCount =
        memory.frameCount := by
    intro pages
    induction pages with
    | nil => exact fun _ => rfl
    | cons k rest ih =>
        intro memory
        rw [List.foldl_cons, ih, Memory.frameCount_setFrame]
  exact hfold _ _

/-- A process as it should see itself: an address space, and a plain memory of that size. -/
structure Tenant where
  space : AddressSpace
  memory : Memory

/-- What a page of the plain memory holds. -/
def Tenant.page (T : Tenant) (p : PageNumber) : Page := T.memory.frame ⟨p.val⟩

theorem Tenant.page_of_frames {T T' : Tenant} {p : PageNumber} {page : Page}
    (h : ∀ n, T'.memory.frame ⟨n⟩ = if n = p.val then page else T.memory.frame ⟨n⟩)
    (q : PageNumber) : T'.page q = if q = p then page else T.page q := by
  have hval : q = p ↔ q.val = p.val :=
    ⟨congrArg _, fun h => by cases q; cases p; exact congrArg _ h⟩
  rw [Tenant.page, h]
  simp only [hval]
  rfl

namespace Paging

variable {F : Type} {s t : Paging F} {tenants tenants' : Pid → Option Tenant} {pid : Pid}

/-! ## Tenants -/

/-- The tenants are the processes with address spaces. -/
structure Lodged (tenants : Pid → Option Tenant) (s : Paging F) : Prop where
  space : ∀ {pid T}, tenants pid = some T → T.space.pid = pid ∧
    s.core.spaces[pid]? = some T.space.pageCount ∧ T.memory.frameCount = T.space.pageCount
  tenant : ∀ {pid}, pid ∈ s.core.spaces → ∃ T, tenants pid = some T

theorem Lodged.of_spaces (hs : s.Lodged tenants) (h : t.core.spaces = s.core.spaces) :
    t.Lodged tenants := by
  refine ⟨fun hT => ?_, fun hpid => ?_⟩
  · rw [h]
    exact hs.space hT
  · rw [h] at hpid
    exact hs.tenant hpid

/-- Who is no tenant has no address space. -/
theorem Lodged.spaces_eq_none (hs : s.Lodged tenants) (h : tenants pid = none) :
    s.core.spaces[pid]? = none := by
  rw [Option.eq_none_iff_forall_ne_some]
  intro count hcount
  obtain ⟨T, hT⟩ := hs.tenant
    (Std.ExtTreeMap.mem_iff_isSome_getElem?.2 (Option.isSome_of_eq_some hcount))
  rw [h] at hT
  cases hT

/-- A page that may be accessed lies in the plain memory. -/
theorem Lodged.lt_of_inRange (hs : s.Lodged tenants) {k : PageKey} {T : Tenant}
    (hT : tenants k.pid = some T) (h : s.InRange k) : k.page.val < T.space.pageCount := by
  obtain ⟨count, hcount, hlt⟩ := h
  rw [(hs.space hT).2.1] at hcount
  rwa [Option.some.inj hcount]

/-- A new process moves in. -/
theorem Registered.lodged {pages : Nat} (h : Registered s t pid pages) (hs : s.Lodged tenants)
    {T : Tenant} (hT : T.space.pid = pid) (hpages : T.space.pageCount = pages)
    (hmemory : T.memory.frameCount = T.space.pageCount) :
    t.Lodged (Function.update tenants pid (some T)) := by
  refine ⟨fun {p U} hU => ?_, fun {p} hp => ?_⟩
  · rw [h.spaces, Std.ExtTreeMap.getElem?_insert]
    by_cases hpp : p = pid
    · subst hpp
      rw [Function.update_self] at hU
      obtain rfl := Option.some.inj hU
      exact ⟨hT, by simp [hpages], hmemory⟩
    · rw [Function.update_of_ne hpp] at hU
      rw [if_neg (by simpa using Ne.symm hpp)]
      exact hs.space hU
  · by_cases hpp : p = pid
    · subst hpp
      exact ⟨T, Function.update_self _ _ _⟩
    · rw [Function.update_of_ne hpp]
      rw [h.spaces, Std.ExtTreeMap.mem_insert] at hp
      exact hs.tenant (hp.resolve_left fun hcmp => hpp (Nat.compare_eq_eq.1 hcmp).symm)

/-- A process moves out. -/
theorem Gone.lodged (h : Gone s t pid) (hs : s.Lodged tenants) :
    t.Lodged (Function.update tenants pid none) := by
  refine ⟨fun {p U} hU => ?_, fun {p} hp => ?_⟩
  · have hpp : p ≠ pid := by
      rintro rfl
      rw [Function.update_self] at hU
      cases hU
    rw [Function.update_of_ne hpp] at hU
    rw [h.spaces, if_neg hpp]
    exact hs.space hU
  · rw [Std.ExtTreeMap.mem_iff_isSome_getElem?, h.spaces] at hp
    split at hp
    · cases hp
    · rename_i hpp
      rw [Function.update_of_ne hpp]
      exact hs.tenant (Std.ExtTreeMap.mem_iff_isSome_getElem?.2 hp)

/-- A process goes on with another plain memory of the same size. -/
theorem Lodged.update (hs : s.Lodged tenants) {T T' : Tenant} (hT : tenants pid = some T)
    (hspace : T'.space = T.space) (hmemory : T'.memory.frameCount = T.memory.frameCount) :
    s.Lodged (Function.update tenants pid (some T')) := by
  refine ⟨fun {p U} hU => ?_, fun {p} hp => ?_⟩
  · by_cases hpp : p = pid
    · subst hpp
      rw [Function.update_self] at hU
      obtain rfl := Option.some.inj hU
      rw [hspace, hmemory]
      exact hs.space hT
    · rw [Function.update_of_ne hpp] at hU
      exact hs.space hU
  · by_cases hpp : p = pid
    · subst hpp
      exact ⟨T', Function.update_self _ _ _⟩
    · rw [Function.update_of_ne hpp]
      exact hs.tenant hp

/-! ## Faithful contents -/

/-- The page was not written since it became resident, if it is resident. -/
def Clean (s : Paging F) (key : PageKey) : Prop :=
  ∀ e, s.entry key = some e → s.history.shows .written key = false

variable [BackingFile F] {w : FileView F} {space : AddressSpace} {pinned : Bool}

/-- What would be found in a page if it became resident now. -/
def backing (w : FileView F) (s : Paging F) (space : AddressSpace) (key : PageKey) : Page :=
  match s.swap.slots[key]? with
  | some a => w.slotPage s.swap.file a
  | none => space.initialPage key.page

/-- The bytes of every process are where they should be. -/
structure Faithful (w : FileView F) (tenants : Pid → Option Tenant) (s : Paging F) : Prop where
  file : w.good s.swap.file
  resident : ∀ {key e f T}, s.entry key = some e → e.maps f = true → tenants key.pid = some T →
    s.frame f = T.page key.page
  stored : ∀ {key T}, tenants key.pid = some T → key.page.val < T.space.pageCount →
    s.Clean key → s.backing w T.space key = T.page key.page

theorem backing_of_slot {key : PageKey} {a : SwapSlot} (h : s.swap.slots[key]? = some a) :
    s.backing w space key = w.slotPage s.swap.file a := by
  rw [backing, h]

theorem backing_of_no_slot {key : PageKey} (h : s.swap.slots[key]? = none) :
    s.backing w space key = space.initialPage key.page := by
  rw [backing, h]

/-- A page that is filled gets what was to be found there. -/
theorem Filled.page_eq {p : PageNumber} {f : FrameNumber} {readOnly : Bool} {page : Page}
    (h : Filled s t space p f pinned page readOnly) (hgood : w.good s.swap.file) :
    page = s.backing w space (space.key p) := by
  cases h.source with
  | program hnone _ => exact (backing_of_no_slot hnone).symm
  | slot a page ha hread =>
      rw [backing_of_slot ha]
      exact (w.slotPage_of_readFrom hgood hread).2.2 rfl |>.symm

theorem backing_congr {key : PageKey} (hslots : t.swap.slots[key]? = s.swap.slots[key]?)
    (hpage : ∀ a, s.swap.slots[key]? = some a →
      w.slotPage t.swap.file a = w.slotPage s.swap.file a) :
    t.backing w space key = s.backing w space key := by
  unfold backing
  rw [hslots]
  cases hk : s.swap.slots[key]? with
  | none => rfl
  | some a => exact hpage a hk

/-- Writing one page out leaves the copies of all others alone. -/
theorem backing_of_wroteOut {key k : PageKey} {page : Page} {a : SwapSlot} {n : Nat}
    (hs : s.swap.Sound) (hgood : w.good s.swap.file)
    (h : SwapStore.WroteOut s.swap t.swap key page a n) (hk : k ≠ key) :
    t.backing w space k = s.backing w space k := by
  refine backing_congr ?_ fun b hb => (w.slotPage_of_wroteOut hgood h).2.1 b ?_
  · rw [h.slots, if_neg fun hkey => hk hkey.1.symm]
  · rintro rfl
    exact hk (h.place.unique hs hb)

theorem backing_of_readFrom {key : PageKey} {page : Page} {a : SwapSlot} {n : Nat}
    (hgood : w.good s.swap.file) (h : SwapStore.ReadFrom s.swap t.swap a n page) :
    t.backing w space key = s.backing w space key :=
  backing_congr (by rw [h.slots]) fun b _ => (w.slotPage_of_readFrom hgood h).2.1 b

/-- A step by which the contents of resident pages and of copies stay as they are. -/
theorem Faithful.of_same (hs : s.Faithful w tenants) (ha : s.Agrees) (hfile : w.good t.swap.file)
    (hbare : ∀ k, (t.entry k).map (·.bare) = (s.entry k).map (·.bare))
    (hframe : ∀ g o, s.owner g = some o → t.frame g = s.frame g)
    (hshows : ∀ k, t.history.shows .written k = s.history.shows .written k)
    (hbacking : ∀ {k} space, s.Clean k → t.backing w space k = s.backing w space k) :
    t.Faithful w tenants := by
  refine ⟨hfile, fun {k e' f T} he' hf hT => ?_, fun {k T} hT hlt hclean => ?_⟩
  · have hk := hbare k
    rw [he', Option.map_some, eq_comm, Option.map_eq_some_iff] at hk
    obtain ⟨e, he, hb⟩ := hk
    rw [← Translation.maps_congr hb] at hf
    obtain ⟨o, ho, -⟩ := holder_eq_some.1 (ha.holder_of_maps he hf)
    rw [hframe f o ho]
    exact hs.resident he hf hT
  · have hold : s.Clean k := by
      intro e he
      obtain ⟨e', he', -⟩ := exists_bare hbare he
      rw [← hshows]
      exact hclean e' he'
    rw [hbacking _ hold]
    exact hs.stored hT hlt hold

/-- A step that leaves the swap store alone, too. -/
theorem Faithful.of_swap (hs : s.Faithful w tenants) (ha : s.Agrees) (hswap : t.swap = s.swap)
    (hbare : ∀ k, (t.entry k).map (·.bare) = (s.entry k).map (·.bare))
    (hframe : ∀ g, t.frame g = s.frame g) (hhistory : t.history = s.history) :
    t.Faithful w tenants := by
  refine hs.of_same ha (hswap ▸ hs.file) hbare (fun g _ _ => hframe g)
    (fun k => by rw [hhistory]) fun _ _ => ?_
  rw [backing, hswap, backing]

/-! ## Steps of the pager -/

/-- **A frame is taken from a page whose bytes are safe**, or have just been written out. -/
theorem Evicted.faithful {key : PageKey} {f : FrameNumber} {handed : Bool}
    (h : Evicted s t key f handed) (hs : s.Faithful w tenants) (ha : s.Agrees) (hx : s.Exact) :
    t.Faithful w tenants := by
  obtain ⟨e, he, hdirty⟩ := h.dirty
  obtain ⟨d, hd, hdf⟩ := ha.owned h.held
  obtain rfl := Option.some.inj (he.symm.trans hd)
  rw [hx.handed_eq he hdf h.alone] at hdirty
  have hshows : ∀ k, t.history.shows .written k = s.history.shows .written k := by
    intro k
    rw [h.history]
    rfl
  have hfile : w.good t.swap.file := by
    rcases h.swap with ⟨-, a, hw⟩ | ⟨-, hw⟩
    · exact (w.slotPage_of_wroteOut hs.file hw).1
    · rw [hw]
      exact hs.file
  refine ⟨hfile, fun {k e' g T} he' hg hT => ?_, fun {k T} hT hlt hclean => ?_⟩
  · rw [h.entry] at he'
    split at he'
    · cases he'
    · rw [h.frame]
      exact hs.resident he' hg hT
  · by_cases hk : k = key
    · subst hk
      rcases h.swap with ⟨-, a, hw⟩ | ⟨rfl, hw⟩
      · have hslot : t.swap.slots[k]? = some a := by rw [hw.slots, if_pos ⟨rfl, rfl⟩]
        rw [backing, hslot]
        exact ((w.slotPage_of_wroteOut hs.file hw).2.2 rfl).trans (hs.resident he hdf hT)
      · have hb : t.backing w T.space k = s.backing w T.space k := by rw [backing, hw, backing]
        rw [hb]
        exact hs.stored hT hlt fun _ _ => hdirty
    · have hb : t.backing w T.space k = s.backing w T.space k := by
        rcases h.swap with ⟨-, a, hw⟩ | ⟨-, hw⟩
        · exact backing_of_wroteOut ha.swap hs.file hw hk
        · rw [backing, hw, backing]
      rw [hb]
      refine hs.stored hT hlt fun e' he' => ?_
      rw [← hshows]
      exact hclean e' (by rw [h.entry, if_neg hk, he'])

/-- **A page gets the bytes that are its own** when it becomes resident. -/
theorem Filled.faithful {p : PageNumber} {f : FrameNumber} {pinned readOnly : Bool} {page : Page}
    (h : Filled s t space p f pinned page readOnly) (hs : s.Faithful w tenants) (ha : s.Agrees)
    (hl : s.Lodged tenants) {T : Tenant} (hT : tenants space.pid = some T)
    (hspace : T.space = space) : t.Faithful w tenants := by
  have hlt : p.val < T.space.pageCount := hl.lt_of_inRange (k := space.key p) hT h.range
  have hclean : s.Clean (space.key p) := fun e he => by
    rw [h.absent] at he
    cases he
  have hstored := hs.stored hT hlt hclean
  have hsource : w.good t.swap.file ∧ page = T.page p ∧
      ∀ k space', t.backing w space' k = s.backing w space' k := by
    cases h.source with
    | program hnone ht =>
        refine ⟨ht ▸ hs.file, ?_, fun k space' => by rw [backing, ht, backing]⟩
        rw [backing, hnone, hspace] at hstored
        exact hstored
    | slot a page ha hr =>
        obtain ⟨hgood, -, hpage⟩ := w.slotPage_of_readFrom hs.file hr
        refine ⟨hgood, ?_, fun k space' => backing_of_readFrom hs.file hr⟩
        rw [backing, ha] at hstored
        exact (hpage rfl).symm.trans hstored
  obtain ⟨hfile, hpage, hbacking⟩ := hsource
  refine ⟨hfile, fun {k e' g U} he' hg hU => ?_, fun {k U} hU hlt' hclean' => ?_⟩
  · rw [h.entry] at he'
    split at he'
    · rename_i hk
      subst hk
      obtain rfl := Option.some.inj he'
      obtain rfl := Option.some.inj (hT.symm.trans hU)
      obtain rfl := Option.some.inj (Translation.maps_iff.1 hg).2
      rw [h.frame, if_pos rfl]
      exact hpage
    · obtain ⟨o, ho, -⟩ := holder_eq_some.1 (ha.holder_of_maps he' hg)
      have hgf : g ≠ f := by
        rintro rfl
        rw [h.free] at ho
        cases ho
      rw [h.frame, if_neg hgf]
      exact hs.resident he' hg hU
  · rw [hbacking]
    refine hs.stored hU hlt' fun e he => ?_
    have hk : space.key p ≠ k := by
      rintro rfl
      rw [h.absent] at he
      cases he
    have hnot := hclean' e (h.entry_of_entry he)
    rwa [h.history, History.shows, if_neg hk] at hnot

/-- **Whatever step the pager takes**, no byte is lost. -/
theorem Move.faithful (h : Move space pinned s t) (hs : s.Faithful w tenants) (ha : s.Agrees)
    (hx : s.Exact) (hl : s.Lodged tenants) {T : Tenant} (hT : tenants space.pid = some T)
    (hspace : T.space = space) : t.Faithful w tenants := by
  cases h with
  | quiet h => exact hs.of_swap ha h.swap (fun k => by rw [h.entry]) h.frame h.history
  | recalled h => exact hs.of_swap ha h.swap (h.bare ha) h.frame h.history
  | evicted h => exact h.faithful hs ha hx
  | kept h =>
      -- what is left in the slot of the page does not matter, since the page was written
      obtain ⟨a, n, -, hw⟩ := h.swap
      obtain ⟨e, he, hdirty⟩ := h.dirty
      obtain ⟨d, hd, hdf⟩ := ha.owned h.held
      obtain rfl := Option.some.inj (he.symm.trans hd)
      rw [hx.handed_eq he hdf h.alone] at hdirty
      refine hs.of_same ha (w.slotPage_of_wroteOut hs.file hw).1 (fun k => by rw [h.entry])
        (fun g _ _ => h.frame g) (fun k => by rw [h.history]; rfl) fun {k} _ hclean => ?_
      refine backing_of_wroteOut ha.swap hs.file hw ?_
      rintro rfl
      have hnot := hclean e he
      rw [hdirty] at hnot
      cases hnot
  | filled h => exact h.faithful hs ha hl hT hspace
  | spoiled h =>
      obtain ⟨a, n, page, hr⟩ := h.swap
      refine hs.of_same ha (w.slotPage_of_readFrom hs.file hr).1 (fun k => by rw [h.entry])
        (fun g o ho => h.frame g ?_) (fun k => by rw [h.history]) fun _ _ =>
          backing_of_readFrom hs.file hr
      rintro rfl
      rw [h.free] at ho
      cases ho

/-! ## Processes that come and go -/

/-- A new process finds what its program says. -/
theorem Registered.faithful {pages : Nat} (h : Registered s t pid pages)
    (hs : s.Faithful w tenants) (hc : s.Consistent) (hspace : space.pid = pid) :
    t.Faithful w (Function.update tenants pid (some ⟨space, space.initialMemory⟩)) := by
  have hnot : ∀ {k : PageKey}, s.InRange k → k.pid ≠ pid := by
    rintro k ⟨count, hcount, -⟩ rfl
    rw [h.absent] at hcount
    cases hcount
  refine ⟨h.swap ▸ hs.file, fun {k e f T} he hf hT => ?_, fun {k T} hT hlt hclean => ?_⟩
  · rw [h.entry] at he
    rw [Function.update_of_ne (hnot (hc.resident he))] at hT
    rw [h.frame]
    exact hs.resident he hf hT
  · have hb : t.backing w T.space k = s.backing w T.space k := by rw [backing, h.swap, backing]
    rw [hb]
    by_cases hk : k.pid = pid
    · rw [hk, Function.update_self] at hT
      obtain rfl := Option.some.inj hT
      have hnone : s.swap.slots[k]? = none := by
        rw [Option.eq_none_iff_forall_not_mem]
        intro a ha
        exact hnot (hc.stored ha) hk
      rw [backing, hnone]
      exact (space.frame_initialMemory k.page hlt).symm
    · rw [Function.update_of_ne hk] at hT
      refine hs.stored hT hlt fun e he => ?_
      have hshows := hclean e ((h.entry k).trans he)
      rwa [h.history] at hshows

/-- A process that is gone takes no bytes of others along. -/
theorem Gone.faithful (h : Gone s t pid) (hs : s.Faithful w tenants) :
    t.Faithful w (Function.update tenants pid none) := by
  have hne : ∀ {p T}, Function.update tenants pid none p = some T → p ≠ pid ∧ tenants p = some T := by
    intro p T hT
    have hp : p ≠ pid := by
      rintro rfl
      rw [Function.update_self] at hT
      cases hT
    rw [Function.update_of_ne hp] at hT
    exact ⟨hp, hT⟩
  refine ⟨h.swap.file ▸ hs.file, fun {k e f T} he hf hT => ?_, fun {k T} hT hlt hclean => ?_⟩
  · rw [h.frame]
    exact hs.resident (h.entry_some he) hf (hne hT).2
  · obtain ⟨hk, hT⟩ := hne hT
    have hb : t.backing w T.space k = s.backing w T.space k := by
      refine backing_congr ?_ fun a _ => by rw [h.swap.file]
      rw [h.swap.slots, if_neg hk]
    rw [hb]
    refine hs.stored hT hlt fun e he => ?_
    have hshows := hclean e ((h.toLost.entry k).resolve_right (fun hgone => hk hgone.1) ▸ he)
    rwa [h.history] at hshows

/-! ## Accesses -/

/-- **An access changes the page in its frame as it changes the plain memory.**  A page that was
written needs no copy elsewhere. -/
theorem Faithful.of_access (hs : s.Faithful w tenants) (ha : s.Agrees) {key : PageKey}
    {d : Translation} {f : FrameNumber} {writing : Bool} {page : Page} {T T' : Tenant}
    (hd : s.entry key = some d) (hdf : d.maps f = true) (hT : tenants key.pid = some T)
    (hbare : ∀ k, (t.entry k).map (·.bare) = (s.entry k).map (·.bare))
    (hframe : ∀ g, t.frame g = if g = f then page else s.frame g) (hswap : t.swap = s.swap)
    (hhistory : t.history = .accessed key writing :: s.history) (hspace : T'.space = T.space)
    (hpage : ∀ q, T'.page q = if q = key.page then page else T.page q)
    (hread : writing = false → page = s.frame f) :
    t.Faithful w (Function.update tenants key.pid (some T')) := by
  have hother : ∀ {k : PageKey} {U}, Function.update tenants key.pid (some T') k.pid = some U →
      k ≠ key → ∃ V, tenants k.pid = some V ∧ V.space = U.space ∧ V.page k.page = U.page k.page := by
    intro k U hU hk
    by_cases hp : k.pid = key.pid
    · rw [hp, Function.update_self] at hU
      obtain rfl := Option.some.inj hU
      have hq : k.page ≠ key.page := by
        intro hq
        cases k
        cases key
        exact hk (PageKey.mk.injEq _ _ _ _ ▸ ⟨hp, hq⟩)
      exact ⟨T, hp ▸ hT, hspace.symm, by rw [hpage, if_neg hq]⟩
    · rw [Function.update_of_ne hp] at hU
      exact ⟨U, hU, rfl, rfl⟩
  refine ⟨hswap ▸ hs.file, fun {k e' g U} he' hg hU => ?_, fun {k U} hU hlt hclean => ?_⟩
  · have hk := hbare k
    rw [he', Option.map_some, eq_comm, Option.map_eq_some_iff] at hk
    obtain ⟨e, he, hb⟩ := hk
    rw [← Translation.maps_congr hb] at hg
    by_cases hk : k = key
    · subst hk
      obtain rfl := Option.some.inj (he.symm.trans hd)
      obtain rfl := Translation.maps_unique hg hdf
      rw [Function.update_self] at hU
      obtain rfl := Option.some.inj hU
      rw [hframe, hpage, if_pos rfl, if_pos rfl]
    · obtain ⟨V, hV, -, hVU⟩ := hother hU hk
      have hgf : g ≠ f := by
        rintro rfl
        exact hk (ha.key_unique he hd hg hdf)
      rw [hframe, if_neg hgf, ← hVU]
      exact hs.resident he hg hV
  · have hb : t.backing w U.space k = s.backing w U.space k := by rw [backing, hswap, backing]
    rw [hb]
    have hold : s.Clean k := by
      intro e he
      obtain ⟨e', he', -⟩ := exists_bare hbare he
      have hnot := hclean e' he'
      rw [Bool.eq_false_iff, hhistory, ne_eq, History.shows_accessed] at hnot
      exact Bool.eq_false_iff.2 fun h => hnot (Or.inl h)
    by_cases hk : k = key
    · subst hk
      rw [Function.update_self] at hU
      obtain rfl := Option.some.inj hU
      -- a written page is not clean, so this was a read
      have hw : writing = false := by
        obtain ⟨e', he', -⟩ := exists_bare hbare hd
        have hnot := hclean e' he'
        rw [Bool.eq_false_iff, hhistory, ne_eq, History.shows_accessed] at hnot
        exact Bool.eq_false_iff.2 fun h => hnot (Or.inr ⟨rfl, h⟩)
      rw [hpage, if_pos rfl, hread hw, hs.resident hd hdf hT, hspace]
      exact hs.stored hT (hspace ▸ hlt) hold
    · obtain ⟨V, hV, hVs, hVU⟩ := hother hU hk
      rw [← hVU, ← hVs]
      exact hs.stored hV (hVs ▸ hlt) hold

end Paging

end DemandPaging
