import DemandPaging.Proofs.KernelChanges
import DemandPaging.Proofs.PageContents

/-!
# What the kernel does for one process

While the kernel works for a process, the frames of others may be taken.  Whatever it does, the
bytes of a page of another process are in its frame afterwards if it is still resident, and if it
is not, they are where they would be read from.

* `Paging.Errand`, `Paging.Errands` — steps for one process, in any order.
* `Paging.Retained` — a page has lost nothing.
* `Paging.Errands.retained` — pages of other processes lose nothing.
* `Paging.contents` — what is to be found in a page, wherever it is;
  `Paging.Retained.contents_eq` says that a page that has lost nothing holds what it held.
-/

namespace DemandPaging

namespace Paging

variable {F : Type} [BackingFile F]

/-! ## Steps for one process -/

/-- One step for a process. -/
inductive Errand (pid : Pid) : Paging F → Paging F → Prop
  | quiet {s t} (h : Quiet s t) : Errand pid s t
  | move {s t space pinned} (hpid : space.pid = pid) (h : Move space pinned s t) : Errand pid s t
  | copied {s t key e f writing page} (hpid : key.pid = pid) (he : s.entry key = some e)
    (hf : e.maps f = true) (h : Copied s t key f writing page) : Errand pid s t
  | registered {s t pages} (h : Registered s t pid pages) : Errand pid s t
  | emptied {s t} (h : Emptied s t pid) : Errand pid s t
  | destroyed {s t} (h : Destroyed s t pid) : Errand pid s t

/-- Some steps for a process. -/
abbrev Errands (pid : Pid) : Paging F → Paging F → Prop := Relation.ReflTransGen (Errand pid)

variable {s t m : Paging F} {w : FileView F} {pid : Pid} {space : AddressSpace} {pinned : Bool}
  {key : PageKey}

theorem Moves.errands (h : Moves space pinned s t) : Errands space.pid s t :=
  h.lift id fun _ _ h => .move rfl h

theorem Errand.agrees (h : Errand pid s t) (hs : s.Agrees) : t.Agrees := by
  cases h with
  | quiet h => exact h.agrees hs
  | move _ h => exact h.agrees hs
  | copied _ _ _ h => exact h.adjusted.agrees hs
  | registered h => exact h.agrees hs
  | emptied h => exact h.steps.agrees hs
  | destroyed h => exact h.agrees hs

/-- A swap file that keeps its word goes on to do so. -/
theorem Errand.good (h : Errand pid s t) (hs : s.Agrees) (hgood : w.good s.swap.file) :
    w.good t.swap.file := by
  cases h with
  | quiet h => exact h.swap ▸ hgood
  | move _ h =>
    cases h with
    | quiet h => exact h.swap ▸ hgood
    | recalled h => exact h.swap ▸ hgood
    | evicted h =>
      rcases h.swap with ⟨-, a, hw⟩ | ⟨-, hw⟩
      · exact (w.slotPage_of_wroteOut hgood hw).1
      · exact hw ▸ hgood
    | kept h =>
      obtain ⟨a, n, -, hw⟩ := h.swap
      exact (w.slotPage_of_wroteOut hgood hw).1
    | filled h =>
      cases h.source with
      | program _ ht => exact ht ▸ hgood
      | slot a page _ hr => exact (w.slotPage_of_readFrom hgood hr).1
    | spoiled h =>
      obtain ⟨a, n, page, hr⟩ := h.swap
      exact (w.slotPage_of_readFrom hgood hr).1
  | copied _ _ _ h => exact h.swap ▸ hgood
  | registered h => exact h.swap ▸ hgood
  | emptied h => exact h.steps.rest.1 ▸ hgood
  | destroyed h => exact (h.gone hs).swap.file ▸ hgood

theorem Moves.good (h : Moves space pinned s t) (hs : s.Agrees) (hgood : w.good s.swap.file) :
    w.good t.swap.file := by
  induction h with
  | refl => exact hgood
  | tail hmoves hmove ih => exact (Errand.move rfl hmove).good (Moves.agrees hmoves hs) ih

/-! ## What a page keeps -/

/-- The usage bits of a resident page say that it holds what is nowhere else. -/
def Unsaved (s : Paging F) (key : PageKey) : Prop :=
  ∃ e, s.entry key = some e ∧ e.flags.readOnly = false ∧ s.Marked .written key

/-- A page that is resident stays so in its frame with its bytes, or it is no more; then it was
written out if usage bits asked for that.  What would be read in place of it is the same, unless
they do. -/
structure Retained (w : FileView F) (s t : Paging F) (key : PageKey) : Prop where
  resident : ∀ {e f}, s.entry key = some e → e.maps f = true →
    (∃ e', t.entry key = some e' ∧ e'.maps f = true ∧ t.frame f = s.frame f ∧
      (t.Unsaved key ↔ s.Unsaved key)) ∨
    (t.entry key = none ∧ (s.Unsaved key → ∀ space, t.backing w space key = s.frame f))
  backing : ¬ s.Unsaved key → ∀ space, t.backing w space key = s.backing w space key
  absent : s.entry key = none → t.entry key = none

omit [BackingFile F] in
theorem not_unsaved_of_absent (h : s.entry key = none) : ¬ s.Unsaved key := by
  rintro ⟨e, he, -⟩
  rw [h] at he
  cases he

theorem Retained.refl (s : Paging F) (key : PageKey) : Retained w s s key where
  resident {e _} he hf := Or.inl ⟨e, he, hf, rfl, Iff.rfl⟩
  backing _ _ := rfl
  absent := id

theorem Retained.not_unsaved (h : Retained w s t key) (hs : s.Agrees) (hu : ¬ s.Unsaved key) :
    ¬ t.Unsaved key := by
  cases he : s.entry key with
  | none => exact not_unsaved_of_absent (h.absent he)
  | some e =>
    obtain ⟨-, f, hf, -⟩ := hs.entry he
    rcases h.resident he hf with ⟨-, -, -, -, hiff⟩ | ⟨hnone, -⟩
    · exact fun ht => hu (hiff.1 ht)
    · exact not_unsaved_of_absent hnone

theorem Retained.trans (hs : s.Agrees) (h : Retained w s m key) (h' : Retained w m t key) :
    Retained w s t key where
  resident {e f} he hf := by
    rcases h.resident he hf with ⟨e', he', hf', hframe, hiff⟩ | ⟨hnone, hsaved⟩
    · rcases h'.resident he' hf' with ⟨d, hd, hdf, hframe', hiff'⟩ | ⟨hnone, hsaved⟩
      · exact Or.inl ⟨d, hd, hdf, hframe'.trans hframe, hiff'.trans hiff⟩
      · exact Or.inr ⟨hnone, fun hu space => (hsaved (hiff.2 hu) space).trans hframe⟩
    · refine Or.inr ⟨h'.absent hnone, fun hu space => ?_⟩
      rw [h'.backing (not_unsaved_of_absent hnone), hsaved hu]
  backing hu space := by
    rw [h'.backing (h.not_unsaved hs hu), h.backing hu]
  absent he := h'.absent (h.absent he)

/-! ## What each step leaves to other pages -/

omit [BackingFile F] in
/-- A page that stays where it is, and whose usage shows as before, is as unsaved as it was. -/
theorem unsaved_of_bare (hbare : (t.entry key).map (·.bare) = (s.entry key).map (·.bare))
    (hmarked : ∀ e, s.entry key = some e → (t.Marked .written key ↔ s.Marked .written key)) :
    t.Unsaved key ↔ s.Unsaved key := by
  constructor
  · rintro ⟨e', he', hro, hm⟩
    rw [he', Option.map_some, eq_comm, Option.map_eq_some_iff] at hbare
    obtain ⟨e, he, hb⟩ := hbare
    exact ⟨e, he, (Translation.bare_eq_iff.1 hb).2.2.2.trans hro, (hmarked e he).1 hm⟩
  · rintro ⟨e, he, hro, hm⟩
    rw [he, Option.map_some, Option.map_eq_some_iff] at hbare
    obtain ⟨e', he', hb⟩ := hbare
    exact ⟨e', he', (Translation.bare_eq_iff.1 hb).2.2.2.trans hro, (hmarked e he).2 hm⟩

omit [BackingFile F] in
theorem Still.unsaved (h : Still s t) (hs : s.Agrees) : t.Unsaved key ↔ s.Unsaved key := by
  refine unsaved_of_bare (by rw [h.entry]) fun e he => ?_
  obtain ⟨-, f, hf, -⟩ := hs.entry he
  exact marked_of_same he ((h.entry key).trans he) hf fun id i _ => h.slot id i

omit [BackingFile F] in
theorem Recalled.unsaved {k : PageKey} {f : FrameNumber} (h : Recalled s t k f) (hs : s.Agrees) :
    t.Unsaved key ↔ s.Unsaved key :=
  unsaved_of_bare (h.bare hs key) fun _ he => h.marked hs .written he

/-- The page stays where it is, and its usage shows as before. -/
theorem retained_of_bare (hs : s.Agrees)
    (hbare : (t.entry key).map (·.bare) = (s.entry key).map (·.bare))
    (hframe : ∀ f, s.holder f = some key → t.frame f = s.frame f)
    (hmarked : ∀ e, s.entry key = some e → (t.Marked .written key ↔ s.Marked .written key))
    (hbacking : ¬ s.Unsaved key → ∀ space, t.backing w space key = s.backing w space key) :
    Retained w s t key where
  resident {e f} he hf := by
    have hunsaved := unsaved_of_bare hbare hmarked
    rw [he, Option.map_some, Option.map_eq_some_iff] at hbare
    obtain ⟨e', he', hb⟩ := hbare
    exact Or.inl ⟨e', he', by rwa [Translation.maps_congr hb],
      hframe f (hs.holder_of_maps he hf), hunsaved⟩
  backing := hbacking
  absent he := by rwa [he, Option.map_none, Option.map_eq_none_iff] at hbare

/-- Nothing is seen to change. -/
theorem Still.retained (h : Still s t) (hs : s.Agrees) (hswap : t.swap = s.swap) :
    Retained w s t key := by
  refine retained_of_bare hs (by rw [h.entry]) (fun f _ => h.frame f) (fun e he => ?_)
    fun _ space => by rw [backing, hswap, backing]
  obtain ⟨-, f, hf, -⟩ := hs.entry he
  exact marked_of_same he ((h.entry key).trans he) hf fun id i _ => h.slot id i

theorem Recalled.retained {k : PageKey} {f : FrameNumber} (h : Recalled s t k f) (hs : s.Agrees) :
    Retained w s t key :=
  retained_of_bare hs (h.bare hs key) (fun g _ => h.frame g) (fun _ he => h.marked hs .written he)
    fun _ space => by rw [backing, h.swap, backing]

/-- A page that loses its frame is written out exactly if its usage bits ask for that. -/
theorem Evicted.unsaved_iff {k : PageKey} {f : FrameNumber} {handed : Bool}
    (h : Evicted s t k f handed) (hs : s.Agrees) : s.Unsaved k ↔ handed = true := by
  obtain ⟨e, he, hdirty⟩ := h.dirty
  obtain ⟨d, hd, hdf⟩ := hs.owned h.held
  obtain rfl := Option.some.inj (he.symm.trans hd)
  rw [← hdirty, Translation.needsWriteback, Bool.and_eq_true, Bool.not_eq_true']
  constructor
  · rintro ⟨d, hd', hro, hm⟩
    obtain rfl := Option.some.inj (he.symm.trans hd')
    rcases (marked_iff he hdf).1 hm with hbit | ⟨id, i, hmaps, -⟩
    · exact ⟨hbit, hro⟩
    · rw [h.alone] at hmaps
      cases hmaps
  · rintro ⟨hbit, hro⟩
    exact ⟨e, he, hro, (marked_iff he hdf).2 (Or.inl hbit)⟩

/-- **A page that loses its frame is written out if its usage bits ask for that**, and no other
page notices. -/
theorem Evicted.retained {k : PageKey} {f : FrameNumber} {handed : Bool}
    (h : Evicted s t k f handed) (hs : s.Agrees) (hgood : w.good s.swap.file) :
    Retained w s t key := by
  by_cases hk : key = k
  · subst hk
    have hunsaved := h.unsaved_iff hs
    have hnone : t.entry key = none := by rw [h.entry, if_pos rfl]
    refine ⟨fun {d g} hd hg => Or.inr ⟨hnone, fun hu space => ?_⟩, fun hu space => ?_,
      fun _ => hnone⟩
    · obtain rfl := hs.frame_unique (hs.holder_of_maps hd hg) h.held
      rcases h.swap with ⟨-, a, hw⟩ | ⟨hclean, -⟩
      · have hslot : t.swap.slots[key]? = some a := by rw [hw.slots, if_pos ⟨rfl, rfl⟩]
        rw [backing, hslot]
        exact (w.slotPage_of_wroteOut hgood hw).2.2 rfl
      · rw [hunsaved.1 hu] at hclean
        cases hclean
    · rcases h.swap with ⟨hhanded, -⟩ | ⟨-, hw⟩
      · exact absurd (hunsaved.2 hhanded) hu
      · rw [backing, hw, backing]
  · refine retained_of_bare hs (by rw [h.entry, if_neg hk]) (fun g _ => h.frame g) (fun e he => ?_)
      fun _ space => ?_
    · exact (h.toVacated.marked hs .written (by rw [h.entry, if_neg hk, he])).2
    · rcases h.swap with ⟨-, a, hw⟩ | ⟨-, hw⟩
      · exact backing_of_wroteOut hs.swap hgood hw hk
      · rw [backing, hw, backing]

/-- A page that cannot be written out keeps its frame. -/
theorem Kept.retained {k : PageKey} {f : FrameNumber} (h : Kept s t k f) (hs : s.Agrees)
    (hgood : w.good s.swap.file) : Retained w s t key := by
  obtain ⟨a, n, -, hw⟩ := h.swap
  refine retained_of_bare hs (by rw [h.entry]) (fun g _ => h.frame g) (fun e he => ?_)
    fun hu space => backing_of_wroteOut hs.swap hgood hw ?_
  · obtain ⟨-, g, hg, -⟩ := hs.entry he
    exact marked_of_same he ((h.entry key).trans he) hg fun id i _ => h.slot id i
  · rintro rfl
    obtain ⟨e, he, hdirty⟩ := h.dirty
    obtain ⟨d, hd, hdf⟩ := hs.owned h.held
    obtain rfl := Option.some.inj (he.symm.trans hd)
    rw [Translation.needsWriteback, Bool.and_eq_true, Bool.not_eq_true'] at hdirty
    exact hu ⟨e, he, hdirty.2, (marked_iff he hdf).2 (Or.inl hdirty.1)⟩

/-- A frame that is filled was nobody's. -/
theorem Placed.retained {p : PageNumber} {f : FrameNumber} {readOnly : Bool} {page : Page}
    (h : Placed s t space p f pinned page readOnly) (hs : s.Agrees) (hk : key ≠ space.key p)
    (hbacking : ∀ space', t.backing w space' key = s.backing w space' key) :
    Retained w s t key := by
  have hentry : t.entry key = s.entry key := by rw [h.entry, if_neg hk]
  refine retained_of_bare hs (by rw [hentry]) (fun g hg => ?_) (fun e he => ?_) fun _ => hbacking
  · rw [h.frame, if_neg]
    rintro rfl
    rw [holder_eq_none.2 h.free] at hg
    cases hg
  · obtain ⟨-, g, hg, -⟩ := hs.entry he
    exact marked_of_same he (hentry.trans he) hg fun id i _ => h.slot id i

theorem Filled.retained {p : PageNumber} {f : FrameNumber} {readOnly : Bool} {page : Page}
    (h : Filled s t space p f pinned page readOnly) (hs : s.Agrees) (hgood : w.good s.swap.file)
    (hkey : key.pid ≠ space.pid) : Retained w s t key := by
  refine h.placed.retained hs (fun hk => hkey (congrArg PageKey.pid hk)) fun space' => ?_
  cases h.source with
  | program _ ht => rw [backing, ht, backing]
  | slot a page _ hr => exact backing_of_readFrom hgood hr

theorem Spoiled.retained {f : FrameNumber} (h : Spoiled s t f) (hs : s.Agrees)
    (hgood : w.good s.swap.file) : Retained w s t key := by
  obtain ⟨a, n, page, hr⟩ := h.swap
  refine retained_of_bare hs (by rw [h.entry]) (fun g hg => h.frame g ?_) (fun e he => ?_)
    fun _ space' => backing_of_readFrom hgood hr
  · rintro rfl
    rw [holder_eq_none.2 h.free] at hg
    cases hg
  · obtain ⟨-, g, hg, -⟩ := hs.entry he
    exact marked_of_same he ((h.entry key).trans he) hg fun id i _ => h.slot id i

theorem Move.retained (h : Move space pinned s t) (hs : s.Agrees) (hgood : w.good s.swap.file)
    (hkey : key.pid ≠ space.pid) : Retained w s t key := by
  cases h with
  | quiet h => exact h.toStill.retained hs h.swap
  | recalled h => exact h.retained hs
  | evicted h => exact h.retained hs hgood
  | kept h => exact h.retained hs hgood
  | filled h => exact h.retained hs hgood hkey
  | spoiled h => exact h.retained hs hgood

theorem Copied.retained {k : PageKey} {e : Translation} {f : FrameNumber} {writing : Bool}
    {page : Page} (h : Copied s t k f writing page) (hs : s.Agrees) (he : s.entry k = some e)
    (hf : e.maps f = true) (hk : key ≠ k) : Retained w s t key := by
  refine retained_of_bare hs (by rw [h.entry, if_neg hk]) (fun g hg => ?_) (fun d hd => ?_)
    fun _ space => by rw [backing, h.swap, backing]
  · rw [h.frame, if_neg]
    rintro rfl
    exact hk (Option.some.inj (hg.symm.trans (hs.holder_of_maps he hf)))
  · rw [h.marked hs .written hd, or_iff_left fun hw => hk hw.1]

/-- A process that loses pages takes nothing of others along. -/
theorem Lost.retained (h : Lost s t pid) (hs : s.Agrees) (hkey : key.pid ≠ pid)
    (hbacking : ∀ space, t.backing w space key = s.backing w space key) : Retained w s t key := by
  have hentry : t.entry key = s.entry key := (h.entry key).resolve_right fun hgone => hkey hgone.1
  exact retained_of_bare hs (by rw [hentry]) (fun g _ => h.frame g)
    (fun e he => h.marked hs .written hkey he) fun _ => hbacking

/-- **What is done for one process, no page of another loses anything by.** -/
theorem Errand.retained (h : Errand pid s t) (hs : s.Agrees) (hgood : w.good s.swap.file)
    (hkey : key.pid ≠ pid) : Retained w s t key := by
  cases h with
  | quiet h => exact h.toStill.retained hs h.swap
  | move hpid h => exact h.retained hs hgood (hpid ▸ hkey)
  | copied hpid he hf h =>
    exact h.retained hs he hf fun hk => hkey ((congrArg PageKey.pid hk).trans hpid)
  | registered h => exact h.toStill.retained hs h.swap
  | emptied h =>
    exact (h.steps.lost hs).retained hs hkey fun space => by rw [backing, h.steps.rest.1, backing]
  | destroyed h =>
    have hgone := h.gone hs
    refine hgone.toLost.retained hs hkey fun space => backing_congr ?_ fun a _ => ?_
    · rw [hgone.swap.slots, if_neg hkey]
    · rw [hgone.swap.file]

theorem Errands.retained (h : Errands pid s t) (hs : s.Agrees) (hgood : w.good s.swap.file)
    (hkey : key.pid ≠ pid) : Retained w s t key := by
  suffices hall : t.Agrees ∧ w.good t.swap.file ∧ Retained w s t key from hall.2.2
  induction h with
  | refl => exact ⟨hs, hgood, .refl s key⟩
  | tail _ herrand ih =>
    obtain ⟨ha, hg, hr⟩ := ih
    exact ⟨herrand.agrees ha, herrand.good ha hg, hr.trans hs (herrand.retained ha hg hkey)⟩

/-! ## What is found in a page -/

/-- What is to be found in a page, wherever it is. -/
def contents (w : FileView F) (s : Paging F) (space : AddressSpace) (key : PageKey) : Page :=
  match (s.entry key).bind (·.frame) with
  | some f => s.frame f
  | none => s.backing w space key

theorem contents_of_absent (h : s.entry key = none) :
    s.contents w space key = s.backing w space key := by
  rw [contents, h, Option.bind_none]

theorem contents_of_maps {e : Translation} {f : FrameNumber} (he : s.entry key = some e)
    (hf : e.maps f = true) : s.contents w space key = s.frame f := by
  rw [contents, he, Option.bind_some, (Translation.maps_iff.1 hf).2]

/-- A page whose usage bits say that it was not written holds what would be read in its place. -/
def Noted (w : FileView F) (s : Paging F) (space : AddressSpace) (key : PageKey) : Prop :=
  ∀ {e f}, s.entry key = some e → e.maps f = true → ¬ s.Unsaved key →
    s.frame f = s.backing w space key

/-- **A page that has lost nothing holds what it held**, as long as its usage bits say truly
whether it was written. -/
theorem Retained.contents_eq (h : Retained w s t key) (hs : s.Agrees)
    (hnoted : s.Noted w space key) : t.contents w space key = s.contents w space key := by
  cases he : s.entry key with
  | none =>
    rw [contents_of_absent he, contents_of_absent (h.absent he),
      h.backing (not_unsaved_of_absent he)]
  | some e =>
    obtain ⟨-, f, hf, -⟩ := hs.entry he
    rw [contents_of_maps he hf]
    rcases h.resident he hf with ⟨e', he', hf', hframe, -⟩ | ⟨hnone, hsaved⟩
    · exact (contents_of_maps he' hf').trans hframe
    · rw [contents_of_absent hnone]
      by_cases hu : s.Unsaved key
      · exact hsaved hu space
      · rw [h.backing hu, hnoted he hf hu]

/-- Where usage bits are exact they say truly which pages of a tenant were written. -/
theorem Faithful.noted {tenants : Pid → Option Tenant} (hf : s.Faithful w tenants)
    (hs : s.Consistent) (hx : s.Exact) (hl : s.Lodged tenants) {T : Tenant}
    (hT : tenants key.pid = some T) : s.Noted w T.space key := by
  intro e f he hef hu
  have hclean : s.Clean key := fun e' he' => by
    rw [Bool.eq_false_iff, ne_eq, ← hx.usage he']
    intro hm
    obtain rfl := Option.some.inj (he.symm.trans he')
    exact hu ⟨e, he, Bool.eq_false_iff.2 fun hro => hx.readOnly he hro hm, hm⟩
  rw [hf.resident he hef hT, hf.stored hT (hl.lt_of_inRange hT (hs.resident he)) hclean]

end Paging

end DemandPaging
