import DemandPaging.Proofs.FaultAnswers
import DemandPaging.Proofs.ProgramReach

/-!
# Pages that can be had

Which pages of a process can be had is known before anybody asks for them: those of its address
space that are resident, and the others as long as not all frames are pinned.  Asking for pages
does not change that.  Only a transfer of the swap file that comes up short can come in between.

* `Paging.Shorts` — how many transfers came up short.
* `Paging.Obtainable`, `Paging.obstacle` — whether a page can be had, and why an access is refused.
* `Paging.SameSupply`, `Paging.Changes.sameSupply` — the same pages can be had afterwards.
* `Paging.Sought`, `Paging.sought_of_translate` — what comes of asking for a page.
* `Kernel.accessPage_served`, `Kernel.handleMiss_served` — so it is when the kernel itself asks for
  a page, and when a TLB lacks one.
-/

namespace DemandPaging

namespace Paging

variable {F : Type} {s m t : Paging F} {tlb : TlbId} {retries : Nat} {space : AddressSpace}
  {p : PageNumber} {key : PageKey} {writing : Bool}

/-! ## Pages that are resident, or can become so -/

instance : Decidable s.AllPinned :=
  decidable_of_iff (∀ n < s.core.frames.size, (s.owner ⟨n⟩).any (·.pinned) = true) <| by
    simp only [AllPinned, Option.any_eq_true]
    exact ⟨fun h f hf => h f.val hf, fun h n hn => h ⟨n⟩ hn⟩

/-- There is a frame to be had if one is free, or its page does not have it for good. -/
theorem not_allPinned {f : FrameNumber} (hlt : f.val < s.core.frames.size)
    (h : (s.owner f).all (fun o => !o.pinned) = true) : ¬ s.AllPinned := by
  intro hpinned
  obtain ⟨o, ho, hopinned⟩ := hpinned f hlt
  rw [ho, Option.all_some, hopinned] at h
  cases h

/-- A page is resident, or there is a frame that it can get. -/
def Obtainable (s : Paging F) (key : PageKey) : Prop := (s.entry key).isSome = true ∨ ¬ s.AllPinned

instance : Decidable (s.Obtainable key) :=
  inferInstanceAs (Decidable ((s.entry key).isSome = true ∨ ¬ s.AllPinned))

/-- Why an access to a page is refused, if it is: the page lies outside the address space, or no
frame is to be had for it, or it may not be written. -/
def obstacle (s : Paging F) (space : AddressSpace) (writing : Bool) (p : PageNumber) :
    Option ExceptionCause :=
  if space.contains p = true ∧ ¬ s.Obtainable (space.key p) then some .busError
  else space.refusal writing p

theorem obstacle_outside (h : space.contains p = false) :
    s.obstacle space writing p = some .addressError := by
  rw [obstacle, if_neg (by simp [h]), AddressSpace.refusal_outside h]

theorem obstacle_exhausted (h : space.contains p = true) (hnot : ¬ s.Obtainable (space.key p)) :
    s.obstacle space writing p = some .busError :=
  if_pos ⟨h, hnot⟩

theorem obstacle_obtainable (h : s.Obtainable (space.key p)) :
    s.obstacle space writing p = space.refusal writing p :=
  if_neg fun hnot => hnot.2 h

/-- **A page is granted exactly if** it lies in the address space, is writable if it is to be
written, and can be had. -/
theorem obstacle_eq_none : s.obstacle space writing p = none ↔
    space.contains p = true ∧ ¬ (writing = true ∧ space.isSealed p = true) ∧
      s.Obtainable (space.key p) := by
  rw [obstacle]
  split
  · rename_i h
    exact iff_of_false nofun fun hall => h.2 hall.2.2
  · rename_i h
    rw [AddressSpace.refusal]
    by_cases hin : space.contains p = true
    · have hobtainable : s.Obtainable (space.key p) := by
        by_contra hnot
        exact h ⟨hin, hnot⟩
      simp [hin, hobtainable]
    · simp [hin]

/-- The same pages can be had afterwards. -/
structure SameSupply (s t : Paging F) : Prop where
  pinned : t.AllPinned ↔ s.AllPinned
  /-- If no frame is to be had, the same pages are resident. -/
  resident : s.AllPinned → ∀ key, (t.entry key).isSome = (s.entry key).isSome

namespace SameSupply

theorem refl (s : Paging F) : SameSupply s s := ⟨Iff.rfl, fun _ _ => rfl⟩

theorem trans (h : SameSupply s m) (h' : SameSupply m t) : SameSupply s t :=
  ⟨h'.pinned.trans h.pinned, fun hs key =>
    (h'.resident (h.pinned.2 hs) key).trans (h.resident hs key)⟩

theorem obtainable (h : SameSupply s t) : t.Obtainable key ↔ s.Obtainable key := by
  by_cases hs : s.AllPinned
  · rw [Obtainable, Obtainable, h.pinned, h.resident hs]
  · exact iff_of_true (Or.inr (mt h.pinned.1 hs)) (Or.inr hs)

theorem obstacle (h : SameSupply s t) : t.obstacle space writing p = s.obstacle space writing p := by
  simp only [Paging.obstacle, h.obtainable]

/-- Frames have the same owners, and the same pages are resident. -/
theorem of_owner (hshape : SameShape s t) (howner : ∀ f, t.owner f = s.owner f)
    (hentry : ∀ key, (t.entry key).isSome = (s.entry key).isSome) : SameSupply s t := by
  refine ⟨?_, fun _ => hentry⟩
  rw [AllPinned, AllPinned, hshape.frames]
  simp only [howner]

/-- There is a frame to be had before and after. -/
theorem of_frame {f : FrameNumber} (hshape : SameShape s t) (hlt : f.val < s.core.frames.size)
    (hs : ∀ o, s.owner f = some o → o.pinned = false)
    (ht : ∀ o, t.owner f = some o → o.pinned = false) : SameSupply s t := by
  have hnot : ∀ {u : Paging F}, f.val < u.core.frames.size →
      (∀ o, u.owner f = some o → o.pinned = false) → ¬ u.AllPinned := by
    intro u hf hu hpinned
    obtain ⟨o, ho, hopinned⟩ := hpinned f hf
    rw [hu o ho] at hopinned
    cases hopinned
  have hnots := hnot hlt hs
  exact ⟨iff_of_false (hnot (hshape.frames ▸ hlt) ht) hnots, fun hpinned => absurd hpinned hnots⟩

end SameSupply

theorem isSome_of_bare {d e : Option Translation}
    (h : d.map (·.bare) = e.map (·.bare)) : d.isSome = e.isSome := by
  rw [← Option.isSome_map (f := fun x : Translation => x.bare) (x := d), h, Option.isSome_map]

variable [BackingFile F] {may : Fate → Prop}

/-- **A page that is made resident takes no page away that could not be had again.** -/
theorem Move.sameSupply (h : Move space false s t) (hs : s.Agrees) : SameSupply s t := by
  cases h with
  | quiet h => exact .of_owner h.toSameShape h.owner fun key => by rw [h.entry]
  | recalled h => exact .of_owner h.toSameShape h.owner fun key => isSome_of_bare (h.bare hs key)
  | @evicted key f handed h =>
      obtain ⟨o, ho, hunpinned⟩ := h.unpinned
      refine .of_frame h.toSameShape (FrameTable.lt_size_of_owner ho) (fun o' ho' => ?_) fun o' ho' => ?_
      · obtain rfl := Option.some.inj (ho.symm.trans ho')
        exact hunpinned
      · rw [h.owner, if_pos rfl] at ho'
        cases ho'
  | kept h => exact .of_owner h.toSameShape h.owner fun key => by rw [h.entry]
  | @filled p f page readOnly h =>
      have howner : t.owner f = some ⟨space.key p, false⟩ := (h.owner f).trans (if_pos rfl)
      refine .of_frame h.toSameShape (h.frames ▸ FrameTable.lt_size_of_owner howner)
        (fun o ho => ?_) fun o ho => ?_
      · rw [h.free] at ho
        cases ho
      · exact (congrArg FrameOwner.pinned (Option.some.inj (howner.symm.trans ho))).symm
  | spoiled h => exact .of_owner h.toSameShape h.owner fun key => by rw [h.entry]

theorem Change.sameSupply (h : Change may s t) (hs : s.Agrees) (hpins : ∀ pid, ¬ may (.pins pid))
    (hloses : ∀ pid, ¬ may (.loses pid)) : SameSupply s t := by
  cases h with
  | quiet h => exact .of_owner h.toSameShape h.owner fun key => by rw [h.entry]
  | @move space pinned hmay h =>
      cases pinned with
      | false => exact h.sameSupply hs
      | true => exact absurd (hmay rfl) (hpins _)
  | adjusted h => exact .of_owner h.toSameShape h.owner fun key => isSome_of_bare (h.bare key)
  | registered _ h => exact .of_owner h.toSameShape h.owner fun key => by rw [h.entry]
  | emptied hmay _ _ => exact absurd hmay (hloses _)
  | destroyed hmay _ => exact absurd hmay (hloses _)

/-- **The same pages can be had** as long as nobody gets frames for good or loses his pages. -/
theorem Changes.sameSupply (h : Changes may s t) (hs : s.Consistent) (hpins : ∀ pid, ¬ may (.pins pid))
    (hloses : ∀ pid, ¬ may (.loses pid)) : SameSupply s t := by
  induction h with
  | refl => exact .refl s
  | tail hfirst hlast ih =>
      exact ih.trans (hlast.sameSupply (Changes.consistent hfirst hs).toAgrees hpins hloses)

/-! ## Transfers that come up short -/

/-- So many transfers came up short: none, if the swap file never fails. -/
structure Shorts (s t : Paging F) (n : Nat) : Prop where
  shortfalls : t.shortfalls = s.shortfalls + n
  reliable : ∀ {v : ReliableView F}, v.Keeps s.swap → n = 0 ∧ v.Keeps t.swap

namespace Shorts

theorem of_same (hshort : t.shortfalls = s.shortfalls) (hswap : t.swap = s.swap) : Shorts s t 0 :=
  ⟨hshort, fun hv => ⟨rfl, hswap ▸ hv⟩⟩

theorem refl (s : Paging F) : Shorts s s 0 := .of_same rfl rfl

theorem trans {a b : Nat} (h : Shorts s m a) (h' : Shorts m t b) : Shorts s t (a + b) := by
  refine ⟨by rw [h'.shortfalls, h.shortfalls, Nat.add_assoc], fun hv => ?_⟩
  obtain ⟨rfl, hm⟩ := h.reliable hv
  obtain ⟨rfl, ht⟩ := h'.reliable hm
  exact ⟨rfl, ht⟩

theorem head {n : Nat} (h : Shorts s m 0) (h' : Shorts m t n) : Shorts s t n := by
  simpa using h.trans h'

theorem tail {n : Nat} (h : Shorts s m n) (h' : Shorts m t 0) : Shorts s t n := h.trans h'

theorem note {e : Event} (hshort : e.shortfall = 0) : Shorts s (s.note e) 0 :=
  .of_same (congrArg (s.shortfalls + ·) hshort) rfl

/-- None did if none was noted. -/
theorem eq_zero {n : Nat} (h : Shorts s t n) (hnone : t.shortfalls = s.shortfalls) : n = 0 := by
  have hcount := h.shortfalls
  omega

/-- What is done unless a transfer comes up short is done if none was noted. -/
theorem served {P Q : Prop} (h : (Shorts s t 0 ∧ P) ∨ (Shorts s t 1 ∧ Q))
    (hnone : t.shortfalls = s.shortfalls) : P := by
  obtain ⟨-, hall⟩ | ⟨hshorts, -⟩ := h
  · exact hall
  · cases hshorts.eq_zero hnone

/-- None is noted if the swap file never fails. -/
theorem none_noted {P Q : Prop} (h : (Shorts s t 0 ∧ P) ∨ (Shorts s t 1 ∧ Q)) {v : ReliableView F}
    (hv : v.Keeps s.swap) : t.shortfalls = s.shortfalls := by
  obtain ⟨hshorts, -⟩ | ⟨hshorts, -⟩ := h
  · exact hshorts.shortfalls
  · cases (hshorts.reliable hv).1

end Shorts

theorem shorts_attach (s : Paging F) (id : TlbId) : Shorts s (s.attach id) 0 := by
  unfold attach
  dsimp only
  split
  · exact .of_same rfl rfl
  · exact .of_same rfl rfl

theorem shorts_install {pid : Pid} {e : Translation} {r : Except Halt Nat}
    (h : s.install tlb pid e = (r, t)) : Shorts s t 0 := by
  rcases install_spec h with ⟨-, -, rfl⟩ | ⟨i, -, -, hinst⟩
  · exact .refl _
  · refine .of_same ?_ hinst.swap
    unfold install at h
    dsimp only at h
    split at h <;> split at h <;> obtain ⟨-, rfl⟩ := Prod.mk.inj h <;> rfl

theorem Vacancy.shorts (h : Vacancy s m) (hs : s.Agrees) : Shorts s m 0 := by
  refine ⟨?_, fun hv => ⟨rfl, h.keeps hv⟩⟩
  rcases h.cost hs with ⟨-, htally, -, -⟩ | ⟨-, htally, -, -⟩
  · exact htally.shortfalls
  · exact htally.shortfalls

theorem Withheld.shorts (h : Withheld s t) : Shorts s t 1 := by
  refine ⟨?_, fun hv => absurd hv h.not_keeps⟩
  obtain ⟨-, -, -, -, -, htally⟩ := h
  exact htally.shortfalls

/-! ## Asking for a page -/

/-- What comes of asking for a page. -/
inductive Sought (s : Paging F) (space : AddressSpace) (p : PageNumber) :
    Except PagingError Translation → Paging F → Prop
  /-- It lies outside the address space. -/
  | outside {t : Paging F} (houtside : space.contains p = false) (hshorts : Shorts s t 0) :
    Sought s space p (.error (.invalidAddress p.base.val)) t
  /-- No frame is to be had for it. -/
  | exhausted {t : Paging F} (hinside : space.contains p = true) (hnot : ¬ s.Obtainable (space.key p))
    (hshorts : Shorts s t 0) : Sought s space p (.error .outOfFrames) t
  /-- It could be had, but a transfer came up short. -/
  | short {t : Paging F} (hinside : space.contains p = true) (hobtainable : s.Obtainable (space.key p))
    (hshorts : Shorts s t 1) : Sought s space p (.error .shortTransfer) t
  | found {e : Translation} {t : Paging F} (hinside : space.contains p = true) (hobtainable : s.Obtainable (space.key p))
    (hshorts : Shorts s t 0) : Sought s space p (.ok e) t

theorem sought_of_pageIn {r : Except PagingError Translation} (hs : s.Agrees)
    (habsent : s.entry (space.key p) = none) (hinside : space.contains p = true)
    (h : s.pageIn tlb retries space p = (r, t)) : Sought s space p r t := by
  have hcount := quiet_count s fun c => { c with faults := c.faults + 1 }
  have hstart : Shorts s (s.count fun c => { c with faults := c.faults + 1 }) 0 := .of_same rfl rfl
  have hsupply : ∀ {x u}, (s.count fun c => { c with faults := c.faults + 1 }).claimFrame tlb retries
      (space.key p) false = (x, u) → Supply s (space.key p) false x u := fun hclaim =>
    (supply_of_claimFrame (hcount.agrees hs) hclaim).head hcount ⟨rfl, rfl⟩
  have hobtainable : ¬ s.AllPinned → s.Obtainable (space.key p) := Or.inr
  cases pagesIn_of_pageIn h with
  | refused hclaim =>
      cases hsupply hclaim with
      | exhausted hpinned hquiet htally =>
          refine .exhausted hinside ?_ (.of_same htally.shortfalls hquiet.swap)
          rw [Obtainable, habsent]
          simpa using hpinned
      | withheld h => exact .short hinside (hobtainable h.not_allPinned) h.shorts
  | @spoiled f u e m t hclaim hfill ht =>
      cases hsupply hclaim with
      | @supplied a _ _ hvacancy hclaimed =>
          have ha := hvacancy.agrees hs
          have hfirst : Shorts s u 0 := (hvacancy.shorts hs).tail
            (.of_same (tally_claim hclaimed).shortfalls (swap_of_claim hclaimed))
          obtain ⟨_, _, hr, -⟩ | ⟨slot, n, page, hr, hslot, hshort, hread, -⟩ :=
            fill_spec (lt_frameCount_of_claim ha hclaimed) hfill
          · cases hr
          · obtain rfl := Except.error.inj hr
            have hfailed : Shorts u m 1 := by
              refine ⟨((tally_fill hfill).2 _ rfl).shortfalls, fun hv => ?_⟩
              exact absurd (hv.whole hslot hread) hshort
            subst ht
            exact .short hinside (hobtainable (hvacancy.not_allPinned hs))
              ((hfirst.head hfailed).tail (.of_same (tally_release m f).shortfalls (swap_release m f)))
  | @filled f u flags m t hclaim hfill ht =>
      cases hsupply hclaim with
      | @supplied a _ _ hvacancy hclaimed =>
          have ha := hvacancy.agrees hs
          have hfirst : Shorts s u 0 := (hvacancy.shorts hs).tail
            (.of_same (tally_claim hclaimed).shortfalls (swap_of_claim hclaimed))
          obtain ⟨page, readOnly, -, hsource, -⟩ | ⟨_, _, _, hr, -⟩ :=
            fill_spec (lt_frameCount_of_claim ha hclaimed) hfill
          · have hfilled : Shorts u m 0 := by
              refine ⟨((tally_fill hfill).1 _ rfl).shortfalls, fun hv => ⟨rfl, ?_⟩⟩
              cases hsource with
              | program _ hsame => exact hsame ▸ hv
              | slot _ _ _ hread => exact hv.readFrom hread
            subst ht
            exact .found hinside (hobtainable (hvacancy.not_allPinned hs))
              ((hfirst.head hfilled).tail (.of_same rfl rfl))
          · cases hr

/-- A process that is to have its pages from the start has them. -/
def Stocked (s : Paging F) (space : AddressSpace) (strategy : Strategy) : Prop :=
  strategy = .eager → ∃ place, s.Preloaded space.pid space.pageCount place

theorem Changes.stocked {strategy : Strategy} (h : Changes may s t) (hs : s.Consistent)
    (hloses : ¬ may (.loses space.pid)) (hstocked : s.Stocked space strategy) :
    t.Stocked space strategy := fun heager =>
  (hstocked heager).imp fun _ hplace => h.preloaded hs hloses hplace

omit [BackingFile F] in
theorem inRange_iff_contains (hcount : s.core.spaces[space.pid]? = some space.pageCount) :
    s.InRange (space.key p) ↔ space.contains p = true := by
  refine ⟨contains_of_inRange hcount, fun h => ⟨_, hcount, ?_⟩⟩
  exact of_decide_eq_true h

/-- **There are four ends to asking for a page**, and which of them it is hangs on the page and on
the frames, unless a transfer comes up short. -/
theorem sought_of_translate {strategy : Strategy} {r : Except PagingError Translation}
    (hs : s.Agrees) (hcount : s.core.spaces[space.pid]? = some space.pageCount)
    (hstocked : s.Stocked space strategy)
    (h : s.translate strategy tlb retries space p = (r, t)) : Sought s space p r t := by
  by_cases hinside : space.contains p = true
  · cases strategy with
    | demand =>
        have hrange := (inRange_iff_contains hcount).2 hinside
        cases resolves_of_resolve hs h with
        | unregistered hnone => exact absurd hnone hrange.ne_none
        | outside hcount hle => exact absurd hle (Nat.not_le.2 (hrange.lt hcount))
        | resident _ he => exact .found hinside (Or.inl (by rw [he]; rfl)) (.refl s)
        | missing _ habsent h => exact sought_of_pageIn hs habsent hinside h
    | eager =>
        obtain ⟨place, hplace⟩ := hstocked rfl
        obtain ⟨e, he, -⟩ := hplace.entry hs (of_decide_eq_true hinside)
        rw [hplace.translate hs (of_decide_eq_true hinside) he] at h
        obtain ⟨rfl, rfl⟩ := Prod.mk.inj h
        exact .found hinside (Or.inl (Option.isSome_of_eq_some he)) (.refl _)
  · have houtside := Bool.eq_false_iff.2 hinside
    have hcheck : s.checkRange space.pid p = .error (.invalidAddress p.base.val) := by
      rw [checkRange, CoreMap.pageCount, hcount]
      exact if_pos (Nat.le_of_not_lt fun hlt => hinside (decide_eq_true hlt))
    rw [translate_of_checkRange hcheck] at h
    obtain ⟨rfl, rfl⟩ := Prod.mk.inj h
    exact .outside houtside (.refl _)

end Paging

/-! ## The kernel asks for a page -/

namespace Kernel

open Paging

variable {F : Type} [BackingFile F] {view : Option (FileView F)} {tenants : Pid → Option Tenant}
  {seat : TlbId → Option Pid} {k k' : Kernel F} {tlb : TlbId} {space : AddressSpace}
  {strategy : Strategy} {memory : Memory}

/-- What the kernel answers when it was refused a page, or was not. -/
inductive Served (p : PageNumber) : Option ExceptionCause → Except Failure (Option Page) → Prop
  | granted (page : Page) : Served p none (.ok (some page))
  | readOnly : Served p (some .readOnly) (.ok none)
  | outside : Served p (some .addressError) (.error (.error (.invalidAddress p.base.val)))
  | exhausted : Served p (some .busError) (.error (.error .outOfFrames))

/-- A translation that follows a step that nobody sees is known from the state before. -/
theorem sought_of_quiet {a t : Paging F} {p : PageNumber} {r : Except PagingError Translation}
    (hk : k.InOrder view tenants seat) (hstocked : k.Stocked space strategy)
    (hT : tenants space.pid = some ⟨space, memory⟩) (hquiet : Quiet k.toPaging a)
    (h : a.translate strategy tlb k.config.victimRetries space p = (r, t)) :
    SameSupply k.toPaging a ∧ Sought a space p r t ∧ t.InOrder view tenants seat ∧
      ∀ e, r = .ok e → t.entry (space.key p) = some e := by
  have ha := hk.quiet hquiet
  have hchange : Changes (fun _ => False) k.toPaging a := .single (.quiet hquiet)
  obtain ⟨hmoves, hentry⟩ := Paging.translate_spec ha.toAgrees h
  refine ⟨hchange.sameSupply hk.toConsistent (fun _ => id) (fun _ => id), ?_, ha.moves hmoves hT rfl,
    fun e he => (hentry e he).1⟩
  refine sought_of_translate ha.toAgrees ?_ (hchange.stocked hk.toConsistent id hstocked) h
  rw [hquiet.spaces]
  exact (hk.lodged.space hT).2.1

/-- **The kernel gets at a page exactly if it can be had and may be written**, unless a transfer
comes up short. -/
theorem accessPage_served {p : PageNumber} {writing : Bool} {change : Page → Page}
    {r : Except Failure (Option Page)} (hk : k.InOrder view tenants seat)
    (hstocked : k.Stocked space strategy) (hT : tenants space.pid = some ⟨space, memory⟩)
    (h : k.accessPage tlb space strategy p writing change = (r, k')) :
    (Shorts k.toPaging k'.toPaging 0 ∧ Served p (k.obstacle space writing p) r) ∨
      (Shorts k.toPaging k'.toPaging 1 ∧ r = .error (.error .shortTransfer)) := by
  unfold accessPage at h
  dsimp only at h
  have hquiet := quiet_attach k.toPaging tlb
  have hattached := shorts_attach k.toPaging tlb
  generalize k.toPaging.attach tlb = a at h hquiet hattached
  cases ht : a.translate strategy tlb k.config.victimRetries space p with
  | mk x t =>
      rw [ht] at h
      obtain ⟨hsupply, hsought, horder, hentry⟩ := sought_of_quiet hk hstocked hT hquiet ht
      rw [← hsupply.obstacle]
      cases hsought with
      | outside houtside hshorts =>
          obtain ⟨rfl, rfl⟩ := Prod.mk.inj h
          rw [obstacle_outside houtside]
          exact Or.inl ⟨hattached.head hshorts, .outside⟩
      | exhausted hinside hnot hshorts =>
          obtain ⟨rfl, rfl⟩ := Prod.mk.inj h
          rw [obstacle_exhausted hinside hnot]
          exact Or.inl ⟨hattached.head hshorts, .exhausted⟩
      | short hinside hobtainable hshorts =>
          obtain ⟨rfl, rfl⟩ := Prod.mk.inj h
          exact Or.inr ⟨hattached.head hshorts, rfl⟩
      | @found e _ hinside hobtainable hshorts =>
          have he := hentry e rfl
          have hsealed := horder.locked.resident he hT
          rw [obstacle_obtainable hobtainable]
          dsimp only at h
          split at h
          · rename_i hro
            rw [Bool.and_eq_true] at hro
            obtain ⟨rfl, rfl⟩ := Prod.mk.inj h
            rw [hro.1, AddressSpace.refusal_sealed hinside (hsealed.symm.trans hro.2)]
            exact Or.inl ⟨hattached.head hshorts, .readOnly⟩
          · rename_i hro
            obtain ⟨-, f, hf, hheld⟩ := horder.entry he
            obtain ⟨o, ho, -⟩ := holder_eq_some.1 hheld
            rw [(Translation.maps_iff.1 hf).2] at h
            dsimp only at h
            rw [show t.core.memory.frame? f = some (t.frame f) from
              if_pos (horder.toAgrees.lt_frameCount ho)] at h
            obtain ⟨rfl, rfl⟩ := Prod.mk.inj h
            rw [AddressSpace.refusal_granted hinside fun hw => hro ?_]
            · exact Or.inl ⟨hattached.head (hshorts.tail (.of_same rfl rfl)), .granted _⟩
            · have hreadOnly : e.flags.readOnly = true := hsealed.trans hw.2
              rw [hw.1, hreadOnly]
              rfl

/-- What comes of a page that a TLB lacks: the TLB has it then, or the access is refused. -/
inductive Resolved (k' : Kernel F) (tlb : TlbId) (p : PageNumber) :
    Option ExceptionCause → Except Failure Nat → Prop
  | resolved {i : Nat} (hholds : k'.Holds tlb p) : Resolved k' tlb p none (.ok i)
  | outside : Resolved k' tlb p (some .addressError) (.error (.error (.invalidAddress p.base.val)))
  | exhausted : Resolved k' tlb p (some .busError) (.error (.error .outOfFrames))

/-- **A miss is resolved exactly if the page can be had**, unless a transfer comes up short. -/
theorem handleMiss_served {address : VirtAddr} {r : Except Failure Nat}
    (hk : k.InOrder view tenants seat) (hstocked : k.Stocked space strategy)
    (hT : tenants space.pid = some ⟨space, memory⟩) (hslots : 0 < (k.core.tlbs.tlb tlb).size)
    (haddress : address.val ≤ maxUserAddr)
    (h : k.handleMiss tlb space strategy address = (r, k')) :
    (Shorts k.toPaging k'.toPaging 0 ∧
        Resolved k' tlb address.page (k.obstacle space false address.page) r) ∨
      (Shorts k.toPaging k'.toPaging 1 ∧ r = .error (.error .shortTransfer)) := by
  unfold handleMiss at h
  rw [if_neg (Nat.not_lt_of_le haddress)] at h
  dsimp only at h
  have hcount := quiet_count k.toPaging fun c => { c with tlbMisses := c.tlbMisses + 1 }
  have hattach := quiet_attach (k.toPaging.count fun c => { c with tlbMisses := c.tlbMisses + 1 }) tlb
  have hattached : Shorts k.toPaging _ 0 := Shorts.head
    (m := k.toPaging.count fun c => { c with tlbMisses := c.tlbMisses + 1 }) (.of_same rfl rfl)
    (shorts_attach _ tlb)
  have hquiet := hcount.trans hattach
  generalize (k.toPaging.count fun c => { c with tlbMisses := c.tlbMisses + 1 }).attach tlb = a
    at h hquiet hattached
  cases ht : a.translate strategy tlb k.config.victimRetries space address.page with
  | mk x t =>
      rw [ht] at h
      obtain ⟨hsupply, hsought, horder, hentry⟩ := sought_of_quiet hk hstocked hT hquiet ht
      rw [← hsupply.obstacle]
      cases hsought with
      | outside houtside hshorts =>
          obtain ⟨rfl, rfl⟩ := Prod.mk.inj h
          rw [obstacle_outside houtside]
          exact Or.inl ⟨hattached.head hshorts, .outside⟩
      | exhausted hinside hnot hshorts =>
          obtain ⟨rfl, rfl⟩ := Prod.mk.inj h
          rw [obstacle_exhausted hinside hnot]
          exact Or.inl ⟨hattached.head hshorts, .exhausted⟩
      | short hinside hobtainable hshorts =>
          obtain ⟨rfl, rfl⟩ := Prod.mk.inj h
          exact Or.inr ⟨hattached.head hshorts, rfl⟩
      | @found e _ hinside hobtainable hshorts =>
          have hgranted : space.refusal false address.page = none :=
            AddressSpace.refusal_granted hinside fun hw => nomatch hw.1
          rw [obstacle_obtainable hobtainable, hgranted]
          dsimp only at h
          cases hi : t.install tlb space.pid e with
          | mk y u =>
              rw [hi] at h
              have hinstalled := shorts_install hi
              rcases install_spec hi with ⟨hsize, -, -⟩ | ⟨i, -, rfl, hinst⟩
              · have hshape := hquiet.toSameShape.trans
                  (Paging.translate_spec (hk.quiet hquiet).toAgrees ht).1.sameShape
                rw [hshape.size] at hsize
                omega
              · obtain ⟨rfl, rfl⟩ := Prod.mk.inj h
                have hlast : Shorts u (u.note (.translationInstalled address space.pid i)) 0 :=
                  .note rfl
                refine Or.inl ⟨hattached.head (hshorts.tail (hinstalled.tail hlast)), .resolved ?_⟩
                obtain ⟨hpage, f, hf, -⟩ := horder.entry (hentry e rfl)
                have hslot : u.slot tlb i = e := (hinst.slot tlb i).trans (if_pos ⟨rfl, rfl⟩)
                exact ⟨i, f, by rw [← hslot] at hf; exact hf, (congrArg _ hslot).trans hpage⟩

end Kernel

end DemandPaging
