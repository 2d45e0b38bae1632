import DemandPaging.Proofs.FrameSupply
import DemandPaging.Proofs.TablesAgree
import Mathlib

/-!
# How a fault is answered

A page of an address space is looked up, and if it is not resident it is made so.  Which answer
there is depends on the address spaces, on whose frames there are and for how long, and on the
transfers of the swap file, and on nothing else.

* `Paging.Reachable` — the states that a machine comes to.
* `Paging.Shortage` — a transfer that was needed came up short.
* `Paging.Faulted`, `Paging.faulted_of_pageIn` — what is left when a page was to become resident.
* `Paging.Made` — a page was made resident.
* `Paging.Classified`, `Paging.resolve_classified` — which answer there is, and when.
-/

namespace DemandPaging

namespace Paging

variable {F : Type} [BackingFile F] {s m t : Paging F} {tlb : TlbId} {retries : Nat}
  {space : AddressSpace} {p : PageNumber} {key : PageKey} {pinned : Bool}

/-! ## States that a machine comes to -/

/-- A machine comes to this state, whatever it was asked for, and whatever it has done of it yet. -/
def Reachable (s : Paging F) : Prop :=
  ∃ m : Machine F, m.Reached ∧ Changes (fun _ => True) m.kernel.toPaging s

theorem Reachable.consistent (h : s.Reachable) : s.Consistent := by
  obtain ⟨m, hm, hchanges⟩ := h
  exact hchanges.consistent hm.consistent

/-! ## Transfers that come up short -/

/-- A transfer came up short that was needed to make a page resident: the page that was to lose its
frame could not be written out, or the page itself could not be read back into its frame. -/
inductive Shortage (s t : Paging F) (key : PageKey) : Prop
  | write (h : Withheld s t)
  | read {m : Paging F} {f : FrameNumber} {a : SwapSlot} {n : Nat} {page : Page}
    (hvacancy : Vacancy s m) (hslot : m.swap.slots[key]? = some a) (hshort : n ≠ pageSize)
    (hread : SwapStore.ReadFrom m.swap t.swap a n page) (hspoiled : Spoiled m t f)

namespace Shortage

theorem moves (space : AddressSpace) (pinned : Bool) (h : Shortage s t key) :
    Moves space pinned s t := by
  cases h with
  | write h => exact h.moves space pinned
  | read hvacancy _ _ _ hspoiled => exact (hvacancy.moves space pinned).tail (.spoiled hspoiled)

theorem absent (h : Shortage s t key) (hs : s.Agrees) (habsent : s.entry key = none) :
    t.entry key = none := by
  cases h with
  | write h => exact (h.recedes hs key habsent).1
  | read hvacancy _ _ _ hspoiled =>
      exact (hspoiled.entry key).trans (hvacancy.recedes hs key habsent).1

theorem not_allPinned (h : Shortage s t key) (hs : s.Agrees) : ¬ s.AllPinned := by
  cases h with
  | write h => exact h.not_allPinned
  | read hvacancy _ _ _ _ => exact hvacancy.not_allPinned hs

end Shortage

/-! ## What is left of a fault -/

/-- What is left when a page was to become resident on demand. -/
inductive Faulted (s : Paging F) (space : AddressSpace) (p : PageNumber) :
    Except PagingError Translation → Paging F → Prop
  | exhausted {t : Paging F} (hpinned : s.AllPinned) (hquiet : Quiet s t) :
    Faulted s space p (.error .outOfFrames) t
  | short {t : Paging F} (h : Shortage s t (space.key p)) :
    Faulted s space p (.error .shortTransfer) t
  | filled {m t : Paging F} {f : FrameNumber} {page : Page} {readOnly : Bool}
    (hvacancy : Vacancy s m) (hfilled : Filled m t space p f false page readOnly)
    (htally : Tally m t 0 0) :
    Faulted s space p (.ok { page := p, frame := some f, flags := .fresh readOnly }) t

omit [BackingFile F] in
theorem Quiet.freeCount (h : Quiet s t) : t.core.frames.freeCount = s.core.frames.freeCount :=
  FrameTable.freeCount_congr h.frames h.owner

/-- Something that nobody sees comes before. -/
theorem Supply.head {r : Except PagingError FrameNumber} (h : Supply m key pinned r t)
    (hquiet : Quiet s m) (htally : Tally s m 0 0) : Supply s key pinned r t := by
  cases h with
  | supplied hvacancy hclaim =>
      refine .supplied ?_ hclaim
      cases hvacancy with
      | free hfree hquiet' htally' =>
          exact .free (hquiet.freeCount ▸ hfree) (hquiet.trans hquiet') (htally.head htally')
      | taken hfull hquiet' hrecalled hevicted htally' =>
          exact .taken (hquiet.freeCount ▸ hfull) (hquiet.trans hquiet') hrecalled hevicted
            (htally.head htally')
  | exhausted hpinned hquiet' htally' =>
      refine .exhausted (fun f hf => ?_) (hquiet.trans hquiet') (htally.head htally')
      rw [← hquiet.owner]
      exact hpinned f (hquiet.frames ▸ hf)
  | withheld h =>
      obtain ⟨hfull, ⟨o, ho, hpinned⟩, hquiet', hrecalled, hkept, htally'⟩ := h
      exact .withheld ⟨hquiet.freeCount ▸ hfull, ⟨o, hquiet.owner _ ▸ ho, hpinned⟩,
        hquiet.trans hquiet', hrecalled, hkept, htally.head htally'⟩

/-- **There are three ends to a fault**: all frames are pinned, a transfer came up short, or the page
is resident. -/
theorem faulted_of_pageIn {r : Except PagingError Translation} (hs : s.Agrees)
    (habsent : s.entry (space.key p) = none) (hrange : s.InRange (space.key p))
    (h : s.pageIn tlb retries space p = (r, t)) : Faulted s space p r t := by
  have hcount := quiet_count s fun c => { c with faults := c.faults + 1 }
  have hsupply : ∀ {x u}, (s.count fun c => { c with faults := c.faults + 1 }).claimFrame tlb retries
      (space.key p) false = (x, u) → Supply s (space.key p) false x u := fun hclaim =>
    (supply_of_claimFrame (hcount.agrees hs) hclaim).head hcount ⟨rfl, rfl⟩
  cases pagesIn_of_pageIn h with
  | refused hclaim =>
      cases hsupply hclaim with
      | exhausted hpinned hquiet _ => exact .exhausted hpinned hquiet
      | withheld h => exact .short (.write h)
  | spoiled hclaim hfill ht =>
      cases hsupply hclaim with
      | supplied hvacancy hclaimed =>
          have hm := hvacancy.agrees hs
          obtain ⟨_, _, hr, -⟩ | ⟨a, n, page, hr, hslot, hshort, hread, hload⟩ :=
            fill_spec (lt_frameCount_of_claim hm hclaimed) hfill
          · cases hr
          · obtain rfl := Except.error.inj hr
            rw [swap_of_claim hclaimed] at hslot hread
            subst ht
            exact .short (.read hvacancy hslot hshort (by rwa [swap_release])
              (spoiled_of_claim hclaimed hload (by rwa [swap_of_claim hclaimed])))
  | filled hclaim hfill ht =>
      cases hsupply hclaim with
      | supplied hvacancy hclaimed =>
          have hm := hvacancy.agrees hs
          have htally := (tally_claim hclaimed).head ((tally_fill hfill).1 _ rfl)
          obtain ⟨page, readOnly, hr, hsource, hload⟩ | ⟨_, _, _, hr, -⟩ :=
            fill_spec (lt_frameCount_of_claim hm hclaimed) hfill
          · obtain rfl := Except.ok.inj hr
            refine .filled hvacancy (filled_of_claim hclaimed hload hsource
              (hvacancy.recedes hs _ habsent).1 ((hvacancy.moves space false).inRange hrange) ?_ ?_ ?_) ?_
            · rw [ht]
              rfl
            · rw [ht]
              rfl
            · rw [ht]
              rfl
            · rw [ht]
              exact htally.tail ⟨rfl, rfl⟩
          · cases hr

/-! ## Pages that are made resident -/

/-- A page has become resident, in a frame that it does not have for good. -/
structure Made (s t : Paging F) (space : AddressSpace) (p : PageNumber) (e : Translation)
    (f : FrameNumber) : Prop where
  page : e.page = p
  maps : e.maps f = true
  entry : t.entry (space.key p) = some e
  owner : t.owner f = some ⟨space.key p, false⟩
  /-- The frame holds the page's copy in the swap file, if the page has a slot there, -/
  swapped : ∀ {w : FileView F} {a : SwapSlot}, w.good s.swap.file →
    s.swap.slots[space.key p]? = some a → t.frame f = w.slotPage s.swap.file a
  /-- or else the bytes of the section that covers the page, -/
  covered : ∀ {page : Page} {readOnly : Bool}, s.swap.slots[space.key p]? = none →
    space.image.backing p = some (page, readOnly) → t.frame f = page
  /-- or else zeros. -/
  zeros : s.swap.slots[space.key p]? = none → space.image.backing p = none → t.frame f = zeroPage
  /-- If a frame was free nobody has lost one, -/
  spared : 0 < s.core.frames.freeCount →
    t.core.counters.evictions = s.core.counters.evictions ∧ ∀ k, Stays s t k
  /-- and if none was, exactly one page has, which did not have it for good. -/
  moved : s.core.frames.freeCount = 0 →
    t.core.counters.evictions = s.core.counters.evictions + 1 ∧ ∃ k g, Displaced s t k g

/-- **A page that is filled has its bytes.** -/
theorem made_of_filled {f : FrameNumber} {page : Page} {readOnly : Bool} (hs : s.Agrees)
    (habsent : s.entry (space.key p) = none) (hvacancy : Vacancy s m)
    (hfilled : Filled m t space p f false page readOnly) (htally : Tally m t 0 0) :
    Made s t space p { page := p, frame := some f, flags := .fresh readOnly } f := by
  have hm := hvacancy.agrees hs
  have hslots := (hvacancy.recedes hs _ habsent).2
  have hstays : ∀ l, Stays m t l := fun l => hfilled.placed.stays hm
  have hframe : t.frame f = page := (hfilled.frame f).trans (if_pos rfl)
  have hinitial : s.swap.slots[space.key p]? = none → t.frame f = space.initialPage p := by
    intro hnone
    cases hfilled.source with
    | program _ _ => exact hframe
    | slot a _ ha _ =>
        rw [hslots, hnone] at ha
        cases ha
  have htswap : ∀ l : PageKey, t.swap.slots[l]? = m.swap.slots[l]? := by
    intro l
    cases hfilled.source with
    | program _ ht => rw [ht]
    | slot _ _ _ hread => rw [hread.slots]
  refine
    { page := rfl
      maps := Translation.maps_iff.2 ⟨rfl, rfl⟩
      entry := (hfilled.entry _).trans (if_pos rfl)
      owner := (hfilled.owner f).trans (if_pos rfl)
      swapped := fun {w a} hgood ha => ?_
      covered := fun {page' readOnly'} hnone hcovered => ?_
      zeros := fun hnone hzeros => ?_
      spared := fun hfree => ?_
      moved := fun hfull => ?_ }
  · rw [hframe, hfilled.page_eq ((hvacancy.moves space false).good hs hgood),
      (hvacancy.retained hs hgood).backing (not_unsaved_of_absent habsent), backing_of_slot ha]
  · rw [hinitial hnone, AddressSpace.initialPage, hcovered]
  · rw [hinitial hnone, AddressSpace.initialPage, hzeros]
  · rcases hvacancy.cost hs with ⟨-, hcount, -, hstay⟩ | ⟨hfull, -⟩
    · exact ⟨htally.evictions.trans hcount.evictions, fun k => (hstay k).trans (hstays k)⟩
    · omega
  · rcases hvacancy.cost hs with ⟨hfree, -⟩ | ⟨-, hcount, -, k, g, hdisplaced⟩
    · omega
    · refine ⟨htally.evictions.trans hcount.evictions, k, g, hdisplaced.tail ?_ htswap hstays⟩
      have hk : k ≠ space.key p := by
        rintro rfl
        obtain ⟨e, he, -⟩ := hdisplaced.resident hs
        rw [habsent] at he
        cases he
      rw [hfilled.entry, if_neg hk]

/-! ## Which answer there is -/

/-- How a fault is answered. -/
structure Answered (s : Paging F) (space : AddressSpace) (p : PageNumber)
    (r : Except PagingError Translation) (t : Paging F) : Prop where
  /-- No frame is to be had exactly if all are pinned. -/
  exhausted : r = .error .outOfFrames ↔ s.AllPinned
  /-- A transfer is said to have come up short exactly if one has that was needed. -/
  short : r = .error .shortTransfer ↔ Shortage s t (space.key p)
  /-- In all other cases the page is made resident. -/
  made : ¬ s.AllPinned → ¬ Shortage s t (space.key p) → ∃ e f, r = .ok e ∧ Made s t space p e f

theorem Faulted.answered {r : Except PagingError Translation} (h : Faulted s space p r t)
    (hs : s.Agrees) (habsent : s.entry (space.key p) = none) : Answered s space p r t := by
  cases h with
  | exhausted hpinned _ =>
      exact ⟨iff_of_true rfl hpinned, iff_of_false nofun fun h => h.not_allPinned hs hpinned,
        fun hnot => absurd hpinned hnot⟩
  | short h =>
      exact ⟨iff_of_false nofun (h.not_allPinned hs), iff_of_true rfl h,
        fun _ hnot => absurd h hnot⟩
  | filled hvacancy hfilled htally =>
      have hmade := made_of_filled hs habsent hvacancy hfilled htally
      refine ⟨iff_of_false nofun (hvacancy.not_allPinned hs), iff_of_false nofun fun h => ?_,
        fun _ _ => ⟨_, _, rfl, hmade⟩⟩
      have hentry := hmade.entry
      rw [h.absent hs habsent] at hentry
      cases hentry

/-- How it is answered that a page of an address space was asked for. -/
structure Classified (s : Paging F) (space : AddressSpace) (p : PageNumber)
    (r : Except PagingError Translation) (t : Paging F) : Prop where
  /-- The process may have no address space. -/
  unregistered : ∀ pid, r = .error (.noAddressSpace pid) ↔
    pid = space.pid ∧ s.core.spaces[space.pid]? = none
  /-- The page may lie outside it. -/
  outside : ∀ address, r = .error (.invalidAddress address) ↔
    address = p.base.val ∧ ∃ count, s.core.spaces[space.pid]? = some count ∧ count ≤ p.val
  /-- A page that is resident is found, and nothing else happens. -/
  resident : ∀ {e}, s.InRange (space.key p) → s.entry (space.key p) = some e → r = .ok e ∧ t = s
  /-- A page that is not is a fault. -/
  missing : s.InRange (space.key p) → s.entry (space.key p) = none → Answered s space p r t

theorem classified_of_resolve {r : Except PagingError Translation} (hs : s.Agrees)
    (h : s.resolve tlb retries space p = (r, t)) : Classified s space p r t := by
  have hinside : s.InRange (space.key p) →
      ¬ ∃ count, s.core.spaces[space.pid]? = some count ∧ count ≤ p.val := by
    rintro hrange ⟨count, hcount, hle⟩
    exact absurd hle (Nat.not_le.2 (hrange.lt hcount))
  cases resolves_of_resolve hs h with
  | unregistered hnone =>
      refine ⟨fun pid => ⟨fun h => ?_, fun h => h.1 ▸ rfl⟩, fun address => iff_of_false nofun ?_,
        fun hrange => absurd hnone hrange.ne_none,
        fun hrange => absurd hnone hrange.ne_none⟩
      · obtain rfl := PagingError.noAddressSpace.inj (Except.error.inj h)
        exact ⟨rfl, hnone⟩
      · rintro ⟨-, count, hcount, -⟩
        cases hnone.symm.trans hcount
  | outside hcount hle =>
      refine ⟨fun pid => iff_of_false nofun fun h => (nomatch hcount.symm.trans h.2),
        fun address => ⟨fun h => ?_, fun h => h.1 ▸ rfl⟩,
        fun hrange => absurd ⟨_, hcount, hle⟩ (hinside hrange),
        fun hrange => absurd ⟨_, hcount, hle⟩ (hinside hrange)⟩
      obtain rfl := PagingError.invalidAddress.inj (Except.error.inj h)
      exact ⟨rfl, _, hcount, hle⟩
  | resident hrange he =>
      refine ⟨fun pid => iff_of_false nofun fun h => hrange.ne_none h.2,
        fun address => iff_of_false nofun fun h => hinside hrange h.2, fun _ he' => ?_,
        fun _ habsent => ?_⟩
      · obtain rfl := Option.some.inj (he.symm.trans he')
        exact ⟨rfl, rfl⟩
      · cases he.symm.trans habsent
  | missing hrange habsent h =>
      have hfault := faulted_of_pageIn hs habsent hrange h
      have hother : (∀ pid, r ≠ .error (.noAddressSpace pid)) ∧
          ∀ address, r ≠ .error (.invalidAddress address) := by
        cases hfault <;> exact ⟨nofun, nofun⟩
      exact ⟨fun pid => iff_of_false (hother.1 pid) fun h => hrange.ne_none h.2,
        fun address => iff_of_false (hother.2 address) fun h => hinside hrange h.2,
        fun _ he => (nomatch habsent.symm.trans he), fun _ _ => hfault.answered hs habsent⟩

/-- **There is one answer to each case**: to processes without an address space, to pages outside
it, to pages that are resident, and of those that are not to each end that a fault may have.  That
there is no frame although a page has just lost one is not among them. -/
theorem resolve_classified (hs : s.Reachable) (tlb : TlbId) (retries : Nat) (space : AddressSpace)
    (p : PageNumber) :
    Classified s space p (s.resolve tlb retries space p).1 (s.resolve tlb retries space p).2 ∧
      ∀ {g u m}, s.selectVictim tlb retries = (.ok g, u) → u.evict g = (.ok (), m) →
        ∃ f, (m.claim (space.key p) false).1 = some f :=
  ⟨classified_of_resolve hs.consistent.toAgrees rfl, fun hvictim hevict =>
    claim_of_evict hs.consistent.toAgrees hvictim hevict rfl⟩

theorem reachable_of_reached {m : Machine F} (h : m.Reached) : m.kernel.Reachable :=
  ⟨m, h, .refl⟩

set_option maxRecDepth 100000 in
/-- The only frame of a machine has the arguments of a process, just written.  The process needs
another page, which gets the frame. -/
theorem classified_on_full_machine :
    ∃ (s t : Paging MemoryFile) (space : AddressSpace) (e : Translation) (f g : FrameNumber)
      (k : PageKey), s.resolve 0 0 space ⟨0⟩ = (.ok e, t) ∧ Made s t space ⟨0⟩ e f ∧
        Displaced s t k g := by
  suffices hmachine : ∃ (m : Machine MemoryFile) (space : AddressSpace), m.Reached ∧
      m.kernel.core.spaces[space.pid]? = some 2 ∧ m.kernel.core.frames.freeCount = 0 ∧
        (m.kernel.entry (space.key ⟨0⟩)).isNone = true ∧
          ((m.kernel.resolve 0 0 space ⟨0⟩).1.toOption).isSome = true by
    obtain ⟨m, space, hm, hspace, hfull, habsent, hok⟩ := hmachine
    have hfault := (resolve_classified (reachable_of_reached hm) 0 0 space ⟨0⟩).1.missing
      ⟨2, hspace, Nat.zero_lt_two⟩ (Option.isNone_iff_eq_none.1 habsent)
    have hpinned : ¬ m.kernel.AllPinned := fun h => by
      rw [hfault.exhausted.2 h] at hok
      cases hok
    have hshort : ¬ Shortage m.kernel.toPaging _ _ := fun h => by
      rw [hfault.short.2 h] at hok
      cases hok
    obtain ⟨e, f, hr, hmade⟩ := hfault.made hpinned hshort
    obtain ⟨-, k, g, hdisplaced⟩ := hmade.moved hfull
    exact ⟨_, _, space, e, f, g, k, Prod.ext hr rfl, hmade, hdisplaced⟩
  have hboot : Kernel.boot { frames := 1, tlbSlots := 1, stackPages := 1 } []
      (some ({} : MemoryFile)) = (.ok _, _) := rfl
  exact ⟨_, ⟨0, .assembled { entry := 0 }, 0, 1, 1⟩,
    ((Machine.Reached.boot hboot).addCpu 1).after 0
      (.load (.assembled { entry := 0 }) ["a"] .demand),
    by decide_cbv⟩

end Paging

end DemandPaging
