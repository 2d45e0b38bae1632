import DemandPaging.Proofs.FaultAnswers
import DemandPaging.Proofs.LoadUndone
import Mathlib

/-!
# Making all pages of a process resident

All pages of a process are to get frames for good, one after the other.  Each takes a frame out of
the reach of those that come after it.  So there are enough frames exactly if there are as many as
the process has pages which nobody has for good; and if there are not, or a page of somebody else
cannot be written out for one of them, the process loses again what it has got.

* `Paging.unpinned` — the frames that nobody has for good.
* `Paging.Attempt`, `Paging.attempt_of_preloadPage` — what is left when one page was to get a frame.
* `Paging.Attempts`, `Paging.attempts_of_preloadPages` — the same of some pages.
* `Paging.Furnished`, `Paging.Revoked` — what is left if all got theirs, and if one did not.
* `Paging.PreloadAnswered`, `Paging.preload_answers` — which answer there is, and when.
-/

namespace DemandPaging

namespace Paging

variable {F : Type} {s m t : Paging F} {tlb : TlbId} {retries : Nat} {space : AddressSpace}
  {p : PageNumber} {ps : List PageNumber} {key : PageKey} {pinned : Bool} {f : FrameNumber}
  {page : Page} {readOnly : Bool}

/-! ## Frames that nobody has for good -/

/-- The frames that are free, or can be taken from the page that has them. -/
def unpinned (s : Paging F) : Finset Nat :=
  (Finset.range s.core.frames.size).filter fun n => (s.owner ⟨n⟩).any (·.pinned) = false

theorem unpinned_congr (hsize : t.core.frames.size = s.core.frames.size)
    (howner : ∀ f, (t.owner f).any (·.pinned) = (s.owner f).any (·.pinned)) :
    t.unpinned = s.unpinned := by
  simp only [unpinned, hsize, howner]

theorem AllPinned.unpinned (h : s.AllPinned) : s.unpinned = ∅ := by
  refine Finset.filter_eq_empty_iff.2 fun n hn => ?_
  obtain ⟨o, ho, hpinned⟩ := h ⟨n⟩ (Finset.mem_range.1 hn)
  rw [ho, Option.any_some, hpinned]
  exact Bool.noConfusion

/-- A page that gets a frame for good leaves one less to the others. -/
theorem Placed.card_unpinned (h : Placed s t space p f true page readOnly) :
    s.unpinned.card = t.unpinned.card + 1 := by
  have hlt : f.val < s.core.frames.size := by
    rw [← h.frames]
    exact FrameTable.lt_size_of_owner ((h.owner f).trans (if_pos rfl))
  have hmem : f.val ∈ s.unpinned :=
    Finset.mem_filter.2 ⟨Finset.mem_range.2 hlt, by rw [h.free]; rfl⟩
  have herase : t.unpinned = s.unpinned.erase f.val := by
    ext n
    rw [Finset.mem_erase, Paging.unpinned, Paging.unpinned, Finset.mem_filter, Finset.mem_filter,
      h.frames, h.owner]
    by_cases hn : n = f.val
    · subst hn
      simp
    · rw [if_neg fun hf => hn (congrArg FrameNumber.val hf)]
      exact (and_iff_right hn).symm
  rw [herase, Finset.card_erase_add_one hmem]

theorem Placed.freeCount (h : Placed s t space p f pinned page readOnly) :
    s.core.frames.freeCount = t.core.frames.freeCount + 1 :=
  FrameTable.freeCount_of_given h.frames h.free fun g => by
    simpa only [eq_comm, Paging.owner] using h.owner g

variable [BackingFile F]

/-- A page that loses its frame to another did not have it for good. -/
theorem Vacancy.unpinned (h : Vacancy s m) : m.unpinned = s.unpinned := by
  cases h with
  | free _ hquiet _ => exact unpinned_congr hquiet.frames fun f => by rw [hquiet.owner]
  | @taken u v k g _ _ hquiet hrecalled hevicted _ =>
      have howner : ∀ f, v.owner f = s.owner f := fun f => (hrecalled.owner f).trans (hquiet.owner f)
      refine unpinned_congr ((hevicted.frames.trans hrecalled.frames).trans hquiet.frames) fun f => ?_
      rw [hevicted.owner, ← howner]
      by_cases hf : f = g
      · rw [if_pos hf, hf, hevicted.owner_eq]
        rfl
      · rw [if_neg hf]

/-! ## One page -/

/-- What is left when a page was to get a frame for good. -/
inductive Attempt (s : Paging F) (space : AddressSpace) (p : PageNumber) :
    Except PagingError Unit → Paging F → Prop
  | exhausted {t : Paging F} (hpinned : s.AllPinned) (hquiet : Quiet s t) (htally : Tally s t 0 0) :
    Attempt s space p (.error .outOfFrames) t
  | withheld {t : Paging F} (h : Withheld s t) : Attempt s space p (.error .shortTransfer) t
  | placed {m t : Paging F} {f : FrameNumber} {readOnly : Bool} (hvacancy : Vacancy s m)
    (hplaced : Placed m t space p f true (space.initialPage p) readOnly) (hswap : t.swap = m.swap)
    (htally : Tally m t 0 0) : Attempt s space p (.ok ()) t

theorem attempt_of_preloadPage {r : Except PagingError Unit} (hs : s.Agrees)
    (habsent : s.entry (space.key p) = none) (hrange : s.InRange (space.key p))
    (h : s.preloadPage tlb retries space p = (r, t)) : Attempt s space p r t := by
  cases preloadsPage_of_preloadPage h with
  | refused hclaim =>
      cases supply_of_claimFrame hs hclaim with
      | exhausted hpinned hquiet htally => exact .exhausted hpinned hquiet htally
      | withheld h => exact .withheld h
  | filled hclaim hfill ht =>
      cases supply_of_claimFrame hs hclaim with
      | supplied hvacancy hclaimed =>
          obtain ⟨hswap, hplaced⟩ := placed_of_fillFresh (hvacancy.agrees hs) hclaimed hfill
            (hvacancy.recedes hs _ habsent).1 ((hvacancy.moves space true).inRange hrange) ht
          refine .placed hvacancy hplaced hswap ?_
          rw [ht]
          exact ((tally_claim hclaimed).head (tally_fillFresh hfill)).tail ⟨rfl, rfl⟩

namespace Attempt

variable {r : Except PagingError Unit}

theorem agrees (h : Attempt s space p r t) (hs : s.Agrees) : t.Agrees := by
  cases h with
  | exhausted _ hquiet _ => exact hquiet.agrees hs
  | withheld h => exact h.agrees hs
  | placed hvacancy hplaced hswap _ =>
      have hm := hvacancy.agrees hs
      exact hplaced.agrees hm (hswap ▸ hm.swap)

/-- A swap file that keeps its word goes on to do so, and no page of another process loses
anything. -/
theorem retained {w : FileView F} (h : Attempt s space p r t) (hs : s.Agrees)
    (hgood : w.good s.swap.file) (hkey : key.pid ≠ space.pid) :
    w.good t.swap.file ∧ Retained w s t key := by
  cases h with
  | exhausted _ hquiet _ => exact ⟨hquiet.swap ▸ hgood, hquiet.toStill.retained hs hquiet.swap⟩
  | withheld h => exact ⟨(h.moves space true).good hs hgood, h.retained hs hgood⟩
  | placed hvacancy hplaced hswap _ =>
      refine ⟨hswap ▸ (hvacancy.moves space true).good hs hgood, (hvacancy.retained hs hgood).trans hs
        (hplaced.retained (hvacancy.agrees hs) (fun hk => hkey (congrArg PageKey.pid hk)) fun _ => ?_)⟩
      rw [backing, hswap, backing]

/-- Pages that are not resident do not become so, but for the one. -/
theorem absent (h : Attempt s space p r t) (hs : s.Agrees) (hkey : key ≠ space.key p)
    (habsent : s.entry key = none) : t.entry key = none := by
  cases h with
  | exhausted _ hquiet _ => exact (hquiet.entry key).trans habsent
  | withheld h => exact (h.recedes hs key habsent).1
  | placed hvacancy hplaced _ _ =>
      rw [hplaced.entry, if_neg hkey]
      exact (hvacancy.recedes hs key habsent).1

/-- A page that has its frame for good stays there. -/
theorem stays (h : Attempt s space p r t) (hs : s.Agrees) (hf : s.owner f = some ⟨key, true⟩) :
    Stays s t key := by
  cases h with
  | exhausted _ hquiet _ => exact hquiet.toStill.stays
  | withheld h => exact h.stays hs
  | placed hvacancy hplaced _ _ =>
      exact (hvacancy.stays hs hf).trans (hplaced.stays (hvacancy.agrees hs))

theorem inRange (h : Attempt s space p r t) (hrange : s.InRange key) : t.InRange key := by
  cases h with
  | exhausted _ hquiet _ => rwa [InRange, hquiet.spaces]
  | withheld h => exact (h.moves space true).inRange hrange
  | placed hvacancy hplaced _ _ =>
      rw [InRange, hplaced.spaces]
      exact (hvacancy.moves space true).inRange hrange

end Attempt

/-! ## Some pages -/

/-- What is left when some pages were to get frames for good, until one of them did not. -/
inductive Attempts (space : AddressSpace) :
    List PageNumber → Paging F → Except PagingError Unit → Paging F → Prop
  | done {s : Paging F} : Attempts space [] s (.ok ()) s
  | stopped {s t : Paging F} {p : PageNumber} {ps : List PageNumber} {e : PagingError}
    (h : Attempt s space p (.error e) t) : Attempts space (p :: ps) s (.error e) t
  | next {s m t : Paging F} {p : PageNumber} {ps : List PageNumber} {r : Except PagingError Unit}
    (h : Attempt s space p (.ok ()) m) (hrest : Attempts space ps m r t) :
    Attempts space (p :: ps) s r t

theorem attempts_of_preloadPages {r : Except PagingError Unit} (hs : s.Agrees) (hnodup : ps.Nodup)
    (habsent : ∀ p ∈ ps, s.entry (space.key p) = none) (hrange : ∀ p ∈ ps, s.InRange (space.key p))
    (h : preloadPages tlb retries space ps s = (r, t)) : Attempts space ps s r t := by
  induction ps generalizing s with
  | nil =>
      obtain ⟨rfl, rfl⟩ := Prod.mk.inj h
      exact .done
  | cons p ps ih =>
      obtain ⟨hnot, hnodup⟩ := List.nodup_cons.1 hnodup
      unfold preloadPages at h
      cases hpre : s.preloadPage tlb retries space p with
      | mk x m =>
          rw [hpre] at h
          have hattempt := attempt_of_preloadPage hs (habsent p List.mem_cons_self)
            (hrange p List.mem_cons_self) hpre
          cases x with
          | error e =>
              obtain ⟨rfl, rfl⟩ := Prod.mk.inj h
              exact .stopped hattempt
          | ok _ =>
              refine .next hattempt (ih (hattempt.agrees hs) hnodup (fun q hq => ?_) (fun q hq => ?_) h)
              · refine hattempt.absent hs ?_ (habsent q (List.mem_cons_of_mem _ hq))
                intro hk
                obtain rfl : q = p := congrArg PageKey.page hk
                exact hnot hq
              · exact hattempt.inRange (hrange q (List.mem_cons_of_mem _ hq))

namespace Attempts

variable {r : Except PagingError Unit}

theorem agrees (h : Attempts space ps s r t) (hs : s.Agrees) : t.Agrees := by
  induction h with
  | done => exact hs
  | stopped h => exact h.agrees hs
  | next h _ ih => exact ih (h.agrees hs)

/-- **No page of another process loses anything**, however far it goes. -/
theorem retained {w : FileView F} (h : Attempts space ps s r t) (hs : s.Agrees)
    (hgood : w.good s.swap.file) (hkey : key.pid ≠ space.pid) :
    w.good t.swap.file ∧ Retained w s t key := by
  induction h with
  | done => exact ⟨hgood, .refl _ key⟩
  | stopped h => exact h.retained hs hgood hkey
  | next h _ ih =>
      obtain ⟨hgood', hretained⟩ := h.retained hs hgood hkey
      obtain ⟨hgood'', hrest⟩ := ih (h.agrees hs) hgood'
      exact ⟨hgood'', hretained.trans hs hrest⟩

/-- Pages that have their frames for good stay there. -/
theorem stays (h : Attempts space ps s r t) (hs : s.Agrees) (hf : s.owner f = some ⟨key, true⟩) :
    Stays s t key := by
  induction h with
  | done => exact fun e _ he _ => ⟨e, he, rfl, rfl, rfl⟩
  | stopped h => exact h.stays hs hf
  | next h _ ih =>
      have hstays := h.stays hs hf
      obtain ⟨e, he, hef⟩ := hs.owned (holder_eq_some.2 ⟨_, hf, rfl⟩)
      obtain ⟨-, -, -, howner, -⟩ := hstays e f he hef
      exact hstays.trans (ih (h.agrees hs) (howner.trans hf))

/-- **If all pages get frames, each has one of its own for good**, with what it starts with. -/
theorem placed (h : Attempts space ps s (.ok ()) t) (hs : s.Agrees) (hp : p ∈ ps) :
    ∃ e f, t.entry (space.key p) = some e ∧ e.maps f = true ∧
      t.owner f = some ⟨space.key p, true⟩ ∧ t.frame f = space.initialPage p := by
  generalize hr : Except.ok () = r at h
  induction h with
  | done => cases hp
  | stopped _ => cases hr
  | next h hrest ih =>
      have hm := h.agrees hs
      rcases List.mem_cons.1 hp with rfl | hp
      · cases h with
        | @placed _ _ f readOnly hvacancy hplaced _ _ =>
            have howner := (hplaced.owner f).trans (if_pos rfl)
            have hmaps : (⟨p, some f, .fresh readOnly⟩ : Translation).maps f = true :=
              Translation.maps_iff.2 ⟨rfl, rfl⟩
            obtain ⟨e, he, hbare, howner', hframe⟩ := hrest.stays hm howner _ f
              ((hplaced.entry _).trans (if_pos rfl)) hmaps
            exact ⟨e, f, he, by rwa [Translation.maps_congr hbare], howner'.trans howner,
              hframe.trans ((hplaced.frame f).trans (if_pos rfl))⟩
      · exact ih hm hp hr

/-- **Pages get frames until there is none that nobody has for good**, or a page cannot be written
out.  As many pages lose theirs as there are too few frames that are free. -/
theorem room (h : Attempts space ps s r t) (hs : s.Agrees) :
    (r = .ok () ∧ ps.length ≤ s.unpinned.card ∧
        Tally s t (ps.length - s.core.frames.freeCount) 0) ∨
      (r = .error .outOfFrames ∧ s.unpinned.card < ps.length ∧ ∃ n, Tally s t n 0) ∨
      (r = .error .shortTransfer ∧ (∀ v : ReliableView F, ¬ v.Keeps s.swap) ∧ ∃ n, Tally s t n 1) := by
  induction h with
  | @done s => exact Or.inl ⟨rfl, Nat.zero_le _, by simpa using tally_refl s⟩
  | stopped h =>
      cases h with
      | exhausted hpinned _ htally =>
          refine Or.inr (Or.inl ⟨rfl, ?_, 0, htally⟩)
          rw [hpinned.unpinned, Finset.card_empty, List.length_cons]
          exact Nat.succ_pos _
      | withheld h =>
          obtain ⟨-, -, -, -, -, htally⟩ := id h
          exact Or.inr (Or.inr ⟨rfl, fun v => h.not_keeps, 0, htally⟩)
  | @next s u t p ps r h _ ih =>
      have hrest := ih (h.agrees hs)
      cases h with
      | @placed m _ f readOnly hvacancy hplaced hswap htally =>
          have hcard : s.unpinned.card = u.unpinned.card + 1 := by
            rw [← hvacancy.unpinned, hplaced.card_unpinned]
          have hfree := hplaced.freeCount
          rw [List.length_cons, hcard]
          -- a frame was free, or a page has lost its own
          have hcost : ∃ a, Tally s u a 0 ∧
              a + (ps.length - u.core.frames.freeCount) = ps.length + 1 - s.core.frames.freeCount := by
            rcases hvacancy.cost hs with ⟨hpos, hcount, hsame, -⟩ | ⟨hfull, hcount, hone, -⟩
            · exact ⟨0, hcount.tail htally, by omega⟩
            · exact ⟨1, hcount.tail htally, by omega⟩
          obtain ⟨a, hcount, ha⟩ := hcost
          rcases hrest with ⟨hr, hle, hmore⟩ | ⟨hr, hlt, n, hmore⟩ | ⟨hr, hfails, n, hmore⟩
          · exact Or.inl ⟨hr, Nat.succ_le_succ hle, ha ▸ hcount.trans hmore⟩
          · exact Or.inr (Or.inl ⟨hr, Nat.succ_lt_succ hlt, _, hcount.trans hmore⟩)
          · refine Or.inr (Or.inr ⟨hr, fun v hv => hfails v ?_, _, hcount.trans hmore⟩)
            rw [hswap]
            exact hvacancy.keeps hv

end Attempts

/-! ## All pages of a process -/

/-- All pages of a process have frames of their own for good, with what they start with. -/
structure Furnished (s t : Paging F) (space : AddressSpace) : Prop where
  pages : ∀ p : PageNumber, p.val < space.pageCount → ∃ e f, t.entry (space.key p) = some e ∧
    e.maps f = true ∧ t.owner f = some ⟨space.key p, true⟩ ∧ t.frame f = space.initialPage p
  /-- As many other pages have lost theirs as too few frames were free. -/
  evictions : t.core.counters.evictions =
    s.core.counters.evictions + (space.pageCount - s.core.frames.freeCount)

/-- A process has no pages, and other processes have what they had. -/
structure Revoked (s t : Paging F) (pid : Pid) : Prop where
  entry : ∀ {k : PageKey}, k.pid = pid → t.entry k = none
  owner : ∀ {f o}, t.owner f = some o → o.key.pid ≠ pid
  /-- What a slot of a TLB maps is a frame of another process. -/
  slot : ∀ {id i f}, (t.slot id i).maps f = true → ∃ k, t.holder f = some k ∧ k.pid ≠ pid
  /-- If the swap file keeps its word, a page of another process holds what it held, as long as its
  usage bits say truly whether it was written. -/
  contents : ∀ {w : FileView F} {space : AddressSpace} {k : PageKey}, w.good s.swap.file →
    k.pid ≠ pid → s.Noted w space k → t.contents w space k = s.contents w space k
  /-- They do in a machine that was used as it should be, also once it is about to load a process. -/
  live : ∀ {w : FileView F} {file : F} {m : Machine F} {a : Account} {i : ProcessNumber} {p : Process}
    {k : PageKey}, w.good file → m.Orderly file a → Still m.kernel.toPaging s →
    s.swap = m.kernel.swap → m.process? i = some p → p.exitCode = none → k.pid = p.pid →
    k.pid ≠ pid → t.contents w p.space k = s.contents w p.space k

/-- Usage bits say what they said as long as nothing is seen to change. -/
theorem Still.noted {w : FileView F} (h : Still s t) (hs : s.Agrees)
    (hswap : t.swap = s.swap) (hnoted : s.Noted w space key) : t.Noted w space key := by
  intro e f he hf hu
  rw [h.entry] at he
  rw [h.unsaved hs] at hu
  rw [h.frame, backing, hswap, ← backing]
  exact hnoted he hf hu

/-- **What some pages have got is taken from them again**, and nobody else is harmed. -/
theorem Attempts.revoked {r : Except PagingError Unit} (h : Attempts space ps s r m) (hs : s.Agrees)
    (hemptied : Emptied m t space.pid) : Revoked s t space.pid := by
  have hm := h.agrees hs
  have ht := hemptied.steps.agrees hm
  have hheld : ∀ {f k}, t.holder f = some k → k.pid ≠ space.pid := by
    intro f k hk hpid
    obtain ⟨e, he, -⟩ := ht.owned hk
    rw [hemptied.entry k hpid] at he
    cases he
  have hretained : ∀ {w : FileView F} {k : PageKey}, w.good s.swap.file → k.pid ≠ space.pid →
      Retained w s t k := by
    intro w k hgood hk
    obtain ⟨hgood', hretained⟩ := h.retained hs hgood hk
    exact hretained.trans hs (Errand.retained (.emptied hemptied) hm hgood' hk)
  exact
    { entry := hemptied.entry _
      owner := fun ho => hheld (holder_eq_some.2 ⟨_, ho, rfl⟩)
      slot := fun hm => by
        obtain ⟨-, k, hk, -⟩ := ht.mirror hm
        exact ⟨k, hk, hheld hk⟩
      contents := fun hgood hk hnoted => (hretained hgood hk).contents_eq hs hnoted
      live := fun hgood horderly hstill hswap hp hlive hk hne => by
        obtain ⟨hfile, -, hnoted⟩ := horderly.noted hgood hp hlive hk
        exact (hretained (hswap ▸ hfile) hne).contents_eq hs
          (hstill.noted horderly.reached.consistent.toAgrees hswap hnoted) }

/-- How it is answered that all pages of a process were to get frames for good. -/
structure PreloadAnswered (s : Paging F) (space : AddressSpace) (r : Except Failure Unit)
    (t : Paging F) : Prop where
  /-- An address space without pages has no first one. -/
  empty : space.pageCount = 0 → r = .error (.error (.invalidAddress 0)) ∧ t = s
  /-- If no transfer comes up short all of them get frames exactly if there are enough that nobody
  has for good, -/
  enough : 0 < space.pageCount → t.shortfalls = s.shortfalls →
    (r = .ok () ↔ space.pageCount ≤ s.unpinned.card)
  /-- and otherwise it is said that there are none. -/
  exhausted : 0 < space.pageCount → t.shortfalls = s.shortfalls → r ≠ .ok () →
    r = .error (.error .outOfFrames)
  short : r = .error (.error .shortTransfer) ↔ t.shortfalls ≠ s.shortfalls
  /-- With a swap file that does not fail no transfer comes up short. -/
  reliable : ∀ {v : ReliableView F}, v.Keeps s.swap → t.shortfalls = s.shortfalls
  done : r = .ok () → Furnished s t space
  undone : ∀ why, r = .error why → Revoked s t space.pid

theorem Attempts.answered_ok (hs : s.Agrees) (hpositive : 0 < space.pageCount)
    (h : Attempts space ((List.range space.pageCount).map PageNumber.mk) s (.ok ()) t) :
    PreloadAnswered s space (.ok ()) t := by
  obtain ⟨-, hle, htally⟩ | ⟨hr, -⟩ | ⟨hr, -⟩ := h.room hs
  · rw [List.length_map, List.length_range] at hle htally
    have hfurnished : Furnished s t space :=
      ⟨fun p hp => h.placed hs (List.mem_map.2 ⟨p.val, List.mem_range.2 hp, rfl⟩), htally.evictions⟩
    exact
      { empty := fun hzero => absurd hzero hpositive.ne'
        enough := fun _ _ => iff_of_true rfl hle
        exhausted := fun _ _ hne => absurd rfl hne
        short := iff_of_false nofun fun hne => hne htally.shortfalls
        reliable := fun _ => htally.shortfalls
        done := fun _ => hfurnished
        undone := nofun }
  · cases hr
  · cases hr

theorem Attempts.answered_error {e : PagingError} (hs : s.Agrees) (hpositive : 0 < space.pageCount)
    (h : Attempts space ((List.range space.pageCount).map PageNumber.mk) s (.error e) m)
    (hemptied : Emptied m t space.pid) (hafter : Tally m t 0 0) :
    PreloadAnswered s space (.error (.error e)) t := by
  have hrevoked := h.revoked hs hemptied
  obtain ⟨hr, -⟩ | ⟨hr, hlt, n, htally⟩ | ⟨hr, hfails, n, htally⟩ := h.room hs
  · cases hr
  · obtain rfl := Except.error.inj hr
    rw [List.length_map, List.length_range] at hlt
    have hshort := (htally.tail hafter).shortfalls
    exact
      { empty := fun hzero => absurd hzero hpositive.ne'
        enough := fun _ _ => iff_of_false nofun (Nat.not_le.2 hlt)
        exhausted := fun _ _ _ => rfl
        short := iff_of_false nofun fun hne => hne hshort
        reliable := fun _ => hshort
        done := nofun
        undone := fun _ _ => hrevoked }
  · obtain rfl := Except.error.inj hr
    have hshort : t.shortfalls ≠ s.shortfalls := by
      rw [(htally.tail hafter).shortfalls]
      exact Nat.succ_ne_self _
    exact
      { empty := fun hzero => absurd hzero hpositive.ne'
        enough := fun _ hsame => absurd hsame hshort
        exhausted := fun _ hsame => absurd hsame hshort
        short := iff_of_true rfl hshort
        reliable := fun hv => absurd hv (hfails _)
        done := nofun
        undone := fun _ _ => hrevoked }

omit [BackingFile F] in
/-- A process none of whose pages is resident has no entries. -/
theorem Consistent.entry_eq_none (hs : s.Consistent)
    (hspace : s.core.spaces[space.pid]? = some space.pageCount)
    (habsent : ∀ p : PageNumber, p.val < space.pageCount → s.entry (space.key p) = none)
    (hkey : key.pid = space.pid) : s.entry key = none := by
  obtain ⟨pid, p⟩ := key
  obtain rfl : pid = space.pid := hkey
  exact Option.eq_none_iff_forall_ne_some.2 fun e he =>
    nomatch (habsent p ((hs.resident he).lt hspace)).symm.trans he

theorem preloadAnswered_of_preload {r : Except Failure Unit} (hs : s.Consistent)
    (hspace : s.core.spaces[space.pid]? = some space.pageCount)
    (habsent : ∀ p : PageNumber, p.val < space.pageCount → s.entry (space.key p) = none)
    (h : s.preload tlb retries space = (r, t)) : PreloadAnswered s space r t := by
  have hagrees := hs.toAgrees
  have hattempts : ∀ {x m}, preloadPages tlb retries space
      ((List.range space.pageCount).map PageNumber.mk) s = (x, m) →
      Attempts space ((List.range space.pageCount).map PageNumber.mk) s x m := by
    refine fun hpages => attempts_of_preloadPages hagrees
      (List.nodup_range.map fun _ _ => PageNumber.mk.inj)
      (fun p _ => hs.entry_eq_none hspace habsent rfl) (fun p hp => ?_) hpages
    obtain ⟨n, hn, rfl⟩ := List.mem_map.1 hp
    exact ⟨_, hspace, List.mem_range.1 hn⟩
  cases preloads_of_preload h with
  | refused hcheck =>
      obtain ⟨hunregistered, -⟩ | ⟨count, hcount, hle, herror⟩ | ⟨-, hok⟩ :=
        s.checkRange_cases space.pid ⟨0⟩
      · cases hunregistered.symm.trans hspace
      · obtain rfl := Option.some.inj (hcount.symm.trans hspace)
        obtain rfl := Except.error.inj (hcheck.symm.trans herror)
        have hzero : space.pageCount = 0 := Nat.le_zero.1 hle
        have hrevoked : Revoked s s space.pid := Attempts.done.revoked hagrees
          ⟨.refl, fun k => hs.entry_eq_none hspace habsent⟩
        exact
          { empty := fun _ => ⟨rfl, rfl⟩
            enough := fun hpos => absurd hzero hpos.ne'
            exhausted := fun hpos => absurd hzero hpos.ne'
            short := iff_of_false nofun fun hne => hne rfl
            reliable := fun _ => rfl
            done := nofun
            undone := fun _ _ => hrevoked }
      · cases hcheck.symm.trans hok
  | loaded hcheck hpages =>
      exact (hattempts hpages).answered_ok hagrees ((checkRange_ok hcheck).lt hspace)
  | halted _ hpages hremoved =>
      cases (removeResident_spec ((hattempts hpages).agrees hagrees) hremoved).1
  | undone hcheck hpages hremoved ht =>
      have hemptied := (removeResident_spec ((hattempts hpages).agrees hagrees) hremoved).2
      subst ht
      exact (hattempts hpages).answered_error hagrees ((checkRange_ok hcheck).lt hspace)
        ⟨hemptied.steps.tail (.quiet (quiet_note _ _)), hemptied.entry⟩
        ((tally_removeResident hremoved).tail ⟨rfl, rfl⟩)

/-- **All pages of a process get frames for good exactly if there are enough**, and if there are
not, or a page of another process cannot be written out, none of them does. -/
theorem preload_answers (hs : s.Reachable)
    (hspace : s.core.spaces[space.pid]? = some space.pageCount)
    (habsent : ∀ p : PageNumber, p.val < space.pageCount → s.entry (space.key p) = none)
    (tlb : TlbId) (retries : Nat) :
    PreloadAnswered s space (s.preload tlb retries space).1 (s.preload tlb retries space).2 :=
  preloadAnswered_of_preload hs.consistent hspace habsent rfl

set_option maxRecDepth 100000 in
/-- One of two frames has the arguments of a process, just written.  They are written out so that
another process can have both. -/
theorem furnished_after_eviction :
    ∃ (s t : Paging MemoryFile) (space : AddressSpace), space.pageCount = 2 ∧
      s.preload 0 0 space = (.ok (), t) ∧ Furnished s t space ∧
        t.core.counters.evictions = s.core.counters.evictions + 1 := by
  suffices hmachine : ∃ (m : Machine MemoryFile) (space : AddressSpace), m.Reached ∧
      space.pageCount = 2 ∧ m.kernel.core.spaces[space.pid]? = some 2 ∧
        m.kernel.core.frames.freeCount = 1 ∧
          ((List.range 2).all fun n => (m.kernel.entry (space.key ⟨n⟩)).isNone) = true ∧
            ((m.kernel.preload 0 0 space).1.toOption).isSome = true by
    obtain ⟨m, space, hm, hcount, hspace, hfree, habsent, hok⟩ := hmachine
    have hanswered := preload_answers (reachable_of_reached hm) (hcount ▸ hspace)
      (fun p hp => Option.isNone_iff_eq_none.1
        (List.all_eq_true.1 habsent p.val (List.mem_range.2 (hcount ▸ hp)))) 0 0
    have hr : (m.kernel.preload 0 0 space).1 = .ok () := by
      cases hr : (m.kernel.preload 0 0 space).1 with
      | ok _ => rfl
      | error _ =>
          rw [hr] at hok
          cases hok
    have hfurnished := hanswered.done hr
    refine ⟨_, _, space, hcount, Prod.ext hr rfl, hfurnished, ?_⟩
    rw [hfurnished.evictions, hcount, hfree]
  have hboot : Kernel.boot { frames := 2, tlbSlots := 1, stackPages := 1 } []
      (some ({} : MemoryFile)) = (.ok _, _) := rfl
  exact ⟨_, ⟨1, .assembled { entry := 0 }, 0, 1, 1⟩,
    (((Machine.Reached.boot hboot).addCpu 1).after 0
      (.load (.assembled { entry := 0 }) ["a"] .demand)).after 0
        (.load (.assembled { entry := 0 }) [] .demand),
    rfl, by decide_cbv⟩

end Paging

end DemandPaging
