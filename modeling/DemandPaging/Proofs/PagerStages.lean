import DemandPaging.Pager

/-!
# The stages of the pager's work

Most of what the pager does is done in stages, and ends early if one of them fails.  Here it is said
once which stages there are and how each way through them ends, so that nobody has to look at the
operations themselves again.

* `Paging.Claims` — how a frame for a page is got, or not.
* `Paging.Evicts` — how a frame is taken from a page.
* `Paging.PagesIn`, `Paging.PreloadsPage` — how a page is made resident.
* `Paging.Preloads` — how all pages of a process are.
-/

namespace DemandPaging

namespace Paging

variable {F : Type} [BackingFile F]

/-- How a frame for a page is got, or not: it is free, or it is taken from a page. -/
inductive Claims (s : Paging F) (tlb : TlbId) (retries : Nat) (key : PageKey) (pinned : Bool) :
    Except PagingError FrameNumber → Paging F → Prop
  | free {f t} (hclaim : s.claim key pinned = (some f, t)) :
    Claims s tlb retries key pinned (.ok f) t
  | refused {e t} (hfull : s.claim key pinned = (none, s))
    (hvictim : s.selectVictim tlb retries = (.error e, t)) :
    Claims s tlb retries key pinned (.error e) t
  | kept {g u e t} (hfull : s.claim key pinned = (none, s))
    (hvictim : s.selectVictim tlb retries = (.ok g, u)) (hevict : u.evict g = (.error e, t)) :
    Claims s tlb retries key pinned (.error e) t
  | taken {g u m f t} (hfull : s.claim key pinned = (none, s))
    (hvictim : s.selectVictim tlb retries = (.ok g, u)) (hevict : u.evict g = (.ok (), m))
    (hclaim : m.claim key pinned = (some f, t)) : Claims s tlb retries key pinned (.ok f) t
  | lost {g u m t} (hfull : s.claim key pinned = (none, s))
    (hvictim : s.selectVictim tlb retries = (.ok g, u)) (hevict : u.evict g = (.ok (), m))
    (hclaim : m.claim key pinned = (none, t)) :
    Claims s tlb retries key pinned (.error .outOfFrames) t

/-- How a frame is taken from its page: every TLB loses it, and unless the page cannot be written
out, the page does too. -/
inductive Evicts (s : Paging F) (f : FrameNumber) (key : PageKey) :
    Except PagingError Unit → Paging F → Prop
  | kept {e t} (hwrite : ((s.shootdown f).2.foldCopies key (s.shootdown f).1).writeBack key f =
      (.error e, t)) : Evicts s f key (.error e) t
  | taken {dirty m t} (hwrite : ((s.shootdown f).2.foldCopies key (s.shootdown f).1).writeBack key f =
      (.ok dirty, m)) (ht : t = (((m.setTable (m.core.table.erase key)).release f).count fun c =>
      { c with evictions := c.evictions + 1 }).note (.pageEvicted key f dirty)) :
    Evicts s f key (.ok ()) t

/-- How a page is made resident on demand, or not. -/
inductive PagesIn (s : Paging F) (tlb : TlbId) (retries : Nat) (space : AddressSpace)
    (p : PageNumber) : Except PagingError Translation → Paging F → Prop
  | refused {e t} (hclaim : (s.count fun c => { c with faults := c.faults + 1 }).claimFrame tlb
      retries (space.key p) false = (.error e, t)) : PagesIn s tlb retries space p (.error e) t
  | spoiled {f u e m t} (hclaim : (s.count fun c => { c with faults := c.faults + 1 }).claimFrame
      tlb retries (space.key p) false = (.ok f, u)) (hfill : u.fill space p f = (.error e, m))
    (ht : t = m.release f) : PagesIn s tlb retries space p (.error e) t
  | filled {f u flags m t} (hclaim : (s.count fun c => { c with faults := c.faults + 1 }).claimFrame
      tlb retries (space.key p) false = (.ok f, u)) (hfill : u.fill space p f = (.ok flags, m))
    (ht : t = ((m.setTable (m.core.table.insert (space.key p) { page := p, frame := some f, flags })
      ).record (.resident (space.key p))).note (.pageResolved (space.key p) f)) :
    PagesIn s tlb retries space p (.ok { page := p, frame := some f, flags }) t

/-- How a page is made resident for good, or not. -/
inductive PreloadsPage (s : Paging F) (tlb : TlbId) (retries : Nat) (space : AddressSpace)
    (p : PageNumber) : Except PagingError Unit → Paging F → Prop
  | refused {e t} (hclaim : s.claimFrame tlb retries (space.key p) true = (.error e, t)) :
    PreloadsPage s tlb retries space p (.error e) t
  | filled {f u flags m t} (hclaim : s.claimFrame tlb retries (space.key p) true = (.ok f, u))
    (hfill : u.fillFresh space p f = (flags, m))
    (ht : t = (m.setTable (m.core.table.insert (space.key p) { page := p, frame := some f, flags })
      ).record (.resident (space.key p))) : PreloadsPage s tlb retries space p (.ok ()) t

/-- How all pages of a process are made resident for good, or none of them. -/
inductive Preloads (s : Paging F) (tlb : TlbId) (retries : Nat) (space : AddressSpace) :
    Except Failure Unit → Paging F → Prop
  | refused {e} (hcheck : s.checkRange space.pid ⟨0⟩ = .error e) :
    Preloads s tlb retries space (.error (.error e)) s
  | loaded {t} (hcheck : s.checkRange space.pid ⟨0⟩ = .ok ())
    (hpages : preloadPages tlb retries space ((List.range space.pageCount).map PageNumber.mk) s =
      (.ok (), t)) : Preloads s tlb retries space (.ok ()) t
  | halted {e m halt t} (hcheck : s.checkRange space.pid ⟨0⟩ = .ok ())
    (hpages : preloadPages tlb retries space ((List.range space.pageCount).map PageNumber.mk) s =
      (.error e, m)) (hremoved : m.removeResident space.pid = (.error halt, t)) :
    Preloads s tlb retries space (.error (.halt halt)) t
  | undone {e m dropped u t} (hcheck : s.checkRange space.pid ⟨0⟩ = .ok ())
    (hpages : preloadPages tlb retries space ((List.range space.pageCount).map PageNumber.mk) s =
      (.error e, m)) (hremoved : m.removeResident space.pid = (.ok dropped, u))
    (ht : t = u.note (.preloadFailed space.pid dropped)) :
    Preloads s tlb retries space (.error (.error e)) t

variable {s t : Paging F} {tlb : TlbId} {retries : Nat} {space : AddressSpace} {p : PageNumber}

omit [BackingFile F] in
/-- A frame that is not claimed leaves all as it is. -/
theorem eq_of_claim_eq_none {key : PageKey} {pinned : Bool} (h : s.claim key pinned = (none, t)) :
    t = s := by
  unfold claim at h
  split at h
  · cases h
  · exact (Prod.mk.inj h).2.symm

theorem claims_of_claimFrame {key : PageKey} {pinned : Bool} {r : Except PagingError FrameNumber}
    (h : s.claimFrame tlb retries key pinned = (r, t)) : Claims s tlb retries key pinned r t := by
  unfold claimFrame at h
  split at h
  · rename_i hclaim
    obtain ⟨rfl, rfl⟩ := Prod.mk.inj h
    exact .free hclaim
  · rename_i u hfull
    obtain rfl := eq_of_claim_eq_none hfull
    split at h
    · rename_i hvictim
      obtain ⟨rfl, rfl⟩ := Prod.mk.inj h
      exact .refused hfull hvictim
    · rename_i hvictim
      split at h
      · rename_i hevict
        obtain ⟨rfl, rfl⟩ := Prod.mk.inj h
        exact .kept hfull hvictim hevict
      · rename_i hevict
        split at h <;> rename_i hclaim <;> obtain ⟨rfl, rfl⟩ := Prod.mk.inj h
        · exact .taken hfull hvictim hevict hclaim
        · exact .lost hfull hvictim hevict hclaim

theorem evicts_of_evict {f : FrameNumber} {o : FrameOwner} {r : Except PagingError Unit}
    (ho : s.core.frames.owner f = some o) (h : s.evict f = (r, t)) : Evicts s f o.key r t := by
  unfold evict at h
  rw [ho] at h
  dsimp only at h
  split at h <;> rename_i hwrite <;> obtain ⟨rfl, rfl⟩ := Prod.mk.inj h
  · exact .kept hwrite
  · exact .taken hwrite rfl

theorem pagesIn_of_pageIn {r : Except PagingError Translation}
    (h : s.pageIn tlb retries space p = (r, t)) : PagesIn s tlb retries space p r t := by
  unfold pageIn at h
  dsimp only at h
  split at h
  · rename_i hclaim
    obtain ⟨rfl, rfl⟩ := Prod.mk.inj h
    exact .refused hclaim
  · rename_i hclaim
    split at h <;> rename_i hfill <;> obtain ⟨rfl, rfl⟩ := Prod.mk.inj h
    · exact .spoiled hclaim hfill rfl
    · exact .filled hclaim hfill rfl

theorem preloadsPage_of_preloadPage {r : Except PagingError Unit}
    (h : s.preloadPage tlb retries space p = (r, t)) : PreloadsPage s tlb retries space p r t := by
  unfold preloadPage at h
  dsimp only at h
  split at h <;> rename_i hclaim <;> obtain ⟨rfl, rfl⟩ := Prod.mk.inj h
  · exact .refused hclaim
  · exact .filled hclaim rfl rfl

theorem preloads_of_preload {r : Except Failure Unit} (h : s.preload tlb retries space = (r, t)) :
    Preloads s tlb retries space r t := by
  unfold preload at h
  split at h
  · rename_i hcheck
    obtain ⟨rfl, rfl⟩ := Prod.mk.inj h
    exact .refused hcheck
  · rename_i hcheck
    dsimp only at h
    split at h
    · rename_i hpages
      obtain ⟨rfl, rfl⟩ := Prod.mk.inj h
      exact .loaded hcheck hpages
    · rename_i hpages
      split at h <;> rename_i hremoved <;> obtain ⟨rfl, rfl⟩ := Prod.mk.inj h
      · exact .halted hcheck hpages hremoved
      · exact .undone hcheck hpages hremoved rfl

end Paging

end DemandPaging
