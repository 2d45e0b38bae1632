import DemandPaging.Proofs.SealedPages
import DemandPaging.Proofs.UsageHistory

/-!
# What pages hold that may not be written

A page of a read-only section never gets a slot of the swap store, so whenever it becomes
resident its contents come from the program again.  Nobody writes it there, so they stay what the
program says.

* `Paging.Intact` — the frames of all such pages hold what the program says.
* `Paging.Move.intact`, `Paging.Intact.of_access` and the like — each step keeps that up.
-/

namespace DemandPaging

namespace Paging

variable {F : Type} {s t : Paging F} {tenants : Pid → Option Tenant} {pid : Pid}

/-- The frame of a page that its process may not write holds what the page starts with. -/
structure Intact (tenants : Pid → Option Tenant) (s : Paging F) : Prop where
  resident : ∀ {key e f T}, s.entry key = some e → e.maps f = true → tenants key.pid = some T →
    T.space.isSealed key.page = true → s.frame f = T.space.initialPage key.page

namespace Intact

/-- A step after which the same pages have the same frames, and these the same contents. -/
theorem of_same (hs : s.Intact tenants) (ha : s.Agrees)
    (hbare : ∀ k, (t.entry k).map (·.bare) = (s.entry k).map (·.bare))
    (hframe : ∀ g o, s.owner g = some o → t.frame g = s.frame g) : t.Intact tenants := by
  refine ⟨fun {k e f T} he hf hT hsealed => ?_⟩
  obtain ⟨d, hd, hde⟩ := exists_bare (fun k => (hbare k).symm) he
  rw [← Translation.maps_congr hde] at hf
  obtain ⟨o, ho, -⟩ := holder_eq_some.1 (ha.holder_of_maps hd hf)
  rw [hframe f o ho]
  exact hs.resident hd hf hT hsealed

/-- A step that leaves all frames alone and gives none to a page. -/
theorem of_subset (hs : s.Intact tenants) (hentry : ∀ {k e}, t.entry k = some e → s.entry k = some e)
    (hframe : ∀ g, t.frame g = s.frame g) : t.Intact tenants := by
  refine ⟨fun {k e f T} he hf hT hsealed => ?_⟩
  rw [hframe]
  exact hs.resident (hentry he) hf hT hsealed

/-- Only the spaces of the tenants matter. -/
theorem tenant_congr (hs : s.Intact tenants) {T T' : Tenant} (hT : tenants pid = some T)
    (hspace : T'.space = T.space) : s.Intact (Function.update tenants pid (some T')) := by
  refine ⟨fun {k e f U} he hf hU hsealed => ?_⟩
  by_cases hk : k.pid = pid
  · rw [hk, Function.update_self] at hU
    obtain rfl := Option.some.inj hU
    rw [hspace] at hsealed ⊢
    exact hs.resident he hf (hk ▸ hT) hsealed
  · rw [Function.update_of_ne hk] at hU
    exact hs.resident he hf hU hsealed

/-- **An access writes only pages that may be written**, so it leaves the others as they are. -/
theorem of_access (hs : s.Intact tenants) (ha : s.Agrees) (hlocked : s.Sealed tenants)
    {key : PageKey} {d : Translation} {f : FrameNumber} {writing : Bool} {page : Page} {T : Tenant}
    (hT : tenants key.pid = some T) (hd : s.entry key = some d) (hdf : d.maps f = true)
    (hro : ¬ (writing = true ∧ d.flags.readOnly = true))
    (hbare : ∀ k, (t.entry k).map (·.bare) = (s.entry k).map (·.bare))
    (hframe : ∀ g, t.frame g = if g = f then page else s.frame g)
    (hread : writing = false → page = s.frame f) : t.Intact tenants := by
  refine ⟨fun {k e g U} he hg hU hsealed => ?_⟩
  obtain ⟨e₀, he₀, hbare₀⟩ := exists_bare (fun k => (hbare k).symm) he
  rw [← Translation.maps_congr hbare₀] at hg
  have hold := hs.resident he₀ hg hU hsealed
  rw [hframe]
  split
  · -- the page that is accessed is sealed, so the access was a read
    rename_i hgf
    subst hgf
    obtain rfl := ha.key_unique he₀ hd hg hdf
    obtain rfl := Option.some.inj (hT.symm.trans hU)
    rw [hread (Bool.eq_false_iff.2 fun hw => hro ⟨hw, by rwa [hlocked.resident hd hT]⟩), hold]
  · exact hold

/-- Nothing is resident. -/
theorem of_empty (hentry : ∀ key e, s.entry key ≠ some e) : s.Intact tenants :=
  ⟨fun he => absurd he (hentry _ _)⟩

end Intact

/-! ## Processes that come and go -/

theorem Registered.intact {pages : Nat} (h : Registered s t pid pages) (hs : s.Intact tenants)
    (hc : s.Consistent) (T : Tenant) : t.Intact (Function.update tenants pid (some T)) := by
  refine ⟨fun {k e f U} he hf hU hsealed => ?_⟩
  rw [h.entry] at he
  have hk : k.pid ≠ pid := by
    rintro rfl
    obtain ⟨count, hcount, -⟩ := hc.resident he
    rw [h.absent] at hcount
    cases hcount
  rw [Function.update_of_ne hk] at hU
  rw [h.frame]
  exact hs.resident he hf hU hsealed

theorem Gone.intact (h : Gone s t pid) (hs : s.Intact tenants) :
    t.Intact (Function.update tenants pid none) := by
  refine ⟨fun {k e f U} he hf hU hsealed => ?_⟩
  have hk : k.pid ≠ pid := by
    rintro rfl
    rw [h.absent k rfl] at he
    cases he
  rw [Function.update_of_ne hk] at hU
  rw [h.frame]
  exact hs.resident (h.entry_some he) hf hU hsealed

/-! ## Steps of the pager -/

variable [BackingFile F] {space : AddressSpace} {pinned : Bool}

/-- **A page that may not be written gets its contents from the program again**, since it has no
slot. -/
theorem Filled.intact {p : PageNumber} {f : FrameNumber} {page : Page} {readOnly : Bool}
    (h : Filled s t space p f pinned page readOnly) (hs : s.Intact tenants) (ha : s.Agrees)
    (hlocked : s.Sealed tenants) {T : Tenant} (hT : tenants space.pid = some T)
    (hspace : T.space = space) : t.Intact tenants := by
  refine ⟨fun {k e g U} he hg hU hsealed => ?_⟩
  rw [h.entry] at he
  split at he
  · rename_i hk
    subst hk
    obtain rfl := Option.some.inj he
    obtain rfl := Option.some.inj (Translation.maps_iff.1 hg).2
    obtain rfl := Option.some.inj (hT.symm.trans hU)
    rw [h.frame, if_pos rfl]
    cases h.source with
    | program _ _ => rw [hspace]; rfl
    | slot a _ ha _ =>
        rw [hlocked.stored ha hU] at hsealed
        cases hsealed
  · obtain ⟨o, ho, -⟩ := holder_eq_some.1 (ha.holder_of_maps he hg)
    have hgf : g ≠ f := by
      rintro rfl
      rw [h.free] at ho
      cases ho
    rw [h.frame, if_neg hgf]
    exact hs.resident he hg hU hsealed

/-- **Whatever step the pager takes**, pages that may not be written hold what they did. -/
theorem Move.intact (h : Move space pinned s t) (hs : s.Intact tenants) (ha : s.Agrees)
    (hlocked : s.Sealed tenants) {T : Tenant} (hT : tenants space.pid = some T)
    (hspace : T.space = space) : t.Intact tenants := by
  cases h with
  | quiet h => exact hs.of_same ha (fun k => by rw [h.entry]) fun g _ _ => h.frame g
  | recalled h => exact hs.of_same ha (h.bare ha) fun g _ _ => h.frame g
  | evicted h =>
      refine hs.of_subset (fun {k e} he => ?_) h.frame
      rw [h.entry] at he
      split at he
      · cases he
      · exact he
  | kept h => exact hs.of_same ha (fun k => by rw [h.entry]) fun g _ _ => h.frame g
  | filled h => exact h.intact hs ha hlocked hT hspace
  | spoiled h =>
      refine hs.of_same ha (fun k => by rw [h.entry]) fun g o ho => h.frame g ?_
      rintro rfl
      rw [h.free] at ho
      cases ho

end Paging

end DemandPaging
