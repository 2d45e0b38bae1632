import DemandPaging.Proofs.PageContents

/-!
# Pages that may not be written

A section of a program may be read-only.  Its pages are never written, so they never get a slot
of the swap store, and whenever one of them becomes resident its entry says again that it may not
be written.

* `AddressSpace.isSealed` — whether a process may not write a page.
* `Paging.Sealed` — the entries of all tenants say so of the same pages.
* `Paging.Move.sealed`, `Paging.Registered.sealed`, `Paging.Gone.sealed` — each step keeps that up.
-/

namespace DemandPaging

/-- The page lies in a read-only section of the program. -/
def AddressSpace.isSealed (space : AddressSpace) (p : PageNumber) : Bool :=
  (space.image.backing p).any (·.2)

namespace Paging

variable {F : Type} {s t : Paging F} {tenants : Pid → Option Tenant} {pid : Pid}

/-- An entry of a tenant is read-only exactly if the page lies in a read-only section, and then
the page was never written out. -/
structure Sealed (tenants : Pid → Option Tenant) (s : Paging F) : Prop where
  resident : ∀ {key e T}, s.entry key = some e → tenants key.pid = some T →
    e.flags.readOnly = T.space.isSealed key.page
  stored : ∀ {key : PageKey} {a : SwapSlot} {T}, s.swap.slots[key]? = some a →
    tenants key.pid = some T → T.space.isSealed key.page = false

namespace Sealed

/-- A step after which the same pages are resident, with the same permissions, and no page has a
slot that it had not. -/
theorem of_bare (hs : s.Sealed tenants)
    (hbare : ∀ k, (t.entry k).map (·.bare) = (s.entry k).map (·.bare))
    (hslot : ∀ {k : PageKey} {a : SwapSlot}, t.swap.slots[k]? = some a →
      s.swap.slots[k]? = some a) : t.Sealed tenants := by
  constructor
  · intro k e T he hT
    obtain ⟨d, hd, hbare⟩ := exists_bare (fun k => (hbare k).symm) he
    rw [← hs.resident hd hT]
    exact (Translation.bare_eq_iff.1 hbare).2.2.2.symm
  · intro k a T ha hT
    exact hs.stored (hslot ha) hT

/-- Only the spaces of the tenants matter. -/
theorem tenant_congr (hs : s.Sealed tenants) {T T' : Tenant} (hT : tenants pid = some T)
    (hspace : T'.space = T.space) : s.Sealed (Function.update tenants pid (some T')) := by
  have hold : ∀ {p U}, Function.update tenants pid (some T') p = some U →
      ∃ V, tenants p = some V ∧ V.space = U.space := by
    intro p U hU
    by_cases hp : p = pid
    · subst hp
      rw [Function.update_self] at hU
      exact ⟨T, hT, by rw [← Option.some.inj hU, hspace]⟩
    · rw [Function.update_of_ne hp] at hU
      exact ⟨U, hU, rfl⟩
  constructor
  · intro k e U he hU
    obtain ⟨V, hV, hspace⟩ := hold hU
    rw [← hspace]
    exact hs.resident he hV
  · intro k a U ha hU
    obtain ⟨V, hV, hspace⟩ := hold hU
    rw [← hspace]
    exact hs.stored ha hV

/-- Nothing is resident, and nothing has a slot. -/
theorem of_empty (hentry : ∀ key e, s.entry key ≠ some e)
    (hslot : ∀ (key : PageKey) (a : SwapSlot), s.swap.slots[key]? ≠ some a) : s.Sealed tenants :=
  ⟨fun he => absurd he (hentry _ _), fun ha => absurd ha (hslot _ _)⟩

end Sealed

/-! ## Processes that come and go -/

/-- A new process has no entry and no slot yet. -/
theorem Registered.sealed {pages : Nat} (h : Registered s t pid pages) (hs : s.Sealed tenants)
    (hc : s.Consistent) (T : Tenant) : t.Sealed (Function.update tenants pid (some T)) := by
  have hnot : ∀ {k : PageKey}, s.InRange k → k.pid ≠ pid := by
    rintro k ⟨count, hcount, -⟩ rfl
    rw [h.absent] at hcount
    cases hcount
  constructor
  · intro k e U he hU
    rw [h.entry] at he
    rw [Function.update_of_ne (hnot (hc.resident he))] at hU
    exact hs.resident he hU
  · intro k a U ha hU
    rw [h.swap] at ha
    rw [Function.update_of_ne (hnot (hc.stored ha))] at hU
    exact hs.stored ha hU

theorem Gone.sealed (h : Gone s t pid) (hs : s.Sealed tenants) :
    t.Sealed (Function.update tenants pid none) := by
  have hold : ∀ {p T}, Function.update tenants pid none p = some T → tenants p = some T := by
    intro p T hT
    have hp : p ≠ pid := by
      rintro rfl
      rw [Function.update_self] at hT
      cases hT
    rwa [Function.update_of_ne hp] at hT
  constructor
  · intro k e T he hT
    exact hs.resident (h.entry_some he) (hold hT)
  · intro k a T ha hT
    rw [h.swap.slots] at ha
    split at ha
    · cases ha
    · exact hs.stored ha (hold hT)

/-! ## Steps of the pager -/

variable [BackingFile F] {space : AddressSpace} {pinned : Bool}

/-- **A page that is written out may be written**, since it was. -/
theorem Evicted.sealed {key : PageKey} {f : FrameNumber} {handed : Bool}
    (h : Evicted s t key f handed) (hs : s.Sealed tenants) : t.Sealed tenants := by
  constructor
  · intro k e T he hT
    rw [h.entry] at he
    split at he
    · cases he
    · exact hs.resident he hT
  · intro k a T ha hT
    rcases h.swap with ⟨rfl, b, hw⟩ | ⟨-, hsame⟩
    · rw [hw.slots] at ha
      split at ha
      · rename_i hk
        obtain ⟨e, he, hdirty⟩ := h.dirty
        have hwritable : e.flags.readOnly = false := by
          rw [Translation.needsWriteback, Bool.and_eq_true, Bool.not_eq_true'] at hdirty
          exact hdirty.2
        rw [← hk.1] at hT ⊢
        rw [← hs.resident he hT, hwritable]
      · exact hs.stored ha hT
    · rw [hsame] at ha
      exact hs.stored ha hT

/-- **A page that becomes resident may be written exactly if its section may**, wherever its
contents come from. -/
theorem Filled.sealed {p : PageNumber} {f : FrameNumber} {page : Page} {readOnly : Bool}
    (h : Filled s t space p f pinned page readOnly) (hs : s.Sealed tenants) {T : Tenant}
    (hT : tenants space.pid = some T) (hspace : T.space = space) : t.Sealed tenants := by
  have hslots : t.swap.slots = s.swap.slots := by
    cases h.source with
    | program _ ht => rw [ht]
    | slot _ _ _ hread => exact hread.slots
  have hreadOnly : readOnly = space.isSealed p := by
    cases h.source with
    | program _ _ => rfl
    | slot a _ ha _ => exact hspace ▸ (hs.stored ha hT).symm
  constructor
  · intro k e U he hU
    rw [h.entry] at he
    split at he
    · rename_i hk
      subst hk
      obtain rfl := Option.some.inj he
      obtain rfl := Option.some.inj (hT.symm.trans hU)
      rw [hspace]
      exact hreadOnly
    · exact hs.resident he hU
  · intro k a U ha hU
    rw [hslots] at ha
    exact hs.stored ha hU

/-- **Whatever step the pager takes**, the same pages may not be written. -/
theorem Move.sealed (h : Move space pinned s t) (hs : s.Sealed tenants) (ha : s.Agrees)
    {T : Tenant} (hT : tenants space.pid = some T) (hspace : T.space = space) :
    t.Sealed tenants := by
  cases h with
  | quiet h => exact hs.of_bare (fun k => by rw [h.entry]) fun hb => by rwa [h.swap] at hb
  | recalled h => exact hs.of_bare (h.bare ha) fun hb => by rwa [h.swap] at hb
  | evicted h => exact h.sealed hs
  | kept h =>
      obtain ⟨a, n, hn, hw⟩ := h.swap
      refine hs.of_bare (fun k => by rw [h.entry]) fun hb => ?_
      rwa [hw.slots, if_neg fun hkey => hn hkey.2] at hb
  | filled h => exact h.sealed hs hT hspace
  | spoiled h =>
      obtain ⟨a, n, page, hread⟩ := h.swap
      exact hs.of_bare (fun k => by rw [h.entry]) fun hb => by rwa [hread.slots] at hb

end Paging

end DemandPaging
