import DemandPaging.Proofs.KernelChanges
import DemandPaging.Proofs.SealedContents

/-!
# When everything is in order

What holds as long as every TLB works for one process at a time: the tables are consistent,
mirrors are coherent, usage bits exact, and, if the swap file keeps its word, the bytes of every
process are where they should be.

* `Paging.InOrder` — all of it together, for some tenants and for who works at which TLB.
* `Paging.InOrder.moves`, `Paging.InOrder.used`, `Paging.InOrder.restored` and the like — what
  each step makes of it.
-/

namespace DemandPaging

namespace Paging

variable {F : Type}

theorem Used.adjusted {s t : Paging F} {key : PageKey} {id : TlbId} {i : Nat} {f : FrameNumber}
    {writing : Bool} {page : Page} (h : Used s t key id i f writing page) : Adjusted s t := by
  refine ⟨h.toSameShape, fun k => by rw [h.entry], h.owner, fun {j n f} hm => ?_, h.swap, h.spaces⟩
  rw [h.slot] at hm ⊢
  split at hm
  · exact Or.inl ⟨hm, by split <;> rfl⟩
  · rename_i hjn
    rw [if_neg hjn]
    exact Or.inl ⟨hm, rfl⟩

/-- A copy is found, the access is recorded, and the frame is touched. -/
theorem Hit.used {s m : Paging F} {key : PageKey} {id : TlbId} {i : Nat} {f : FrameNumber}
    {writing : Bool} {page : Page} {memory : Memory} (h : Hit s m id i writing)
    (hcount : memory.frameCount = m.core.memory.frameCount)
    (hframe : ∀ g, memory.frame g = if g = f then page else s.frame g) :
    Used s { m with
      core := { m.core with memory := memory }
      history := .accessed key writing :: m.history } key id i f writing page where
  toSameShape := h.toSameShape.trans (sameShape_of_tlbs rfl rfl hcount)
  entry := h.entry
  owner := h.owner
  slot := h.slot
  frame := hframe
  swap := h.swap
  history := by rw [h.history]
  spaces := h.spaces

/-- Who works at each TLB after a process is gone. -/
def unseat (seat : TlbId → Option Pid) (pid : Pid) (id : TlbId) : Option Pid :=
  if seat id = some pid then none else seat id

theorem unseat_eq_some {seat : TlbId → Option Pid} {pid p : Pid} {id : TlbId} :
    unseat seat pid id = some p ↔ seat id = some p ∧ p ≠ pid := by
  unfold unseat
  split
  · rename_i h
    simp [h, eq_comm]
  · rename_i h
    exact ⟨fun hp => ⟨hp, fun hpp => h (hpp ▸ hp)⟩, And.left⟩

variable [BackingFile F]

/-- The tables are consistent, every TLB mirrors pages of the process that works there, usage
bits are exact, and if the swap file keeps its word, the way `view` sees it, the bytes of every
tenant are where they should be. -/
structure InOrder (view : Option (FileView F)) (tenants : Pid → Option Tenant)
    (seat : TlbId → Option Pid) (s : Paging F) : Prop extends Consistent s where
  /-- all of memory has addresses -/
  fits : s.core.memory.frameCount * pageSize < wordLimit
  coherent : s.Coherent seat
  usage : s.Exact
  lodged : s.Lodged tenants
  seated : ∀ {id pid}, seat id = some pid → ∃ T, tenants pid = some T
  locked : s.Sealed tenants
  intact : s.Intact tenants
  faithful : ∀ {w}, view = some w → s.Faithful w tenants

namespace InOrder

variable {view : Option (FileView F)} {tenants : Pid → Option Tenant}
  {seat seat' : TlbId → Option Pid} {s t : Paging F} {space : AddressSpace} {pid : Pid} {id : TlbId}

/-! ## Changes of what is kept beside the tables -/

/-- Only pages matter of a plain memory. -/
theorem tenant_congr (hs : s.InOrder view tenants seat) {T T' : Tenant}
    (hT : tenants pid = some T) (hspace : T'.space = T.space)
    (hmemory : T'.memory.frameCount = T.memory.frameCount) (hpage : ∀ q, T'.page q = T.page q) :
    s.InOrder view (Function.update tenants pid (some T')) seat := by
  have hold : ∀ {p U}, Function.update tenants pid (some T') p = some U →
      ∃ V, tenants p = some V ∧ V.space = U.space ∧ ∀ q, V.page q = U.page q := by
    intro p U hU
    by_cases hp : p = pid
    · subst hp
      rw [Function.update_self] at hU
      obtain rfl := Option.some.inj hU
      exact ⟨T, hT, hspace.symm, fun q => (hpage q).symm⟩
    · rw [Function.update_of_ne hp] at hU
      exact ⟨U, hU, rfl, fun _ => rfl⟩
  refine ⟨hs.toConsistent, hs.fits, hs.coherent, hs.usage, hs.lodged.update hT hspace hmemory,
    fun {id p} hid => ?_, hs.locked.tenant_congr hT hspace, hs.intact.tenant_congr hT hspace,
    fun hw => ?_⟩
  · by_cases hp : p = pid
    · exact ⟨T', hp ▸ Function.update_self _ _ _⟩
    · rw [Function.update_of_ne hp]
      exact hs.seated hid
  · have hf := hs.faithful hw
    refine ⟨hf.file, fun {key e f U} he hef hU => ?_, fun {key U} hU hlt hclean => ?_⟩
    · obtain ⟨V, hV, -, hVU⟩ := hold hU
      rw [← hVU]
      exact hf.resident he hef hV
    · obtain ⟨V, hV, hVs, hVU⟩ := hold hU
      rw [← hVU, ← hVs]
      exact hf.stored hV (hVs ▸ hlt) hclean

/-- Anybody may come to a TLB that holds nothing. -/
theorem seat_congr (hs : s.InOrder view tenants seat)
    (h : ∀ id, seat' id = seat id ∨ ∀ i, (s.slot id i).valid = false)
    (hseated : ∀ {id pid}, seat' id = some pid → ∃ T, tenants pid = some T) :
    s.InOrder view tenants seat' :=
  ⟨hs.toConsistent, hs.fits, hs.coherent.congr h, hs.usage, hs.lodged, hseated, hs.locked,
    hs.intact, hs.faithful⟩

/-- A TLB that nobody works at holds nothing. -/
theorem not_valid (hs : s.InOrder view tenants seat) (hid : seat id = none) (i : Nat) :
    (s.slot id i).valid = false := by
  by_contra hv
  rw [Bool.not_eq_false] at hv
  obtain ⟨pid, -, hpid, -⟩ := hs.coherent.mirrors hv
  rw [hid] at hpid
  cases hpid

/-! ## Steps of the pager -/

theorem quiet (hs : s.InOrder view tenants seat) (h : Quiet s t) :
    t.InOrder view tenants seat where
  toConsistent := h.consistent hs.toConsistent
  fits := h.memory ▸ hs.fits
  coherent := h.toStill.coherent hs.coherent
  usage := h.toStill.exact hs.usage
  lodged := hs.lodged.of_spaces h.spaces
  seated := hs.seated
  locked := hs.locked.of_bare (fun k => by rw [h.entry]) fun ha => by rwa [h.swap] at ha
  intact := hs.intact.of_same hs.toAgrees (fun k => by rw [h.entry]) fun g _ _ => h.frame g
  faithful hw := (hs.faithful hw).of_swap hs.toAgrees h.swap (fun k => by rw [h.entry]) h.frame
    h.history

/-- **The pager keeps everything in order** while it makes pages of a tenant resident. -/
theorem moves {pinned : Bool} (hs : s.InOrder view tenants seat) (h : Moves space pinned s t)
    {T : Tenant} (hT : tenants space.pid = some T) (hspace : T.space = space) :
    t.InOrder view tenants seat := by
  induction h with
  | refl => exact hs
  | tail _ hmove ih =>
      have ha := ih.toAgrees
      exact ⟨hmove.consistent ih.toConsistent, hmove.sameShape.memory ▸ ih.fits,
        hmove.coherent ih.coherent ha, hmove.exact ih.usage ha, ih.lodged.of_spaces hmove.spaces,
        ih.seated, hmove.sealed ih.locked ha hT hspace,
        hmove.intact ih.intact ha ih.locked hT hspace,
        fun hw => hmove.faithful (ih.faithful hw) ha ih.usage ih.lodged hT hspace⟩

/-! ## Steps on TLBs -/

theorem installed (hs : s.InOrder view tenants seat) {e : Translation} {i : Nat}
    (h : Installed s t id pid e i) (hattached : id ∈ s.attached) (hid : seat id = some pid)
    (he : s.entry ⟨pid, e.page⟩ = some e)
    (habsent : ∀ n, (s.slot id n).valid = true → (s.slot id n).page ≠ e.page) :
    t.InOrder view tenants seat where
  toConsistent := (h.adjusted hattached he).consistent hs.toConsistent
  fits := h.memory ▸ hs.fits
  coherent := h.coherent hs.coherent hid he habsent
  usage := h.exact hs.usage hs.toAgrees hs.coherent hid he
  lodged := hs.lodged.of_spaces h.spaces
  seated := hs.seated
  locked := hs.locked.of_bare (fun k => bare_of_absorb (h.entry k)) fun ha => by
    rwa [h.swap] at ha
  intact := hs.intact.of_same hs.toAgrees (fun k => bare_of_absorb (h.entry k)) fun g _ _ =>
    h.frame g
  faithful hw := (hs.faithful hw).of_swap hs.toAgrees h.swap (fun k => bare_of_absorb (h.entry k))
    h.frame h.history

/-- A process that leaves a TLB leaves it to anybody. -/
theorem saved (hs : s.InOrder view tenants seat) (h : Saved s t id pid)
    (hid : ∀ p, seat id = some p → p = pid) :
    t.InOrder view tenants (Function.update seat id none) where
  toConsistent := h.adjusted.consistent hs.toConsistent
  fits := h.memory ▸ hs.fits
  coherent := h.coherent hs.coherent fun j hj => Function.update_of_ne hj _ _
  usage := h.exact hs.usage hs.toAgrees hs.coherent hid
  lodged := hs.lodged.of_spaces h.spaces
  seated {j p} hp := by
    by_cases hj : j = id
    · rw [hj, Function.update_self] at hp
      cases hp
    · rw [Function.update_of_ne hj] at hp
      exact hs.seated hp
  locked := hs.locked.of_bare (fun k => bare_of_absorb (h.entry k)) fun ha => by
    rwa [h.swap] at ha
  intact := hs.intact.of_same hs.toAgrees (fun k => bare_of_absorb (h.entry k)) fun g _ _ =>
    h.frame g
  faithful hw := (hs.faithful hw).of_swap hs.toAgrees h.swap (fun k => bare_of_absorb (h.entry k))
    h.frame h.history

theorem cleared (hs : s.InOrder view tenants seat) (h : Cleared s t id) (hid : seat id = none) :
    t.InOrder view tenants seat where
  toConsistent := h.adjusted.consistent hs.toConsistent
  fits := h.memory ▸ hs.fits
  coherent := h.coherent hs.coherent fun _ _ => rfl
  usage := h.exact hs.usage hs.toAgrees (hs.not_valid hid)
  lodged := hs.lodged.of_spaces h.spaces
  seated := hs.seated
  locked := hs.locked.of_bare (fun k => by rw [h.entry]) fun ha => by rwa [h.swap] at ha
  intact := hs.intact.of_same hs.toAgrees (fun k => by rw [h.entry]) fun g _ _ => h.frame g
  faithful hw := (hs.faithful hw).of_swap hs.toAgrees h.swap (fun k => by rw [h.entry]) h.frame
    h.history

/-- **A tenant that comes to a TLB works there from now on.** -/
theorem restored (hs : s.InOrder view tenants seat) {pages : List (Option PageNumber)}
    (h : Restored s t id pid pages) (hattached : id ∈ s.attached) (hid : seat id = none)
    (hpages : Unrepeated pages) {T : Tenant} (hT : tenants pid = some T) :
    t.InOrder view tenants (Function.update seat id (some pid)) where
  toConsistent := (h.adjusted hs.toAgrees hattached).consistent hs.toConsistent
  fits := h.memory ▸ hs.fits
  coherent := h.coherent hs.coherent hs.toAgrees hpages (fun j hj => Function.update_of_ne hj _ _)
    (Function.update_self _ _ _)
  usage := h.exact hs.usage hs.toAgrees hs.coherent (hs.not_valid hid)
  lodged := hs.lodged.of_spaces h.spaces
  seated {j p} hp := by
    by_cases hj : j = id
    · rw [hj, Function.update_self] at hp
      exact ⟨T, Option.some.inj hp ▸ hT⟩
    · rw [Function.update_of_ne hj] at hp
      exact hs.seated hp
  locked := hs.locked.of_bare (fun k => by rw [h.entry]) fun ha => by rwa [h.swap] at ha
  intact := hs.intact.of_same hs.toAgrees (fun k => by rw [h.entry]) fun g _ _ => h.frame g
  faithful hw := (hs.faithful hw).of_swap hs.toAgrees h.swap (fun k => by rw [h.entry]) h.frame
    h.history

/-- Who brings no pages along finds the TLB empty, and works there only in name. -/
theorem restored_empty (hs : s.InOrder view tenants seat) (h : Restored s t id pid [])
    (hattached : id ∈ s.attached) (hid : seat id = none) : t.InOrder view tenants seat where
  toConsistent := (h.adjusted hs.toAgrees hattached).consistent hs.toConsistent
  fits := h.memory ▸ hs.fits
  coherent := by
    have hpages : Unrepeated [] := fun hn => by cases hn
    have hseat : ∀ j, j ≠ id → Function.update seat id (some pid) j = seat j :=
      fun j hj => Function.update_of_ne hj _ _
    refine (h.coherent hs.coherent hs.toAgrees hpages hseat
      (Function.update_self _ _ _)).congr fun j => ?_
    by_cases hj : j = id
    · refine Or.inr fun n => Bool.eq_false_iff.2 fun hv => ?_
      rw [hj] at hv
      obtain ⟨p, hp, -⟩ := h.slot_of_valid hs.toAgrees hv
      cases hp
    · exact Or.inl (Function.update_of_ne hj _ _).symm
  usage := h.exact hs.usage hs.toAgrees hs.coherent (hs.not_valid hid)
  lodged := hs.lodged.of_spaces h.spaces
  seated := hs.seated
  locked := hs.locked.of_bare (fun k => by rw [h.entry]) fun ha => by rwa [h.swap] at ha
  intact := hs.intact.of_same hs.toAgrees (fun k => by rw [h.entry]) fun g _ _ => h.frame g
  faithful hw := (hs.faithful hw).of_swap hs.toAgrees h.swap (fun k => by rw [h.entry]) h.frame
    h.history

/-! ## Accesses -/

theorem seated_update (hs : s.InOrder view tenants seat) {p : Pid} {T : Tenant} {j : TlbId}
    {q : Pid} (hq : seat j = some q) : ∃ U, Function.update tenants p (some T) q = some U := by
  by_cases hp : q = p
  · exact ⟨T, hp ▸ Function.update_self _ _ _⟩
  · rw [Function.update_of_ne hp]
    exact hs.seated hq

/-- **An access through a TLB** changes the plain memory of the tenant that works there. -/
theorem used (hs : s.InOrder view tenants seat) {key : PageKey} {i : Nat} {f : FrameNumber}
    {writing : Bool} {page : Page} (h : Used s t key id i f writing page)
    (hslot : (s.slot id i).maps f = true) (hid : seat id = some key.pid)
    (hpage : (s.slot id i).page = key.page)
    (hro : ¬ (writing = true ∧ (s.slot id i).flags.readOnly = true)) {T T' : Tenant}
    (hT : tenants key.pid = some T) (hspace : T'.space = T.space)
    (hmemory : T'.memory.frameCount = T.memory.frameCount)
    (hnew : ∀ {w}, view = some w → ∀ q, T'.page q = if q = key.page then page else T.page q)
    (hread : writing = false → page = s.frame f) :
    t.InOrder view (Function.update tenants key.pid (some T')) seat where
  toConsistent := h.adjusted.consistent hs.toConsistent
  fits := h.memory ▸ hs.fits
  coherent := h.coherent hs.coherent
  usage := h.exact hs.usage hs.toAgrees hs.coherent hslot hid hpage hro
  lodged := (hs.lodged.of_spaces h.spaces).update hT hspace hmemory
  seated := hs.seated_update
  locked := (hs.locked.of_bare (fun k => by rw [h.entry]) fun ha => by
    rwa [h.swap] at ha).tenant_congr hT hspace
  intact := by
    obtain ⟨d, hd, hbare, hdf⟩ := hs.coherent.entry_of_slot hslot hid hpage
    rw [← (Translation.bare_eq_iff.1 hbare).2.2.2] at hro
    exact (hs.intact.of_access hs.toAgrees hs.locked hT hd hdf hro (fun k => by rw [h.entry])
      h.frame hread).tenant_congr hT hspace
  faithful hw := by
    obtain ⟨d, hd, -, hdf⟩ := hs.coherent.entry_of_slot hslot hid hpage
    exact (hs.faithful hw).of_access hs.toAgrees hd hdf hT (fun k => by rw [h.entry]) h.frame h.swap
      h.history hspace (hnew hw) hread

/-- **An access by the kernel** changes the plain memory of the tenant whose page it is. -/
theorem copied (hs : s.InOrder view tenants seat) {key : PageKey} {f : FrameNumber}
    {writing : Bool} {page : Page} {d : Translation} (h : Copied s t key f writing page)
    (hd : s.entry key = some d) (hdf : d.maps f = true)
    (hro : ¬ (writing = true ∧ d.flags.readOnly = true)) {T T' : Tenant}
    (hT : tenants key.pid = some T) (hspace : T'.space = T.space)
    (hmemory : T'.memory.frameCount = T.memory.frameCount)
    (hnew : ∀ {w}, view = some w → ∀ q, T'.page q = if q = key.page then page else T.page q)
    (hread : writing = false → page = s.frame f) :
    t.InOrder view (Function.update tenants key.pid (some T')) seat where
  toConsistent := h.adjusted.consistent hs.toConsistent
  fits := h.memory ▸ hs.fits
  coherent := h.coherent hs.coherent
  usage := h.exact hs.usage hs.toAgrees hd hro
  lodged := (hs.lodged.of_spaces h.spaces).update hT hspace hmemory
  seated := hs.seated_update
  locked := (hs.locked.of_bare h.adjusted.bare fun ha => by
    rwa [h.swap] at ha).tenant_congr hT hspace
  intact := (hs.intact.of_access hs.toAgrees hs.locked hT hd hdf hro h.adjusted.bare h.frame
    hread).tenant_congr hT hspace
  faithful hw := (hs.faithful hw).of_access hs.toAgrees hd hdf hT h.adjusted.bare h.frame h.swap
    h.history hspace (hnew hw) hread

/-! ## Tenants that come and go -/

/-- **A new tenant finds in its pages what its program says.** -/
theorem registered (hs : s.InOrder view tenants seat)
    (h : Registered s t space.pid space.pageCount) :
    t.InOrder view (Function.update tenants space.pid (some ⟨space, space.initialMemory⟩)) seat where
  toConsistent := h.consistent hs.toConsistent
  fits := h.memory ▸ hs.fits
  coherent := h.toStill.coherent hs.coherent
  usage := h.toStill.exact hs.usage
  lodged := h.lodged hs.lodged rfl rfl space.frameCount_initialMemory
  seated := hs.seated_update
  locked := h.sealed hs.locked hs.toConsistent _
  intact := h.intact hs.intact hs.toConsistent _
  faithful hw := h.faithful (hs.faithful hw) hs.toConsistent rfl

/-- **A tenant that goes leaves nothing behind**, neither in tables nor in TLBs. -/
theorem gone (hs : s.InOrder view tenants seat) (h : Gone s t pid) (ht : t.Consistent) :
    t.InOrder view (Function.update tenants pid none) (unseat seat pid) where
  toConsistent := ht
  fits := h.memory ▸ hs.fits
  coherent := by
    refine (h.toLost.coherent hs.coherent hs.toAgrees ht.toAgrees).congr fun id => ?_
    by_cases hid : seat id = some pid
    · exact Or.inr fun i => h.not_valid hs.coherent hs.toAgrees ht.toAgrees hid i
    · exact Or.inl (if_neg hid)
  usage := h.exact hs.usage hs.toAgrees
  lodged := h.lodged hs.lodged
  seated {id p} hp := by
    obtain ⟨hid, hne⟩ := unseat_eq_some.1 hp
    rw [Function.update_of_ne hne]
    exact hs.seated hid
  locked := h.sealed hs.locked
  intact := h.intact hs.intact
  faithful hw := h.faithful (hs.faithful hw)

/-! ## The start -/

/-- Everything is in order as long as nothing has happened. -/
theorem of_blank {config : MachineConfig} (hs : s.Consistent) (hcore : s.core = .blank config)
    (hfits : config.frames * pageSize < wordLimit) (hhistory : s.history = [])
    (hslots : s.swap.slots = ∅) (hgood : ∀ w, view = some w → w.good s.swap.file) :
    s.InOrder view (fun _ => none) (fun _ => none) := by
  have hentry : ∀ key, s.entry key = none := fun key => by
    rw [entry, hcore]
    exact Std.ExtTreeMap.getElem?_empty
  have hslot : ∀ {id i}, (s.slot id i).valid ≠ true := fun {id i} hv => by
    rw [slot, hcore] at hv
    exact absurd (TlbBank.live_of_valid hv) (by simp [TlbBank.live, CoreMap.blank])
  have hresident : ∀ {key e}, s.entry key ≠ some e := fun {key e} he => by
    rw [hentry] at he
    cases he
  exact
    { toConsistent := hs
      fits := by
        rw [hcore]
        exact hfits
      coherent := ⟨fun hv => absurd hv hslot, fun hv => absurd hv hslot⟩
      usage := by
        refine ⟨fun he => absurd he hresident, fun he => absurd he hresident, ?_⟩
        rw [hhistory]
        exact trivial
      lodged := by
        refine ⟨fun hT => (by cases hT), fun {p} hp => ?_⟩
        rw [hcore] at hp
        exact absurd hp Std.ExtTreeMap.not_mem_empty
      seated := fun h => (by cases h)
      locked := .of_empty (fun _ _ => hresident) fun key a ha => absurd ha (by simp [hslots])
      intact := .of_empty fun _ _ => hresident
      faithful := fun {w} hw =>
        ⟨hgood w hw, fun he => absurd he hresident, fun hT => (by cases hT)⟩ }

/-- There is one more TLB, which nobody has used. -/
theorem grown {b : TlbBank} (hs : s.InOrder view tenants seat)
    (hslot : ∀ id i, b.slot id i = s.slot id i) (hattached : b.attached = s.attached) :
    ({ s with core := { s.core with tlbs := b } } : Paging F).InOrder view tenants seat where
  toConsistent := hs.of_tlbs rfl rfl hattached fun {id i _} _ => hslot id i
  fits := hs.fits
  coherent := by
    refine hs.coherent.of_bare (fun {k e} he => ⟨e, he, rfl⟩) fun {id i} hv => ?_
    have hsame : ({ s with core := { s.core with tlbs := b } } : Paging F).slot id i = s.slot id i :=
      hslot id i
    rw [hsame] at hv ⊢
    exact ⟨hv, rfl⟩
  usage := by
    refine hs.usage.of_marked (fun {k e} he => ⟨e, he, rfl, fun u => ?_⟩) (fun _ _ => rfl)
      hs.usage.honest
    have hsame : ∀ id i,
        ({ s with core := { s.core with tlbs := b } } : Paging F).slot id i = s.slot id i := hslot
    simp only [Marked, hsame]
    rfl
  lodged := hs.lodged.of_spaces rfl
  seated := hs.seated
  locked := hs.locked.of_bare (fun _ => rfl) fun ha => ha
  intact := hs.intact.of_same hs.toAgrees (fun _ => rfl) fun _ _ _ => rfl
  faithful hw := (hs.faithful hw).of_swap hs.toAgrees rfl (fun _ => rfl) (fun _ => rfl) rfl

end InOrder

end Paging

end DemandPaging
