import DemandPaging.Proofs.Extents

/-!
# Two tries are enough

A page that the TLB lacks is resolved, and then the TLB has it, or the process is ended.  So no
access is tried more than twice on any page, whatever had to be evicted for it, and nobody is ended
because his tries ran out.

* `Context.translations`, `Context.rangeTranslations` — how often an access to a page, and to each
  page of a range, is translated.
* `Context.accessPiece_of_lt` — more tries than are used make no difference.
* `Context.handleTrap_served` — an exception is resolved, or is the end of the process.
* `Context.accessPiece_served`, `Context.userAccess_served` — how often an access is tried, and where
  it stops.
-/

namespace DemandPaging

open Paging Kernel

variable {F : Type} [BackingFile F]

namespace Paging

variable {s : Paging F} {space : AddressSpace} {writing : Bool} {p : PageNumber}
  {cause : ExceptionCause}

omit [BackingFile F] in
/-- Who is refused a page for reading is refused it for writing. -/
theorem obstacle_of_reading (h : s.obstacle space false p = some cause) :
    s.obstacle space writing p = some cause := by
  by_cases hinside : space.contains p = true
  · by_cases hobtainable : s.Obtainable (space.key p)
    · have hreading : ¬ (false = true ∧ space.isSealed p = true) := fun hw => nomatch hw.1
      rw [obstacle_obtainable hobtainable, AddressSpace.refusal_granted hinside hreading] at h
      cases h
    · rwa [obstacle_exhausted hinside hobtainable] at h ⊢
  · rw [Bool.not_eq_true] at hinside
    rwa [obstacle_outside hinside] at h ⊢

end Paging

/-! ## The end of a process -/

namespace Kernel

variable {k k' : Kernel F} {pid : Pid}

/-- No transfer is made when an address space is taken away. -/
theorem shorts_destroySpace {r : Except Failure Unit} (hk : k.Agrees)
    (h : k.destroySpace pid = (r, k')) : Shorts k.toPaging k'.toPaging 0 := by
  have hswap : ∀ {v : ReliableView F}, v.Keeps k.swap → v.Keeps k'.swap := by
    intro v hv
    obtain ⟨-, -, ⟨-, -, hunreg, hemptied, hfreed⟩ | ⟨-, -, rfl⟩⟩ := destroySpace_spec hk h
    · refine ReliableView.Keeps.released ?_ hfreed.swap
      rw [hemptied.steps.rest.1, hunreg.swap]
      exact hv
    · exact hv
  refine ⟨?_, fun hv => ⟨rfl, hswap hv⟩⟩
  unfold destroySpace at h
  split at h
  · obtain ⟨-, rfl⟩ := Prod.mk.inj h
    rfl
  · split at h <;> rename_i hremoved <;> obtain ⟨-, rfl⟩ := Prod.mk.inj h
    · exact (tally_removeResident hremoved).shortfalls
    · exact (tally_removeResident hremoved).shortfalls

end Kernel

namespace Context

variable {x y z : Context F}

/-- No transfer is made when a process is ended. -/
theorem shorts_exit {status : Int} {r : Except Failure Unit} (hx : x.kernel.Consistent)
    (h : x.exit status = (r, y)) : Shorts x.kernel.toPaging y.kernel.toPaging 0 := by
  have hunscheduled : Shorts x.kernel.toPaging x.unschedule.kernel.toPaging 0 := by
    unfold unschedule
    split
    · exact .of_same rfl rfl
    · exact .refl _
  have hc := (unschedule_adjusted x).consistent hx
  unfold exit at h
  dsimp only at h
  split at h <;> rename_i hdestroyed <;> obtain ⟨-, rfl⟩ := Prod.mk.inj h
  · exact hunscheduled.head (shorts_destroySpace hc.toAgrees hdestroyed)
  · exact hunscheduled.head ((shorts_destroySpace hc.toAgrees hdestroyed).tail (.note rfl))

theorem shorts_terminate {cause : ExceptionCause} {r : Except Halt TrapOutcome}
    (hx : x.kernel.Consistent) (h : x.terminate cause = (r, y)) :
    Shorts x.kernel.toPaging y.kernel.toPaging 0 := by
  unfold terminate at h
  split at h <;> rename_i hexit <;> obtain ⟨-, rfl⟩ := Prod.mk.inj h
  · exact shorts_exit hx hexit
  · exact shorts_exit hx hexit
  · exact (shorts_exit hx hexit).tail (.note rfl)

/-! ## Tries -/

/-- How often an access to a piece of a range is translated. -/
def translations (access : Access) (q : Piece) : (attempts : Nat) → Context F → Nat
  | 0, _ => 0
  | attempts + 1, x =>
    let (r, kernel, cpu) := x.kernel.translate x.cpu q.address access.writing
    match r with
    | .ok _ => 1
    | .error cause =>
      match handleTrap { x with kernel, cpu } cause.code with
      | (.ok .resume, x) => translations access q attempts x + 1
      | _ => 1

/-- How often an access to each piece of a range is translated, as far as it gets. -/
def rangeTranslations (access : Access) : List Piece → Context F → List Nat
  | [], _ => []
  | q :: qs, x =>
    translations access q maxAttempts x ::
      match accessPiece access q maxAttempts x with
      | (.ok (.ok _), x) => rangeTranslations access qs x
      | _ => []

variable {access : Access} {q : Piece} {attempts : Nat}

/-- **More tries than are used make no difference.** -/
theorem accessPiece_of_lt (h : translations access q attempts x < attempts) (more : Nat) :
    accessPiece access q (attempts + more) x = accessPiece access q attempts x := by
  induction attempts generalizing x with
  | zero => cases h
  | succ n ih =>
      rw [Nat.succ_add]
      unfold translations at h
      unfold accessPiece
      cases ht : x.kernel.translate x.cpu q.address access.writing with
      | mk r rest =>
          obtain ⟨kernel, cpu⟩ := rest
          rw [ht] at h
          cases r with
          | ok a => rfl
          | error cause =>
              dsimp only at h ⊢
              cases hh : handleTrap { x with kernel, cpu } cause.code with
              | mk o z =>
                  rw [hh] at h
                  cases o with
                  | error why => rfl
                  | ok o =>
                      cases o with
                      | resume => exact ih (Nat.lt_of_succ_lt_succ h)
                      | terminated _ _ => rfl
                      | syscall => rfl

/-! ## Processes that run -/

variable {view : Option (FileView F)} {tenants tenants' : Pid → Option Tenant}
  {seat : TlbId → Option Pid} {memory memory' : Memory}

/-- A process runs on its processor, whose TLB has a slot, and has the pages that it is to have. -/
structure Runs (view : Option (FileView F)) (tenants : Pid → Option Tenant)
    (seat : TlbId → Option Pid) (memory : Memory) (x : Context F) : Prop where
  inOrder : x.kernel.InOrder view tenants seat
  stocked : x.kernel.Stocked x.process.space x.process.strategy
  tenant : tenants x.process.pid = some ⟨x.process.space, memory⟩
  seated : seat x.cpu.tlb = some x.process.pid
  slots : 0 < (x.kernel.core.tlbs.tlb x.cpu.tlb).size
  live : x.process.exitCode = none
  fits : x.process.space.pageCount * pageSize ≤ maxUserAddr

namespace Runs

theorem pid (hx : x.Runs view tenants seat memory) : x.process.space.pid = x.process.pid :=
  (hx.inOrder.lodged.space hx.tenant).1

theorem tenant' (hx : x.Runs view tenants seat memory) :
    tenants x.process.space.pid = some ⟨x.process.space, memory⟩ := by
  rw [hx.pid]
  exact hx.tenant

theorem seated' (hx : x.Runs view tenants seat memory) :
    seat x.cpu.tlb = some x.process.space.pid := by
  rw [hx.pid]
  exact hx.seated

/-- The process goes on, and the same pages can be had. -/
theorem resumes (hx : x.Runs view tenants seat memory) (h : Resumes x y)
    (hy : y.kernel.InOrder view tenants' seat)
    (hT : tenants' x.process.pid = some ⟨x.process.space, memory'⟩) (hevolves : Evolves x y) :
    y.Runs view tenants' seat memory' ∧ SameSupply x.kernel.toPaging y.kernel.toPaging := by
  have hnot : ∀ fate : Fate, ¬ (fate = .loses x.process.pid ∧ y.process.exitCode ≠ none) := by
    rw [h.process]
    exact fun _ hfate => hfate.2 hx.live
  have hchanges := hevolves.kernel.changes
  refine ⟨⟨hy, ?_, h.process ▸ hT, ?_, ?_, h.process ▸ hx.live, h.process ▸ hx.fits⟩,
    hchanges.sameSupply hx.inOrder.toConsistent (fun _ => hnot _) fun _ => hnot _⟩
  · rw [h.process]
    exact hchanges.stocked hx.inOrder.toConsistent (hnot _) hx.stocked
  · rw [h.tlb, h.process, hx.seated]
  · rw [h.tlb, h.kernel.size]
    exact hx.slots

end Runs

/-! ## Exceptions -/

/-- **A page that a TLB holds can be had.** -/
theorem Runs.obtainable (hx : x.Runs view tenants seat memory) {n : Nat} {f : FrameNumber}
    {p : PageNumber} (hmaps : (x.kernel.slot x.cpu.tlb n).maps f = true)
    (hpage : (x.kernel.slot x.cpu.tlb n).page = p) :
    x.kernel.Obtainable (x.process.space.key p) := by
  have hpage' : (x.kernel.slot x.cpu.tlb n).page = (x.process.space.key p).page := hpage
  obtain ⟨d, hd, -⟩ := hx.inOrder.coherent.entry_of_slot hmaps hx.seated' hpage'
  exact Or.inl (Option.isSome_of_eq_some hd)

/-- What comes of an exception, unless a transfer of the swap file comes up short: the TLB has the
page then, and the same pages can be had as before, or the page is refused. -/
inductive Resolves (view : Option (FileView F)) (tenants : Pid → Option Tenant)
    (seat : TlbId → Option Pid) (memory : Memory) (p : PageNumber) (x y : Context F) :
    Option ExceptionCause → TrapOutcome → Prop
  | resume {refusal : Option ExceptionCause} (habsent : ¬ x.kernel.Holds x.cpu.tlb p)
    (hprocess : y.process = x.process) (hruns : y.Runs view tenants seat memory)
    (hsupply : SameSupply x.kernel.toPaging y.kernel.toPaging)
    (hholds : y.kernel.Holds y.cpu.tlb p) : Resolves view tenants seat memory p x y refusal .resume
  | refused {cause : ExceptionCause} :
    Resolves view tenants seat memory p x y (some cause) (.terminated cause killedStatus)

/-- **A page that the TLB lacks is resolved, or is the end of the process.** -/
theorem handlePage_served {writing : Bool} {r : Except Halt TrapOutcome}
    (hx : x.Runs view tenants seat memory) (haddress : x.cpu.badAddress.val ≤ maxUserAddr)
    (habsent : ∀ n, (x.kernel.slot x.cpu.tlb n).valid = true →
      (x.kernel.slot x.cpu.tlb n).page ≠ x.cpu.badAddress.page) (h : x.handlePage = (r, y)) :
    (Shorts x.kernel.toPaging y.kernel.toPaging 0 ∧ ∃ o, r = .ok o ∧
        Resolves view tenants seat memory x.cpu.badAddress.page x y
          (x.kernel.obstacle x.process.space writing x.cpu.badAddress.page) o) ∨
      (Shorts x.kernel.toPaging y.kernel.toPaging 1 ∧ ∃ why, r = .error why) := by
  have hhandled := h
  unfold handlePage at h
  dsimp only at h
  cases hm : x.kernel.handleMiss x.cpu.tlb x.process.space x.process.strategy x.cpu.badAddress with
  | mk r' k =>
      rw [hm] at h
      have hk := (handleMiss_inOrder hx.inOrder hx.tenant' hx.seated' habsent hm).2
      have hnote : ∀ e : Event, ((⟨k, x.cpu, x.process⟩ : Context F).note e).kernel.Consistent :=
        fun e => (inOrder_note hk e).toConsistent
      obtain ⟨hshorts, hresolved⟩ | ⟨hshorts, rfl⟩ :=
        handleMiss_served hx.inOrder hx.stocked hx.tenant' hx.slots haddress hm
      · generalize hobstacle : x.kernel.obstacle x.process.space false x.cpu.badAddress.page = refusal
          at hresolved
        cases hresolved with
        | resolved hholds =>
            obtain ⟨rfl, rfl⟩ := Prod.mk.inj h
            obtain ⟨hresumes, horder⟩ | _ :=
              handlePage_inOrder hx.inOrder hx.tenant hx.seated habsent hhandled
            obtain ⟨hruns, hsupply⟩ := hx.resumes hresumes horder hx.tenant
              (handlePage_evolves hx.inOrder.toConsistent hhandled)
            refine Or.inl ⟨hshorts, _, rfl, .resume ?_ rfl hruns hsupply hholds⟩
            rintro ⟨n, f, hmaps, hslot⟩
            exact habsent n (Translation.valid_of_maps hmaps) hslot
        | outside =>
            obtain ⟨rfl, -⟩ := note_terminate_ended (x := ⟨k, x.cpu, x.process⟩) hk hx.seated h
            have hended := shorts_terminate (hnote _) h
            rw [obstacle_of_reading hobstacle]
            exact Or.inl ⟨hshorts.head (.head (.note rfl) hended), _, rfl, .refused⟩
        | exhausted =>
            obtain ⟨rfl, -⟩ := note_terminate_ended (x := ⟨k, x.cpu, x.process⟩) hk hx.seated h
            have hended := shorts_terminate (hnote _) h
            rw [obstacle_of_reading hobstacle]
            exact Or.inl ⟨hshorts.head (.head (.note rfl) hended), _, rfl, .refused⟩
      · obtain ⟨rfl, rfl⟩ := Prod.mk.inj h
        exact Or.inr ⟨hshorts, _, rfl⟩

/-- An exception that is not about a page that the TLB lacks is the end of the process. -/
theorem note_terminate_served {e : Event} {cause : ExceptionCause} {p : PageNumber}
    {r : Except Halt TrapOutcome} (hx : x.Runs view tenants seat memory) (he : e.shortfall = 0)
    (h : (x.note e).terminate cause = (r, y)) :
    Shorts x.kernel.toPaging y.kernel.toPaging 0 ∧ ∃ o, r = .ok o ∧
      Resolves view tenants seat memory p x y (some cause) o := by
  obtain ⟨rfl, -⟩ := note_terminate_ended hx.inOrder hx.seated h
  have hnote : (x.note e).kernel.Consistent := (inOrder_note hx.inOrder e).toConsistent
  exact ⟨.head (.note he) (shorts_terminate hnote h), _, rfl, .refused⟩

/-- **An exception that a translation raises** is resolved, or the page is refused and that is the
end of the process. -/
theorem handleTrap_served {c : ExceptionCause} {writing : Bool} {r : Except Halt TrapOutcome}
    (hx : x.Runs view tenants seat memory)
    (hraises : x.kernel.Raises x.cpu.tlb x.cpu.badAddress writing c)
    (h : x.handleTrap c.code = (r, y)) :
    (Shorts x.kernel.toPaging y.kernel.toPaging 0 ∧ ∃ o, r = .ok o ∧
        Resolves view tenants seat memory x.cpu.badAddress.page x y
          (x.kernel.obstacle x.process.space writing x.cpu.badAddress.page) o) ∨
      (Shorts x.kernel.toPaging y.kernel.toPaging 1 ∧ ∃ why, r = .error why) := by
  cases hraises with
  | missing haddress habsent => exact handlePage_served hx haddress habsent h
  | outside haddress =>
      rw [obstacle_outside (AddressSpace.contains_of_lt hx.fits haddress)]
      exact Or.inl (note_terminate_served hx rfl h)
  | readOnly _ hmaps hpage hwriting hreadOnly =>
      obtain ⟨hcontains, hsealed⟩ :=
        hx.inOrder.contains_of_slot hx.tenant' hx.seated' hmaps hpage
      rw [obstacle_obtainable (hx.obtainable hmaps hpage), hwriting,
        AddressSpace.refusal_sealed hcontains (hsealed.symm.trans hreadOnly)]
      exact Or.inl (note_terminate_served hx rfl h)

/-! ## Loads and stores -/

/-- A page that the TLB lacked has been resolved for a process, and nothing else has changed for
it. -/
structure Resolved (view : Option (FileView F)) (tenants : Pid → Option Tenant)
    (seat : TlbId → Option Pid) (memory : Memory) (p : PageNumber) (x z : Context F) : Prop where
  absent : ¬ x.kernel.Holds x.cpu.tlb p
  process : z.process = x.process
  runs : z.Runs view tenants seat memory
  supply : SameSupply x.kernel.toPaging z.kernel.toPaging
  holds : z.kernel.Holds z.cpu.tlb p
  shorts : Shorts x.kernel.toPaging z.kernel.toPaging 0

/-- No transfer is made by an access to memory. -/
theorem shorts_touchMemory {k : Kernel F} {e : PageEvent} {a : PhysAddr} {b : Except Halt Bytes}
    (hconfig : Shorts x.kernel.toPaging k.toPaging 0)
    (h : (({ x with kernel := k } : Context F).record e).touchMemory access q a = (b, y)) :
    Shorts x.kernel.toPaging y.kernel.toPaging 0 := by
  unfold touchMemory at h
  dsimp only at h
  split at h
  · split at h <;> obtain ⟨-, rfl⟩ := Prod.mk.inj h
    · exact hconfig.tail (.of_same rfl rfl)
    · exact hconfig.tail (.of_same rfl rfl)
  · obtain ⟨-, rfl⟩ := Prod.mk.inj h
    exact hconfig.tail (.of_same rfl rfl)

theorem Kernel.shorts_translate {k k' : Kernel F} {cpu cpu' : Processor}
    {address : VirtAddr} {writing : Bool} {r : Except ExceptionCause PhysAddr}
    (h : k.translate cpu address writing = (r, k', cpu')) : Shorts k.toPaging k'.toPaging 0 := by
  unfold Kernel.translate at h
  simp only [Prod.mk.injEq] at h
  obtain ⟨-, rfl, -⟩ := h
  exact .of_same rfl rfl

/-- **One try of an access** is answered as the page is granted or refused, unless the TLB lacks it;
then the page is resolved, and the access is tried again. -/
theorem accessPiece_once {r : Except Halt (Except ExceptionCause Bytes)}
    (hx : x.Runs view tenants seat memory) (hpage : q.address.offset + q.size ≤ pageSize)
    (hdata : ∀ data, access = .store data → q.place + q.size ≤ data.size)
    (h : accessPiece access q (attempts + 1) x = (r, y)) :
    (translations access q (attempts + 1) x = 1 ∧
        ((Shorts x.kernel.toPaging y.kernel.toPaging 0 ∧
            Met (x.kernel.obstacle x.process.space access.writing q.address.page) r) ∨
          (Shorts x.kernel.toPaging y.kernel.toPaging 1 ∧ ∃ why, r = .error why))) ∨
      ∃ z, Resolved view tenants seat memory q.address.page x z ∧
        translations access q (attempts + 1) x = translations access q attempts z + 1 ∧
        accessPiece access q attempts z = (r, y) := by
  unfold accessPiece at h
  rw [translations]
  cases ht : x.kernel.translate x.cpu q.address access.writing with
  | mk r' rest =>
      obtain ⟨k, cpu⟩ := rest
      rw [ht] at h
      dsimp only at h ⊢
      have htranslated := Kernel.shorts_translate ht
      obtain ⟨hconfig, hpids, ⟨i, f, rfl, rfl, -, hmaps, hslot, hro, hhit⟩ |
        ⟨c, rfl, rfl, hquiet, hraises⟩⟩ := Kernel.translate_spec ht
      · dsimp only at h ⊢
        cases hm : touchMemory (({ x with kernel := k } : Context F).record
            (.accessed ⟨x.process.pid, q.address.page⟩ access.writing)) access q
            (f.byte q.address.offset) with
        | mk b z =>
            rw [hm] at h
            obtain ⟨old, rfl, -, -⟩ := accessed_inOrder hx.inOrder hx.tenant hx.seated hpage hdata
              hmaps hslot hro hhit hconfig hpids hm
            obtain ⟨rfl, rfl⟩ := Prod.mk.inj h
            obtain ⟨hcontains, hsealed⟩ :=
              hx.inOrder.contains_of_slot hx.tenant' hx.seated' hmaps hslot
            rw [hsealed] at hro
            rw [obstacle_obtainable (hx.obtainable hmaps hslot),
              AddressSpace.refusal_granted hcontains hro]
            exact Or.inl ⟨rfl, Or.inl ⟨shorts_touchMemory htranslated hm, .granted _⟩⟩
      · have hresumes : Resumes x { x with kernel := k, cpu := x.cpu.raise c q.address } :=
          ⟨⟨hquiet.toSameShape, hconfig, hpids⟩, rfl, rfl, rfl⟩
        obtain ⟨hx', hsupply⟩ := hx.resumes hresumes (hx.inOrder.quiet hquiet) hx.tenant
          ⟨⟨rfl, rfl, rfl, rfl, id⟩, .quiet hquiet (Kernel.translate_posted ht) hconfig hpids⟩
        dsimp only at h ⊢
        cases hh : handleTrap { x with kernel := k, cpu := x.cpu.raise c q.address } c.code with
        | mk o z =>
            rw [hh] at h
            have hraised : k.Raises x.cpu.tlb q.address access.writing c := hquiet.raises hraises
            obtain ⟨hshorts, o, rfl, hresolves⟩ | ⟨hshorts, why, rfl⟩ :=
              handleTrap_served hx' hraised hh
            · have hrefusal : k.obstacle x.process.space access.writing q.address.page =
                  x.kernel.obstacle x.process.space access.writing q.address.page :=
                hsupply.obstacle
              replace hresolves : Resolves view tenants seat memory q.address.page
                  ⟨k, x.cpu.raise c q.address, x.process⟩ z
                  (k.obstacle x.process.space access.writing q.address.page) o := hresolves
              rw [hrefusal] at hresolves
              generalize x.kernel.obstacle x.process.space access.writing q.address.page = refusal
                at hresolves ⊢
              cases hresolves with
              | resume habsent hprocess hruns hsupply' hholds =>
                  refine Or.inr ⟨z, ⟨?_, hprocess, hruns, hsupply.trans hsupply', hholds,
                    htranslated.head hshorts⟩, rfl, h⟩
                  rintro ⟨n, f, hmaps, hslot⟩
                  rw [← hquiet.slot] at hmaps hslot
                  exact habsent ⟨n, f, hmaps, hslot⟩
              | refused =>
                  obtain ⟨rfl, rfl⟩ := Prod.mk.inj h
                  exact Or.inl ⟨rfl, Or.inl ⟨htranslated.head hshorts, .refused _⟩⟩
            · obtain ⟨rfl, rfl⟩ := Prod.mk.inj h
              exact Or.inl ⟨rfl, Or.inr ⟨htranslated.head hshorts, why, rfl⟩⟩

/-- **Two tries are enough** for every page. -/
theorem accessPiece_served {r : Except Halt (Except ExceptionCause Bytes)}
    (hx : x.Runs view tenants seat memory) (hpage : q.address.offset + q.size ≤ pageSize)
    (hdata : ∀ data, access = .store data → q.place + q.size ≤ data.size)
    (h : accessPiece access q (attempts + 2) x = (r, y)) :
    translations access q (attempts + 2) x ≤ 2 ∧
      ((Shorts x.kernel.toPaging y.kernel.toPaging 0 ∧
          Met (x.kernel.obstacle x.process.space access.writing q.address.page) r) ∨
        (Shorts x.kernel.toPaging y.kernel.toPaging 1 ∧ ∃ why, r = .error why)) := by
  show translations access q (attempts + 1 + 1) x ≤ 2 ∧ _
  obtain ⟨hcount, hmet⟩ | ⟨z, hz, hcount, hagain⟩ := accessPiece_once hx hpage hdata h
  · exact ⟨by omega, hmet⟩
  · obtain ⟨hcount', hmet⟩ | ⟨u, hu, -⟩ := accessPiece_once hz.runs hpage hdata hagain
    · refine ⟨by omega, hmet.imp (fun hall => ⟨hz.shorts.head hall.1, ?_⟩)
        fun hshort => ⟨hz.shorts.head hshort.1, hshort.2⟩⟩
      rw [← hz.supply.obstacle, ← hz.process]
      exact hall.2
    · exact absurd hz.holds hu.absent

/-- **The pieces of a range are accessed up to the first page that is refused**, unless a transfer
comes up short, and each of them is tried twice at most. -/
theorem accessPieces_served {address : VirtAddr} {count : Nat} {qs : List Piece} {moved : Bytes}
    {refusal : PageNumber → Option ExceptionCause} {r : Except Halt Accessed}
    (hqs : Pieces address.val moved.size count qs) (hsizes : ∀ q ∈ qs, 0 < q.size)
    (hdata : ∀ data, access = .store data → count ≤ data.size)
    (hmoved : access.Moved (∃ w, view = some w) memory address.val moved)
    (hx : x.Runs view (Function.update tenants x.process.pid
      (some ⟨x.process.space, access.after memory address.val moved⟩)) seat
      (access.after memory address.val moved))
    (hrefusal : ∀ page, x.kernel.obstacle x.process.space access.writing page = refusal page)
    (hbefore : ∀ n < moved.size, refusal (address.advance n).page = none)
    (h : accessPieces access qs moved x = (r, y)) :
    (∀ n ∈ rangeTranslations access qs x, n ≤ 2) ∧
      ((Shorts x.kernel.toPaging y.kernel.toPaging 0 ∧
          ∃ b, r = .ok b ∧ Stops refusal address count b.moved.size b.cause) ∨
        (Shorts x.kernel.toPaging y.kernel.toPaging 1 ∧ ∃ why, r = .error why)) := by
  induction qs generalizing x moved with
  | nil =>
      obtain ⟨rfl, rfl⟩ := Prod.mk.inj h
      refine ⟨nofun, Or.inl ⟨.refl _, _, rfl, ?_⟩⟩
      generalize moved.size = n at hqs hbefore ⊢
      cases hqs
      exact .of_granted hbefore
  | cons q qs ih =>
      unfold accessPieces at h
      rw [rangeTranslations]
      cases ha : accessPiece access q maxAttempts x with
      | mk b z =>
          rw [ha] at h
          obtain ⟨hpage, hfits⟩ := hqs.fits hdata
          have htries : accessPiece access q (1 + 2) x = (b, z) := ha
          obtain ⟨hcount, ⟨hshorts, hmet⟩ | ⟨hshorts, why, rfl⟩⟩ :=
            accessPiece_served hx hpage hfits htries
          · rw [hrefusal] at hmet
            generalize hanswer : refusal q.address.page = cause at hmet
            cases hmet with
            | refused cause =>
                obtain ⟨rfl, rfl⟩ := Prod.mk.inj h
                refine ⟨fun n hn => ?_, Or.inl ⟨hshorts, _, rfl, ?_⟩⟩
                · rw [List.mem_singleton.1 hn]
                  exact hcount
                · exact .of_refused hqs (hsizes q List.mem_cons_self) hbefore hanswer
            | granted bytes =>
                have hgranted := Stops.granted_append hqs hbefore hanswer
                obtain ⟨old, hbytes, hz, hturned⟩ | ⟨cause, hcause, -⟩ := accessPiece_inOrder
                  hx.inOrder (Function.update_self _ _ _) hx.seated hpage hfits ha
                · obtain rfl := Except.ok.inj hbytes
                  obtain ⟨_, rfl, hrest, hmoved', hnext⟩ := hturned.append hqs hdata hmoved
                  rw [← hz.process] at hnext
                  obtain ⟨hruns, hsupply⟩ := hx.resumes hz hnext
                    (by rw [← hz.process, Function.update_self])
                    (accessPiece_evolves hx.inOrder.toConsistent ha)
                  have hsize : (moved ++ (access.change q old).slice q.address.offset q.size).size =
                      moved.size + q.size := by
                    rw [Array.size_append, Page.slice,
                      Bytes.size_slice (by rw [Vector.size_toArray]; exact hpage)]
                  obtain ⟨hcounts, hend⟩ := ih hrest (fun q' hq' => hsizes q' (List.mem_cons_of_mem _ hq'))
                    hmoved' hruns (fun page => by rw [hz.process, hsupply.obstacle, hrefusal])
                    (hsize ▸ hgranted) h
                  refine ⟨fun n hn => ?_, hend.imp (fun hall => ⟨hshorts.head hall.1, hall.2⟩)
                    fun hshort => ⟨hshorts.head hshort.1, hshort.2⟩⟩
                  rcases List.mem_cons.1 hn with rfl | hn
                  · exact hcount
                  · exact hcounts n hn
                · cases hcause
          · obtain ⟨rfl, rfl⟩ := Prod.mk.inj h
            refine ⟨fun n hn => ?_, Or.inr ⟨hshorts, why, rfl⟩⟩
            rw [List.mem_singleton.1 hn]
            exact hcount

/-- **A load or store of a program stops at the first page that is refused**, unless a transfer
comes up short, and is tried twice at most on every page. -/
theorem userAccess_served {address : VirtAddr} {count : Nat} {r : Except Halt Accessed}
    (hx : x.Runs view tenants seat memory)
    (hdata : ∀ data, access = .store data → count ≤ data.size)
    (h : x.userAccess address count access = (r, y)) :
    (∀ n ∈ rangeTranslations access (pieces address count) x, n ≤ 2) ∧
      ((Shorts x.kernel.toPaging y.kernel.toPaging 0 ∧ ∃ b, r = .ok b ∧
          Stops (x.kernel.obstacle x.process.space access.writing) address count b.moved.size
            b.cause) ∨
        (Shorts x.kernel.toPaging y.kernel.toPaging 1 ∧ ∃ why, r = .error why)) := by
  have hqs : Pieces address.val (#[] : Bytes).size count (pieces address count) :=
    pieces_spec address count
  have hstart : x.kernel.InOrder view (Function.update tenants x.process.pid
      (some ⟨x.process.space, access.after memory address.val #[]⟩)) seat :=
    hx.inOrder.tenant_congr hx.tenant rfl (access.frameCount_after _ _ _) fun q =>
      access.frame_after_empty memory address.val q.val
  obtain ⟨hruns, -⟩ := hx.resumes (.refl x) hstart (Function.update_self _ _ _) (.refl x)
  exact accessPieces_served hqs (fun _ hq => (piece_on_page hq).1) hdata
    (access.moved_empty _ memory address.val) hruns (fun _ => rfl) nofun h

end Context

end DemandPaging
