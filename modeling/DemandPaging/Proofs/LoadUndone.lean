import DemandPaging.Proofs.Errands
import DemandPaging.Proofs.MachineOrder
import DemandPaging.Proofs.TablesAgree
import Mathlib

/-!
# A program that cannot be loaded

A load may fail before the new process has a pid, when its address space is made, while its pages
are made resident, and when its arguments are written.  By then pages of other processes may have
left memory.  Still nothing is left of the new process, and nobody else has lost anything.

* `Kernel.Serves` — the kernel works for one process, and gives nobody an address space.
* `Kernel.loadAs_undone`, `Kernel.load_undone` — a load that fails, on the kernel.
* `Machine.Undone` — what there is to be said of the machine before and after.
* `Machine.undone_of_reached` — a load is always answered, and if it fails it is undone.
-/

namespace DemandPaging

open Paging

variable {F : Type} [BackingFile F]

namespace Kernel

/-- The kernel works for one process, and gives or takes no address space or pid. -/
structure Serves (pid : Pid) (k k' : Kernel F) : Prop where
  errands : Errands pid k.toPaging k'.toPaging
  spaces : k'.core.spaces = k.core.spaces
  config : k'.config = k.config
  pids : k'.pids = k.pids

variable {k m u k' : Kernel F} {pid : Pid} {tlb : TlbId} {p : Process} {access : Access}
  {space : AddressSpace} {why : Failure}

namespace Serves

theorem refl (k : Kernel F) : Serves pid k k := ⟨.refl, rfl, rfl, rfl⟩

theorem trans (h : Serves pid k m) (h' : Serves pid m k') : Serves pid k k' :=
  ⟨h.errands.trans h'.errands, h'.spaces.trans h.spaces, h'.config.trans h.config,
    h'.pids.trans h.pids⟩

theorem agrees (h : Serves pid k k') (hk : k.Agrees) : k'.Agrees := by
  suffices hall : ∀ {s t : Paging F}, Errands pid s t → s.Agrees → t.Agrees from hall h.errands hk
  intro s t hst hs
  induction hst with
  | refl => exact hs
  | tail _ hstep ih => exact hstep.agrees ih

theorem of_moves {pinned : Bool} (h : Moves space pinned k.toPaging k'.toPaging)
    (hpid : space.pid = pid) (hconfig : k'.config = k.config) (hpids : k'.pids = k.pids) :
    Serves pid k k' :=
  ⟨hpid ▸ h.errands, h.spaces, hconfig, hpids⟩

end Serves

/-! ## Stages of a load -/

/-- An access of the kernel to a page is for the process, and stops for an error at worst. -/
theorem accessPage_serves {strategy : Strategy} {q : PageNumber} {writing : Bool}
    {change : Page → Page} {r : Except Failure (Option Page)} (hk : k.Agrees)
    (h : k.accessPage tlb space strategy q writing change = (r, k')) :
    Serves space.pid k k' ∧ ∀ why, r = .error why → ∃ err, why = .error err := by
  obtain ⟨hconfig, hpids, m, hmoves,
    ⟨err, rfl, hm, -⟩ | ⟨rfl, hm, -⟩ | ⟨e, f, rfl, he, hf, -, -, hcopied⟩⟩ := accessPage_spec hk h
  · exact ⟨.of_moves (hm ▸ hmoves) rfl hconfig hpids,
      fun _ hwhy => ⟨err, (Except.error.inj hwhy).symm⟩⟩
  · exact ⟨.of_moves (hm ▸ hmoves) rfl hconfig hpids, nofun⟩
  · exact ⟨⟨hmoves.errands.tail (.copied rfl he hf hcopied), hcopied.spaces.trans hmoves.spaces,
      hconfig, hpids⟩, nofun⟩

theorem copyPieces_serves {qs : List Piece} {moved : Bytes} {c : Copied} (hk : k.Agrees)
    (h : copyPieces tlb p access qs moved k = (c, k')) :
    Serves p.space.pid k k' ∧ ∀ why, c.failure = some why → ∃ err, why = .error err := by
  induction qs generalizing k moved with
  | nil =>
      obtain ⟨rfl, rfl⟩ := Prod.mk.inj h
      exact ⟨.refl k, nofun⟩
  | cons q qs ih =>
      unfold copyPieces at h
      cases ha : k.accessPage tlb p.space p.strategy q.address.page access.writing
          (access.change q) with
      | mk r m =>
          rw [ha] at h
          obtain ⟨hserves, herr⟩ := accessPage_serves hk ha
          split at h <;> rename_i heq <;> obtain ⟨rfl, rfl⟩ := Prod.mk.inj heq
          · obtain ⟨hrest, hfail⟩ := ih (hserves.agrees hk) h
            exact ⟨hserves.trans hrest, hfail⟩
          · obtain ⟨rfl, rfl⟩ := Prod.mk.inj h
            exact ⟨hserves, nofun⟩
          · obtain ⟨rfl, rfl⟩ := Prod.mk.inj h
            exact ⟨hserves, fun _ hwhy => Option.some.inj hwhy ▸ herr _ rfl⟩

theorem copy_serves {address : VirtAddr} {count : Nat} {c : Copied} (hk : k.Agrees)
    (h : k.copy tlb p address count access = (c, k')) :
    Serves p.space.pid k k' ∧ ∀ why, c.failure = some why → ∃ err, why = .error err := by
  unfold copy at h
  split at h
  · obtain ⟨rfl, rfl⟩ := Prod.mk.inj h
    exact ⟨.refl k, fun _ hwhy => ⟨_, (Option.some.inj hwhy).symm⟩⟩
  · exact copyPieces_serves hk h

theorem writeArguments_serves {args : List String} {r : Except Failure Unit} (hk : k.Agrees)
    (h : k.writeArguments tlb p args = (r, k')) :
    Serves p.space.pid k k' ∧ ∀ why, r = .error why → ∃ err, why = .error err := by
  unfold writeArguments at h
  split at h
  · obtain ⟨rfl, rfl⟩ := Prod.mk.inj h
    exact ⟨.refl k, nofun⟩
  · dsimp only at h
    cases hc : k.copy tlb p p.registers.argv (argumentBlock p.registers.argv args).size
        (.store (argumentBlock p.registers.argv args)) with
    | mk c m =>
        rw [hc] at h
        obtain ⟨hserves, hfail⟩ := copy_serves hk hc
        split at h
        · rename_i heq
          obtain ⟨rfl, rfl⟩ := Prod.mk.inj heq
          obtain ⟨rfl, rfl⟩ := Prod.mk.inj h
          exact ⟨hserves, fun _ hwhy => Except.error.inj hwhy ▸ hfail _ rfl⟩
        · rename_i heq
          obtain ⟨rfl, rfl⟩ := Prod.mk.inj heq
          split at h <;> obtain ⟨rfl, rfl⟩ := Prod.mk.inj h
          · exact ⟨hserves, nofun⟩
          · exact ⟨hserves, fun _ hwhy => ⟨_, (Except.error.inj hwhy).symm⟩⟩

theorem prepare_serves {strategy : Strategy} {r : Except Failure Unit} (hk : k.Agrees)
    (hnew : k.New space) (h : k.prepare tlb strategy space = (r, k')) :
    Serves space.pid k k' ∧ ∀ why, r = .error why → ∃ err, why = .error err := by
  obtain ⟨hconfig, hpids, ⟨rfl, hmoves, -⟩ | ⟨⟨err, rfl⟩, m, hmoves, hemptied⟩⟩ :=
    prepare_spec hk hnew h
  · exact ⟨.of_moves hmoves rfl hconfig hpids, nofun⟩
  · exact ⟨⟨hmoves.errands.tail (.emptied hemptied), hemptied.steps.rest.2.2.trans hmoves.spaces,
      hconfig, hpids⟩, fun _ hwhy => ⟨err, (Except.error.inj hwhy).symm⟩⟩

/-- **A process that was given an address space, and has lost it since,** leaves the same address
spaces behind. -/
theorem serves_of_destroyed {pages : Nat} (hk : k.Agrees)
    (hreg : Registered k.toPaging m.toPaging pid pages) (hconfig : m.config = k.config)
    (hpids : m.pids = k.pids) (hserves : Serves pid m u)
    (hdes : Destroyed u.toPaging k'.toPaging pid) (hconfig' : k'.config = u.config)
    (hpids' : k'.pids = u.pids) : Serves pid k k' := by
  refine ⟨(hserves.errands.head (.registered hreg)).tail (.destroyed hdes), ?_,
    (hconfig'.trans hserves.config).trans hconfig, (hpids'.trans hserves.pids).trans hpids⟩
  have hgone := hdes.gone (hserves.agrees (hreg.agrees hk))
  refine Std.ExtTreeMap.ext_getElem? fun q => ?_
  rw [hgone.spaces, hserves.spaces, hreg.spaces, Std.ExtTreeMap.getElem?_insert]
  split
  · rename_i hq
    rw [hq, hreg.absent]
  · rename_i hq
    rw [if_neg (by simpa using Ne.symm hq)]

/-- **Whatever failed after the address space was there,** it is the answer, and the address space
is taken away. -/
theorem serves_of_abandon {r : Failure} (hk : k.Consistent)
    (hcreate : k.createSpace space.pid space.pageCount = (.ok (), m))
    (hserves : Serves space.pid m u) (h : u.abandon space.pid why = (r, k')) :
    r = why ∧ Serves space.pid k k' ∧ space.pid ∉ k.core.spaces := by
  obtain ⟨hconfig, hpids, hreg⟩ := registered_of_createSpace hcreate
  have hmem : space.pid ∈ u.core.spaces := by
    rw [hserves.spaces, Std.ExtTreeMap.mem_iff_isSome_getElem?, (new_of_registered hk hreg).pages]
    rfl
  obtain ⟨hr, hconfig', hpids', hdes⟩ :=
    abandon_spec (hserves.agrees (hreg.agrees hk.toAgrees)) hmem h
  refine ⟨hr, serves_of_destroyed hk.toAgrees hreg hconfig hpids hserves hdes hconfig' hpids', ?_⟩
  rw [Std.ExtTreeMap.mem_iff_isSome_getElem?, hreg.absent]
  nofun

/-- **A process that cannot be made** has no address space afterwards, and if somebody else had
the same pid nothing happened at all. -/
theorem loadAs_undone {image : Image} {args : List String} {strategy : Strategy}
    (hk : k.Consistent) (h : k.loadAs tlb pid image args strategy = (.error why, k')) :
    (∃ err, why = .error err) ∧ Serves pid k k' ∧ (pid ∈ k.core.spaces → k' = k) := by
  have hcreated : ∀ {space : AddressSpace} {m : Kernel F},
      k.createSpace space.pid space.pageCount = (.ok (), m) → m.Agrees ∧ m.New space := by
    intro space m hcreate
    obtain ⟨-, -, hreg⟩ := registered_of_createSpace hcreate
    exact ⟨hreg.agrees hk.toAgrees, new_of_registered hk hreg⟩
  cases loads_of_loadAs h with
  | unmade hmake => exact ⟨⟨_, rfl⟩, .refl k, fun _ => rfl⟩
  | unregistered hmake hcreate =>
      obtain ⟨-, -, rfl⟩ := createSpace_error hcreate
      exact ⟨⟨_, rfl⟩, .refl _, fun _ => rfl⟩
  | unprepared hmake hcreate hprepare habandon =>
      obtain rfl := space_pid_of_make hmake
      obtain ⟨hm, hnew⟩ := hcreated hcreate
      obtain ⟨hserves, hfail⟩ := prepare_serves hm hnew hprepare
      obtain ⟨rfl, hend, habsent⟩ := serves_of_abandon hk hcreate hserves habandon
      exact ⟨hfail _ rfl, hend, fun hmem => absurd hmem habsent⟩
  | unwritten hmake hcreate hprepare hwrite habandon =>
      obtain rfl := space_pid_of_make hmake
      obtain ⟨hm, hnew⟩ := hcreated hcreate
      obtain ⟨hserves, -⟩ := prepare_serves hm hnew hprepare
      obtain ⟨hserves', hfail⟩ := writeArguments_serves (hserves.agrees hm) hwrite
      obtain ⟨rfl, hend, habsent⟩ :=
        serves_of_abandon hk hcreate (hserves.trans hserves') habandon
      exact ⟨hfail _ rfl, hend, fun hmem => absurd hmem habsent⟩

/-- A load that failed is undone: the same processes have address spaces, the same pids are given
out, and at most the process that was not loaded was worked for. -/
structure Undone (k k' : Kernel F) : Prop where
  errands : Errands k.pids.alloc.1 k.toPaging k'.toPaging
  spaces : k'.core.spaces = k.core.spaces
  pids : ∀ pid, k'.pids.live pid ↔ k.pids.live pid
  untouched : k.pids.alloc.1 ∈ k.core.spaces → Quiet k.toPaging k'.toPaging

/-- **A load that fails is undone**, and if it does not fail for an error then because the layout of
the program takes numbers that are no machine words. -/
theorem load_undone {image : Image} {args : List String} {strategy : Strategy}
    (hk : k.Consistent) (hids : k.pids.Sound)
    (h : k.load tlb image args strategy = (.error why, k')) :
    ((∃ err, why = .error err) ∨
        (why = .halt .overflow ∧ AddressSpace.overflows image k.config = true)) ∧
      Undone k k' := by
  have hbase : ({ k with pids := k.pids.alloc.2 } : Kernel F).Consistent := hk
  cases loadsNext_of_load h with
  | tooLong hargs =>
      exact ⟨.inl ⟨_, rfl⟩, .refl, rfl, fun _ => Iff.rfl, fun _ => quiet_refl _⟩
  | overflowed hargs hwords =>
      exact ⟨.inr ⟨rfl, hwords⟩, .refl, rfl, fun _ => Iff.rfl, fun _ => quiet_refl _⟩
  | halted hargs hload =>
      obtain ⟨⟨_, hwhy⟩, -⟩ := loadAs_undone hbase hload
      cases hwhy
  | failed hargs hload hdrop =>
      obtain ⟨-, hserves, hsame⟩ := loadAs_undone hbase hload
      obtain ⟨-, ids, -, hlive, rfl⟩ := dropPid_alloc hids hserves.pids hdrop
      refine ⟨.inl ⟨_, rfl⟩, hserves.errands.tail (.quiet (quiet_note _ _)), hserves.spaces, hlive,
        fun hmem => ?_⟩
      obtain rfl := hsame hmem
      exact quiet_note _ _
  | undropped hargs hload hdrop =>
      obtain ⟨-, hserves, -⟩ := loadAs_undone hbase hload
      obtain ⟨hok, -⟩ := dropPid_alloc hids hserves.pids hdrop
      cases hok

/-- **Nobody who has an address space loses anything by a load that is undone.** -/
theorem Undone.retained {w : FileView F} {key : PageKey} (h : Undone k k') (hk : k.Agrees)
    (hgood : w.good k.swap.file) (hkey : key.pid ∈ k.core.spaces) :
    Retained w k.toPaging k'.toPaging key := by
  by_cases hpid : key.pid = k.pids.alloc.1
  · have hquiet := h.untouched (hpid ▸ hkey)
    exact hquiet.toStill.retained hk hquiet.swap
  · exact h.errands.retained hk hgood hpid

end Kernel

namespace Machine

variable {m m' : Machine F}

theorem Orderly.reached {file : F} {a : Account} (h : Orderly file m a) : Reached m := by
  induction h with
  | boot h => exact .boot h
  | addCpu _ slots ih => exact ih.addCpu slots
  | found _ _ _ _ _ ih => exact ih
  | perform _ _ hp ih => exact ih.perform hp

/-- A program was not loaded, and the machine is as if nobody had tried, except that other pages
may be resident. -/
structure Undone (m m' : Machine F) : Prop where
  cpus : m'.cpus = m.cpus
  processes : m'.processes = m.processes
  /-- The same processes have address spaces, of the same sizes. -/
  spaces : m'.kernel.core.spaces = m.kernel.core.spaces
  /-- Resident pages belong to them, -/
  resident : ∀ {key : PageKey}, key ∈ m'.kernel.core.table → key.pid ∈ m.kernel.core.spaces
  /-- and so do frames -/
  owner : ∀ {f : FrameNumber} {o : FrameOwner}, m'.kernel.core.frames.owner f = some o →
    o.key.pid ∈ m.kernel.core.spaces
  /-- and slots of the swap store. -/
  stored : ∀ {key : PageKey}, key ∈ m'.kernel.swap.slots → key.pid ∈ m.kernel.core.spaces
  /-- The same pids are given out. -/
  pids : ∀ pid, m'.kernel.pids.live pid ↔ m.kernel.pids.live pid
  /-- If the swap file keeps its word, a page holds what it held, as long as its usage bits say
  truly whether it was written. -/
  contents : ∀ {w : FileView F} {space : AddressSpace} {key : PageKey},
    w.good m.kernel.swap.file → key.pid ∈ m.kernel.core.spaces → m.kernel.Noted w space key →
    m'.kernel.contents w space key = m.kernel.contents w space key
  /-- They do if the machine was used as it should be.  So every page of every live process holds
  what it held. -/
  live : ∀ {w : FileView F} {file : F} {a : Account} {i : ProcessNumber} {p : Process}
    {key : PageKey}, w.good file → Orderly file m a → m.process? i = some p → p.exitCode = none →
    key.pid = p.pid → m'.kernel.contents w p.space key = m.kernel.contents w p.space key

/-- In an orderly machine the usage bits of a live process say truly which of its pages were
written. -/
theorem Orderly.noted {w : FileView F} {file : F} {a : Account} {i : ProcessNumber} {p : Process} {key : PageKey}
    (h : Orderly file m a) (hgood : w.good file) (hp : m.process? i = some p)
    (hlive : p.exitCode = none) (hkey : key.pid = p.pid) :
    w.good m.kernel.swap.file ∧ key.pid ∈ m.kernel.core.spaces ∧ m.kernel.Noted w p.space key := by
  have hview : ∀ v, some w = some v → v.good file := fun v hv => Option.some.inj hv ▸ hgood
  obtain ⟨tenants, seat, hm⟩ := h.inOrder hview
  have hT : tenants key.pid = some ⟨p.space, a.plain i⟩ := hkey ▸ hm.tenant hp hlive
  have hf := hm.kernel.faithful rfl
  refine ⟨hf.file, ?_,
    hf.noted hm.kernel.toConsistent hm.kernel.usage hm.kernel.lodged hT⟩
  rw [Std.ExtTreeMap.mem_iff_isSome_getElem?, (hm.kernel.lodged.space hT).2.1]
  rfl

theorem undone_of_kernel {k : Kernel F} (hm : m.kernel.Consistent) (hk : k.Consistent)
    (h : Kernel.Undone m.kernel k) : Undone m (m.setKernel k) := by
  have hspace : ∀ {key}, k.InRange key → key.pid ∈ m.kernel.core.spaces := fun hin =>
    h.spaces ▸ hin.mem_spaces
  have hcontents : ∀ {w : FileView F} {space : AddressSpace} {key : PageKey},
      w.good m.kernel.swap.file → key.pid ∈ m.kernel.core.spaces → m.kernel.Noted w space key →
      k.contents w space key = m.kernel.contents w space key :=
    fun hgood hkey hnoted => (h.retained hm.toAgrees hgood hkey).contents_eq hm.toAgrees hnoted
  exact
    { cpus := rfl
      processes := rfl
      spaces := h.spaces
      resident := fun {key} hkey => by
        rw [Std.ExtTreeMap.mem_iff_isSome_getElem?, Option.isSome_iff_exists] at hkey
        obtain ⟨e, he⟩ := hkey
        exact hspace (hk.resident he)
      owner := fun {f o} ho => by
        obtain ⟨e, he, -⟩ := hk.owned (holder_eq_some.2 ⟨o, ho, rfl⟩)
        exact hspace (hk.resident he)
      stored := fun {key} hkey => by
        rw [Std.ExtTreeMap.mem_iff_isSome_getElem?, Option.isSome_iff_exists] at hkey
        obtain ⟨a, ha⟩ := hkey
        exact hspace (hk.stored ha)
      pids := h.pids
      contents := hcontents
      live := fun hgood horderly hp hlive hkey => by
        obtain ⟨hfile, hmem, hnoted⟩ := horderly.noted hgood hp hlive hkey
        exact hcontents hfile hmem hnoted }

/-- **A load is always answered, and one that fails leaves no trace**, at whatever stage it
fails.  Only a program whose layout takes numbers that are no machine words is not answered, and
that leaves no trace either. -/
theorem undone_of_reached {cpu : CpuNumber} {image : Image} {args : List String}
    {strategy : Strategy} {r : Except Halt (Option (Except PagingError ProcessNumber))}
    (hm : Reached m) (h : m.perform cpu (.load image args strategy) = (r, m')) :
    (∃ answer, r = .ok answer ∧ ∀ e, answer = some (.error e) → Undone m m') ∨
      (r = .error .overflow ∧ AddressSpace.overflows image m.kernel.config = true ∧
        Undone m m') := by
  have hk := hm.consistent
  have hk' := (hm.perform h).consistent
  simp only [perform] at h
  split at h
  · obtain ⟨rfl, -⟩ := Prod.mk.inj h
    exact .inl ⟨_, rfl, fun _ heq => by cases heq⟩
  · rename_i c hc
    unfold load at h
    cases hload : m.kernel.load c.tlb image args strategy with
    | mk x k =>
        rw [hload] at h
        cases x with
        | ok p =>
            obtain ⟨rfl, -⟩ := Prod.mk.inj h
            exact .inl ⟨_, rfl, fun _ heq => by cases heq⟩
        | error why =>
            obtain ⟨⟨err, rfl⟩ | ⟨rfl, hwords⟩, hundone⟩ :=
              Kernel.load_undone hk hm.sound_pids hload
            · obtain ⟨rfl, rfl⟩ := Prod.mk.inj h
              exact .inl ⟨_, rfl, fun _ _ => undone_of_kernel hk hk' hundone⟩
            · obtain ⟨rfl, rfl⟩ := Prod.mk.inj h
              exact .inr ⟨rfl, hwords, undone_of_kernel hk hk' hundone⟩

set_option maxRecDepth 100000 in
/-- A program is to be preloaded into both frames of a machine, but one of them has the arguments
of another process, which cannot be written out.  So the load fails, and the arguments are still
there. -/
theorem undone_after_bad_write :
    ∃ m m' : Machine FaultyFile,
      m.perform 0 (.load (.assembled { entry := 0 }) [] .eager) =
          (.ok (some (.error .shortTransfer)), m') ∧ Undone m m' ∧
        ∃ p, m.process? 0 = some p ∧ ∀ q : PageNumber,
          m'.kernel.contents FaultyFile.view p.space ⟨p.pid, q⟩ =
            m.kernel.contents FaultyFile.view p.space ⟨p.pid, q⟩ := by
  have hboot : Kernel.boot { frames := 2, tlbSlots := 1, stackPages := 1 } []
      (some ({ plan := { badWritesFrom := some 0 } } : FaultyFile)) = (.ok _, _) := rfl
  obtain ⟨m, -, ⟨a, h, -⟩, hall⟩ := ((Orderly.boot hboot).addCpu 1).withLast.serve
    [⟨0, _, .load (.assembled { entry := 0 }) ["a"] .demand⟩]
    (fun m => m.isLive 0 = true ∧ m.answer? 0 (.load (.assembled { entry := 0 }) [] .eager) =
      some (.error .shortTransfer))
    (by decide_cbv)
  obtain ⟨hlive, hanswer⟩ := of_decide_eq_true hall
  have hperform := perform_of_answer? hanswer
  obtain ⟨answer, heq, hundone⟩ | ⟨heq, -⟩ := undone_of_reached h.reached hperform
  · have hundone := hundone _ (Except.ok.inj heq).symm
    obtain ⟨p, hp, hexit⟩ := isLive_iff.1 hlive
    have hgood : FaultyFile.view.good { plan := { badWritesFrom := some 0 } } :=
      show 0 ≠ pageSize by decide
    exact ⟨m, _, hperform, hundone, p, hp, fun q => hundone.live hgood h hp hexit rfl⟩
  · cases heq

end Machine

end DemandPaging
