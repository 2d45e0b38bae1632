import DemandPaging.Proofs.KernelChanges

/-!
# What each request to the machine changes

Traps and requests are rows of the changes that the kernel makes, too.

* `Context.exit_evolves`, `Context.userAccess_evolves` — only the process that traps can lose
  its address space.
* `Machine.perform_evolves` — every request, with what may happen to processes by it.
-/

namespace DemandPaging

open Paging Kernel

variable {F : Type}

namespace Context

variable {x y : Context F}

/-! ## Single steps of a trap -/

/-- A process that runs on the processor leaves the TLB empty when it is ended. -/
theorem unschedule_spec (x : Context F) :
    (x.cpu.running = some x.process.pid ∧
        Cleared x.kernel.toPaging x.unschedule.kernel.toPaging x.cpu.tlb ∧
        x.unschedule.cpu = { x.cpu with running := none }) ∨
      (x.cpu.running ≠ some x.process.pid ∧ x.unschedule = x) := by
  unfold unschedule
  split
  · rename_i hrunning
    exact Or.inl ⟨hrunning, cleared_of_core rfl rfl rfl, rfl⟩
  · rename_i hrunning
    exact Or.inr ⟨hrunning, rfl⟩

theorem adjusted_refl (s : Paging F) : Adjusted s s :=
  ⟨SameShape.refl _, fun _ => rfl, fun _ => rfl, fun hm => Or.inl ⟨hm, rfl⟩, rfl, rfl⟩

theorem unschedule_posted (x : Context F) :
    Posted x.kernel.toPaging x.unschedule.kernel.toPaging 0 0 := by
  unfold unschedule
  split
  · exact .of_same rfl rfl rfl rfl rfl
  · exact posted_refl _

theorem unschedule_adjusted (x : Context F) :
    Adjusted x.kernel.toPaging x.unschedule.kernel.toPaging := by
  rcases unschedule_spec x with ⟨-, hcleared, -⟩ | ⟨-, hsame⟩
  · exact hcleared.adjusted
  · rw [hsame]
    exact adjusted_refl _

/-- A trap changes neither which TLB the processor has, nor who traps, apart from how the
process ends. -/
structure Continues (x y : Context F) : Prop where
  tlb : y.cpu.tlb = x.cpu.tlb
  pid : y.process.pid = x.process.pid
  space : y.process.space = x.process.space
  strategy : y.process.strategy = x.process.strategy
  exited : x.process.exitCode ≠ none → y.process.exitCode ≠ none

theorem Continues.refl (x : Context F) : Continues x x := ⟨rfl, rfl, rfl, rfl, id⟩

theorem Continues.trans {z : Context F} (h : Continues x y) (h' : Continues y z) :
    Continues x z :=
  ⟨h'.tlb.trans h.tlb, h'.pid.trans h.pid, h'.space.trans h.space, h'.strategy.trans h.strategy,
    h'.exited ∘ h.exited⟩

theorem touchMemory_adjusted {access : Access} {q : Piece} {a : PhysAddr} {r : Except Halt Bytes}
    (h : x.touchMemory access q a = (r, y)) :
    Adjusted x.kernel.toPaging y.kernel.toPaging ∧ Posted x.kernel.toPaging y.kernel.toPaging 0 0 ∧
      y.kernel.config = x.kernel.config ∧ y.kernel.pids = x.kernel.pids ∧ Continues x y := by
  unfold touchMemory at h
  dsimp only at h
  split at h
  · split at h
    · obtain ⟨-, rfl⟩ := Prod.mk.inj h
      exact ⟨adjusted_refl _, posted_refl _, rfl, rfl, .refl x⟩
    · obtain ⟨-, rfl⟩ := Prod.mk.inj h
      refine ⟨⟨sameShape_of_tlbs rfl rfl rfl, fun _ => rfl, fun _ => rfl,
        fun hm => Or.inl ⟨hm, rfl⟩, rfl, rfl⟩, .of_same rfl rfl rfl rfl rfl, rfl, rfl, rfl, rfl, rfl,
        rfl, id⟩
  · obtain ⟨-, rfl⟩ := Prod.mk.inj h
    exact ⟨adjusted_refl _, posted_refl _, rfl, rfl, .refl x⟩

theorem record_adjusted (x : Context F) (e : PageEvent) :
    Adjusted x.kernel.toPaging (x.record e).kernel.toPaging :=
  ⟨sameShape_of_tlbs rfl rfl rfl, fun _ => rfl, fun _ => rfl, fun hm => Or.inl ⟨hm, rfl⟩, rfl, rfl⟩

variable [BackingFile F]

/-- The kernel makes some changes for a process that traps, by which only this process can lose
its address space, and then it is ended. -/
structure Evolves (x y : Context F) : Prop extends Continues x y where
  kernel : x.kernel.Evolves
    (fun fate => fate = .loses x.process.pid ∧ y.process.exitCode ≠ none) y.kernel

namespace Evolves

theorem refl (x : Context F) : Evolves x x := ⟨.refl x, .refl _⟩

theorem trans {z : Context F} (h : Evolves x y) (h' : Evolves y z) : Evolves x z :=
  ⟨h.toContinues.trans h'.toContinues,
    (h.kernel.mono fun _ ⟨hfate, hend⟩ => ⟨hfate, h'.exited hend⟩).trans
      (h'.kernel.mono fun _ ⟨hfate, hend⟩ => ⟨hfate.trans (congrArg Fate.loses h.pid), hend⟩)⟩

theorem note (x : Context F) {e : Event} (hdropped : e.dropped = 0) (hshort : e.shortfall = 0) :
    Evolves x (x.note e) :=
  ⟨⟨rfl, rfl, rfl, rfl, id⟩, .note _ hdropped hshort⟩

theorem consistent (h : Evolves x y) (hx : x.kernel.Consistent) : y.kernel.Consistent :=
  h.kernel.consistent hx

end Evolves

/-- **A process loses its address space when it is ended.** -/
theorem exit_evolves {status : Int} {r : Except Failure Unit} (hx : x.kernel.Consistent)
    (h : x.exit status = (r, y)) : Evolves x y := by
  unfold exit at h
  dsimp only at h
  have hsame : x.unschedule.kernel.config = x.kernel.config ∧
      x.unschedule.kernel.pids = x.kernel.pids := by
    unfold unschedule
    split <;> exact ⟨rfl, rfl⟩
  have hcont : Continues x x.unschedule := by
    unfold unschedule
    split <;> exact ⟨rfl, rfl, rfl, rfl, id⟩
  have hfirst : x.kernel.Evolves (fun fate => fate = .loses x.process.pid ∧ some status ≠ none)
      x.unschedule.kernel := .adjusted (unschedule_adjusted x) (unschedule_posted x) hsame.1 hsame.2
  cases hd : x.unschedule.kernel.destroySpace x.unschedule.process.pid with
  | mk r' k =>
      rw [hd] at h
      have hsecond := hfirst.trans (destroySpace_evolves (hfirst.consistent hx)
        ⟨congrArg Fate.loses hcont.pid, nofun⟩ hd)
      cases r' with
      | error e =>
          obtain ⟨-, rfl⟩ := Prod.mk.inj h
          exact ⟨⟨hcont.tlb, hcont.pid, hcont.space, hcont.strategy, fun _ => nofun⟩, hsecond⟩
      | ok _ =>
          obtain ⟨-, rfl⟩ := Prod.mk.inj h
          exact ⟨⟨hcont.tlb, hcont.pid, hcont.space, hcont.strategy, fun _ => nofun⟩,
            hsecond.trans (.note _ rfl rfl)⟩

theorem terminate_evolves {cause : ExceptionCause} {r : Except Halt TrapOutcome}
    (hx : x.kernel.Consistent) (h : x.terminate cause = (r, y)) : Evolves x y := by
  unfold terminate at h
  cases he : x.exit killedStatus with
  | mk r' z =>
      rw [he] at h
      have hstep := exit_evolves hx he
      split at h <;> rename_i heq <;> obtain ⟨-, rfl⟩ := Prod.mk.inj heq <;>
        obtain ⟨-, rfl⟩ := Prod.mk.inj h
      · exact hstep
      · exact hstep
      · exact hstep.trans (.note _ rfl rfl)

theorem handlePage_evolves {r : Except Halt TrapOutcome} (hx : x.kernel.Consistent)
    (h : x.handlePage = (r, y)) : Evolves x y := by
  unfold handlePage at h
  dsimp only at h
  cases hm : x.kernel.handleMiss x.cpu.tlb x.process.space x.process.strategy x.cpu.badAddress with
  | mk r' k =>
      rw [hm] at h
      have hstep : Evolves x { x with kernel := k } :=
        ⟨⟨rfl, rfl, rfl, rfl, id⟩, handleMiss_evolves hx hm⟩
      split at h
      · rename_i heq
        obtain ⟨-, rfl⟩ := Prod.mk.inj heq
        obtain ⟨-, rfl⟩ := Prod.mk.inj h
        exact hstep
      · rename_i heq
        obtain ⟨-, rfl⟩ := Prod.mk.inj heq
        obtain ⟨-, rfl⟩ := Prod.mk.inj h
        exact hstep
      · rename_i e _ heq
        obtain ⟨-, rfl⟩ := Prod.mk.inj heq
        split at h
        · obtain ⟨-, rfl⟩ := Prod.mk.inj h
          exact hstep
        · have hnoted := hstep.trans (.note _ (e := .killedByError e x.cpu.badAddress) rfl rfl)
          exact hnoted.trans (terminate_evolves (hnoted.consistent hx) h)

theorem handleTrap_evolves {code : Nat} {r : Except Halt TrapOutcome} (hx : x.kernel.Consistent)
    (h : x.handleTrap code = (r, y)) : Evolves x y := by
  unfold handleTrap at h
  split at h
  · obtain ⟨-, rfl⟩ := Prod.mk.inj h
    exact .refl x
  · obtain ⟨-, rfl⟩ := Prod.mk.inj h
    exact .refl x
  · exact handlePage_evolves hx h
  · exact handlePage_evolves hx h
  · rename_i cause _ _ _ _
    have hnoted := Evolves.note x (e := .killedByCause cause x.cpu.badAddress) rfl rfl
    exact hnoted.trans (terminate_evolves (hnoted.consistent hx) h)

/-! ## Loads and stores -/

theorem accessPiece_evolves {access : Access} {q : Piece} {attempts : Nat}
    {r : Except Halt (Except ExceptionCause Bytes)} (hx : x.kernel.Consistent)
    (h : accessPiece access q attempts x = (r, y)) : Evolves x y := by
  induction attempts generalizing x with
  | zero =>
      unfold accessPiece at h
      have hnote := Evolves.note x (e := .neverTranslated q.address x.process.pid) rfl rfl
      cases ht : (x.note (.neverTranslated q.address x.process.pid)).terminate .busError with
      | mk r' z =>
          rw [ht] at h
          have hstep := hnote.trans (terminate_evolves (hnote.consistent hx) ht)
          split at h <;> rename_i heq <;> obtain ⟨-, rfl⟩ := Prod.mk.inj heq <;>
            obtain ⟨-, rfl⟩ := Prod.mk.inj h
          · exact hstep
          · exact hstep
  | succ n ih =>
      unfold accessPiece at h
      cases ht : x.kernel.translate x.cpu q.address access.writing with
      | mk r' rest =>
          obtain ⟨k, cpu⟩ := rest
          rw [ht] at h
          dsimp only at h
          obtain ⟨hconfig, hpids, ⟨i, f, rfl, rfl, -, -, -, -, hhit⟩ |
              ⟨c, rfl, rfl, hquiet, -⟩⟩ :=
            Kernel.translate_spec ht
          · dsimp only at h
            have hfirst : ∀ {may : Fate → Prop}, x.kernel.Evolves may k :=
              .adjusted hhit.adjusted (Kernel.translate_posted ht) hconfig hpids
            cases hm : touchMemory (({ x with kernel := k } : Context F).record
                (.accessed ⟨x.process.pid, q.address.page⟩ access.writing)) access q
                (f.byte q.address.offset) with
            | mk b z =>
                rw [hm] at h
                obtain ⟨hadj, hposted, hconfig', hpids', hcont⟩ := touchMemory_adjusted hm
                have hrec : ∀ {may : Fate → Prop}, x.kernel.Evolves may _ :=
                  hfirst.trans (.adjusted (record_adjusted ({ x with kernel := k } : Context F)
                    (.accessed ⟨x.process.pid, q.address.page⟩ access.writing))
                    (.of_same rfl rfl rfl rfl rfl) rfl rfl)
                have hstep : Evolves x z :=
                  ⟨⟨hcont.tlb, hcont.pid, hcont.space, hcont.strategy, hcont.exited⟩,
                    hrec.trans (.adjusted hadj hposted hconfig' hpids')⟩
                split at h <;> rename_i heq <;> obtain ⟨-, rfl⟩ := Prod.mk.inj heq <;>
                  obtain ⟨-, rfl⟩ := Prod.mk.inj h
                · exact hstep
                · exact hstep
          · dsimp only at h
            have hfirst : Evolves x { x with kernel := k, cpu := x.cpu.raise c q.address } :=
              ⟨⟨rfl, rfl, rfl, rfl, id⟩, .quiet hquiet (Kernel.translate_posted ht) hconfig hpids⟩
            cases hh : handleTrap { x with kernel := k, cpu := x.cpu.raise c q.address } c.code with
            | mk o z =>
                rw [hh] at h
                have hstep := hfirst.trans (handleTrap_evolves (hfirst.consistent hx) hh)
                split at h <;> rename_i heq <;> obtain ⟨-, rfl⟩ := Prod.mk.inj heq
                · obtain ⟨-, rfl⟩ := Prod.mk.inj h
                  exact hstep
                · exact hstep.trans (ih (hstep.consistent hx) h)
                · obtain ⟨-, rfl⟩ := Prod.mk.inj h
                  exact hstep
                · obtain ⟨-, rfl⟩ := Prod.mk.inj h
                  exact hstep

theorem accessPieces_evolves {access : Access} {qs : List Piece} {moved : Bytes}
    {r : Except Halt Accessed} (hx : x.kernel.Consistent)
    (h : accessPieces access qs moved x = (r, y)) : Evolves x y := by
  induction qs generalizing x moved with
  | nil =>
      obtain ⟨-, rfl⟩ := Prod.mk.inj h
      exact .refl x
  | cons q qs ih =>
      unfold accessPieces at h
      cases ha : accessPiece access q maxAttempts x with
      | mk r' z =>
          rw [ha] at h
          have hstep := accessPiece_evolves hx ha
          split at h <;> rename_i heq <;> obtain ⟨-, rfl⟩ := Prod.mk.inj heq
          · obtain ⟨-, rfl⟩ := Prod.mk.inj h
            exact hstep
          · obtain ⟨-, rfl⟩ := Prod.mk.inj h
            exact hstep
          · exact hstep.trans (ih (hstep.consistent hx) h)

/-- **Only the process that runs can lose its address space by a load or store.** -/
theorem userAccess_evolves {address : VirtAddr} {count : Nat} {access : Access}
    {r : Except Halt Accessed} (hx : x.kernel.Consistent)
    (h : x.userAccess address count access = (r, y)) : Evolves x y :=
  accessPieces_evolves hx h

end Context

/-- If a program is to be loaded, is it to have its pages on demand? -/
def Request.OnDemand {α : Type} : Request α → Prop
  | .load _ _ strategy => strategy = .demand
  | _ => True

namespace Machine

variable {m m' : Machine F} {cpu n : CpuNumber} {i j : ProcessNumber} {p : Process} {c : Processor}

/-! ## Looking up what was set -/

theorem lt_size_of_process? (h : m.process? i = some p) : i < m.processes.size := by
  by_contra hle
  rw [process?, Array.getElem?_eq_none (Nat.le_of_not_lt hle)] at h
  cases h

theorem lt_size_of_cpu? (h : m.cpu? n = some c) : n < m.cpus.size := by
  by_contra hle
  rw [cpu?, Array.getElem?_eq_none (Nat.le_of_not_lt hle)] at h
  cases h

theorem process?_set (h : m.process? i = some p) (x : Option Process) :
    ((m.processes.setIfInBounds i x)[j]?).join = if j = i then x else m.process? j := by
  rw [Array.getElem?_setIfInBounds, process?]
  by_cases hj : j = i
  · subst hj
    rw [if_pos rfl, if_pos (lt_size_of_process? h), if_pos rfl]
    rfl
  · rw [if_neg (Ne.symm hj), if_neg hj]

theorem process?_push (h : m'.processes = m.processes.push (some p)) :
    m'.process? j = if j = m.processes.size then some p else m.process? j := by
  rw [process?, h, Array.getElem?_push, process?]
  split <;> rfl

theorem cpu?_set (h : m.cpu? cpu = some c) (x : Option Processor) :
    ((m.cpus.setIfInBounds cpu x)[n]?).join = if n = cpu then x else m.cpu? n := by
  rw [Array.getElem?_setIfInBounds, cpu?]
  by_cases hn : n = cpu
  · subst hn
    rw [if_pos rfl, if_pos (lt_size_of_cpu? h), if_pos rfl]
    rfl
  · rw [if_neg (Ne.symm hn), if_neg hn]

theorem process?_setContext (hp : m.process? i = some p) (y : Context F) :
    (m.setContext cpu i y).process? j = if j = i then some y.process else m.process? j :=
  process?_set hp _

theorem cpu?_setContext (hc : m.cpu? cpu = some c) (i : ProcessNumber) (y : Context F) :
    (m.setContext cpu i y).cpu? n = if n = cpu then some y.cpu else m.cpu? n :=
  cpu?_set hc _

/-! ## The start -/

variable {config : MachineConfig} {files : List String} {file : F} {k : Kernel F} {journal : Journal}

/-- A kernel is brought up with blank tables, if its settings can be used. -/
theorem eq_of_boot (h : Kernel.boot config files (some file) = (.ok k, journal)) :
    config.usable = true ∧ k =
      { core := .blank config
        swap := { file }
        journal := Journal.note {} (.started config.frames config.tlbSlots config.swapFile)
        config
        files := config.swapFile :: files.filter (· ≠ config.swapFile) } := by
  unfold Kernel.boot at h
  split at h
  · simp at h
  · simp at h
  · rename_i opened hcheck hopened
    obtain rfl := Option.some.inj hopened
    unfold MachineConfig.check at hcheck
    split at hcheck
    · rename_i husable
      exact ⟨husable, (Except.ok.inj (Prod.mk.inj h).1).symm⟩
    · cases hcheck

/-- A kernel that was just brought up has consistent tables. -/
theorem consistent_of_boot (h : Kernel.boot config files (some file) = (.ok k, journal)) :
    k.Consistent := by
  obtain ⟨-, rfl⟩ := eq_of_boot h
  have howner : ∀ f, (FrameTable.blank config.frames).owner f = none := fun f =>
    Std.ExtTreeMap.getElem?_empty
  refine ⟨⟨fun {key e} he => ?_, fun {f key} hf => ?_, fun {id i f} hm => ?_, rfl,
    SwapStore.sound_blank _⟩, fun {key e} he => ?_, fun {key a} ha => ?_⟩
  · exact absurd (he.symm.trans Std.ExtTreeMap.getElem?_empty) (by simp)
  · obtain ⟨o, ho, -⟩ := holder_eq_some.1 hf
    exact absurd (ho.symm.trans (howner f)) (by simp)
  · exact absurd (TlbBank.live_of_valid (Translation.valid_of_maps hm))
      (by simp [TlbBank.live, CoreMap.blank])
  · exact absurd (he.symm.trans Std.ExtTreeMap.getElem?_empty) (by simp)
  · exact absurd (ha.symm.trans Std.ExtTreeMap.getElem?_empty) (by simp)

theorem pids_of_boot (h : Kernel.boot config files (some file) = (.ok k, journal)) :
    k.pids = {} := by
  obtain ⟨-, rfl⟩ := eq_of_boot h
  rfl

/-- It has frames, and none is taken. -/
theorem roomy_of_boot (h : Kernel.boot config files (some file) = (.ok k, journal)) :
    k.Roomy := by
  obtain ⟨husable, rfl⟩ := eq_of_boot h
  simp only [MachineConfig.usable, Bool.and_eq_true, decide_eq_true_eq] at husable
  refine ⟨husable.1.1.1, fun ho => ?_⟩
  exact absurd (ho.symm.trans Std.ExtTreeMap.getElem?_empty) (by simp)

/-! ## Switching -/

/-- **A process that leaves a processor takes its usage bits along**; if none leaves, the TLB is
cleared. -/
theorem leave_spec (m : Machine F) (c : Processor)
    (previous : Option (ProcessNumber × Process)) :
    (m.leave c previous).cpus = m.cpus ∧ (m.leave c previous).kernel.config = m.kernel.config ∧
      (m.leave c previous).kernel.pids = m.kernel.pids ∧
      match previous with
      | none => Cleared m.kernel.toPaging (m.leave c none).kernel.toPaging c.tlb ∧
          (m.leave c none).processes = m.processes
      | some (i, p) => ∃ s snapshot, Quiet m.kernel.toPaging s ∧
          Saved s (m.leave c previous).kernel.toPaging c.tlb p.pid ∧
          (∀ n q, snapshot.pages[n]? = some (some q) ↔
            (s.slot c.tlb n).valid = true ∧ (s.slot c.tlb n).page = q) ∧
          (m.leave c previous).processes =
            m.processes.setIfInBounds i (some { p with snapshot }) := by
  cases previous with
  | none => exact ⟨rfl, rfl, rfl, cleared_of_core rfl rfl rfl, rfl⟩
  | some ip =>
      obtain ⟨i, p⟩ := ip
      have hquiet : ∀ k : Kernel F,
          k = (if c.running = some p.pid then m.kernel
            else m.kernel.note (.switchedFromOther p.pid c.running)) →
          Quiet m.kernel.toPaging k.toPaging ∧ k.config = m.kernel.config ∧
            k.pids = m.kernel.pids := by
        rintro k rfl
        split
        · exact ⟨quiet_refl _, rfl, rfl⟩
        · exact ⟨quiet_note _ _, rfl, rfl⟩
      obtain ⟨hq, hconfig, hpids⟩ := hquiet _ rfl
      have hsaved := saveTlb_spec (rfl : Paging.saveTlb (if c.running = some p.pid then m.kernel
        else m.kernel.note (.switchedFromOther p.pid c.running)).toPaging c.tlb p.pid = _)
      exact ⟨rfl, hconfig, hpids, _, _, hq, hsaved.1, hsaved.2, rfl⟩

/-- **A process that comes to a processor finds its pages in the TLB.** -/
theorem enter_spec (m : Machine F) (cpu : CpuNumber) (c : Processor) (previous : Option Pid)
    (next : Process) :
    (m.enter cpu c previous next).cpus =
        m.cpus.setIfInBounds cpu (some { c with running := some next.pid }) ∧
      (m.enter cpu c previous next).processes = m.processes ∧
      (m.enter cpu c previous next).kernel.config = m.kernel.config ∧
      (m.enter cpu c previous next).kernel.pids = m.kernel.pids ∧
      ∃ s t, Quiet m.kernel.toPaging s ∧ c.tlb ∈ s.attached ∧
        Restored s t c.tlb next.pid next.snapshot.pages ∧
        Quiet t (m.enter cpu c previous next).kernel.toPaging :=
  ⟨rfl, rfl, rfl, rfl, _, _, quiet_attach _ _, mem_attached_attach _ _, restoreTlb_spec _ _ _ _,
    quiet_of_core rfl rfl rfl⟩

theorem leave_posted (m : Machine F) (c : Processor)
    (previous : Option (ProcessNumber × Process)) :
    Posted m.kernel.toPaging (m.leave c previous).kernel.toPaging 0 0 := by
  unfold leave
  cases previous with
  | none => exact posted_setTlb _ _ _
  | some ip =>
      dsimp only
      split
      · exact saveTlb_posted _ _ _
      · exact (posted_note _ (e := .switchedFromOther ip.2.pid c.running) rfl rfl).head
          (saveTlb_posted _ _ _)

theorem enter_posted (m : Machine F) (cpu : CpuNumber) (c : Processor) (previous : Option Pid)
    (next : Process) :
    Posted m.kernel.toPaging (m.enter cpu c previous next).kernel.toPaging 0 0 :=
  ((posted_attach _ _).head (restoreTlb_posted _ _ _ _)).tail (.of_same rfl rfl rfl rfl rfl)

/-- A switch is a process that leaves, and then one that comes. -/
theorem switch_spec {previous : Option ProcessNumber} {next : ProcessNumber}
    (h : m.switch cpu previous next = some m') :
    ∃ c q from', m.cpu? cpu = some c ∧
      ((previous = none ∧ from' = none) ∨
        ∃ i p, previous = some i ∧ m.process? i = some p ∧ from' = some (i, p)) ∧
      (m.leave c from').process? next = some q ∧
      m' = (m.leave c from').enter cpu c (from'.map (·.2.pid)) q := by
  unfold switch at h
  cases hc : m.cpu? cpu with
  | none =>
      rw [hc] at h
      cases h
  | some c =>
      rw [hc] at h
      cases previous with
      | none =>
          simp only [Option.bind_none, Option.map_eq_some_iff] at h
          obtain ⟨q, hq, rfl⟩ := h
          exact ⟨c, q, none, rfl, Or.inl ⟨rfl, rfl⟩, hq, rfl⟩
      | some i =>
          cases hp : m.process? i with
          | none =>
              simp only [Option.bind_some, hp] at h
              cases h
          | some p =>
              simp only [Option.bind_some, hp, Option.map_some, Option.map_eq_some_iff] at h
              obtain ⟨q, hq, rfl⟩ := h
              exact ⟨c, q, some (i, p), rfl, Or.inr ⟨i, p, rfl, hp, rfl⟩, hq, rfl⟩

/-- If the processor and both processes are there, a switch is made. -/
theorem exists_switch {previous : Option ProcessNumber} {next : ProcessNumber} {q : Process}
    (hc : m.cpu? cpu = some c) (hprevious : ∀ i, previous = some i → ∃ p, m.process? i = some p)
    (hq : m.process? next = some q) : ∃ m', m.switch cpu previous next = some m' := by
  have hthere : ∀ who : Option (ProcessNumber × Process), (∀ ip, who = some ip →
      m.process? ip.1 = some ip.2) → ∃ r, (m.leave c who).process? next = some r := by
    intro who hwho
    obtain ⟨-, -, -, hleft⟩ := m.leave_spec c who
    cases who with
    | none =>
        obtain ⟨-, hsame⟩ := hleft
        exact ⟨q, by rw [process?, hsame]; exact hq⟩
    | some ip =>
        obtain ⟨-, snapshot, -, -, -, hset⟩ := hleft
        rw [process?, hset, process?_set (hwho ip rfl)]
        split
        · exact ⟨_, rfl⟩
        · exact ⟨q, hq⟩
  unfold switch
  rw [hc]
  cases previous with
  | none =>
      obtain ⟨r, hr⟩ := hthere none nofun
      exact ⟨_, Option.map_eq_some_iff.2 ⟨r, hr, rfl⟩⟩
  | some i =>
      obtain ⟨p, hp⟩ := hprevious i rfl
      obtain ⟨r, hr⟩ := hthere (some (i, p)) fun ip hip => Option.some.inj hip ▸ hp
      simp only [Option.bind_some, hp, Option.map_some]
      exact ⟨_, Option.map_eq_some_iff.2 ⟨r, hr, rfl⟩⟩

/-- A switch changes at most what the process that leaves takes along. -/
theorem process?_switch {previous : Option ProcessNumber} {next : ProcessNumber}
    (h : m.switch cpu previous next = some m') :
    m'.processes.size = m.processes.size ∧ ∀ i, ∃ keep : Process → TlbSnapshot,
      m'.process? i = (m.process? i).map fun p => { p with snapshot := keep p } := by
  obtain ⟨c, q, who, hc, hwho, hq, rfl⟩ := switch_spec h
  obtain ⟨-, hentered, -⟩ := (m.leave c who).enter_spec cpu c (who.map (·.2.pid)) q
  obtain ⟨-, -, -, hleft⟩ := m.leave_spec c who
  have hkeep : ∀ j, m.process? j = (m.process? j).map fun p => { p with snapshot := p.snapshot } :=
    fun j => by cases m.process? j <;> rfl
  rcases hwho with ⟨-, rfl⟩ | ⟨i, p, -, hp, rfl⟩
  · obtain ⟨-, hsame⟩ := hleft
    refine ⟨by rw [hentered, hsame], fun j => ⟨(·.snapshot), ?_⟩⟩
    rw [process?, hentered, hsame]
    exact hkeep j
  · obtain ⟨-, snapshot, -, -, -, hset⟩ := hleft
    refine ⟨by rw [hentered, hset, Array.size_setIfInBounds], fun j => ?_⟩
    rw [process?, hentered, hset, process?_set hp]
    split
    · rename_i hj
      exact ⟨fun _ => snapshot, by rw [hj, hp, Option.map_some]⟩
    · exact ⟨(·.snapshot), hkeep j⟩

/-- The processor of a switch is still there. -/
theorem cpu?_switch {previous : Option ProcessNumber} {next : ProcessNumber}
    (h : m.switch cpu previous next = some m') : ∃ d, m'.cpu? cpu = some d := by
  obtain ⟨c, q, who, hc, -, -, rfl⟩ := switch_spec h
  have hcpu : (m.leave c who).cpu? cpu = some c := by
    rw [cpu?, (m.leave_spec c who).1]
    exact hc
  refine ⟨{ c with running := some q.pid }, ?_⟩
  rw [cpu?, ((m.leave c who).enter_spec cpu c (who.map (·.2.pid)) q).1, cpu?_set hcpu, if_pos rfl]

/-! ## Requests -/

/-- A process is ended, and loses its address space. -/
def Ends (m m' : Machine F) (i : ProcessNumber) (fate : Fate) : Prop :=
  ∃ p q, m.process? i = some p ∧ m'.process? i = some q ∧ q.exitCode ≠ none ∧
    fate = .loses p.pid

/-- What may happen to processes by a request that leads to another machine: the process that is
loaded gets an address space, and loses it and its pid if that fails; the one that exits or is ended
by a trap loses its own; the one that is dropped loses its pid. -/
def fates (m m' : Machine F) {α : Type} : Request α → Fate → Prop
  | .load _ _ strategy, fate => fate = .gains m.kernel.pids.alloc.1 ∨
    fate = .loses m.kernel.pids.alloc.1 ∨
      (strategy = .eager ∧ fate = .pins m.kernel.pids.alloc.1) ∨ fate = .forgets m.kernel.pids.alloc.1
  | .exit i _, fate => m.Ends m' i fate
  | .access i .., fate => m.Ends m' i fate
  | .trap i _, fate => m.Ends m' i fate
  | .destroySpace pid, fate => fate = .loses pid
  | .drop i, fate => ∃ p, m.process? i = some p ∧ m'.process? i = none ∧ fate = .forgets p.pid
  | _, _ => False

/-- Nobody gets frames for good by a request, unless a program is to be loaded all at once. -/
theorem not_pins {α : Type} {request : Request α} (h : request.OnDemand) (pid : Pid) :
    ¬ m.fates m' request (.pins pid) := by
  intro hpins
  cases request with
  | load image args strategy =>
      obtain rfl : strategy = .demand := h
      rcases hpins with hgains | hloses | ⟨heager, -⟩ | hforgets
      · cases hgains
      · cases hloses
      · cases heager
      · cases hforgets
  | access | exit | trap =>
      obtain ⟨p, q, -, -, -, hloses⟩ := hpins
      cases hloses
  | destroySpace => cases hpins
  | drop =>
      obtain ⟨p, -, -, hforgets⟩ := hpins
      cases hforgets
  | read | write | readText | switch | resolveMiss | accessPage => exact hpins

theorem within_eq {α : Type} {c : Processor} {i : ProcessNumber} {p : Process}
    (hc : m.cpu? cpu = some c) (hp : m.process? i = some p)
    (act : Context F → Except Halt α × Context F) :
    m.within cpu i act = ((act ⟨m.kernel, c, p⟩).1.map some,
      m.setContext cpu i (act ⟨m.kernel, c, p⟩).2) := by
  rw [within, context?, hc, hp]

/-- What is done for a process on a processor is done if both are there. -/
theorem within_spec {α : Type} {i : ProcessNumber} {act : Context F → Except Halt α × Context F}
    {r : Except Halt (Option α)} (h : m.within cpu i act = (r, m')) :
    (r = .ok none ∧ m' = m) ∨ ∃ c p r' y, m.cpu? cpu = some c ∧ m.process? i = some p ∧
      act ⟨m.kernel, c, p⟩ = (r', y) ∧ r = r'.map some ∧ m' = m.setContext cpu i y := by
  unfold within context? at h
  cases hc : m.cpu? cpu with
  | none =>
      rw [hc] at h
      obtain ⟨rfl, rfl⟩ := Prod.mk.inj h
      exact Or.inl ⟨rfl, rfl⟩
  | some c =>
      rw [hc] at h
      cases hp : m.process? i with
      | none =>
          rw [hp] at h
          obtain ⟨rfl, rfl⟩ := Prod.mk.inj h
          exact Or.inl ⟨rfl, rfl⟩
      | some p =>
          rw [hp] at h
          obtain ⟨rfl, rfl⟩ := Prod.mk.inj h
          exact Or.inr ⟨c, p, _, _, rfl, rfl, rfl, rfl, rfl⟩

/-- No processor is taken away by it. -/
theorem cpu?_within {α : Type} {i : ProcessNumber} {act : Context F → Except Halt α × Context F}
    {r : Except Halt (Option α)} (h : m.within cpu i act = (r, m')) (hc : m.cpu? n = some c) :
    ∃ d, m'.cpu? n = some d := by
  rcases within_spec h with ⟨-, rfl⟩ | ⟨e, p, r', y, he, -, -, -, rfl⟩
  · exact ⟨c, hc⟩
  · rw [cpu?_setContext he]
    split
    · exact ⟨y.cpu, rfl⟩
    · exact ⟨c, hc⟩

variable [BackingFile F]

theorem leave_evolves {may : Fate → Prop} (m : Machine F) (c : Processor)
    (previous : Option (ProcessNumber × Process)) :
    m.kernel.Evolves may (m.leave c previous).kernel := by
  have hledger : Balanced may _ _ := (m.leave_posted c previous).balanced
  obtain ⟨-, hconfig, hpids, hrest⟩ := m.leave_spec c previous
  cases previous with
  | none => exact .of_changes (.single (.adjusted hrest.1.adjusted)) hledger hconfig hpids
  | some ip =>
      obtain ⟨s, -, hquiet, hsaved, -⟩ := hrest
      exact .of_changes (.tail (.single (.quiet hquiet)) (.adjusted hsaved.adjusted)) hledger hconfig
        hpids

theorem switch_evolves {may : Fate → Prop} {previous : Option ProcessNumber}
    {next : ProcessNumber} (hm : m.kernel.Consistent)
    (h : m.switch cpu previous next = some m') : m.kernel.Evolves may m'.kernel := by
  obtain ⟨c, q, from', -, -, -, rfl⟩ := switch_spec h
  have hleave : m.kernel.Evolves may (m.leave c from').kernel := m.leave_evolves c from'
  obtain ⟨-, -, hconfig, hpids, s, t, hs, hid, hrestored, ht⟩ :=
    (m.leave c from').enter_spec cpu c (from'.map (·.2.pid)) q
  have hadj := hrestored.adjusted (hs.agrees (hleave.consistent hm).toAgrees) hid
  exact hleave.trans (.of_changes
    (((Relation.ReflTransGen.single (.quiet hs)).tail (.adjusted hadj)).tail (.quiet ht))
    ((m.leave c from').enter_posted cpu c _ q).balanced hconfig hpids)

theorem within_evolves {may : Fate → Prop} {α : Type} {i : ProcessNumber}
    {act : Context F → Except Halt α × Context F} {r : Except Halt (Option α)}
    (hact : ∀ c p r y, act ⟨m.kernel, c, p⟩ = (r, y) → m.kernel.Evolves may y.kernel)
    (h : m.within cpu i act = (r, m')) : m.kernel.Evolves may m'.kernel := by
  rcases within_spec h with ⟨-, rfl⟩ | ⟨c, p, r', y, -, -, hy, -, rfl⟩
  · exact .refl _
  · exact hact c p r' y hy

/-- What is done for a process may be its end. -/
theorem within_ends {α : Type} {i : ProcessNumber}
    {act : Context F → Except Halt α × Context F} {r : Except Halt (Option α)}
    (hact : ∀ c p r y, act ⟨m.kernel, c, p⟩ = (r, y) → Context.Evolves ⟨m.kernel, c, p⟩ y)
    (h : m.within cpu i act = (r, m')) : m.kernel.Evolves (m.Ends m' i) m'.kernel := by
  rcases within_spec h with ⟨-, rfl⟩ | ⟨c, p, r', y, hc, hp, hy, -, rfl⟩
  · exact .refl _
  · refine (hact c p r' y hy).kernel.mono ?_
    rintro _ ⟨rfl, hexit⟩
    exact ⟨p, y.process, hp, (process?_setContext hp y).trans (if_pos rfl), hexit, rfl⟩

/-- **Every request makes changes that the kernel makes**, whatever it is answered. -/
theorem perform_evolves {α : Type} {request : Request α} {r : Except Halt (Option α)}
    (hm : m.kernel.Consistent) (h : m.perform cpu request = (r, m')) :
    m.kernel.Evolves (m.fates m' request) m'.kernel := by
  cases request with
  | load image args strategy =>
      simp only [perform] at h
      split at h
      · obtain ⟨-, rfl⟩ := Prod.mk.inj h
        exact .refl _
      · rename_i c hc
        unfold load at h
        split at h <;> rename_i hload <;> obtain ⟨-, rfl⟩ := Prod.mk.inj h
        · exact load_evolves hm (Or.inl rfl) (Or.inr (Or.inl rfl))
            (fun he => Or.inr (Or.inr (Or.inl ⟨he, rfl⟩))) (Or.inr (Or.inr (Or.inr rfl))) hload
        · exact load_evolves hm (Or.inl rfl) (Or.inr (Or.inl rfl))
            (fun he => Or.inr (Or.inr (Or.inl ⟨he, rfl⟩))) (Or.inr (Or.inr (Or.inr rfl))) hload
  | exit i status =>
      simp only [perform] at h
      refine within_ends (fun c p r y hy => ?_) h
      obtain ⟨-, rfl⟩ := Prod.mk.inj hy
      exact Context.exit_evolves (x := ⟨m.kernel, c, p⟩) hm rfl
  | drop i =>
      simp only [perform] at h
      split at h
      · obtain ⟨-, rfl⟩ := Prod.mk.inj h
        exact .refl _
      · rename_i p hp
        obtain ⟨-, rfl⟩ := Prod.mk.inj h
        have hnone : (m.drop i p).2.process? i = none := (process?_set hp none).trans (if_pos rfl)
        exact dropPid_evolves ⟨p, hp, hnone, rfl⟩ (rfl : m.kernel.dropPid p.pid = _)
  | switch previous next =>
      simp only [perform] at h
      split at h <;> rename_i hs <;> obtain ⟨-, rfl⟩ := Prod.mk.inj h
      · exact .refl _
      · exact switch_evolves hm hs
  | access i address count access =>
      simp only [perform] at h
      exact within_ends (fun c p r y hy => Context.userAccess_evolves hm hy) h
  | read i address count =>
      simp only [perform] at h
      refine within_evolves (fun c p r y hy => ?_) h
      obtain ⟨-, rfl⟩ := Prod.mk.inj hy
      exact readMemory_evolves hm rfl
  | write i address data =>
      simp only [perform] at h
      refine within_evolves (fun c p r y hy => ?_) h
      obtain ⟨-, rfl⟩ := Prod.mk.inj hy
      exact writeMemory_evolves hm rfl
  | readText i address limit =>
      simp only [perform] at h
      refine within_evolves (fun c p r y hy => ?_) h
      obtain ⟨-, rfl⟩ := Prod.mk.inj hy
      exact readText_evolves hm rfl
  | resolveMiss i address =>
      simp only [perform] at h
      refine within_evolves (fun c p r y hy => ?_) h
      obtain ⟨-, rfl⟩ := Prod.mk.inj hy
      exact handleMiss_evolves hm rfl
  | accessPage i page writing change =>
      simp only [perform] at h
      refine within_evolves (fun c p r y hy => ?_) h
      obtain ⟨-, rfl⟩ := Prod.mk.inj hy
      exact accessPage_evolves hm rfl
  | trap i code =>
      simp only [perform] at h
      exact within_ends (fun c p r y hy => Context.handleTrap_evolves hm hy) h
  | destroySpace pid =>
      simp only [perform] at h
      obtain ⟨-, rfl⟩ := Prod.mk.inj h
      exact destroySpace_evolves hm rfl rfl

end Machine

end DemandPaging
