import DemandPaging.Proofs.TornDown

/-!
# Who is who

The number of a process stays with it, and so do its pid and its address space.  No two processes
have one pid at the same time.

* `Kernel.Loaded` — what is known of a process that has just been loaded.
* `Process.Becomes` — what a request leaves to a process; `Machine.becomes_of_perform` says that
  this is so, or the process is new.
* `Machine.Named` — every process has a pid of its own; `Machine.Reached.named`.
-/

namespace DemandPaging

open Paging

variable {F : Type}

/-! ## New processes -/

namespace Kernel

variable [BackingFile F] {k k' : Kernel F} {tlb : TlbId} {pid : Pid} {image : Image}
  {args : List String} {strategy : Strategy} {p : Process}

/-- A process got a pid and the space of its program.  Its pages were made resident if its strategy
asks for that, and then it got its arguments. -/
structure Loaded (k k' : Kernel F) (tlb : TlbId) (pid : Pid) (image : Image) (strategy : Strategy)
    (p : Process) : Prop where
  pid : p.pid = pid
  strategy : p.strategy = strategy
  space : AddressSpace.make p.pid image k.config = .ok p.space
  stages : ∃ m u : Kernel F, Registered k.toPaging m.toPaging p.pid p.space.pageCount ∧
    m.config = k.config ∧ m.pids = k.pids ∧ m.prepare tlb p.strategy p.space = (.ok (), u) ∧
      u.Evolves (fun _ => False) k'

theorem loaded_of_loadAs (hk : k.Consistent)
    (h : k.loadAs tlb pid image args strategy = (.ok p, k')) :
    k.Loaded k' tlb pid image strategy p := by
  cases loads_of_loadAs h with
  | @loaded space m u _ hmake hcreate hprepare hwrite =>
      obtain rfl := space_pid_of_make hmake
      obtain ⟨hconfig, hpids, hreg⟩ := registered_of_createSpace hcreate
      have hm := hreg.consistent hk
      have hstep : m.Evolves (fun _ => True) u :=
        prepare_evolves hm (new_of_registered hk hreg) trivial (fun _ => trivial) hprepare
      exact ⟨rfl, rfl, hmake, m, u, hreg, hconfig, hpids, hprepare,
        writeArguments_evolves (hstep.consistent hm) hwrite⟩

/-- **A program is loaded with the next pid.** -/
theorem loaded_of_load (hk : k.Consistent) (h : k.load tlb image args strategy = (.ok p, k')) :
    ({ k with pids := k.pids.alloc.2 }).Loaded k' tlb k.pids.alloc.1 image strategy p := by
  cases loadsNext_of_load h with
  | loaded hargs hload =>
      have hbase : ({ k with pids := k.pids.alloc.2 } : Kernel F).Consistent := hk
      obtain ⟨hpid, hstrategy, hspace, m, u, hreg, hconfig, hpids, hprepare, hrest⟩ :=
        loaded_of_loadAs hbase hload
      exact ⟨hpid, hstrategy, hspace, m, u, hreg, hconfig, hpids, hprepare,
        hrest.trans (.note _ rfl rfl)⟩

namespace Loaded

/-- The new process has its pid, and nobody has lost one. -/
theorem live (h : k.Loaded k' tlb pid image strategy p) (hk : k.Consistent)
    (hsound : k.pids.Sound) {q : Pid} (hq : k.pids.live q) : k'.pids.live q := by
  obtain ⟨m, u, hreg, -, hpids, hprep, hrest⟩ := h.stages
  have hspace := space_pid_of_make h.space
  have hm := hreg.consistent hk
  have hstep : m.Evolves (fun fate => ∀ q, fate ≠ .forgets q) u :=
    prepare_evolves hm (new_of_registered hk (hspace.symm ▸ hreg)) nofun (fun _ => nofun) hprep
  exact hrest.live (hstep.pids (hpids ▸ hsound))
    (hstep.live (hpids ▸ hsound) (hpids ▸ hq) fun hnot => hnot q rfl) id

end Loaded

end Kernel

/-! ## What is left to a process -/

/-- A process goes on, with its pid, its pages and its strategy, and once it has exited it stays
so. -/
structure Process.Becomes (p q : Process) : Prop where
  pid : q.pid = p.pid
  space : q.space = p.space
  strategy : q.strategy = p.strategy
  exited : p.exitCode ≠ none → q.exitCode ≠ none

theorem Process.Becomes.refl (p : Process) : p.Becomes p := ⟨rfl, rfl, rfl, id⟩

theorem Process.Becomes.trans {p q s : Process} (h : p.Becomes q) (h' : q.Becomes s) :
    p.Becomes s :=
  ⟨h'.pid.trans h.pid, h'.space.trans h.space, h'.strategy.trans h.strategy, h'.exited ∘ h.exited⟩

theorem Context.Continues.becomes {x y : Context F} (h : Context.Continues x y) :
    x.process.Becomes y.process :=
  ⟨h.pid, h.space, h.strategy, h.exited⟩

namespace Machine

variable {m m' : Machine F} {cpu : CpuNumber} {j : ProcessNumber} {q : Process}

/-- What is done for a process changes that process at most. -/
theorem becomes_of_within {α : Type} {i : ProcessNumber}
    {act : Context F → Except Halt α × Context F} {r : Except Halt (Option α)}
    (hact : ∀ c p r y, act ⟨m.kernel, c, p⟩ = (r, y) → p.Becomes y.process)
    (h : m.within cpu i act = (r, m')) (hq : m'.process? j = some q) :
    ∃ p, m.process? j = some p ∧ p.Becomes q := by
  rcases within_spec h with ⟨-, rfl⟩ | ⟨c, p, r', y, -, hp, hy, -, rfl⟩
  · exact ⟨q, hq, .refl q⟩
  · rw [process?_setContext hp] at hq
    split at hq
    · rename_i hj
      obtain rfl := Option.some.inj hq
      exact ⟨p, hj ▸ hp, hact c p r' y hy⟩
    · exact ⟨q, hq, .refl q⟩

variable [BackingFile F]

/-- **A request leaves every process what it is**, and brings at most one that is new. -/
theorem becomes_of_perform {α : Type} {request : Request α} {r : Except Halt (Option α)}
    (hm : m.kernel.Consistent) (h : m.perform cpu request = (r, m'))
    (hq : m'.process? j = some q) :
    (∃ p, m.process? j = some p ∧ p.Becomes q) ∨
      (j = m.processes.size ∧ ∃ tlb image strategy, ({ m.kernel with
        pids := m.kernel.pids.alloc.2 }).Loaded m'.kernel tlb m.kernel.pids.alloc.1 image strategy q) := by
  cases request with
  | load image args strategy =>
      simp only [perform] at h
      split at h
      · obtain ⟨-, rfl⟩ := Prod.mk.inj h
        exact Or.inl ⟨q, hq, .refl q⟩
      · unfold load at h
        split at h <;> rename_i hload <;> obtain ⟨-, rfl⟩ := Prod.mk.inj h
        · exact Or.inl ⟨q, hq, .refl q⟩
        · rw [process?_push rfl] at hq
          split at hq
          · rename_i hj
            subst hj
            obtain rfl := Option.some.inj hq
            exact Or.inr ⟨rfl, _, _, _, Kernel.loaded_of_load hm hload⟩
          · exact Or.inl ⟨q, hq, .refl q⟩
  | exit i status =>
      simp only [perform] at h
      refine Or.inl (becomes_of_within (fun c p r y hy => ?_) h hq)
      obtain ⟨-, rfl⟩ := Prod.mk.inj hy
      exact (Context.exit_evolves (x := ⟨m.kernel, c, p⟩) hm rfl).becomes
  | drop i =>
      simp only [perform] at h
      split at h
      · obtain ⟨-, rfl⟩ := Prod.mk.inj h
        exact Or.inl ⟨q, hq, .refl q⟩
      · rename_i p hp
        obtain ⟨-, rfl⟩ := Prod.mk.inj h
        rw [process?, Machine.drop, process?_set hp] at hq
        split at hq
        · cases hq
        · exact Or.inl ⟨q, hq, .refl q⟩
  | switch previous next =>
      simp only [perform] at h
      split at h <;> rename_i hs <;> obtain ⟨-, rfl⟩ := Prod.mk.inj h
      · exact Or.inl ⟨q, hq, .refl q⟩
      · obtain ⟨keep, hkeep⟩ := (process?_switch hs).2 j
        obtain ⟨p, hp, rfl⟩ := Option.map_eq_some_iff.1 (hkeep.symm.trans hq)
        exact Or.inl ⟨p, hp, rfl, rfl, rfl, id⟩
  | access i address count access =>
      exact Or.inl (becomes_of_within
        (fun c p r y hy => (Context.userAccess_evolves hm hy).becomes) h hq)
  | trap i code =>
      exact Or.inl (becomes_of_within
        (fun c p r y hy => (Context.handleTrap_evolves hm hy).becomes) h hq)
  | destroySpace pid =>
      obtain ⟨-, rfl⟩ := Prod.mk.inj h
      exact Or.inl ⟨q, hq, .refl q⟩
  | read | write | readText | resolveMiss | accessPage =>
      simp only [perform] at h
      refine Or.inl (becomes_of_within (fun c p r y hy => ?_) h hq)
      obtain ⟨-, rfl⟩ := Prod.mk.inj hy
      exact .refl p

/-- The number of a process is not used again. -/
theorem size_processes_of_perform {α : Type} {request : Request α} {r : Except Halt (Option α)}
    (h : m.perform cpu request = (r, m')) : m.processes.size ≤ m'.processes.size := by
  have hwithin : ∀ {β : Type} {i : ProcessNumber} {act : Context F → Except Halt β × Context F}
      {r : Except Halt (Option β)}, m.within cpu i act = (r, m') →
        m.processes.size ≤ m'.processes.size := by
    intro β i act r h
    obtain ⟨-, rfl⟩ | ⟨_, _, _, _, -, -, -, -, rfl⟩ := within_spec h
    · exact Nat.le_refl _
    · exact Nat.le_of_eq Array.size_setIfInBounds.symm
  cases request with
  | load image args strategy =>
      simp only [perform] at h
      split at h
      · obtain ⟨-, rfl⟩ := Prod.mk.inj h
        exact Nat.le_refl _
      · unfold load at h
        split at h <;> obtain ⟨-, rfl⟩ := Prod.mk.inj h
        · exact Nat.le_refl _
        · exact (Array.size_push _).symm ▸ Nat.le_succ _
  | drop j =>
      simp only [perform] at h
      split at h <;> obtain ⟨-, rfl⟩ := Prod.mk.inj h
      · exact Nat.le_refl _
      · exact Nat.le_of_eq Array.size_setIfInBounds.symm
  | switch previous next =>
      simp only [perform] at h
      split at h <;> rename_i hswitch <;> obtain ⟨-, rfl⟩ := Prod.mk.inj h
      · exact Nat.le_refl _
      · exact Nat.le_of_eq (process?_switch hswitch).1.symm
  | destroySpace pid =>
      obtain ⟨-, rfl⟩ := Prod.mk.inj h
      exact Nat.le_refl _
  | exit | access | read | write | readText | resolveMiss | accessPage | trap =>
      simp only [perform] at h
      exact hwithin h

/-- A process that is loaded gets the next number. -/
theorem load_of_perform {image : Image} {args : List String} {strategy : Strategy}
    {i : ProcessNumber} (h : m.perform cpu (.load image args strategy) = (.ok (some (.ok i)), m')) :
    ∃ tlb p k, m.kernel.load tlb image args strategy = (.ok p, k) ∧ i = m.processes.size ∧
      m' = { m with kernel := k, processes := m.processes.push (some p) } := by
  simp only [perform] at h
  split at h
  · cases (Prod.mk.inj h).1
  · unfold load at h
    split at h <;> rename_i hload <;> obtain ⟨hr, rfl⟩ := Prod.mk.inj h
    · rename_i e k
      cases e <;> cases hr
    · obtain rfl := Except.ok.inj (Option.some.inj (Except.ok.inj hr))
      exact ⟨_, _, _, hload, rfl, rfl⟩

/-- **A process that is loaded is there**, with the next number. -/
theorem loaded_of_perform {image : Image} {args : List String} {strategy : Strategy}
    {i : ProcessNumber} (hm : m.kernel.Consistent)
    (h : m.perform cpu (.load image args strategy) = (.ok (some (.ok i)), m')) :
    ∃ p tlb, m'.process? i = some p ∧ ({ m.kernel with
      pids := m.kernel.pids.alloc.2 }).Loaded m'.kernel tlb m.kernel.pids.alloc.1 image strategy p := by
  obtain ⟨tlb, p, k, hload, rfl, rfl⟩ := load_of_perform h
  exact ⟨p, tlb, (process?_push rfl).trans (if_pos rfl), Kernel.loaded_of_load hm hload⟩

/-! ## Pids -/

/-- Every process has a pid of its own, and an address space that was made for it. -/
structure Named (m : Machine F) : Prop where
  held : ∀ {i p}, m.process? i = some p → m.kernel.pids.live p.pid
  distinct : ∀ {i j p q}, m.process? i = some p → m.process? j = some q → p.pid = q.pid → i = j
  space : ∀ {i p}, m.process? i = some p →
    ∃ image config, AddressSpace.make p.pid image config = .ok p.space

namespace Named

variable {i : ProcessNumber} {p : Process}

omit [BackingFile F] in
/-- Nobody's pid is given back while the process is there. -/
theorem not_forgets {α : Type} {request : Request α} (hm : m.Named) (hids : m.kernel.pids.Sound)
    (hp : m.process? i = some p) (hq : m'.process? i = some q) :
    ¬ m.fates m' request (.forgets p.pid) := by
  intro hfate
  cases request with
  | load image args strategy =>
      rcases hfate with heq | heq | ⟨-, heq⟩ | heq
      · cases heq
      · cases heq
      · cases heq
      · exact hids.alloc.1 (Fate.forgets.inj heq ▸ hm.held hp)
  | drop j =>
      obtain ⟨r, hr, hnone, heq⟩ := hfate
      obtain rfl := hm.distinct hp hr (Fate.forgets.inj heq)
      rw [hnone] at hq
      cases hq
  | exit | access | trap =>
      obtain ⟨_, _, -, -, -, heq⟩ := hfate
      cases heq
  | destroySpace => cases hfate
  | switch | read | write | readText | resolveMiss | accessPage => exact hfate

/-- **No request gives a process the pid of another.** -/
theorem perform {α : Type} {cpu : CpuNumber} {request : Request α} {r : Except Halt (Option α)}
    (hm : m.Named) (hc : m.kernel.Consistent) (hids : m.kernel.pids.Sound)
    (h : m.perform cpu request = (r, m')) : m'.Named := by
  obtain ⟨hfree, hids', hlive⟩ := hids.alloc
  have hevolves := perform_evolves hc h
  have hbase : ({ m.kernel with pids := m.kernel.pids.alloc.2 } : Kernel F).Consistent := hc
  have hheld : ∀ {i q}, m'.process? i = some q → m'.kernel.pids.live q.pid := by
    intro i q hq
    rcases becomes_of_perform hc h hq with ⟨p, hp, hpq⟩ | ⟨-, tlb, image, strategy, hnew⟩
    · rw [hpq.pid]
      exact hevolves.live hids (hm.held hp) (hm.not_forgets hids hp hq)
    · exact hnew.live hbase hids' ((hlive _).2 (Or.inr hnew.pid))
  refine ⟨hheld, fun {i j q s} hq hs hqs => ?_, fun {i q} hq => ?_⟩
  · rcases becomes_of_perform hc h hq with ⟨p, hp, hpq⟩ | ⟨hi, _, _, _, hnew⟩ <;>
      rcases becomes_of_perform hc h hs with ⟨u, hu, hus⟩ | ⟨hj, _, _, _, hnew'⟩
    · exact hm.distinct hp hu (by rw [← hpq.pid, ← hus.pid, hqs])
    · refine absurd (hm.held hp) ?_
      rw [← hpq.pid, hqs, hnew'.pid]
      exact hfree
    · refine absurd (hm.held hu) ?_
      rw [← hus.pid, ← hqs, hnew.pid]
      exact hfree
    · rw [hi, hj]
  · rcases becomes_of_perform hc h hq with ⟨p, hp, hpq⟩ | ⟨-, tlb, image, strategy, hnew⟩
    · rw [hpq.pid, hpq.space]
      exact hm.space hp
    · exact ⟨image, _, hnew.space⟩

end Named

/-- **In every machine that is reached, every process has a pid of its own.** -/
theorem Reached.named (h : Reached m) : m.Named := by
  induction h with
  | boot h =>
      have hnone : ∀ {k : Kernel F} {i p}, ({ kernel := k } : Machine F).process? i ≠ some p := nofun
      exact ⟨fun hp => absurd hp hnone, fun hp => absurd hp hnone, fun hp => absurd hp hnone⟩
  | addCpu _ _ ih => exact ⟨ih.held, ih.distinct, ih.space⟩
  | dropCpu _ cpu ih =>
      unfold Machine.dropCpu
      split
      · exact ih
      · exact ⟨ih.held, ih.distinct, ih.space⟩
  | perform h hp ih => exact ih.perform h.consistent h.sound_pids hp

end Machine

end DemandPaging
