import DemandPaging.Proofs.EagerLoad
import DemandPaging.Proofs.Ranges
import DemandPaging.Proofs.TablesAgree

/-!
# A simulation in the middle

Between two requests of a simulation every process is what it would be alone, and nothing runs out:
no page lacks a frame on demand, and with all pages loaded at the start as many frames are free as
the processes have left over.

* `Simulation.Underway` — the machine of a simulation between two requests.
* `Simulation.Underway.deed`, `Simulation.Underway.switch`, `Simulation.Underway.load` — what is
  asked for is answered, and the machine goes on so.
* `Simulation.Underway.freeCount` — how many frames are free if all pages are loaded at the start.
* `Simulation.Underway.verdict` — once all processes have exited nothing is found to be wrong.
-/

namespace DemandPaging

namespace Simulation

open Paging Kernel

variable {F : Type} [BackingFile F] {v : ReliableView F} {s : Simulation}
  {alone alone' : ProcessNumber → Solo} {m m' : Machine F} {a b : Account} {i : ProcessNumber}
  {image : Image} {args : List String} {solo : Solo}

/-- A machine between two requests of a simulation: every process is the process alone, and nothing
runs out. -/
structure Underway (s : Simulation) (v : ReliableView F) (alone : ProcessNumber → Solo)
    (m : Machine F) (a : Account) : Prop where
  inOrder : ∃ tenants seat, m.InOrder (some v.toFileView) tenants seat a
  provides : m.kernel.Provides v s.strategy
  config : m.kernel.config = s.config
  frames : m.kernel.core.frames.size = s.config.frames
  cpu : ∃ c, m.cpu? cpu = some c
  plays : ∀ {i}, i < m.processes.size →
    ∃ p, m.process? i = some p ∧ (alone i).Plays s.strategy (a.plain i) p

namespace Underway

/-- The kernel makes changes by which nobody comes and nobody gets frames for good. -/
theorem of_evolves {may : Fate → Prop} (hm : s.Underway v alone m a)
    (h : m.kernel.Evolves may m'.kernel) (hgains : ∀ pid, ¬ may (.gains pid))
    (hpins : ∀ pid, ¬ may (.pins pid))
    (horder : ∃ tenants seat, m'.InOrder (some v.toFileView) tenants seat b)
    (hcpu : ∃ c, m'.cpu? Simulation.cpu = some c)
    (hplays : ∀ {i}, i < m'.processes.size →
      ∃ p, m'.process? i = some p ∧ (alone' i).Plays s.strategy (b.plain i) p) :
    s.Underway v alone' m' b where
  inOrder := horder
  provides := hm.provides.changes h.changes h.ledger (fun _ => hgains) hpins
  config := h.config.trans hm.config
  frames := h.changes.sameShape.frames.trans hm.frames
  cpu := hcpu
  plays := hplays

/-! ## What processes do -/

/-- **What a process does is answered as if it were alone.** -/
theorem deed {d : Deed} {outcome : Outcome} {r : Except Halt (Option d.Answer)}
    (hm : s.Underway v alone m a) (hi : i < m.processes.size)
    (hpermits : ∀ {address count access}, d = .access address count access →
      m.Permits a Simulation.cpu (.access i address count access))
    (hok : ((alone i).perform d).1 = .ok outcome)
    (h : m.perform Simulation.cpu (d.request i) = (r, m')) :
    ∃ answer, r = .ok (some answer) ∧ d.outcome answer = outcome ∧
      m'.processes.size = m.processes.size ∧
      s.Underway v (Function.update alone i ((alone i).perform d).2) m'
        (a.after m' Simulation.cpu (d.request i) answer) := by
  obtain ⟨tenants, seat, hin⟩ := hm.inOrder
  obtain ⟨c, hc⟩ := hm.cpu
  obtain ⟨p, hp, hplays⟩ := hm.plays hi
  obtain ⟨hanswer, hdid⟩ := hplays.perform hin hm.provides hc hp hpermits h
  have hevolves := Machine.perform_evolves hin.kernel.toConsistent h
  rw [hok] at hanswer
  obtain _ | _ | answer := r
  · cases hanswer
  · cases hanswer
  · replace hdid := hdid answer rfl
    have hfates : ∀ {fate}, m.fates m' (d.request i) fate → ∃ pid, fate = .loses pid :=
      Deed.loses_of_fates
    refine ⟨answer, rfl, Option.some.inj (Except.ok.inj hanswer), hdid.size,
      hm.of_evolves hevolves (fun pid hgains => ?_) (fun pid hpins => ?_) hdid.inOrder ?_
        fun {j} hj => ?_⟩
    · obtain ⟨q, hq⟩ := hfates hgains
      cases hq
    · obtain ⟨q, hq⟩ := hfates hpins
      cases hq
    · obtain ⟨act, hact⟩ := d.exists_within m Simulation.cpu i
      rw [hact] at h
      exact Machine.cpu?_within h hc
    · rw [hdid.size] at hj
      by_cases hji : j = i
      · subst hji
        obtain ⟨q, hprocess, hq⟩ := hdid.process
        rw [Function.update_self]
        exact ⟨q, (hprocess j).trans (if_pos rfl), hq⟩
      · rw [Function.update_of_ne hji, hdid.process?_of_ne hji, hdid.plain j hji]
        exact hm.plays hj

/-- The kernel reads what it would read if the process were alone. -/
theorem read {address : VirtAddr} {count : Nat} {r : Except Halt (Option Bytes)}
    (hm : s.Underway v alone m a) (hi : i < m.processes.size)
    (h : m.perform Simulation.cpu (.read i address count) = (r, m')) :
    r = .ok (some ((alone i).reads address count)) ∧ m'.processes.size = m.processes.size ∧
      s.Underway v alone m' a := by
  obtain ⟨bytes, rfl, hbytes, hsize, hn⟩ := hm.deed (d := .read address count) hi nofun rfl h
  obtain rfl := Outcome.bytes.inj hbytes
  replace hn : s.Underway v (Function.update alone i (alone i)) m' a := hn
  rw [Function.update_eq_self] at hn
  exact ⟨rfl, hsize, hn⟩

/-- **The process that runs loads what its plain memory holds**, anywhere in its address space. -/
theorem loads {address : VirtAddr} {count : Nat} {r : Except Halt (Option Context.Accessed)}
    (hm : s.Underway v alone m a) (hi : i < m.processes.size) (hlive : (alone i).exitCode = none)
    (hrunner : m.runner a Simulation.cpu = some i)
    (hin : address.val + count ≤ (alone i).space.pageCount * pageSize)
    (h : m.perform Simulation.cpu (.access i address count .load) = (r, m')) :
    r = .ok (some { moved := (alone i).memory.read ⟨address.val⟩ count, cause := none }) ∧
      m'.processes.size = m.processes.size ∧ s.Underway v alone m' a := by
  have hinside : Context.accesses (alone i).space (alone i).memory address count .load = _ :=
    Context.accesses_inside hin (fun hw => by cases hw) fun d hd => by cases hd
  obtain ⟨answer, rfl, hanswer, hsize, hn⟩ := hm.deed (d := .access address count .load) hi
    (fun hd => by cases hd; exact ⟨hrunner, nofun⟩) rfl h
  obtain rfl := Outcome.accessed.inj hanswer
  simp only [Solo.perform, hinside, Access.after, Option.map_none, ← hlive] at hn
  rw [Function.update_eq_self] at hn
  rw [hinside]
  exact ⟨rfl, hsize, hn⟩

/-- **It stores into its plain memory**, anywhere behind its program. -/
theorem stores {address : VirtAddr} {data : Bytes} {r : Except Halt (Option Context.Accessed)}
    (hm : s.Underway v alone m a) (hi : i < m.processes.size) (hlive : (alone i).exitCode = none)
    (hrunner : m.runner a Simulation.cpu = some i)
    (hin : address.val + data.size ≤ (alone i).space.pageCount * pageSize)
    (hbehind : (alone i).space.image.pageCount * pageSize ≤ address.val)
    (h : m.perform Simulation.cpu (.access i address data.size (.store data)) = (r, m')) :
    r = .ok (some { moved := data, cause := none }) ∧ m'.processes.size = m.processes.size ∧
      ∃ b, b.last = a.last ∧ s.Underway v (Function.update alone i
        { alone i with memory := (alone i).memory.write ⟨address.val⟩ data }) m' b := by
  have hdata : ∀ d, Access.store data = .store d → data.size = d.size :=
    fun d hd => by rw [Access.store.inj hd]
  have hinside : Context.accesses (alone i).space (alone i).memory address data.size (.store data) =
      _ := Context.accesses_inside hin (fun _ => hbehind) hdata
  obtain ⟨answer, rfl, hanswer, hsize, hn⟩ :=
    hm.deed (d := .access address data.size (.store data)) hi
      (fun hd => by cases hd; exact ⟨hrunner, hdata⟩) rfl h
  obtain rfl := Outcome.accessed.inj hanswer
  simp only [Solo.perform, hinside, Access.after, Option.map_none, ← hlive] at hn
  rw [hinside]
  exact ⟨rfl, hsize, a.moved i address (.store data) data.size, rfl, hn⟩

/-- A process that has not exited exits. -/
theorem exit {status : Int} {r : Except Halt (Option (Except PagingError Unit))}
    (hm : s.Underway v alone m a) (hi : i < m.processes.size) (hlive : (alone i).exitCode = none)
    (h : m.perform Simulation.cpu (.exit i status) = (r, m')) :
    r = .ok (some (.ok ())) ∧ m'.processes.size = m.processes.size ∧
      s.Underway v (Function.update alone i { alone i with exitCode := some status }) m' a := by
  obtain ⟨answer, rfl, hanswer, hsize, hn⟩ := hm.deed (d := .exit status) hi nofun rfl h
  replace hanswer := Outcome.exited.inj hanswer
  rw [if_pos hlive] at hanswer
  refine ⟨?_, hsize, hn⟩
  obtain e | ⟨⟩ := answer
  · cases hanswer
  · rfl

/-! ## Switches -/

/-- As long as no process has exited, the one that the processor was given to last runs there. -/
theorem runner (hm : s.Underway v alone m a)
    (hlive : ∀ {i}, i < m.processes.size → (alone i).exitCode = none) :
    m.runner a Simulation.cpu = a.last Simulation.cpu := by
  obtain ⟨tenants, seat, hin⟩ := hm.inOrder
  cases hlast : a.last Simulation.cpu with
  | none => rw [Machine.runner, hlast, Option.filter_none]
  | some i =>
      have hi := (hin.known hlast).2
      obtain ⟨p, hp, hplays⟩ := hm.plays hi
      exact Machine.runner_eq_some.2
        ⟨hlast, Machine.isLive_iff.2 ⟨p, hp, hplays.exitCode.trans (hlive hi)⟩⟩

/-- **The processor goes from the process that runs there to any other.** -/
theorem switch {previous : Option ProcessNumber} {next : ProcessNumber}
    {r : Except Halt (Option Unit)} (hm : s.Underway v alone m a)
    (hprevious : previous = m.runner a Simulation.cpu) (hnext : next < m.processes.size)
    (h : m.perform Simulation.cpu (.switch previous next) = (r, m')) :
    r = .ok (some ()) ∧ m'.processes.size = m.processes.size ∧
      s.Underway v alone m' (a.setLast Simulation.cpu (some next)) := by
  obtain ⟨tenants, seat, hin⟩ := hm.inOrder
  obtain ⟨c, hc⟩ := hm.cpu
  obtain ⟨q, hq, -⟩ := hm.plays hnext
  have hthere : ∀ i, previous = some i → ∃ p, m.process? i = some p := by
    intro i hi
    obtain ⟨-, hlive⟩ := Machine.runner_eq_some.1 (hprevious.symm.trans hi)
    obtain ⟨p, hp, -⟩ := Machine.isLive_iff.1 hlive
    exact ⟨p, hp⟩
  obtain ⟨n, hn⟩ := Machine.exists_switch hc hthere hq
  simp only [Machine.perform, hn] at h
  obtain ⟨rfl, rfl⟩ := Prod.mk.inj h
  have hevolves : m.kernel.Evolves (fun _ => False) n.kernel :=
    Machine.switch_evolves hin.kernel.toConsistent hn
  obtain ⟨seat', horder⟩ := hin.switch hprevious hn
  obtain ⟨hsize, hkept⟩ := Machine.process?_switch hn
  refine ⟨rfl, hsize, hm.of_evolves hevolves (fun _ => id) (fun _ => id) ⟨_, _, horder⟩
    (Machine.cpu?_switch hn) fun {i} hi => ?_⟩
  obtain ⟨p, hp, hplays⟩ := hm.plays (hsize ▸ hi)
  obtain ⟨keep, hkeep⟩ := hkept i
  exact ⟨_, hkeep.trans (congrArg _ hp), hplays.of_snapshot (keep p)⟩

/-! ## Loading -/

/-- **A program that can be loaded alone is loaded**, if there is room for all its pages in case
that they are all to be loaded. -/
theorem load {r : Except Halt (Option (Except PagingError ProcessNumber))}
    (hm : s.Underway v alone m a) (halone : Solo.load image args s.config = .ok solo)
    (hroom : s.strategy = .eager → ∀ {pid space}, AddressSpace.make pid image s.config = .ok space →
      0 < space.pageCount ∧ space.pageCount ≤ m.kernel.core.frames.freeCount)
    (h : m.perform Simulation.cpu (.load image args s.strategy) = (r, m')) :
    r = .ok (some (.ok m.processes.size)) ∧ m'.processes.size = m.processes.size + 1 ∧
      ∃ b, b.last = a.last ∧
        s.Underway v (Function.update alone m.processes.size solo) m' b := by
  obtain ⟨tenants, seat, hin⟩ := hm.inOrder
  obtain ⟨c, hc⟩ := hm.cpu
  have hperform := h
  simp only [Machine.perform, hc] at h
  cases hload : m.load c image args s.strategy with
  | mk x n =>
      rw [hload] at h
      obtain ⟨rfl, rfl⟩ := Prod.mk.inj h
      have hready : m.kernel.Ready v c.tlb m.kernel.pids.alloc.1 image s.strategy :=
        ready_of_provides hm.provides (hm.config ▸ hm.frames.symm) fun heager {space} hmake =>
          hroom heager (hm.config ▸ hmake)
      rcases Solo.plays_of_load hin hready hload with
        ⟨hwords, -⟩ | ⟨-, ⟨e, herror, -⟩ | ⟨t, p, hok, rfl, hprocesses, hplays⟩⟩
      · rw [hm.config, Solo.overruns_of_load halone] at hwords
        cases hwords
      · rw [hm.config, halone] at herror
        cases herror
      · rw [hm.config, halone] at hok
        obtain rfl := Except.ok.inj hok
        have hpermits : m.Permits a Simulation.cpu (.load image args s.strategy) := trivial
        obtain ⟨-, horder⟩ := hin.perform hpermits hperform
        have hnew : n.process? m.processes.size = some p :=
          (Machine.process?_push hprocesses).trans (if_pos rfl)
        simp only [Account.after, Account.loaded, hnew] at horder
        unfold Machine.load at hload
        cases hkernel : m.kernel.load c.tlb image args s.strategy with
        | mk y k =>
            rw [hkernel] at hload
            cases y with
            | error e => cases e <;> cases (Prod.mk.inj hload).1
            | ok q =>
                obtain ⟨-, rfl⟩ := Prod.mk.inj hload
                obtain ⟨hshape, hconfig, -⟩ := load_inOrder hin.kernel hin.sound
                  (fun pid hpid => hin.tenants_eq_none hpid) hkernel
                refine ⟨rfl, Array.size_push _, a.setPlain m.processes.size (p.startMemory args), rfl,
                  horder, provides_of_load hin.kernel.toConsistent hm.provides hkernel,
                  hconfig.trans hm.config, hshape.frames.trans hm.frames, ⟨c, hc⟩, fun {i} hi => ?_⟩
                rw [Machine.process?_push hprocesses, Account.plain_setPlain]
                by_cases heq : i = m.processes.size
                · rw [if_pos heq, if_pos heq, heq, Function.update_self]
                  exact ⟨p, rfl, hplays⟩
                · rw [if_neg heq, if_neg heq, Function.update_of_ne heq]
                  rw [Array.size_push] at hi
                  exact hm.plays (by omega)

/-- **A program is not loaded with all its pages if there is no room for them**, and no page is
moved for it. -/
theorem load_full {r : Except Halt (Option (Except PagingError ProcessNumber))} {space : AddressSpace}
    (hm : s.Underway v alone m a) (heager : s.strategy = .eager)
    (hmake : AddressSpace.make 0 image s.config = .ok space)
    (hfull : m.kernel.core.frames.freeCount < space.pageCount)
    (h : m.perform Simulation.cpu (.load image args s.strategy) = (r, m')) :
    (∃ e, r = .ok (some (.error e))) ∧ m'.kernel.config = s.config ∧
      m'.kernel.core.counters.traffic = 0 := by
  obtain ⟨tenants, seat, hin⟩ := hm.inOrder
  obtain ⟨c, hc⟩ := hm.cpu
  have hprovides := hm.provides
  rw [heager] at h hprovides
  obtain _ | ⟨hsettled, -, htraffic⟩ := hprovides
  simp only [Machine.perform, hc, Machine.load] at h
  cases hload : m.kernel.load c.tlb image args .eager with
  | mk x k =>
      rw [hload] at h
      obtain ⟨-, hconfig, -, ⟨⟨e, rfl⟩ | ⟨-, hwords⟩, -⟩ | ⟨p, rfl, -⟩⟩ :=
        load_inOrder hin.kernel hin.sound (fun pid hpid => hin.tenants_eq_none hpid) hload
      · obtain ⟨rfl, rfl⟩ := Prod.mk.inj h
        exact ⟨⟨e, rfl⟩, hconfig.trans hm.config, (load_traffic hsettled hload).trans htraffic⟩
      · rw [hm.config, AddressSpace.overflows_of_make hmake] at hwords
        cases hwords
      · have hloaded := loaded_of_load hin.kernel.toConsistent hload
        have hroom := hloaded.room (k := { m.kernel with pids := m.kernel.pids.alloc.2 }) hsettled
          (hm.config ▸ hm.frames.symm)
        have hspace := hloaded.space
        rw [AddressSpace.make_withPid, hm.config, hmake] at hspace
        rw [← Except.ok.inj hspace] at hroom
        exact absurd hroom (Nat.not_le.2 hfull)

/-! ## Free frames -/

/-- Who has pages: the processes that have not exited. -/
theorem spaces_eq {pages : Nat} (hm : s.Underway v alone m a)
    (hpages : ∀ {i}, i < m.processes.size → (alone i).space.pageCount = pages) (pid : Pid) :
    (∃ i p, i < m.processes.size ∧ (alone i).exitCode = none ∧ m.process? i = some p ∧ p.pid = pid ∧
        m.kernel.core.spaces[pid]? = some pages) ∨
      ((∀ i p, (alone i).exitCode = none → m.process? i = some p → p.pid ≠ pid) ∧
        m.kernel.core.spaces[pid]? = none) := by
  obtain ⟨tenants, seat, hin⟩ := hm.inOrder
  cases hT : tenants pid with
  | some T =>
      obtain ⟨i, p, hp, hexit, rfl⟩ := hin.housed hT
      have hi := Machine.lt_size_of_process? hp
      obtain ⟨q, hq, hplays⟩ := hm.plays hi
      obtain rfl := Option.some.inj (hp.symm.trans hq)
      have hcount := (hin.kernel.lodged.space (hin.tenant hp hexit)).2.1
      dsimp only at hcount
      rw [hplays.space] at hcount
      refine Or.inl ⟨i, p, hi, hplays.exitCode.symm.trans hexit, hp, rfl, hcount.trans ?_⟩
      exact congrArg some (hpages hi)
  | none =>
      refine Or.inr ⟨?_, hin.kernel.lodged.spaces_eq_none hT⟩
      rintro i p hlive hp rfl
      obtain ⟨q, hq, hplays⟩ := hm.plays (Machine.lt_size_of_process? hp)
      obtain rfl := Option.some.inj (hp.symm.trans hq)
      rw [hin.tenant hp (hplays.exitCode.trans hlive)] at hT
      cases hT

/-- **With all pages loaded at the start**, the frames that no process has are free. -/
theorem freeCount {pages : Nat} (hm : s.Underway v alone m a) (heager : s.strategy = .eager)
    (hlive : ∀ {i}, i < m.processes.size →
      (alone i).exitCode = none ∧ (alone i).space.pageCount = pages) :
    m.processes.size * pages + m.kernel.core.frames.freeCount = s.config.frames := by
  obtain ⟨tenants, seat, hin⟩ := hm.inOrder
  have hprovides := hm.provides
  rw [heager] at hprovides
  obtain _ | ⟨hsettled, -, -⟩ := hprovides
  have hpid : ∀ i : Fin m.processes.size, ∃ p, m.process? i = some p := fun i => by
    obtain ⟨p, hp, -⟩ := hm.plays i.isLt
    exact ⟨p, hp⟩
  choose process hprocess using hpid
  have hdistinct : Function.Injective fun i => (process i).pid := fun i j hij =>
    Fin.ext (hin.distinct (hprocess i) (hprocess j) hij)
  have hspaces : ∀ pid, m.kernel.core.spaces[pid]? =
      if pid ∈ Finset.univ.image (fun i => (process i).pid) then some pages else none := by
    intro pid
    rcases hm.spaces_eq (fun hi => (hlive hi).2) pid with
      ⟨i, p, hi, -, hp, rfl, hcount⟩ | ⟨hnobody, hnone⟩
    · obtain rfl : process ⟨i, hi⟩ = p := Option.some.inj ((hprocess ⟨i, hi⟩).symm.trans hp)
      rw [hcount, if_pos (Finset.mem_image_of_mem _ (Finset.mem_univ _))]
    · rw [hnone, if_neg]
      intro hmem
      obtain ⟨i, -, hi⟩ := Finset.mem_image.1 hmem
      exact hnobody i (process i) (hlive i.isLt).1 (hprocess i) hi
  have hall := hin.kernel.toAgrees.size_table_add_freeCount
  rw [hsettled.size_table hspaces, Finset.card_image_of_injective _ hdistinct, Finset.card_univ,
    Fintype.card_fin, hm.frames] at hall
  exact hall

/-- **Once all processes have exited nothing is found to be wrong**, and all frames are free. -/
theorem verdict (hm : s.Underway v alone m a)
    (hgone : ∀ {i}, i < m.processes.size → (alone i).exitCode ≠ none) :
    s.verdict m = .ok m.kernel.core.counters := by
  obtain ⟨tenants, seat, hin⟩ := hm.inOrder
  have hnobody : ∀ pid, tenants pid = none := by
    intro pid
    rw [Option.eq_none_iff_forall_ne_some]
    intro T hT
    obtain ⟨i, p, hp, hexit, -⟩ := hin.housed hT
    have hi := Machine.lt_size_of_process? hp
    obtain ⟨q, hq, hplays⟩ := hm.plays hi
    obtain rfl := Option.some.inj (hp.symm.trans hq)
    exact hgone hi (hplays.exitCode.symm.trans hexit)
  have hempty : m.kernel.core.table = ∅ := by
    apply Std.ExtTreeMap.ext_getElem?
    intro key
    rw [Std.ExtTreeMap.getElem?_empty, Option.eq_none_iff_forall_ne_some]
    intro e he
    obtain ⟨count, hcount, -⟩ := hin.kernel.toConsistent.resident he
    rw [hin.kernel.lodged.spaces_eq_none (hnobody key.pid)] at hcount
    cases hcount
  have hall := hin.kernel.toAgrees.size_table_add_freeCount
  rw [hempty, Std.ExtTreeMap.size_empty, Nat.zero_add, hm.frames] at hall
  rw [Simulation.verdict, inconsistency_eq_none hin.kernel.toConsistent]
  exact if_pos hall

end Underway

end Simulation

end DemandPaging
