import DemandPaging.CommandLine
import DemandPaging.Proofs.Courses
import DemandPaging.Proofs.SmoothRun
import DemandPaging.Proofs.Underway

/-!
# Simulations come out right

A simulation whose swap file never fails does not come to a halt, and nothing is found to be wrong
with what its processes load.  The only thing that it may complain about is that there are too few
frames to load all processes with all their pages.  Otherwise all its operations are made, and each
moves the bytes that it would move if its process were alone with a memory of its own.

* `Simulation.loadAll_spec` — how many processes can be loaded.
* `Simulation.Run.Sound` — the plain memories hold what the processes would find if they were
  alone; `Simulation.Run.Sound.operateAll` says that this stays so, and no load is stale.
* `Simulation.exitAll_spec` — in the end all processes exit.
* `Simulation.run_verifies` — the whole simulation.
* `CommandLine.simulate_reports` — what the command makes of one on a host.
-/

namespace DemandPaging

open Paging Kernel

namespace Simulation

variable {F : Type} [BackingFile F] {v : ReliableView F} {s : Simulation}
  {alone : ProcessNumber → Solo} {m m' : Machine F} {a : Account} {i : ProcessNumber}
  {image : Image} {space : AddressSpace} {p : Process} {g : Random.ChaCha}

/-! ## Loading -/

theorem load_newcomer (hmake : AddressSpace.make 0 image s.config = .ok space)
    (hargs : 1 ≤ s.config.argPages) (hi : i < wordLimit) :
    Solo.load image [s!"proc{i}"] s.config = .ok (newcomer space i) := by
  rw [Solo.load, AddressSpace.ofProgram_eq_ok hmake hargs (argumentsSize_proc hi)]
  rfl

/-- **All processes are loaded**, unless they are to have all their pages from the start and there
are too few frames for that. -/
theorem loadAll_spec {count : Nat} {r : Except Stop Unit}
    (hmake : AddressSpace.make 0 image s.config = .ok space) (hargs : 1 ≤ s.config.argPages)
    (hm : s.Underway v alone m a)
    (halone : ∀ {i}, i < m.processes.size → alone i = newcomer space i)
    (hword : m.processes.size + count ≤ wordLimit)
    (h : s.loadAll image count m.processes.size m = (r, m')) :
    (r = .ok () ∧ m'.processes.size = m.processes.size + count ∧
        (s.strategy = .eager → m'.processes.size * space.pageCount ≤ s.config.frames) ∧
        ∃ alone' b, b.last = a.last ∧ s.Underway v alone' m' b ∧
          ∀ {i}, i < m'.processes.size → alone' i = newcomer space i) ∨
      ((∃ i e, r = .error (.complaint (.notLoaded i e))) ∧ s.strategy = .eager ∧
        s.config.frames < (m.processes.size + count) * space.pageCount ∧
        m'.kernel.config = s.config ∧ m'.kernel.core.counters.traffic = 0) := by
  have hall : ∀ {m : Machine F} {alone : ProcessNumber → Solo} {a : Account},
      s.Underway v alone m a → (∀ {i}, i < m.processes.size → alone i = newcomer space i) →
      s.strategy = .eager →
      m.processes.size * space.pageCount + m.kernel.core.frames.freeCount = s.config.frames := by
    intro m alone a hm halone heager
    refine hm.freeCount heager fun hi => ?_
    rw [halone hi]
    exact ⟨rfl, rfl⟩
  induction count generalizing m alone a with
  | zero =>
      obtain ⟨rfl, rfl⟩ := Prod.mk.inj h
      refine Or.inl ⟨rfl, rfl, fun heager => ?_, alone, a, rfl, hm, halone⟩
      have hframes := hall hm halone heager
      omega
  | succ count ih =>
      unfold loadAll at h
      cases hperform : m.perform cpu (.load image [s!"proc{m.processes.size}"] s.strategy) with
      | mk x n =>
          rw [hperform] at h
          by_cases hfull : s.strategy = .eager ∧ m.kernel.core.frames.freeCount < space.pageCount
          · obtain ⟨heager, hfull⟩ := hfull
            obtain ⟨⟨e, rfl⟩, hconfig, htraffic⟩ := hm.load_full heager hmake hfull hperform
            obtain ⟨rfl, rfl⟩ := Prod.mk.inj h
            refine Or.inr ⟨⟨_, e, rfl⟩, heager, ?_, hconfig, htraffic⟩
            have hframes := hall hm halone heager
            have hle : (m.processes.size + 1) * space.pageCount ≤
                (m.processes.size + (count + 1)) * space.pageCount :=
              Nat.mul_le_mul_right _ (by omega)
            rw [Nat.succ_mul] at hle
            omega
          · have hroom : s.strategy = .eager → ∀ {pid made},
                AddressSpace.make pid image s.config = .ok made →
                  0 < made.pageCount ∧ made.pageCount ≤ m.kernel.core.frames.freeCount := by
              intro heager pid made hmade
              rw [AddressSpace.make_withPid, hmake] at hmade
              obtain rfl := Except.ok.inj hmade
              refine ⟨?_, Nat.le_of_not_lt fun hlt => hfull ⟨heager, hlt⟩⟩
              show 0 < space.pageCount
              rw [AddressSpace.eq_of_make hmake, AddressSpace.pageCount]
              dsimp only
              omega
            have hlt : m.processes.size < wordLimit := by omega
            obtain ⟨rfl, hsize, b, hlast, hn⟩ :=
              hm.load (load_newcomer hmake hargs hlt) hroom hperform
            dsimp only at h
            rw [← hsize] at h
            have hstep := ih hn (fun {i} hi => ?_) (by omega) h
            · rw [hsize, hlast, Nat.add_assoc, Nat.add_comm 1] at hstep
              exact hstep
            · by_cases heq : i = m.processes.size
              · rw [heq, Function.update_self]
              · rw [Function.update_of_ne heq]
                exact halone (by omega)

/-! ## Processes and their numbers -/

/-- A process of the simulation, apart from its pid. -/
structure IsNewcomer (space : AddressSpace) (i : ProcessNumber) (p : Process) : Prop where
  registers : p.registers = (newcomer space i).registers
  space : p.space = space.withPid p.pid

/-- The processes of a machine are numbered one after the other. -/
theorem processesOf_spec (hm : s.Underway v alone m a)
    (halone : ∀ {i}, i < m.processes.size → alone i = newcomer space i) :
    (processesOf m).map (·.1) = List.range m.processes.size ∧
      ∀ ip ∈ processesOf m, IsNewcomer space ip.1 ip.2 := by
  have hthere : ∀ i ∈ List.range m.processes.size, ∃ p, m.process? i = some p := by
    intro i hi
    obtain ⟨p, hp, -⟩ := hm.plays (List.mem_range.1 hi)
    exact ⟨p, hp⟩
  constructor
  · unfold processesOf
    generalize List.range m.processes.size = ks at hthere
    induction ks with
    | nil => rfl
    | cons k ks ih =>
        obtain ⟨p, hp⟩ := hthere k List.mem_cons_self
        simp only [List.filterMap_cons, hp, Option.map_some, List.map_cons]
        rw [ih fun i hi => hthere i (List.mem_cons_of_mem _ hi)]
  · intro ip hip
    obtain ⟨i, hi, hmap⟩ := List.mem_filterMap.1 hip
    obtain ⟨p, hp, rfl⟩ := Option.map_eq_some_iff.1 hmap
    obtain ⟨q, hq, hplays⟩ := hm.plays (List.mem_range.1 hi)
    obtain rfl := Option.some.inj (hp.symm.trans hq)
    rw [halone (List.mem_range.1 hi)] at hplays
    exact ⟨hplays.registers, hplays.space⟩

/-! ## The plain memories at the start -/

/-- **What the kernel reads of the arguments makes up the plain memory.** -/
theorem plainMemory_spec {r : Except Halt Memory}
    (hmake : AddressSpace.make 0 image s.config = .ok space) (hm : s.Underway v alone m a)
    (hi : i < m.processes.size) (halone : alone i = newcomer space i) (hp : IsNewcomer space i p)
    (h : plainMemory m i p = (r, m')) :
    ∃ memory, r = .ok memory ∧ memory.Same (newcomer space i).memory ∧
      m'.processes.size = m.processes.size ∧ s.Underway v alone m' a := by
  have hargv : p.registers.argv = space.argBase := by rw [hp.registers]; rfl
  have hinitial : p.space.initialMemory = space.initialMemory := by
    rw [hp.space, AddressSpace.initialMemory_withPid]
  have hsize : space.initialMemory.size = space.pageCount * pageSize := by
    rw [Memory.size, space.frameCount_initialMemory]
  have hbase : space.argBase.val ≤ space.initialMemory.size := by
    rw [hsize, AddressSpace.argBase_eq hmake]
    exact Nat.mul_le_mul_right _ (Nat.le_add_right _ _)
  unfold plainMemory at h
  dsimp only at h
  rw [hargv, hinitial, if_neg (Nat.not_lt_of_le hbase)] at h
  cases hread : m.perform cpu
      (.read i space.argBase (space.initialMemory.size - space.argBase.val)) with
  | mk x n =>
      rw [hread] at h
      obtain ⟨rfl, hkept, hn⟩ := hm.read hi hread
      obtain ⟨rfl, rfl⟩ := Prod.mk.inj h
      refine ⟨_, rfl, ?_, hkept, hn⟩
      have hreads : (alone i).reads space.argBase (space.initialMemory.size - space.argBase.val) =
          (newcomer space i).memory.read ⟨space.argBase.val⟩
            (space.initialMemory.size - space.argBase.val) := by
        rw [halone, Solo.reads, if_pos (show (newcomer space i).exitCode = none from rfl)]
        exact AddressSpace.reads_inside (show _ ≤ space.pageCount * pageSize by omega)
      rw [Option.getD_some, hreads]
      refine Memory.same_of_read rfl hbase fun c hc => ?_
      exact (Memory.byte_write_of_lt hc).symm

theorem plainMemories_spec {ps : List (ProcessNumber × Process)} {plain : Array Memory}
    {r : Except Stop (Array Memory)} (hmake : AddressSpace.make 0 image s.config = .ok space)
    (hm : s.Underway v alone m a)
    (halone : ∀ {i}, i < m.processes.size → alone i = newcomer space i)
    (hnumbers : ps.map (·.1) = List.range' plain.size ps.length)
    (hsize : plain.size + ps.length = m.processes.size)
    (hps : ∀ ip ∈ ps, IsNewcomer space ip.1 ip.2)
    (hplain : ∀ {i} {memory : Memory}, plain[i]? = some memory →
      memory.Same (newcomer space i).memory)
    (h : plainMemories ps plain m = (r, m')) :
    ∃ plain', r = .ok plain' ∧ plain'.size = m.processes.size ∧
      (∀ {i} {memory : Memory}, plain'[i]? = some memory →
        memory.Same (newcomer space i).memory) ∧
      m'.processes.size = m.processes.size ∧ s.Underway v alone m' a := by
  induction ps generalizing m plain with
  | nil =>
      obtain ⟨rfl, rfl⟩ := Prod.mk.inj h
      exact ⟨plain, rfl, hsize, hplain, rfl, hm⟩
  | cons ip rest ih =>
      obtain ⟨i, p⟩ := ip
      rw [List.length_cons] at hsize hnumbers
      rw [List.map_cons, List.range'_succ] at hnumbers
      obtain ⟨rfl, hrest⟩ := List.cons.inj hnumbers
      have hi : plain.size < m.processes.size := by omega
      unfold plainMemories at h
      cases hstep : plainMemory m plain.size p with
      | mk x n =>
          rw [hstep] at h
          obtain ⟨memory, rfl, hsame, hkept, hn⟩ :=
            plainMemory_spec hmake hm hi (halone hi) (hps _ List.mem_cons_self) hstep
          dsimp only at h
          rw [← hkept] at hsize halone ⊢
          refine ih hn halone (by rw [Array.size_push]; exact hrest)
            (by rw [Array.size_push]; omega) (fun ip hip => hps ip (List.mem_cons_of_mem _ hip))
            (fun {j memory'} hj => ?_) h
          rw [Array.getElem?_push] at hj
          split at hj
          · rename_i heq
            rw [heq, ← Option.some.inj hj]
            exact hsame
          · exact hplain hj

/-! ## Operations -/

/-- No process has exited, and each has in its memory what the operations so far have put there. -/
structure Alive (space : AddressSpace) (made : List Made) (solo : Solo) (i : ProcessNumber) :
    Prop where
  own : solo.space = space
  live : solo.exitCode = none
  memory : solo.memory = memoryAfter space i made

/-- So far all went well: no process has exited, the operations are those that were to be made, and
the plain memories hold what the processes would find if they were alone. -/
structure Run.Sound (s : Simulation) (v : ReliableView F) (space : AddressSpace) (g : Random.ChaCha)
    (alone : ProcessNumber → Solo) (a : Account) (r : Run F) : Prop where
  underway : s.Underway v alone r.machine a
  running : a.last cpu = r.running
  course : Course space r.machine.processes.size g r.made r.generator
  alive : ∀ {i}, i < r.machine.processes.size → Alive space r.made (alone i) i
  plain : Run.Keeps space r.machine.processes.size r.made r.plain

namespace Run.Sound

variable {r r' : Run F} {x : Except Stop Unit} {o : Operation}

/-- **A process that is to do something gets the processor.** -/
theorem turnTo {x : Except Halt Unit} (hr : r.Sound s v space g alone a)
    (hi : i < r.machine.processes.size) (h : r.turnTo i = (x, r')) :
    x = .ok () ∧ r'.machine.processes.size = r.machine.processes.size ∧ r'.running = some i ∧
      r'.made = r.made ∧ ∃ b, r'.Sound s v space g alone b := by
  unfold Run.turnTo at h
  split at h
  · rename_i hrunning
    obtain ⟨rfl, rfl⟩ := Prod.mk.inj h
    exact ⟨rfl, rfl, hrunning, rfl, a, hr⟩
  · cases hswitch : r.machine.perform cpu (.switch r.running i) with
    | mk y n =>
        rw [hswitch] at h
        have hrunner := hr.underway.runner fun hj => (hr.alive hj).live
        obtain ⟨rfl, hsize, hn⟩ :=
          hr.underway.switch (hr.running.symm.trans hrunner.symm) hi hswitch
        obtain ⟨rfl, rfl⟩ := Prod.mk.inj h
        refine ⟨rfl, hsize, rfl, rfl, _, hn, ?_, hsize ▸ hr.course, fun {j} hj => ?_,
          fun {j} hj => ?_⟩
        · rw [Account.last_setLast, if_pos rfl]
        · exact hr.alive (hsize ▸ hj)
        · exact hr.plain (hsize ▸ hj)

/-- **An operation moves what it moves in a memory that the process has to itself.** -/
theorem access {y : Except Halt (Option Context.Accessed)} (hr : r.Sound s v space g alone a)
    (hi : i < r.machine.processes.size) (hrunning : r.running = some i)
    (himage : space.image.pageCount = space.imagePages) (hfits : o.Fits space)
    (h : r.machine.perform cpu (.access i o.address o.size o.access) = (y, m')) :
    y = .ok (some { moved := o.movedIn (memoryAfter space i r.made), cause := none }) ∧
      m'.processes.size = r.machine.processes.size ∧
      ∃ alone' b, b.last = a.last ∧ s.Underway v alone' m' b ∧
        ∀ {j}, j < m'.processes.size →
          Alive space (⟨i, o, o.movedIn (memoryAfter space i r.made)⟩ :: r.made) (alone' j) j := by
  obtain ⟨hown, hlive, hmemory⟩ := hr.alive hi
  have hrunner : r.machine.runner a cpu = some i := by
    rw [hr.underway.runner fun hj => (hr.alive hj).live, hr.running, hrunning]
  obtain ⟨address, size, access⟩ := o
  obtain ⟨hinside, hbehind, hdata⟩ := hfits
  cases access with
  | load =>
      obtain ⟨rfl, hkept, hm⟩ := hr.underway.loads hi hlive hrunner (hown ▸ hinside) h
      refine ⟨by rw [hmemory, Operation.movedIn_load], hkept, alone, a, rfl, hm, fun {j} hj => ?_⟩
      obtain ⟨hown, hlive, hmemory⟩ := hr.alive (hkept ▸ hj)
      refine ⟨hown, hlive, ?_⟩
      simp only [memoryAfter, Access.after, ite_self]
      exact hmemory
  | store data =>
      obtain rfl : size = data.size := hdata data rfl
      have hstart : space.image.pageCount * pageSize ≤ address.val := himage ▸ hbehind rfl
      obtain ⟨rfl, hkept, b, hlast, hm⟩ :=
        hr.underway.stores hi hlive hrunner (hown ▸ hinside) (hown ▸ hstart) h
      refine ⟨rfl, hkept, _, b, hlast, hm, fun {j} hj => ?_⟩
      by_cases hji : i = j
      · subst hji
        rw [Function.update_self]
        refine ⟨hown, hlive, ?_⟩
        rw [memoryAfter, if_pos rfl, ← hmemory]
        rfl
      · rw [Function.update_of_ne (Ne.symm hji)]
        obtain ⟨hown, hlive, hmemory⟩ := hr.alive (hkept ▸ hj)
        refine ⟨hown, hlive, ?_⟩
        rw [memoryAfter, if_neg hji]
        exact hmemory

/-- **One operation is made**, that of the process whose turn it is. -/
theorem operate (hmake : AddressSpace.make 0 image s.config = .ok space)
    (hargs : 1 ≤ s.config.argPages) (hr : r.Sound s v space g alone a)
    (hp : r.machine.process? i = some p)
    (hturn : i = r.made.length % r.machine.processes.size) (h : r.operate i p = (x, r')) :
    x = .ok () ∧ r'.machine.processes.size = r.machine.processes.size ∧
      r'.made.length = r.made.length + 1 ∧ ∃ alone' b, r'.Sound s v space g alone' b := by
  have hi := Machine.lt_size_of_process? hp
  have hlayout := AddressSpace.eq_of_make hmake
  have hspace : p.space = space.withPid p.pid := by
    obtain ⟨q, hq, hplays⟩ := hr.underway.plays hi
    obtain rfl := Option.some.inj (hp.symm.trans hq)
    rw [hplays.space, (hr.alive hi).own]
  unfold Run.operate at h
  cases hturned : r.turnTo i with
  | mk y n =>
      rw [hturned] at h
      obtain ⟨rfl, hsize, hrunning, hmade, b, hn⟩ := hr.turnTo hi hturned
      rw [← hsize, ← hmade] at hturn ⊢
      rw [← hsize] at hi
      have hpages : 1 ≤ space.argPages := by
        rw [hlayout]
        exact hargs
      obtain ⟨o, g', hdraw, hfits⟩ := exists_draw? hpages n.generator
      have hdraw' : draw? p.space n.generator = some (o, g') := hspace ▸ hdraw
      dsimp only at h
      rw [hdraw'] at h
      cases haccess : n.machine.perform cpu (.access i o.address o.size o.access) with
      | mk z w =>
          dsimp only at h
          rw [haccess] at h
          obtain ⟨rfl, hkept, alone', b', hlast, hw, halive⟩ :=
            hn.access hi hrunning (by rw [hlayout]) hfits haccess
          obtain ⟨plain, hcompare, hplain⟩ := Run.Keeps.compare
            (r := { n with
              machine := w
              generator := g'
              made := ⟨i, o, o.movedIn (memoryAfter space i n.made)⟩ :: n.made })
            hn.plain hi hfits p.pid
          dsimp only at h
          rw [hcompare] at h
          obtain ⟨rfl, rfl⟩ := Prod.mk.inj h
          exact ⟨rfl, hkept, rfl, alone', b', hw, hlast ▸ hn.running,
            hkept ▸ .next hn.course hturn hdraw hfits, halive, hkept ▸ hplain⟩

/-- **However many operations there are, they are all made**, if there are processes. -/
theorem operateAll {count k : Nat} (hmake : AddressSpace.make 0 image s.config = .ok space)
    (hargs : 1 ≤ s.config.argPages) (hr : r.Sound s v space g alone a) (hk : r.made.length = k)
    (h : r.operateAll r.machine.processes.size count k = (x, r')) :
    x = .ok () ∧ r'.machine.processes.size = r.machine.processes.size ∧
      r'.made.length = (if r.machine.processes.size = 0 then k else k + count) ∧
      ∃ alone' b, r'.Sound s v space g alone' b := by
  generalize hsize : r.machine.processes.size = processes at h ⊢
  induction count generalizing r alone a k with
  | zero =>
      obtain ⟨rfl, rfl⟩ := Prod.mk.inj h
      exact ⟨rfl, hsize, by rw [hk, Nat.add_zero, ite_self], alone, a, hr⟩
  | succ count ih =>
      unfold Run.operateAll at h
      dsimp only at h
      rcases Nat.eq_zero_or_pos processes with rfl | hpos
      · have hnone : r.machine.process? (k % max 0 1) = none := by
          rw [Machine.process?, Array.getElem?_eq_none (by omega)]
          rfl
        rw [hnone] at h
        obtain ⟨rfl, rfl⟩ := Prod.mk.inj h
        exact ⟨rfl, hsize, hk.trans (if_pos rfl).symm, alone, a, hr⟩
      · rw [Nat.max_eq_left hpos] at h
        obtain ⟨p, hp, -⟩ := hr.underway.plays (i := k % processes)
          (by rw [hsize]; exact Nat.mod_lt k hpos)
        rw [hp] at h
        dsimp only at h
        cases hstep : r.operate (k % processes) p with
        | mk y n =>
            rw [hstep] at h
            obtain ⟨rfl, hkept, hlength, alone', b, hn⟩ :=
              hr.operate hmake hargs hp (by rw [hk, hsize]) hstep
            obtain ⟨rfl, hsize', hlength', hend⟩ :=
              ih hn (hlength.trans (congrArg (· + 1) hk)) (hkept.trans hsize) h
            refine ⟨rfl, hsize', hlength'.trans ?_, hend⟩
            rw [if_neg (Nat.ne_of_gt hpos), if_neg (Nat.ne_of_gt hpos)]
            omega

end Run.Sound

/-! ## The end -/

/-- **All processes exit**, the first `k` of which have exited before. -/
theorem exitAll_spec {ps : List (ProcessNumber × Process)} {k : Nat} {r : Except Stop Unit}
    (hm : s.Underway v alone m a) (hnumbers : ps.map (·.1) = List.range' k ps.length)
    (hsize : k + ps.length = m.processes.size)
    (hgone : ∀ {i}, i < m.processes.size → ((alone i).exitCode = none ↔ k ≤ i))
    (h : exitAll ps m = (r, m')) :
    r = .ok () ∧ m'.processes.size = m.processes.size ∧ ∃ alone', s.Underway v alone' m' a ∧
      ∀ {i}, i < m'.processes.size → (alone' i).exitCode ≠ none := by
  induction ps generalizing m alone k with
  | nil =>
      obtain ⟨rfl, rfl⟩ := Prod.mk.inj h
      refine ⟨rfl, rfl, alone, hm, fun {i} hi hlive => ?_⟩
      have hle := (hgone hi).1 hlive
      rw [List.length_nil] at hsize
      omega
  | cons ip rest ih =>
      obtain ⟨i, p⟩ := ip
      rw [List.length_cons] at hsize hnumbers
      rw [List.map_cons, List.range'_succ] at hnumbers
      obtain ⟨hk, hrest⟩ := List.cons.inj hnumbers
      obtain rfl : k = i := hk.symm
      have hi : k < m.processes.size := by omega
      unfold exitAll at h
      cases hexit : m.perform cpu (.exit k 0) with
      | mk x n =>
          rw [hexit] at h
          obtain ⟨rfl, hkept, hn⟩ := hm.exit hi ((hgone hi).2 (Nat.le_refl k)) hexit
          dsimp only at h
          rw [← hkept] at hsize ⊢
          refine ih hn hrest (by omega) (fun {j} hj => ?_) h
          by_cases hji : j = k
          · rw [hji, Function.update_self]
            simp
          · rw [Function.update_of_ne hji, hgone (hkept ▸ hj)]
            omega

/-! ## Whole simulations -/

/-- How many operations are made: none if there are no processes. -/
def madeCount (s : Simulation) : Nat := if s.processes = 0 then 0 else s.operations

/-- **All operations are made**, and then the processes exit. -/
theorem drive_spec {r : Except Stop (List Made)}
    (hmake : AddressSpace.make 0 image s.config = .ok space)
    (hargs : 1 ≤ s.config.argPages) (hm : s.Underway v alone m a)
    (halone : ∀ {i}, i < m.processes.size → alone i = newcomer space i)
    (hlast : a.last cpu = none) (hcount : m.processes.size = s.processes)
    (h : s.drive g m = (r, m')) :
    ∃ made g', r = .ok made ∧ made.length = s.madeCount ∧ Course space s.processes g made g' ∧
      ∃ alone' b, s.Underway v alone' m' b ∧
        ∀ {i}, i < m'.processes.size → (alone' i).exitCode ≠ none := by
  obtain ⟨hnumbers, hprocesses⟩ := processesOf_spec hm halone
  have hlength : (processesOf m).length = m.processes.size := by
    rw [← List.length_map, hnumbers, List.length_range]
  rw [List.range_eq_range', ← hlength] at hnumbers
  unfold drive at h
  dsimp only at h
  cases hplain : plainMemories (processesOf m) #[] m with
  | mk x n =>
      rw [hplain] at h
      obtain ⟨plain, rfl, hsize, hsame, hkept, hn⟩ := plainMemories_spec hmake hm halone hnumbers
        (by rw [Array.size_empty, Nat.zero_add, hlength]) hprocesses (fun hi => by simp at hi)
        hplain
      have hstart : ({ machine := n, plain, generator := g } : Run F).Sound
          s v space g alone a := by
        refine ⟨hn, hlast, .start, fun {i} hi => ?_, fun {i} hi => ?_⟩
        · rw [halone (hkept ▸ hi)]
          exact ⟨rfl, rfl, rfl⟩
        · have hi' : i < plain.size := by rw [hsize, ← hkept]; exact hi
          exact ⟨plain[i], Array.getElem?_eq_getElem hi', hsame (Array.getElem?_eq_getElem hi')⟩
      dsimp only at h
      have hall : ({ machine := n, plain, generator := g } :
          Run F).machine.processes.size = (processesOf m).length := hkept.trans hlength.symm
      have hnone : ({ machine := n, plain, generator := g } : Run F).made.length = 0 := rfl
      generalize ({ machine := n, plain, generator := g } : Run F) = run
        at h hstart hall hnone
      rw [← hall] at h
      cases hrun : run.operateAll run.machine.processes.size s.operations 0 with
      | mk y run' =>
          rw [hrun] at h
          obtain ⟨rfl, hmachine, hmade, alone', b, hend⟩ :=
            hstart.operateAll hmake hargs hnone hrun
          have hprocesses' : run.machine.processes.size = s.processes := by
            rw [hall, hlength, hcount]
          dsimp only at h
          cases hexit : exitAll (processesOf m) run'.machine with
          | mk z w =>
              rw [hexit] at h
              obtain ⟨rfl, -, alone'', hgone, hexited⟩ := exitAll_spec hend.underway hnumbers
                (by rw [hmachine, hall, Nat.zero_add])
                (fun {i} hi => ⟨fun _ => Nat.zero_le i, fun _ => (hend.alive hi).live⟩) hexit
              obtain ⟨rfl, rfl⟩ := Prod.mk.inj h
              refine ⟨run'.made, run'.generator, rfl, ?_, ?_, alone'', b, hgone, hexited⟩
              · rw [hmade, hprocesses', Nat.zero_add, madeCount]
              · rw [← hprocesses', ← hmachine]
                exact hend.course

/-- What comes of a simulation: on demand it always ends well, and with all pages loaded at the
start exactly if there are frames for them, and then no page is ever moved.  Nothing else is
complained about, nothing comes to a halt, and the swap file is gone.  If it ends well then all its
operations were made, and moved what they move if every process has a memory to itself. -/
structure Verifies (s : Simulation) (space : AddressSpace) (g : Random.ChaCha)
    (r : Except Stop Record) (k : Kernel F) : Prop where
  demand : s.strategy = .demand → ∃ record, r = .ok record
  eager : s.strategy = .eager →
    ((∃ record, r = .ok record) ↔ s.processes * space.pageCount ≤ s.config.frames)
  stop : ∀ {stop}, r = .error stop → ∃ i e, stop = .complaint (.notLoaded i e)
  made : ∀ {record}, r = .ok record → record.made.length = s.madeCount ∧
    ∃ g', Course space s.processes g record.made g'
  counters : ∀ {record}, r = .ok record → record.counters = k.core.counters
  still : s.strategy = .eager → k.core.counters.evictions = 0 ∧ k.core.counters.swapWrites = 0 ∧
    k.core.counters.swapReads = 0
  swapFile : s.config.swapFile ∉ k.files

omit [BackingFile F] in
theorem still_of_traffic {c : Counters} (h : c.traffic = 0) :
    c.evictions = 0 ∧ c.swapWrites = 0 ∧ c.swapReads = 0 := by
  simp only [Counters.traffic] at h
  omega

/-- With all pages loaded at the start no page is ever moved. -/
theorem Underway.traffic (hm : s.Underway v alone m a) (heager : s.strategy = .eager) :
    m.kernel.core.counters.traffic = 0 := by
  have hprovides := hm.provides
  rw [heager] at hprovides
  obtain _ | ⟨-, -, htraffic⟩ := hprovides
  exact htraffic

/-- How a simulation ends: well, with all operations made, or because there are too few frames to
load all pages. -/
inductive Ends (s : Simulation) (space : AddressSpace) (g : Random.ChaCha) (counters : Counters) :
    Except Stop Record → Prop
  | well {made : List Made} {g' : Random.ChaCha} (hlength : made.length = s.madeCount)
    (hcourse : Course space s.processes g made g')
    (hroom : s.strategy = .eager → s.processes * space.pageCount ≤ s.config.frames) :
    Ends s space g counters (.ok ⟨made, counters⟩)
  | full {i : ProcessNumber} {e : PagingError} (heager : s.strategy = .eager)
    (hfull : s.config.frames < s.processes * space.pageCount) :
    Ends s space g counters (.error (.complaint (.notLoaded i e)))

/-- **A simulation on a machine without processes** ends well, unless there are too few frames to
load all pages. -/
theorem workload_spec {r : Except Stop Record}
    (hmake : AddressSpace.make 0 image s.config = .ok space) (hargs : 1 ≤ s.config.argPages)
    (hprocesses : s.processes ≤ wordLimit) (hm : s.Underway v alone m a)
    (hempty : m.processes.size = 0) (hlast : a.last cpu = none)
    (h : s.workload image g m = (r, m')) :
    m'.kernel.config = s.config ∧
      (s.strategy = .eager → m'.kernel.core.counters.traffic = 0) ∧
      s.Ends space g m'.kernel.core.counters r := by
  unfold workload at h
  cases hload : s.loadAll image s.processes 0 m with
  | mk x n =>
      rw [hload] at h
      rw [← hempty] at hload
      rcases loadAll_spec hmake hargs hm (fun hi => by omega) (by omega) hload with
        ⟨rfl, hsize, hroom, alone', b, hb, hn, halone⟩ |
        ⟨⟨i, e, rfl⟩, heager, hfull, hconfig, htraffic⟩
      · rw [hempty, Nat.zero_add] at hsize
        dsimp only at h
        cases hdrive : s.drive g n with
        | mk y w =>
            rw [hdrive] at h
            obtain ⟨made, g', rfl, hlength, hcourse, alone'', b', hw, hgone⟩ :=
              drive_spec hmake hargs hn halone (hb ▸ hlast) hsize hdrive
            dsimp only at h
            rw [hw.verdict hgone] at h
            obtain ⟨rfl, rfl⟩ := Prod.mk.inj h
            exact ⟨hw.config, hw.traffic, .well hlength hcourse fun heager => hsize ▸ hroom heager⟩
      · obtain ⟨rfl, rfl⟩ := Prod.mk.inj h
        rw [hempty, Nat.zero_add] at hfull
        exact ⟨hconfig, fun _ => htraffic, .full heager hfull⟩

omit [BackingFile F] in
/-- **What is to be said of a simulation** can be told from how it ended. -/
theorem Ends.verifies {k : Kernel F} {r : Except Stop Record} (h : s.Ends space g k.core.counters r)
    (pid : Pid) (htraffic : s.strategy = .eager → k.core.counters.traffic = 0)
    (hfile : s.config.swapFile ∉ k.files) : s.Verifies (space.withPid pid) g r k := by
  have hstill := fun heager => still_of_traffic (htraffic heager)
  cases h with
  | @well made g' hlength hcourse hroom =>
      exact {
        demand := fun _ => ⟨_, rfl⟩
        eager := fun heager => ⟨fun _ => hroom heager, fun _ => ⟨_, rfl⟩⟩
        stop := nofun
        made := fun hr => Except.ok.inj hr ▸ ⟨hlength, g', hcourse.withPid pid⟩
        counters := fun hr => Except.ok.inj hr ▸ rfl
        still := hstill
        swapFile := hfile }
  | @full i e heager hfull =>
      exact {
        demand := fun hdemand => by cases hdemand.symm.trans heager
        eager := fun _ => ⟨nofun, fun hroom => absurd hroom (Nat.not_le.2 hfull)⟩
        stop := fun hr => ⟨i, e, (Except.error.inj hr).symm⟩
        made := nofun
        counters := nofun
        still := hstill
        swapFile := hfile }

/-- A machine that was just brought up has no processes, and nothing has run out. -/
theorem underway_of_boot {files : List String} {file : F} {k : Kernel F} {journal : Journal}
    (hgood : v.good file) (h : Kernel.boot s.config files (some file) = (.ok k, journal)) :
    s.Underway v (fun _ => default) (s.machine k) {} := by
  have hview : ∀ w, some v.toFileView = some w → w.good file :=
    fun w hw => Option.some.inj hw ▸ hgood
  obtain ⟨seat, horder⟩ := (Machine.inOrder_of_boot hview h).addCpu s.config.tlbSlots
  obtain ⟨hample, hconfig⟩ := Machine.ample_of_boot hgood h
  obtain ⟨husable, hk⟩ := Machine.eq_of_boot h
  have hslots : 0 < s.config.tlbSlots := by
    simp only [MachineConfig.usable, Bool.and_eq_true, decide_eq_true_eq] at husable
    exact husable.1.1.2
  have hmachine := Machine.ample_addCpu (m := { kernel := k }) hample hslots
  refine ⟨⟨_, seat, horder⟩, ?_, hconfig, ?_, ⟨_, rfl⟩, fun hi => by cases hi⟩
  · cases s.strategy with
    | demand => exact .demand hmachine
    | eager =>
        refine .eager ⟨horder.kernel.toConsistent, fun {pid pages} hspace => ?_⟩ hmachine.slots ?_
        · have hnone : k.core.spaces[pid]? = none := by
            rw [hk]
            exact Std.ExtTreeMap.getElem?_empty
          cases hnone.symm.trans hspace
        · show k.core.counters.traffic = 0
          rw [hk]
          rfl
  · show k.core.frames.size = s.config.frames
    rw [hk]
    rfl

/-- After a shutdown the swap file is gone, and nothing else has changed that is counted. -/
theorem shutdown_spec (k : Kernel F) :
    k.shutdown.core.counters = k.core.counters ∧ k.config.swapFile ∉ k.shutdown.files := by
  unfold Kernel.shutdown
  dsimp only
  split
  · exact ⟨rfl, by simp [Kernel.note, Kernel.setPaging]⟩
  · exact ⟨rfl, by simp [Kernel.note, Kernel.setPaging]⟩

/-- **Every simulation comes out right**, if its settings can be used, its program can be loaded
with an argument, and its swap file never fails. -/
theorem run_verifies {files : List String} {file : F} {pid : Pid} (hgood : v.good file)
    (hcheck : s.config.check = .ok ()) (hargs : 1 ≤ s.config.argPages)
    (hmake : AddressSpace.make pid image s.config = .ok space)
    (hprocesses : s.processes < wordLimit)
    (g : Random.ChaCha) :
    ∃ k journal, Kernel.boot s.config files (some file) = (.ok k, journal) ∧
      s.Verifies space g (s.run image g k).1 (s.run image g k).2 := by
  obtain ⟨k, journal, hboot⟩ : ∃ k journal,
      Kernel.boot s.config files (some file) = (.ok k, journal) := by
    unfold Kernel.boot
    rw [hcheck]
    exact ⟨_, _, rfl⟩
  refine ⟨k, journal, hboot, ?_⟩
  rw [AddressSpace.make_withPid] at hmake
  cases hmade : AddressSpace.make 0 image s.config with
  | error e =>
      rw [hmade] at hmake
      cases hmake
  | ok made =>
      rw [hmade] at hmake
      obtain rfl := Except.ok.inj hmake
      cases hwork : s.workload image g (s.machine k) with
      | mk r m =>
          obtain ⟨hconfig, htraffic, hend⟩ :=
            workload_spec hmade hargs (Nat.le_of_lt hprocesses) (underway_of_boot hgood hboot) rfl
              rfl hwork
          obtain ⟨hcounters, hfiles⟩ := shutdown_spec m.kernel
          have hrun : s.run image g k = (r, m.kernel.shutdown) := by
            unfold run
            rw [hwork]
            cases hend <;> rfl
          rw [hrun]
          rw [← hcounters] at hend
          exact hend.verifies pid (fun heager => hcounters ▸ htraffic heager) (hconfig ▸ hfiles)

/-- Two processes of the built-in program run on demand in fewer frames than one of them has
pages. -/
theorem verifies_in_three_frames :
    ∃ (s : Simulation) (space : AddressSpace) (k : Kernel MemoryFile) (journal : Journal),
      s.strategy = .demand ∧ s.processes = 2 ∧ s.config.frames < space.pageCount ∧
      AddressSpace.make 0 builtinImage s.config = .ok space ∧
      Kernel.boot s.config [] (some ({} : MemoryFile)) = (.ok k, journal) ∧
      s.Verifies space s.generator (s.run builtinImage s.generator k).1
        (s.run builtinImage s.generator k).2 := by
  have hmake : AddressSpace.make 0 builtinImage (.withFrames 3 2) = .ok _ :=
    make_builtinImage (by decide)
  obtain ⟨s, hs⟩ : ∃ s : Simulation, s = { config := .withFrames 3 2, processes := 2, seed := 7 } :=
    ⟨_, rfl⟩
  have hconfig : s.config = .withFrames 3 2 := by rw [hs]
  have hprocesses : s.processes = 2 := by rw [hs]
  rw [← hconfig] at hmake
  obtain ⟨k, journal, hboot, hverifies⟩ := run_verifies (v := MemoryFile.reliableView) trivial
    (by rw [hconfig]; rfl) (by rw [hconfig]; decide) hmake (by rw [hprocesses]; decide) s.generator
  exact ⟨s, _, k, journal, by rw [hs], hprocesses, by rw [hconfig]; decide, hmake, hboot, hverifies⟩

end Simulation

namespace CommandLine

variable {m : Type → Type} [Monad m] [Host m]

/-- **A simulation on demand removes its swap file and reports the counters**, on any host that puts
no end to the growth of the file. -/
theorem simulate_reports {s : Simulation} {image : Image} {space : AddressSpace} {pid : Pid}
    {files : List String} {file : HostFile} {k : Kernel HostFile} {journal : Journal}
    (hboot : Kernel.boot s.config files (some file) = (.ok k, journal)) (hfile : file.limit = none)
    (hdemand : s.strategy = .demand) (hargs : 1 ≤ s.config.argPages)
    (hmake : AddressSpace.make pid image s.config = .ok space)
    (hprocesses : s.processes < wordLimit)
    (path : String) :
    ∃ record k', s.run image s.generator k = (.ok record, k') ∧
      s.Verifies space s.generator (.ok record) k' ∧
      (simulate path s k image : m Outcome) = do
        Host.removeFile path
        return { stdout := shown k'.journal ++ report k'.core.counters } := by
  have hcheck : s.config.check = .ok () := by
    obtain ⟨husable, -⟩ := Machine.eq_of_boot hboot
    exact if_pos husable
  have hverifies : ∃ k journal, Kernel.boot s.config files (some file) = (.ok k, journal) ∧
      s.Verifies space s.generator (s.run image s.generator k).1 (s.run image s.generator k).2 :=
    Simulation.run_verifies (v := HostFile.reliableView) hfile hcheck hargs hmake hprocesses _
  obtain ⟨k₀, journal₀, hboot₀, hverifies⟩ := hverifies
  obtain rfl : k₀ = k := Except.ok.inj (congrArg Prod.fst (hboot₀.symm.trans hboot))
  cases hrun : s.run image s.generator k₀ with
  | mk r k' =>
      rw [hrun] at hverifies
      obtain ⟨record, rfl⟩ := hverifies.demand hdemand
      refine ⟨record, k', rfl, hverifies, ?_⟩
      rw [simulate, hrun, ← hverifies.counters rfl]

end CommandLine

end DemandPaging
