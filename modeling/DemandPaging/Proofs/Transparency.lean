import DemandPaging.Proofs.SmoothRun
import Mathlib

/-!
# No process notices paging

Two machines have different numbers of frames, TLB slots and processors, other seeds and other
processes.  If the same program is loaded on both and does the same on both, the same comes of it:
nothing that it is answered tells where its pages were, which pages had to make room for them, or
who had the frames before.

* `Machine.Alike` — two processes of which the same comes.
* `Machine.transparent` — a program is loaded on two machines to the same effect, and its processes
  are alike as long as they do the same.
-/

namespace DemandPaging

variable {F G : Type} [BackingFile F] [BackingFile G]

namespace Machine

variable {v : ReliableView F} {w : ReliableView G} {m : Machine F} {n : Machine G}
  {config config' : MachineConfig} {a b : Account} {log log' : List Record} {cpu : CpuNumber}
  {c : Processor} {i j : ProcessNumber} {alone alone' : ProcessNumber → Solo}

/-- What loading a program on a processor is answered with, and the registers that its process
starts with. -/
def start (m : Machine F) (cpu : CpuNumber) (image : Image) (args : List String) :
    Except Halt (Option (Except PagingError (Option Registers))) :=
  let (r, m') := m.perform cpu (.load image args .demand)
  r.map (·.map (·.map fun i => (m'.process? i).map (·.registers)))

/-- Whether a program can be loaded is known from the program and the settings. -/
theorem Tracked.start (hm : m.Tracked v config alone a log) (hc : m.cpu? cpu = some c)
    (image : Image) (args : List String) :
    m.start cpu image args =
      if AddressSpace.overruns image args config then .error .overflow
      else .ok (some ((Solo.load image args config).map fun s => some s.registers)) := by
  obtain ⟨tenants, seat, hin⟩ := hm.inOrder
  unfold Machine.start
  simp only [Machine.perform, hc]
  cases hload : m.load c image args .demand with
  | mk x m' =>
      have hends := Solo.plays_of_load hin (Kernel.ready_of_ample hm.ample) hload
      rw [hm.settings] at hends
      rcases hends with ⟨hwords, rfl⟩ |
        ⟨hwords, ⟨e, halone, rfl, -⟩ | ⟨s, p, halone, rfl, hprocesses, hplays⟩⟩
      · rw [hwords]
        rfl
      · rw [hwords, halone]
        rfl
      · have hnew : m'.process? m.processes.size = some p :=
          (process?_push hprocesses).trans (if_pos rfl)
        rw [hwords, if_neg Bool.false_ne_true, halone]
        simp only [Except.map, Option.map_some, hnew, hplays.registers]

/-- Two processes cannot tell on which of two machines they are: so far the same came of all they
did, both have exited with the same status or not at all, and the same comes of whatever they do
next. -/
structure Alike (m : Machine F) (a : Account) (log : List Record) (i : ProcessNumber)
    (n : Machine G) (b : Account) (log' : List Record) (j : ProcessNumber) : Prop where
  diary : diary i log = diary j log'
  exitCode : ∀ {p q}, m.process? i = some p → n.process? j = some q → p.exitCode = q.exitCode
  ask : ∀ {cpu cpu' d}, m.Allows a cpu (d.request i) → n.Allows b cpu' (d.request j) →
    (m.context? cpu i).isSome = true → (n.context? cpu' j).isSome = true →
    m.ask cpu i d = n.ask cpu' j d

/-- A program cannot tell on which of two machines it is: it can be loaded on both or on neither,
for the same reason, and processes that were loaded on both and did the same since then are
alike. -/
structure Indistinguishable (image : Image) (args : List String) (m : Machine F) (a : Account)
    (log : List Record) (n : Machine G) (b : Account) (log' : List Record) : Prop where
  start : ∀ {cpu cpu'}, (m.cpu? cpu).isSome = true → (n.cpu? cpu').isSome = true →
    m.start cpu image args = n.start cpu' image args
  loaded : ∀ {r r'}, .loaded image args r ∈ log → .loaded image args r' ∈ log' →
    (∃ e, r = .error e ∧ r' = .error e) ∨
      ∃ i j registers, r = .ok (i, some registers) ∧ r' = .ok (j, some registers) ∧
        (deeds i log = deeds j log' → Alike m a log i n b log' j)

/-- What a process is answered is known from what it did. -/
theorem Tracked.ask (hm : m.Tracked v config alone a log) {d : Deed}
    (hallows : m.Allows a cpu (d.request i)) (hcontext : (m.context? cpu i).isSome = true) :
    m.ask cpu i d = (((alone i).after (deeds i log)).perform d).1.map some := by
  obtain ⟨x, hx⟩ := Option.isSome_iff_exists.1 hcontext
  unfold context? at hx
  split at hx
  · rename_i c p hc hp
    exact (hm.does hc hp hallows rfl).1
  · cases hx

/-- Processes that would be the same if they were alone are alike once they have done the same. -/
theorem Tracked.alike (hm : m.Tracked v config alone a log)
    (hn : n.Tracked w config' alone' b log') (hi : Follows (alone i) m a log i)
    (hj : Follows (alone' j) n b log' j) (halone : alone i = alone' j)
    (hdeeds : deeds i log = deeds j log') : Alike m a log i n b log' j where
  diary := by rw [hi.diary, hj.diary, halone, hdeeds]
  exitCode hp hq := by
    rw [(hi.plays hp).exitCode, (hj.plays hq).exitCode, halone, hdeeds]
  ask := by
    intro cpu cpu' d hallows hallows' hcontext hcontext'
    rw [hm.ask hallows hcontext, hn.ask hallows' hcontext', halone, hdeeds]

/-- A program was loaded, or was not, as it would have been alone. -/
theorem Tracked.exists_alone (hm : m.Tracked v config alone a log) {image : Image}
    {args : List String} {r : Except PagingError (ProcessNumber × Option Registers)}
    (hr : .loaded image args r ∈ log) :
    (∃ e, Solo.load image args config = .error e ∧ r = .error e) ∨
      ∃ i, Solo.load image args config = .ok (alone i) ∧
        r = .ok (i, some (alone i).registers) ∧ Follows (alone i) m a log i := by
  cases r with
  | error e => exact Or.inl ⟨e, hm.refused hr, rfl⟩
  | ok born =>
      obtain ⟨-, hload, hregisters, hfollows⟩ := hm.loaded hr
      exact Or.inr ⟨born.1, hload, congrArg Except.ok (Prod.ext rfl hregisters), hfollows⟩

/-- **Paging is transparent.**  Two machines may have other numbers of frames, TLB slots, tries at a
victim and processors, other seeds and other processes, and swap files of another kind.  As long as
nothing runs out and processes get equally many stack and argument pages, no program can tell them
apart. -/
theorem transparent (hm : Smooth v config m a log) (hn : Smooth w config' n b log')
    (hstack : config.stackPages = config'.stackPages) (hargs : config.argPages = config'.argPages)
    (image : Image) (args : List String) : Indistinguishable image args m a log n b log' := by
  obtain ⟨alone, hm⟩ := hm.tracked
  obtain ⟨alone', hn⟩ := hn.tracked
  -- Neither machine is compared with the other: both are compared with the program alone.
  have hsame := Solo.load_congr hstack hargs image args
  have hwords : AddressSpace.overruns image args config =
      AddressSpace.overruns image args config' := by
    rw [AddressSpace.overruns, AddressSpace.overflows, hstack, hargs]
    rfl
  refine ⟨fun {cpu cpu'} hcpu hcpu' => ?_, fun {r r'} hr hr' => ?_⟩
  · obtain ⟨c, hc⟩ := Option.isSome_iff_exists.1 hcpu
    obtain ⟨c', hc'⟩ := Option.isSome_iff_exists.1 hcpu'
    rw [hm.start hc, hn.start hc', hsame, hwords]
  · rcases hm.exists_alone hr with ⟨e, hload, rfl⟩ | ⟨i, hload, rfl, hi⟩ <;>
      rcases hn.exists_alone hr' with ⟨e', hload', rfl⟩ | ⟨j, hload', rfl, hj⟩ <;>
      rw [← hsame, hload] at hload'
    · exact Or.inl ⟨e, rfl, congrArg Except.error (Except.error.inj hload').symm⟩
    · cases hload'
    · cases hload'
    · have halone : alone i = alone' j := Except.ok.inj hload'
      exact Or.inr ⟨i, j, _, rfl, by rw [halone], hm.alike hn hi hj halone⟩

set_option maxRecDepth 100000 in
/-- A process on a machine with one frame has written to a page and lost it again. -/
theorem smooth_after_eviction :
    ∃ (m : Machine MemoryFile) (a : Account) (log : List Record) (registers : Option Registers),
      Smooth MemoryFile.reliableView (.withFrames 1 1) m a log ∧ m.kernel.swap.writes = 1 ∧
      .loaded (.assembled { entry := 0 }) [] (.ok (0, registers)) ∈ log ∧
      deeds 0 log = [.read ⟨2048⟩ 1, .write ⟨5⟩ #[1, 2, 3]] := by
  have hboot : Kernel.boot (.withFrames 1 1) [] (some ({} : MemoryFile)) = (.ok _, _) := rfl
  have hloaded := ((Smooth.boot (v := MemoryFile.reliableView) trivial hboot).addCpu
    (by decide : 0 < 1)).after 0 (.load (.assembled { entry := 0 }) [] .demand) (.ok 0) rfl
      (by decide_cbv)
  obtain ⟨m, a, log, hm, hdeeds, hwrites⟩ := hloaded.serve rfl 0 0
    [.write ⟨5⟩ #[1, 2, 3], .read ⟨2048⟩ 1] (fun m => m.kernel.swap.writes == 1) (by decide_cbv)
  exact ⟨m, a, _, _, hm, beq_iff_eq.1 hwrites, List.mem_append_right _ List.mem_cons_self, hdeeds⟩

set_option maxRecDepth 100000 in
/-- Another process of the same program shares four frames with a process that was there before. -/
theorem smooth_beside_another :
    ∃ (m : Machine MemoryFile) (a : Account) (log : List Record) (registers : Option Registers),
      Smooth MemoryFile.reliableView (.withFrames 4 2) m a log ∧ m.kernel.swap.writes = 0 ∧
      .loaded (.assembled { entry := 0 }) [] (.ok (1, registers)) ∈ log ∧
      deeds 1 log = [.read ⟨2048⟩ 1, .write ⟨5⟩ #[1, 2, 3]] := by
  have hboot : Kernel.boot (.withFrames 4 2) [] (some ({} : MemoryFile)) = (.ok _, _) := rfl
  have hother := ((Smooth.boot (v := MemoryFile.reliableView) trivial hboot).addCpu
    (by decide : 0 < 2)).after 0 (.load (.assembled { entry := 0 }) [] .demand) (.ok 0) rfl
      (by decide_cbv)
  have hloaded := hother.after 0 (.load (.assembled { entry := 0 }) [] .demand) (.ok 1) rfl
    (by decide_cbv)
  obtain ⟨m, a, log, hm, hdeeds, hwrites⟩ := hloaded.serve rfl 0 1
    [.write ⟨5⟩ #[1, 2, 3], .read ⟨2048⟩ 1] (fun m => m.kernel.swap.writes == 0) (by decide_cbv)
  exact ⟨m, a, _, _, hm, beq_iff_eq.1 hwrites, List.mem_append_right _ List.mem_cons_self, hdeeds⟩

/-- A process whose page has lost the only frame is like one that shares four frames with another
process and has lost none. -/
theorem alike_after_eviction :
    ∃ (m n : Machine MemoryFile) (a b : Account) (log log' : List Record),
      m.kernel.swap.writes = 1 ∧ n.kernel.swap.writes = 0 ∧
      deeds 0 log = [.read ⟨2048⟩ 1, .write ⟨5⟩ #[1, 2, 3]] ∧ Alike m a log 0 n b log' 1 := by
  obtain ⟨m, a, log, registers, hm, hwrites, hmem, hdeeds⟩ := smooth_after_eviction
  obtain ⟨n, b, log', registers', hn, hwrites', hmem', hdeeds'⟩ := smooth_beside_another
  refine ⟨m, n, a, b, log, log', hwrites, hwrites', hdeeds, ?_⟩
  have hsame := transparent hm hn rfl rfl (.assembled { entry := 0 }) []
  rcases hsame.loaded hmem hmem' with ⟨e, herror, -⟩ | ⟨i, j, r, hi, hj, halike⟩
  · cases herror
  · cases hi
    cases hj
    exact halike (hdeeds.trans hdeeds'.symm)

end Machine

end DemandPaging
