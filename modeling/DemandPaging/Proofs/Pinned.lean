import DemandPaging.Proofs.EagerLoad
import Mathlib

/-!
# Pinned pages stay put

A process whose pages are all loaded before it starts keeps every page in the frame that it was
loaded into, for as long as it lives.  Others may take what frames are left.

* `Machine.Until` — what may happen to a machine until a process exits.
* `Machine.staysPut_of_loaded` — until then, the pages of a preloaded process stay where they are.
-/

namespace DemandPaging

open Paging

variable {F : Type} [BackingFile F]

/-! ## As long as the process lives -/

/-- Is the address space of a process to be taken away without the process being asked? -/
def Request.evicts (pid : Pid) {α : Type} : Request α → Prop
  | .destroySpace p => p = pid
  | _ => False

namespace Machine

/-- What may happen to a machine until a process exits: processors come and go, and all requests are
made, with any answers, but the process is still there and its address space is not taken from it
behind its back. -/
inductive Until (i : ProcessNumber) (m : Machine F) : Machine F → Prop
  | here : Until i m m
  | addCpu {n : Machine F} (h : Until i m n) (slots : Nat) : Until i m (n.addCpu slots)
  | dropCpu {n : Machine F} (h : Until i m n) (cpu : CpuNumber) : Until i m (n.dropCpu cpu)
  | perform {n n' : Machine F} {cpu : CpuNumber} {α : Type} {request : Request α}
    {r : Except Halt (Option α)} (h : Until i m n) (hp : n.perform cpu request = (r, n'))
    (hkeeps : ∀ p, n.process? i = some p → ¬ request.evicts p.pid) (hlive : n'.isLive i = true) :
    Until i m n'

/-- The pages of a process are where they were at an earlier time. -/
structure StaysPut (m n : Machine F) (p : Process) : Prop where
  /-- Every page is resident in the frame that it had, which is its own for good, and it is found
  there without any change. -/
  page : ∀ {q : PageNumber}, q.val < p.space.pageCount → ∃ d e f,
    m.kernel.core.table[(⟨p.pid, q⟩ : PageKey)]? = some d ∧ d.frame = some f ∧
    n.kernel.core.table[(⟨p.pid, q⟩ : PageKey)]? = some e ∧ e.valid = true ∧ e.frame = some f ∧
    n.kernel.core.frames.owner f = some ⟨⟨p.pid, q⟩, true⟩ ∧
    ∀ tlb retries, n.kernel.toPaging.translate .eager tlb retries p.space q =
      (.ok e, n.kernel.toPaging)
  slot : ∀ {q : PageNumber}, n.kernel.swap.slots[(⟨p.pid, q⟩ : PageKey)]? = none

variable {m n n' : Machine F} {cpu : CpuNumber} {i : ProcessNumber} {p : Process}

theorem Until.after {α : Type} (h : Until i m n) (cpu : CpuNumber) (request : Request α)
    (hkeeps : ∀ p, n.process? i = some p → ¬ request.evicts p.pid)
    (hlive : (n.perform cpu request).2.isLive i = true) : Until i m (n.perform cpu request).2 :=
  h.perform (Prod.eta (n.perform cpu request)).symm hkeeps hlive

omit [BackingFile F] in
/-- **No request takes a page from a process that is live afterwards.** -/
theorem not_loses {α : Type} {request : Request α} (hn : n.Named) (hids : n.kernel.pids.Sound)
    (hp : n.process? i = some p) (hkeeps : ¬ request.evicts p.pid) (hlive : n'.isLive i = true) :
    ¬ n.fates n' request (.loses p.pid) := by
  intro hfate
  obtain ⟨q, hq, hexit⟩ := isLive_iff.1 hlive
  cases request with
  | load image args strategy =>
      rcases hfate with heq | heq | ⟨-, heq⟩ | heq
      · cases heq
      · exact hids.alloc.1 (Fate.loses.inj heq ▸ hn.held hp)
      · cases heq
      · cases heq
  | exit j | access j | trap j =>
      obtain ⟨r, s, hr, hs, hgone, heq⟩ := hfate
      obtain rfl := hn.distinct hp hr (Fate.loses.inj heq)
      obtain rfl := Option.some.inj (hq.symm.trans hs)
      exact hgone hexit
  | destroySpace pid => exact hkeeps (Fate.loses.inj hfate).symm
  | drop =>
      obtain ⟨_, -, -, heq⟩ := hfate
      cases heq
  | switch | read | write | readText | resolveMiss | accessPage => exact hfate

/-- **Until it exits, a process keeps its pages** where they are. -/
theorem Until.preloaded {place : PageNumber → FrameNumber} (h : Until i m n) (hm : Reached m)
    (hp : m.process? i = some p) (hplace : m.kernel.Preloaded p.pid p.space.pageCount place) :
    Reached n ∧ ∃ q, n.process? i = some q ∧ p.Becomes q ∧
      n.kernel.Preloaded p.pid p.space.pageCount place := by
  induction h with
  | here => exact ⟨hm, p, hp, .refl p, hplace⟩
  | addCpu _ slots ih =>
      obtain ⟨hn, q, hq, hpq, hpre⟩ := ih
      exact ⟨hn.addCpu slots, q, hq, hpq, hpre.of_same (fun _ => rfl) rfl rfl⟩
  | @dropCpu n _ cpu ih =>
      obtain ⟨hn, q, hq, hpq, hpre⟩ := ih
      refine ⟨hn.dropCpu cpu, q, ?_, hpq, ?_⟩ <;> unfold Machine.dropCpu <;> split
      · exact hq
      · exact hq
      · exact hpre
      · exact hpre.of_same (fun _ => rfl) rfl rfl
  | @perform n n' cpu α request r _ hstep hkeeps hlive ih =>
      obtain ⟨hn, q, hq, hpq, hpre⟩ := ih
      refine ⟨hn.perform hstep, ?_⟩
      obtain ⟨q', hq', -⟩ := isLive_iff.1 hlive
      have hnot := not_loses hn.named hn.sound_pids hq (hkeeps q hq) hlive
      rw [hpq.pid] at hnot
      rcases becomes_of_perform hn.consistent hstep hq' with ⟨s, hs, hsq⟩ | ⟨hsize, -⟩
      · obtain rfl := Option.some.inj (hq.symm.trans hs)
        exact ⟨q', hq', hpq.trans hsq,
          (perform_evolves hn.consistent hstep).changes.preloaded hn.consistent hnot hpre⟩
      · exact absurd (lt_size_of_process? hq) (hsize ▸ Nat.lt_irrefl _)

/-- **Pinned pages stay put.**  A process that was loaded with all its pages has each of them in
the same frame until it exits, whatever others do meanwhile. -/
theorem staysPut_of_loaded {m₀ : Machine F} {image : Image} {args : List String} (h : Reached m₀)
    (hload : m₀.perform cpu (.load image args .eager) = (.ok (some (.ok i)), m))
    (hn : Until i m n) :
    ∃ p q, m.process? i = some p ∧ p.strategy = .eager ∧ n.process? i = some q ∧ p.Becomes q ∧
      m.StaysPut n p := by
  have hm := h.perform hload
  obtain ⟨p, tlb, hp, hloaded⟩ := loaded_of_perform h.consistent hload
  obtain ⟨place, hplace⟩ := hloaded.preloaded h.consistent
  obtain ⟨hn, q, hq, hpq, hplace'⟩ := hn.preloaded hm hp hplace
  have hspace : p.space.pid = p.pid := Kernel.space_pid_of_make hloaded.space
  refine ⟨p, q, hp, hloaded.strategy, hq, hpq, fun {r} hr => ?_, hplace'.slot rfl⟩
  obtain ⟨d, hd, hdf⟩ := hplace.entry hm.consistent.toAgrees hr
  obtain ⟨e, he, hef⟩ := hplace'.entry hn.consistent.toAgrees hr
  refine ⟨d, e, place r, hd, (Translation.maps_iff.1 hdf).2, he, Translation.valid_of_maps hef,
    (Translation.maps_iff.1 hef).2, hplace'.owner hr, fun tlb retries => ?_⟩
  rw [← hspace] at hplace' he
  exact hplace'.translate hn.consistent.toAgrees hr he tlb retries

set_option maxRecDepth 100000 in
/-- On a machine with one frame more than a preloaded process needs, two pages of another process
have had to share that frame. -/
theorem staysPut_after_eviction :
    ∃ m₀ m n : Machine MemoryFile,
      m₀.perform 0 (.load (.assembled { entry := 0 }) [] .eager) = (.ok (some (.ok 0)), m) ∧
        n.kernel.swap.writes = 1 ∧ ∃ p, m.process? 0 = some p ∧ m.StaysPut n p := by
  suffices hruns : ∃ m₀ n : Machine MemoryFile, Reached m₀ ∧
      m₀.answer? 0 (.load (.assembled { entry := 0 }) [] .eager) = some (.ok 0) ∧
      Until 0 (m₀.perform 0 (.load (.assembled { entry := 0 }) [] .eager)).2 n ∧
      n.kernel.swap.writes = 1 by
    obtain ⟨m₀, n, h, hanswer, hn, hwrites⟩ := hruns
    have hload := perform_of_answer? hanswer
    obtain ⟨p, q, hp, -, -, -, hstays⟩ := staysPut_of_loaded h hload hn
    exact ⟨m₀, _, n, hload, hwrites, p, hp, hstays⟩
  have hboot : Kernel.boot { frames := 3, tlbSlots := 1, stackPages := 1 } []
      (some ({} : MemoryFile)) = (.ok _, _) := rfl
  exact ⟨_, _, (Reached.boot hboot).addCpu 1, by decide_cbv,
    ((Until.here.after 0 (.load (.assembled { entry := 0 }) [] .demand) (fun _ _ h => h)
      (by decide_cbv)).after 0 (.write 1 ⟨0⟩ #[1]) (fun _ _ h => h) (by decide_cbv)).after 0
        (.read 1 ⟨1024⟩ 1) (fun _ _ h => h) (by decide_cbv), by decide_cbv⟩

end Machine

end DemandPaging
