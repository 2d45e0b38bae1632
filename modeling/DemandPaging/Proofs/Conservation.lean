import DemandPaging.Proofs.TablesAgree
import Mathlib

/-!
# What the counters conserve

Every page that was filled is resident, was evicted, or was dropped: with the address space of its
process, or because another page could not be preloaded with it.  The pager and the swap store
count the same transfers, and no page is written out but to evict it.  All this holds after
requests that failed, too.

* `Paging.InBalance` — the laws that the counters obey.
* `Machine.OnDemand` — machines on which all programs have their pages on demand.
* `Machine.inBalance_of_reached` — the laws hold on every machine that is reached; on those machines
  every fault fills a page or meets with a transfer that comes up short.
-/

namespace DemandPaging

theorem Journal.total_eq_zero_iff {amount : Event → Nat} {j : Journal} :
    j.total amount = 0 ↔ ∀ line ∈ j.lines, amount line.event = 0 := by
  suffices hlines : ∀ lines : List Line,
      lines.foldr (fun line n => n + amount line.event) 0 = 0 ↔
        ∀ line ∈ lines, amount line.event = 0 by
    simpa only [Journal.total, Journal.lines, List.mem_reverse] using hlines j.newestFirst
  intro lines
  induction lines with
  | nil => simp
  | cons line lines ih =>
      rw [List.foldr_cons, Nat.add_eq_zero_iff, ih, List.forall_mem_cons, and_comm]

namespace Paging

variable {F : Type} {s t : Paging F} {missed : Int}

/-- The counters fit what the pager and the swap store did. -/
structure InBalance (s : Paging F) : Prop where
  /-- The pager counts the pages that the swap store writes, -/
  writes : s.core.counters.swapWrites = s.swap.writes
  /-- and those that it reads back. -/
  reads : s.core.counters.swapReads = s.swap.reads
  /-- A page is written out only to be evicted. -/
  written : s.core.counters.swapWrites ≤ s.core.counters.evictions
  /-- A page that was filled is resident, or it was evicted or dropped. -/
  pages : s.core.counters.swapReads + s.core.counters.imageFills + s.core.counters.zeroFills =
    s.core.counters.evictions + s.core.table.size + s.dropped

/-- **A step that is posted keeps the balance.** -/
theorem Posted.inBalance {moved : Nat} (h : Posted s t 0 missed moved) (hs : s.InBalance) : t.InBalance := by
  obtain ⟨hwrites, hreads, hwritten, hpages, -⟩ := h
  obtain ⟨hw, hr, hle, hp⟩ := hs
  simp only [Counters.fills] at hpages
  constructor <;> omega

end Paging

open Paging

namespace Machine

variable {F : Type} [BackingFile F]

/-- The machines that requests lead to, of any kind and in any order, if all programs that are
loaded are to have their pages on demand. -/
inductive OnDemand : Machine F → Prop
  | boot {config : MachineConfig} {files : List String} {file : F} {k : Kernel F} {j : Journal}
    (h : Kernel.boot config files (some file) = (.ok k, j)) : OnDemand { kernel := k }
  | addCpu {m : Machine F} (h : OnDemand m) (slots : Nat) : OnDemand (m.addCpu slots)
  | dropCpu {m : Machine F} (h : OnDemand m) (cpu : CpuNumber) : OnDemand (m.dropCpu cpu)
  | perform {m m' : Machine F} {cpu : CpuNumber} {α : Type} {request : Request α}
    {r : Except Halt (Option α)} (h : OnDemand m) (hdemand : request.OnDemand)
    (hp : m.perform cpu request = (r, m')) : OnDemand m'

theorem OnDemand.after {m : Machine F} (h : OnDemand m) {α : Type} (cpu : CpuNumber)
    (request : Request α) (hdemand : request.OnDemand) : OnDemand (m.perform cpu request).2 :=
  h.perform hdemand (Prod.eta (m.perform cpu request)).symm

theorem OnDemand.reached {m : Machine F} (h : OnDemand m) : Reached m := by
  induction h with
  | boot h => exact .boot h
  | addCpu _ slots ih => exact ih.addCpu slots
  | dropCpu _ cpu ih => exact ih.dropCpu cpu
  | perform _ _ hp ih => exact ih.perform hp

omit [BackingFile F] in
/-- Processors come and go without anything being counted, and no frame changes hands. -/
theorem dropCpu_posted (m : Machine F) (cpu : CpuNumber) :
    Posted m.kernel.toPaging (m.dropCpu cpu).kernel.toPaging 0 0 ∧
      (m.dropCpu cpu).kernel.core.frames = m.kernel.core.frames := by
  unfold dropCpu
  split
  · exact ⟨posted_refl _, rfl⟩
  · exact ⟨.of_same rfl rfl rfl rfl rfl, rfl⟩

/-- **The counters of every machine that is reached are in balance.** -/
theorem Reached.inBalance {m : Machine F} (h : Reached m) : m.kernel.InBalance := by
  induction h with
  | boot h =>
      obtain ⟨-, rfl⟩ := eq_of_boot h
      exact ⟨rfl, rfl, Nat.le_refl _, rfl⟩
  | addCpu _ slots ih => exact ⟨ih.writes, ih.reads, ih.written, ih.pages⟩
  | dropCpu _ cpu ih => exact (dropCpu_posted _ cpu).1.inBalance ih
  | perform h hp ih =>
      obtain ⟨missed, moved, hposted, -⟩ := (perform_evolves h.consistent hp).ledger
      exact hposted.inBalance ih

/-- **Every fault fills a page** if all programs have their pages on demand, unless a transfer comes
up short. -/
theorem OnDemand.faults {m : Machine F} (h : OnDemand m) :
    m.kernel.Roomy ∧
      m.kernel.core.counters.faults = m.kernel.core.counters.fills + m.kernel.shortfalls := by
  induction h with
  | boot h =>
      refine ⟨roomy_of_boot h, ?_⟩
      obtain ⟨-, rfl⟩ := eq_of_boot h
      rfl
  | addCpu _ slots ih => exact ⟨ih.1.of_frames rfl, ih.2⟩
  | @dropCpu m _ cpu ih =>
      obtain ⟨hposted, hframes⟩ := m.dropCpu_posted cpu
      refine ⟨ih.1.of_frames hframes, ?_⟩
      have := hposted.faults
      omega
  | perform h hdemand hp ih =>
      have hevolves := perform_evolves h.reached.consistent hp
      obtain ⟨missed, moved, hposted, hmissed, -⟩ := hevolves.ledger
      have hzero := hmissed (not_pins hdemand) ih.1
      refine ⟨hevolves.changes.roomy (not_pins hdemand) ih.1, ?_⟩
      have := hposted.faults
      omega

/-- **The paging counters obey conservation laws**, whatever was asked for in whatever order, and
whichever requests failed.  If all programs have their pages on demand, and no transfer came up short,
then there were as many faults as pages that were filled. -/
theorem inBalance_of_reached {m : Machine F} (h : Reached m) :
    m.kernel.InBalance ∧
      (OnDemand m → m.kernel.core.counters.faults = m.kernel.core.counters.swapReads +
        m.kernel.core.counters.imageFills + m.kernel.core.counters.zeroFills +
          m.kernel.shortfalls) ∧
      (OnDemand m → (∀ line ∈ m.kernel.journal.lines, line.event.shortfall = 0) →
        m.kernel.core.counters.faults = m.kernel.core.counters.swapReads +
          m.kernel.core.counters.imageFills + m.kernel.core.counters.zeroFills) := by
  refine ⟨h.inBalance, fun hdemand => hdemand.faults.2, fun hdemand hlines => ?_⟩
  rw [hdemand.faults.2, show m.kernel.shortfalls = 0 from Journal.total_eq_zero_iff.2 hlines]
  rfl

set_option maxRecDepth 100000 in
/-- A process writes to a page on a machine with one frame, so that the page is written out to make
room for another one, and read back; then it exits. -/
theorem inBalance_after_exit :
    ∃ m : Machine MemoryFile, m.kernel.swap.writes = 1 ∧ m.kernel.dropped = 1 ∧
      m.kernel.core.counters.faults = 3 ∧ m.kernel.InBalance ∧
      m.kernel.core.counters.faults = m.kernel.core.counters.swapReads +
        m.kernel.core.counters.imageFills + m.kernel.core.counters.zeroFills := by
  suffices hruns : ∃ m : Machine MemoryFile, OnDemand m ∧ m.kernel.swap.writes = 1 ∧
      m.kernel.dropped = 1 ∧ m.kernel.core.counters.faults = 3 ∧ m.kernel.shortfalls = 0 by
    obtain ⟨m, h, hwrites, hdropped, hfaults, hshort⟩ := hruns
    obtain ⟨hbalance, -, hfilled⟩ := inBalance_of_reached h.reached
    exact ⟨m, hwrites, hdropped, hfaults, hbalance,
      hfilled h (Journal.total_eq_zero_iff.1 hshort)⟩
  have hboot : Kernel.boot (.withFrames 1 1) [] (some ({} : MemoryFile)) = (.ok _, _) := rfl
  have hrun := (((((OnDemand.boot hboot).addCpu 1).after 0
    (.load (.assembled { entry := 0 }) [] .demand) rfl).after 0 (.write 0 ⟨0⟩ #[7]) trivial).after 0
      (.read 0 ⟨2048⟩ 1) trivial).after 0 (.read 0 ⟨0⟩ 1) trivial
  have hexited := hrun.after 0 (.exit 0 0) trivial
  exact ⟨_, hexited, by decide_cbv⟩

end Machine

end DemandPaging
