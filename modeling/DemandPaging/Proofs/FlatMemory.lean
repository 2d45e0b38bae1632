import DemandPaging.Proofs.MachineOrder
import Mathlib

/-!
# Every process seems to have a memory of its own

A process finds at every address what was last stored there, or what its program and its arguments
put there, as if it were alone on the machine and all its pages were in memory at all times.

* `Machine.tells_of_orderly` — the bytes that a load or a read is answered with.
-/

namespace DemandPaging

variable {F : Type}

namespace Machine

variable [BackingFile F]

/-- **Paging is a plain private memory.**  Whatever was asked of a machine before, if its swap file
keeps its word then every byte in the answer to a load or a read is the byte that the plain memory
of the process has at this address. -/
theorem tells_of_orderly {w : FileView F} {file : F} {m m' : Machine F} {a : Account}
    {cpu : CpuNumber} {α : Type} {request : Request α} {r : α} (hgood : w.good file)
    (h : Orderly file m a) (hpermits : m.Permits a cpu request)
    (hp : m.perform cpu request = (.ok (some r), m')) : a.Tells request r := by
  have hview : ∀ v, some w = some v → v.good file := fun v hv => Option.some.inj hv ▸ hgood
  obtain ⟨tenants, seat, hm⟩ := h.inOrder hview
  exact (hm.perform hpermits hp).1 ⟨w, rfl⟩

set_option maxRecDepth 100000 in
/-- Bytes that were written and whose page has since lost its only frame are read back. -/
theorem tells_after_eviction :
    ∃ (m : Machine MemoryFile) (a : Account), Orderly {} m a ∧
      m.answer? 0 (.read 0 ⟨5⟩ 3) = some #[1, 2, 3] ∧ a.Tells (.read 0 ⟨5⟩ 3) #[1, 2, 3] := by
  have hboot : Kernel.boot (.withFrames 1 1) [] (some ({} : MemoryFile)) = (.ok _, _) := rfl
  obtain ⟨m, -, ⟨a, h, -⟩, hanswer⟩ := ((Orderly.boot hboot).addCpu 1).withLast.serve
    [⟨0, _, .load (.assembled { entry := 0 }) [] .demand⟩, ⟨0, _, .write 0 ⟨5⟩ #[1, 2, 3]⟩,
      ⟨0, _, .read 0 ⟨2048⟩ 1⟩]
    (fun m => m.isLive 0 && m.answer? 0 (.read 0 ⟨5⟩ 3) == some #[1, 2, 3]) (by decide_cbv)
  rw [Bool.and_eq_true, beq_iff_eq] at hanswer
  exact ⟨m, a, h, hanswer.2, tells_of_orderly (w := MemoryFile.view) trivial h hanswer.1
    (perform_of_answer? hanswer.2)⟩

end Machine

end DemandPaging
