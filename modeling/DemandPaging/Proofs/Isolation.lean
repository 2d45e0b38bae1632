import DemandPaging.Proofs.MachineOrder
import Mathlib

/-!
# TLBs of different processes do not mix

Slots of a TLB do not say whose page they hold.  Still no process finds a page of another in the
TLB of its processor, whatever was loaded, switched, evicted, ended and loaded again on however
many processors.

* `Machine.Isolated` — what the TLBs hold, and where translations lead.
* `Machine.isolated_of_orderly` — it is so in every orderly machine.
-/

namespace DemandPaging

open Paging

variable {F : Type}

namespace Machine

/-- What TLBs hold belongs to the process that runs on their processor. -/
structure Isolated (m : Machine F) : Prop where
  /-- A processor with a valid slot is attached and runs a process that has an address space.  The
  slot is of a page of that process, and like the entry of that page. -/
  copy : ∀ {n : CpuNumber} {c : Processor} {i : Nat}, m.cpu? n = some c →
    ((m.kernel.core.tlbs.tlb c.tlb).slot i).valid = true →
    c.tlb ∈ m.kernel.core.tlbs.liveAttached ∧
      ∃ pid e, c.running = some pid ∧ pid ∈ m.kernel.core.spaces ∧
        m.kernel.core.table[(⟨pid, ((m.kernel.core.tlbs.tlb c.tlb).slot i).page⟩ : PageKey)]? =
          some e ∧
        e.frame = ((m.kernel.core.tlbs.tlb c.tlb).slot i).frame ∧
        e.flags.readOnly = ((m.kernel.core.tlbs.tlb c.tlb).slot i).flags.readOnly
  /-- No page is in two valid slots of a TLB. -/
  single : ∀ {n : CpuNumber} {c : Processor} {i j : Nat}, m.cpu? n = some c →
    ((m.kernel.core.tlbs.tlb c.tlb).slot i).valid = true →
    ((m.kernel.core.tlbs.tlb c.tlb).slot j).valid = true →
    ((m.kernel.core.tlbs.tlb c.tlb).slot i).page = ((m.kernel.core.tlbs.tlb c.tlb).slot j).page →
    i = j
  /-- An address is translated to the frame that its page has, at the same offset, and is not
  written if the page is read-only. -/
  translate : ∀ {n : CpuNumber} {c d : Processor} {address : VirtAddr} {writing : Bool}
    {pa : PhysAddr} {t : Tlb}, m.cpu? n = some c →
    c.translate (m.kernel.core.tlbs.tlb c.tlb) address writing = (.ok pa, d, t) →
    ∃ pid e o, c.running = some pid ∧
      m.kernel.core.table[(⟨pid, address.page⟩ : PageKey)]? = some e ∧ e.frame = some pa.frame ∧
      m.kernel.core.frames.owner pa.frame = some o ∧ o.key = ⟨pid, address.page⟩ ∧
      pa.offset = address.offset ∧ (writing = true → e.flags.readOnly = false)

namespace InOrder

variable [BackingFile F] {view : Option (FileView F)} {tenants : Pid → Option Tenant}
  {seat : TlbId → Option Pid} {m : Machine F} {a : Account} {n : CpuNumber} {c : Processor}

/-- A valid slot is a copy of an entry of the process that runs on the processor. -/
theorem entry_of_slot (hm : m.InOrder view tenants seat a) (hc : m.cpu? n = some c) {i : Nat}
    (hv : (m.kernel.slot c.tlb i).valid = true) :
    ∃ pid e, c.running = some pid ∧ m.kernel.entry ⟨pid, (m.kernel.slot c.tlb i).page⟩ = some e ∧
      e.bare = (m.kernel.slot c.tlb i).bare := by
  obtain ⟨pid, e, hseat, he, hbare⟩ := hm.kernel.coherent.mirrors hv
  have hruns := (hm.works hc).1 hseat
  exact ⟨pid, e, hm.running hc hruns, he, hbare⟩

theorem isolated (hm : m.InOrder view tenants seat a) : m.Isolated where
  copy {n c i} hc hv := by
    have hv : (m.kernel.slot c.tlb i).valid = true := hv
    obtain ⟨pid, e, hrunning, he, hbare⟩ := hm.entry_of_slot hc hv
    obtain ⟨f, hf⟩ := Translation.valid_iff.1 hv
    obtain ⟨hattached, -⟩ := hm.kernel.mirror hf
    obtain ⟨-, hframe, -, hro⟩ := Translation.bare_eq_iff.1 hbare
    refine ⟨List.mem_filter.2 ⟨hattached, hm.live hc⟩, pid, e, hrunning, ?_, he, hframe, hro⟩
    exact (hm.kernel.resident he).mem_spaces
  single hc := hm.kernel.coherent.single
  translate {n c d address writing pa t} hc h := by
    unfold Processor.translate at h
    cases hl : Processor.lookUp (m.kernel.core.tlbs.tlb c.tlb) address writing with
    | error cause =>
        rw [hl] at h
        cases (Prod.mk.inj h).1
    | ok found =>
        obtain ⟨b, u⟩ := found
        rw [hl] at h
        obtain rfl := Except.ok.inj (Prod.mk.inj h).1
        obtain ⟨-, i, f, -, hmaps, hpage, hro, rfl, -⟩ := lookUp_spec hl
        have hmaps : (m.kernel.slot c.tlb i).maps f = true := hmaps
        obtain ⟨pid, e, hrunning, he, hbare⟩ :=
          hm.entry_of_slot hc (Translation.valid_of_maps hmaps)
        have hsame : (m.kernel.slot c.tlb i).page = address.page := hpage
        rw [hsame] at he
        have hef : e.maps f = true := by rwa [Translation.maps_congr hbare]
        obtain ⟨o, ho, hkey⟩ := holder_eq_some.1 (hm.kernel.toAgrees.holder_of_maps he hef)
        have hlt := hm.kernel.toAgrees.lt_frameCount ho
        have hword : f.val * pageSize < wordLimit :=
          Nat.lt_of_le_of_lt (Nat.mul_le_mul_right _ (Nat.le_of_lt hlt)) hm.kernel.fits
        obtain ⟨hframe, hoffset⟩ := f.frame_byte address.offset_lt hword
        rw [hframe]
        refine ⟨pid, e, o, hrunning, he, (Translation.maps_iff.1 hef).2, ho, hkey, hoffset,
          fun hw => ?_⟩
        rw [(Translation.bare_eq_iff.1 hbare).2.2.2]
        exact Bool.eq_false_iff.2 fun hr => hro ⟨hw, hr⟩

end InOrder

variable [BackingFile F]

/-- **No TLB holds a page of a process that does not run on its processor**, and every translation
leads to the page that it is asked for. -/
theorem isolated_of_orderly {file : F} {m : Machine F} {a : Account} (h : Orderly file m a) :
    m.Isolated := by
  have hnone : ∀ w : FileView F, none = some w → w.good file := nofun
  obtain ⟨tenants, seat, hm⟩ := h.inOrder hnone
  exact hm.isolated

set_option maxRecDepth 100000 in
/-- A machine with one frame, after a program has stored two bytes. -/
theorem isolated_after_store :
    ∃ k j, Kernel.boot (.withFrames 1 1) [] (some ({} : MemoryFile)) = (.ok k, j) ∧
      ((((Machine.addCpu { kernel := k } 1).perform 0
          (.load (.assembled { entry := 0 }) [] .demand)).2.perform 0
            (.switch none 0)).2.perform 0 (.access 0 ⟨1030⟩ 2 (.store #[7, 8]))).2.Isolated := by
  have hboot : Kernel.boot (.withFrames 1 1) [] (some ({} : MemoryFile)) = (.ok _, _) := rfl
  obtain ⟨_, rfl, ⟨a, h, -⟩, -⟩ := ((Orderly.boot hboot).addCpu 1).withLast.serve
    [⟨0, _, .load (.assembled { entry := 0 }) [] .demand⟩, ⟨0, _, .switch none 0⟩,
      ⟨0, _, .access 0 ⟨1030⟩ 2 (.store #[7, 8])⟩]
    (fun _ => true) (by decide_cbv)
  exact ⟨_, _, hboot, isolated_of_orderly h⟩

end Machine

end DemandPaging
