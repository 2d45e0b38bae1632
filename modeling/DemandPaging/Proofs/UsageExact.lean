import DemandPaging.Proofs.MachineOrder
import Mathlib

/-!
# Usage bits say what happened

Status bits are set in entries and in the copies that TLBs have of them, and copies are dropped
in many ways.  Together they say exactly how a page was used since it last got a frame, so that a
page is handed to the swap store exactly if it was written.

* `Kernel.UsageExact` — what the bits say, and what an eviction makes of it.
* `Machine.usageExact_of_orderly` — it is so in every orderly machine.
-/

namespace DemandPaging

open Paging

variable {F : Type}

/-- Status bits say exactly what happened to the pages. -/
structure Kernel.UsageExact [BackingFile F] (k : Kernel F) : Prop where
  /-- The entry of a resident page or a valid mirror of its frame in an attached TLB says that the
  page was used in this way, exactly if it was since it got its frame. -/
  shows : ∀ {key : PageKey} {e : Translation}, k.core.table[key]? = some e → ∀ u : Usage,
    (u.bit e.flags = true ∨ ∃ id ∈ k.core.tlbs.liveAttached, ∃ i,
      ((k.core.tlbs.tlb id).slot i).valid = true ∧
      ((k.core.tlbs.tlb id).slot i).frame = e.frame ∧
      u.bit ((k.core.tlbs.tlb id).slot i).flags = true) ↔ k.history.shows u key = true
  /-- Every page that was to lose its frame was handed to the swap store exactly if it had been
  written since it got that frame. -/
  honest : k.history.Honest
  /-- So will the next one be. -/
  evict : ∀ {f : FrameNumber} {o : FrameOwner}, k.core.frames.owner f = some o →
    (k.evict f).2.swap = if k.history.shows .written o.key
      then (k.swap.writeOut o.key (k.core.memory.frame f)).2 else k.swap

namespace Paging

/-- The swap store is used by a write-back exactly if the entry says that the page was written. -/
theorem swap_writeBack [BackingFile F] {s : Paging F} {key : PageKey} {f : FrameNumber}
    {e : Translation} (he : s.entry key = some e) :
    (s.writeBack key f).2.swap =
      if e.needsWriteback = true then (s.swap.writeOut key (s.frame f)).2 else s.swap := by
  unfold writeBack
  rw [show s.core.table[key]? = some e from he, Option.map_some]
  cases hd : e.needsWriteback with
  | false => rfl
  | true =>
      have hout : ((s.record (.victim key true)).swapOut key f).2.swap =
          (s.swap.writeOut key (s.frame f)).2 := by
        unfold swapOut writeOut
        split <;> rename_i heq <;> exact (congrArg Prod.snd heq).symm
      dsimp only
      rw [if_pos rfl, ← hout]
      split
      · rename_i heq
        rw [heq]
        rfl
      · rename_i heq
        rw [heq]

/-- **A page is handed to the swap store exactly if it was written** since it got its frame. -/
theorem Exact.swap_evict [BackingFile F] {s : Paging F} (hx : s.Exact) (hs : s.Agrees)
    {f : FrameNumber} {o : FrameOwner} (ho : s.owner f = some o) :
    (s.evict f).2.swap = if s.history.shows .written o.key
      then (s.swap.writeOut o.key (s.frame f)).2 else s.swap := by
  have hheld : s.holder f = some o.key := holder_eq_some.2 ⟨o, ho, rfl⟩
  have hrec := recalled_shootdown hs hheld
  have hm := hrec.agrees hs
  have hmx := hrec.exact hx hs
  unfold evict
  rw [show s.core.frames.owner f = some o from ho]
  dsimp only
  generalize (s.shootdown f).2.foldCopies o.key (s.shootdown f).1 = m at hrec hm hmx ⊢
  obtain ⟨e, he, hef⟩ := hm.owned (holder_eq_some.2 ⟨o, (hrec.owner f).trans ho, rfl⟩)
  have hback := swap_writeBack (f := f) he
  rw [hmx.handed_eq he hef hrec.alone, hrec.history, hrec.swap, hrec.frame] at hback
  rw [← hback]
  split <;> rename_i heq <;> rw [heq]
  simp only [swap_note, swap_count, swap_release, swap_setTable]

end Paging

namespace Machine

variable [BackingFile F]

theorem InOrder.usageExact {view : Option (FileView F)} {tenants : Pid → Option Tenant}
    {seat : TlbId → Option Pid} {a : Account} {m : Machine F}
    (hm : m.InOrder view tenants seat a) : m.kernel.UsageExact where
  shows {key e} he u := by
    have hagrees := hm.kernel.toAgrees
    obtain ⟨-, f, hf, -⟩ := hagrees.entry he
    rw [← hm.kernel.usage.usage he u, marked_iff he hf]
    refine or_congr_right ⟨?_, ?_⟩
    · rintro ⟨id, -, i, hv, hframe, hbit⟩
      have hfe : ((m.kernel.core.tlbs.tlb id).slot i).frame = some f :=
        hframe.trans (Translation.maps_iff.1 hf).2
      refine ⟨id, i, Translation.maps_iff.2 ⟨?_, hfe⟩, hbit⟩
      rw [Translation.valid, Bool.and_eq_true] at hv
      exact hv.1
    · rintro ⟨id, i, hmaps, hbit⟩
      have hv := Translation.valid_of_maps hmaps
      exact ⟨id, List.mem_filter.2 ⟨(hagrees.mirror hmaps).1, TlbBank.live_of_valid hv⟩, i, hv,
        (Translation.maps_iff.1 hmaps).2.trans (Translation.maps_iff.1 hf).2.symm, hbit⟩
  honest := hm.kernel.usage.honest
  evict ho := hm.kernel.usage.swap_evict hm.kernel.toAgrees ho

/-- **Usage bits are exact in every orderly machine**, and pages are written out exactly if they
have to be. -/
theorem usageExact_of_orderly {file : F} {m : Machine F} {a : Account} (h : Orderly file m a) :
    m.kernel.UsageExact := by
  have hnone : ∀ w : FileView F, none = some w → w.good file := nofun
  obtain ⟨tenants, seat, hm⟩ := h.inOrder hnone
  exact hm.usageExact

set_option maxRecDepth 100000 in
/-- A machine with one frame, which a page that was written has lost to another. -/
theorem usageExact_after_eviction :
    ∃ k j, Kernel.boot (.withFrames 1 1) [] (some ({} : MemoryFile)) = (.ok k, j) ∧
      ((((Machine.addCpu { kernel := k } 1).perform 0
          (.load (.assembled { entry := 0 }) [] .demand)).2.perform 0
            (.write 0 ⟨5⟩ #[1, 2, 3])).2.perform 0 (.read 0 ⟨2048⟩ 1)).2.kernel.UsageExact := by
  have hboot : Kernel.boot (.withFrames 1 1) [] (some ({} : MemoryFile)) = (.ok _, _) := rfl
  obtain ⟨_, rfl, ⟨a, h, -⟩, -⟩ := ((Orderly.boot hboot).addCpu 1).withLast.serve
    [⟨0, _, .load (.assembled { entry := 0 }) [] .demand⟩, ⟨0, _, .write 0 ⟨5⟩ #[1, 2, 3]⟩,
      ⟨0, _, .read 0 ⟨2048⟩ 1⟩]
    (fun _ => true) (by decide_cbv)
  exact ⟨_, _, hboot, usageExact_of_orderly h⟩

end Machine

end DemandPaging
