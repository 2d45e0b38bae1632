import DemandPaging.Fault
import DemandPaging.Tlb.Bank

/-!
# Processors

A processor has a TLB, known by its number, and three registers: the process it
runs, the cause of the last exception, and the address that raised it.

* `Processor.translate` — an access by a user program: the physical address, or
  an exception.
* `Processor.translate_error` — an exception leaves the TLB as it was and is
  recorded in the registers.
-/

namespace DemandPaging

/-- A processor. -/
structure Processor where
  /-- the number of its TLB -/
  tlb : TlbId
  /-- the process whose translations the TLB holds -/
  running : Option Pid := none
  /-- the address that raised the last exception -/
  badAddress : VirtAddr := ⟨0⟩
  /-- the code of the last exception -/
  cause : Nat := 0
  deriving DecidableEq, Repr, Inhabited

namespace Processor

/-- The processor after an exception. -/
def raise (p : Processor) (cause : ExceptionCause) (address : VirtAddr) : Processor :=
  { p with cause := cause.code, badAddress := address }

/-- Looks an address up in a TLB.  The copy used takes note of the access. -/
def lookUp (t : Tlb) (address : VirtAddr) (writing : Bool) :
    Except ExceptionCause (PhysAddr × Tlb) :=
  if maxUserAddr < address.val then .error .addressError
  else
    match t.lookup address.page with
    | none => .error .tlbMiss
    | some i =>
      let e := t.slot i
      if writing && e.flags.readOnly then .error .readOnly
      else
        match e.frame with
        | none => .error .busError
        | some f => .ok (f.byte address.offset, t.touch i writing)

/-- An access by a user program, through the TLB: its physical address, or an
exception that the processor records. -/
def translate (p : Processor) (t : Tlb) (address : VirtAddr) (writing : Bool) :
    Except ExceptionCause PhysAddr × Processor × Tlb :=
  match lookUp t address writing with
  | .ok (a, t) => (.ok a, p, t)
  | .error cause => (.error cause, p.raise cause address, t)

/-- An exception leaves the TLB alone and is recorded. -/
theorem translate_error {p q : Processor} {t u : Tlb} {a : VirtAddr} {w : Bool}
    {c : ExceptionCause} (h : p.translate t a w = (.error c, q, u)) :
    u = t ∧ q = p.raise c a := by
  unfold translate at h
  split at h
  · simp at h
  · simp only [Prod.mk.injEq, Except.error.injEq] at h
    obtain ⟨rfl, rfl, rfl⟩ := h
    exact ⟨rfl, rfl⟩

end Processor

end DemandPaging
