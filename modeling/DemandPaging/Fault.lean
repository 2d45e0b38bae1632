import DemandPaging.Address

/-!
# What can go wrong

Three kinds of trouble are kept apart.

* An `ExceptionCause` is what a CPU raises when a user program's access cannot
  go on; it has a code, as the cause register holds it.
* A `PagingError` is what an operation of the paging layer answers to whoever
  asked; each has a `message`, some are an `exception` to the process that
  caused them, and two are `fatal` to the kernel.
* A `Halt` is the end of the machine: an index past the end of a table, a
  number given back twice, a swap file that fails under a process.

A `Failure` is one of the last two.  `ExceptionCause.ofCode_code` says that
codes name causes.
-/

namespace DemandPaging

/-! ## Exceptions of the CPU -/

/-- Why a CPU could not go on with a user program. -/
inductive ExceptionCause where
  | syscall
  | pageFault
  | tlbMiss
  | readOnly
  | busError
  | addressError
  | overflow
  | illegalInstruction
  deriving DecidableEq, Repr, Inhabited

namespace ExceptionCause

/-- The causes in the order of their codes. -/
def all : List ExceptionCause :=
  [.syscall, .pageFault, .tlbMiss, .readOnly, .busError, .addressError, .overflow,
    .illegalInstruction]

/-- The number the cause register holds for a cause. -/
def code : ExceptionCause → Nat
  | .syscall => 0
  | .pageFault => 1
  | .tlbMiss => 2
  | .readOnly => 3
  | .busError => 4
  | .addressError => 5
  | .overflow => 6
  | .illegalInstruction => 7

/-- The cause with a given code. -/
def ofCode (n : Nat) : Option ExceptionCause := all[n]?

def name : ExceptionCause → String
  | .syscall => "Syscall"
  | .pageFault => "PageFault"
  | .tlbMiss => "TlbMiss"
  | .readOnly => "ReadOnly"
  | .busError => "BusError"
  | .addressError => "AddressError"
  | .overflow => "Overflow"
  | .illegalInstruction => "IllegalInstruction"

/-- A cause is found again by its code. -/
theorem ofCode_code (c : ExceptionCause) : ofCode c.code = some c := by
  cases c <;> rfl

/-- Only codes of causes name one. -/
theorem code_of_ofCode {n : Nat} {c : ExceptionCause} (h : ofCode n = some c) : c.code = n := by
  have hn : n < 8 := by
    obtain ⟨hlt, -⟩ := List.getElem?_eq_some_iff.1 h
    exact hlt
  have : ∀ k : Fin 8, ∀ d, ofCode k.val = some d → d.code = k.val := by
    intro k d hd
    match k, hd with
    | ⟨0, _⟩, hd => cases hd; rfl
    | ⟨1, _⟩, hd => cases hd; rfl
    | ⟨2, _⟩, hd => cases hd; rfl
    | ⟨3, _⟩, hd => cases hd; rfl
    | ⟨4, _⟩, hd => cases hd; rfl
    | ⟨5, _⟩, hd => cases hd; rfl
    | ⟨6, _⟩, hd => cases hd; rfl
    | ⟨7, _⟩, hd => cases hd; rfl
  exact this ⟨n, hn⟩ c h

end ExceptionCause

/-! ## Errors of the paging layer -/

/-- What an operation of the paging layer answers when it cannot be done. -/
inductive PagingError where
  /-- No frame is free and none can be taken from a page. -/
  | outOfFrames
  /-- The address is negative or outside the process's pages. -/
  | invalidAddress (address : Nat)
  /-- The process has no address space. -/
  | noAddressSpace (pid : Pid)
  /-- The process already has an address space. -/
  | addressSpaceExists (pid : Pid)
  /-- The program does not fit into main memory as a whole. -/
  | insufficientMemory (needed available : Nat)
  /-- Two sections of an image claim one page. -/
  | overlappingSections
  /-- The arguments do not fit into the argument page. -/
  | argumentsTooLong
  /-- The image makes no sense. -/
  | badImage (why : String)
  /-- The swap file moved fewer bytes than a page. -/
  | shortTransfer
  /-- The swap file could not be opened. -/
  | swapUnavailable
  /-- A setting of the machine is malformed or unusable. -/
  | badConfig
  deriving DecidableEq, Repr, Inhabited

namespace PagingError

/-- The error in words. -/
def message : PagingError → String
  | .outOfFrames => "out of physical frames"
  | .invalidAddress a => s!"invalid virtual address {hexText a}"
  | .noAddressSpace pid => s!"pid {pid} has no address space"
  | .addressSpaceExists pid => s!"pid {pid} already has an address space"
  | .insufficientMemory needed available =>
    s!"insufficient physical memory: {needed} pages needed, {available} available"
  | .overlappingSections => "overlapping image sections"
  | .argumentsTooLong => "arguments too long"
  | .badImage why => "bad program image: " ++ why
  | .shortTransfer => "short transfer on the swap file"
  | .swapUnavailable => "swap file unavailable"
  | .badConfig => "bad machine configuration"

/-- The exception a faulting process sees for an error, if it sees one. -/
def exception : PagingError → Option ExceptionCause
  | .outOfFrames => some .busError
  | .invalidAddress _ => some .addressError
  | .noAddressSpace _ => some .addressError
  | _ => none

/-- Errors the kernel cannot survive. -/
def fatal : PagingError → Bool
  | .shortTransfer => true
  | .swapUnavailable => true
  | _ => false

end PagingError

/-! ## The end of the machine -/

/-- Why the machine stopped. -/
inductive Halt where
  /-- A table, buffer or file was indexed past its end. -/
  | outOfBounds
  /-- An id was given back that was never handed out. -/
  | neverAllocated (id : Nat)
  /-- An id was given back twice. -/
  | givenBackTwice (id : Nat)
  /-- A range of pages was asked for whose end lies before its start. -/
  | reversedRange (start stop : PageNumber)
  /-- A kernel copy for a process met an error the kernel cannot survive. -/
  | copyFailed (pid : Pid) (error : PagingError)
  /-- A fault of a process met an error the kernel cannot survive. -/
  | faultFailed (error : PagingError) (address : VirtAddr) (pid : Pid)
  /-- The cause register held no cause. -/
  | unknownCause (code : Nat)
  /-- A number was too large for a machine word. -/
  | overflow
  /-- A number was to be drawn from a range that has none. -/
  | emptyRange
  deriving DecidableEq, Repr, Inhabited

/-- The last words of the machine; a bad index or number leaves none. -/
def Halt.message : Halt → Option String
  | .outOfBounds => none
  | .neverAllocated _ => none
  | .givenBackTwice id => some s!"id {id} has been deallocated!"
  | .reversedRange start stop => some s!"start {start.render} > end {stop.render}!"
  | .copyFailed pid error => some s!"[kernel] pid {pid}: {error.message}"
  | .faultFailed error address pid =>
    some s!"[kernel] trap_handler: {error.message} resolving {hexText address.val} of pid {pid}"
  | .unknownCause code => some s!"[kernel] trap_handler: unsupport cause {code}"
  | .overflow => none
  | .emptyRange => none

/-- What ends an operation early: an error for the caller, or the machine's end. -/
inductive Failure where
  | error (error : PagingError)
  | halt (why : Halt)
  deriving DecidableEq, Repr, Inhabited

end DemandPaging
