import DemandPaging.Process

/-!
# Traps

A user program's load or store is translated page by page.  An exception goes to
the trap handler, which resolves it so that the access can be tried again, or ends
the process.

* `Context.exit` — the end of a process.
* `Context.handleTrap` — one exception.
* `Context.userAccess` — a load or store of a range of addresses.
-/

namespace DemandPaging

/-- What a trap works on: the kernel, the processor that trapped, and the process
that it traps for. -/
structure Context (F : Type) where
  kernel : Kernel F
  cpu : Processor
  process : Process

/-- What the processor does after a trap. -/
inductive TrapOutcome where
  /-- tries the access again -/
  | resume
  /-- goes on without the process, which was ended -/
  | terminated (cause : ExceptionCause) (status : Int)
  /-- leaves the rest to whoever knows system calls -/
  | syscall
  deriving DecidableEq, Repr, Inhabited

namespace Context

variable {F : Type}

/-- Notes an event. -/
def note (x : Context F) (e : Event) : Context F := { x with kernel := x.kernel.note e }

/-- Records what happens to a page. -/
def record (x : Context F) (e : PageEvent) : Context F :=
  { x with kernel := x.kernel.setPaging (x.kernel.record e) }

/-! ## The end of a process -/

/-- Takes the process from its processor, if it runs there. -/
def unschedule (x : Context F) : Context F :=
  if x.cpu.running = some x.process.pid then
    let k := x.kernel.invalidateTlb x.cpu.tlb
    { x with
      kernel := { k with journal := { k.journal with current := none } }
      cpu := { x.cpu with running := none } }
  else x

/-- Ends the process: records its status and takes all its pages away. -/
def exit (x : Context F) (status : Int) : Except Failure Unit × Context F :=
  let x := x.unschedule
  let x := { x with process := { x.process with exitCode := some status, snapshot := {} } }
  match x.kernel.destroySpace x.process.pid with
  | (.error e, kernel) => (.error e, { x with kernel })
  | (.ok (), kernel) => (.ok (), { x with kernel }.note (.processExited x.process.pid status))

/-- The status of a process that was ended. -/
def killedStatus : Int := -1

/-- Ends the process because of an exception. -/
def terminate (x : Context F) (cause : ExceptionCause) : Except Halt TrapOutcome × Context F :=
  match x.exit killedStatus with
  | (.ok (), x) => (.ok (.terminated cause killedStatus), x)
  | (.error (.halt h), x) => (.error h, x)
  | (.error (.error e), x) =>
    (.ok (.terminated cause killedStatus), x.note (.exitFailed x.process.pid e))

/-! ## The trap handler -/

/-- Resolves a page that the TLB does not hold, or ends the process. -/
def handlePage [BackingFile F] (x : Context F) : Except Halt TrapOutcome × Context F :=
  let address := x.cpu.badAddress
  match x.kernel.handleMiss x.cpu.tlb x.process.space x.process.strategy address with
  | (.ok _, kernel) => (.ok .resume, { x with kernel })
  | (.error (.halt h), kernel) => (.error h, { x with kernel })
  | (.error (.error e), kernel) =>
    let x := { x with kernel }
    if e.fatal then (.error (.faultFailed e address x.process.pid), x)
    else (x.note (.killedByError e address)).terminate (e.exception.getD .busError)

/-- Handles an exception, given by its code. -/
def handleTrap [BackingFile F] (x : Context F) (code : Nat) :
    Except Halt TrapOutcome × Context F :=
  match ExceptionCause.ofCode code with
  | none => (.error (.unknownCause code), x)
  | some .syscall => (.ok .syscall, x)
  | some .tlbMiss => x.handlePage
  | some .pageFault => x.handlePage
  | some cause => (x.note (.killedByCause cause x.cpu.badAddress)).terminate cause

/-! ## Loads and stores -/

/-- Does to a physical address what an access asks for, and answers the bytes read. -/
def touchMemory (x : Context F) (access : Access) (q : Piece) (a : PhysAddr) :
    Except Halt Bytes × Context F :=
  let memory := x.kernel.core.memory
  if memory.covers a q.size then
    match access with
    | .load => (.ok (memory.read a q.size), x)
    | .store data =>
      let piece := Bytes.slice data q.place q.size
      let kernel :=
        { x.kernel with core := { x.kernel.core with memory := memory.write a piece } }
      (.ok piece, { x with kernel })
  else (.error .outOfBounds, x)

/-- Accesses one piece of a range, trapping until the translation succeeds, but at
most `attempts` times. -/
def accessPiece [BackingFile F] (access : Access) (q : Piece) :
    (attempts : Nat) → Context F → Except Halt (Except ExceptionCause Bytes) × Context F
  | 0, x =>
    match (x.note (.neverTranslated q.address x.process.pid)).terminate .busError with
    | (.error h, x) => (.error h, x)
    | (.ok _, x) => (.ok (.error .busError), x)
  | attempts + 1, x =>
    let (r, kernel, cpu) := x.kernel.translate x.cpu q.address access.writing
    let x := { x with kernel, cpu }
    match r with
    | .ok a =>
      let x := x.record (.accessed ⟨x.process.pid, q.address.page⟩ access.writing)
      match x.touchMemory access q a with
      | (.ok bytes, x) => (.ok (.ok bytes), x)
      | (.error h, x) => (.error h, x)
    | .error cause =>
      match x.handleTrap cause.code with
      | (.error h, x) => (.error h, x)
      | (.ok .resume, x) => accessPiece access q attempts x
      | (.ok (.terminated cause _), x) => (.ok (.error cause), x)
      | (.ok .syscall, x) => (.ok (.error .syscall), x)

/-- How often an access to a page is tried. -/
def maxAttempts : Nat := 3

/-- The bytes moved by an access of a user program, and the exception that ended
the program if one did. -/
structure Accessed where
  moved : Bytes := #[]
  cause : Option ExceptionCause := none
  deriving DecidableEq, Repr, Inhabited

/-- Accesses the pieces of a range one after the other. -/
def accessPieces [BackingFile F] (access : Access) :
    List Piece → (moved : Bytes) → Context F → Except Halt Accessed × Context F
  | [], moved, x => (.ok { moved }, x)
  | q :: qs, moved, x =>
    match accessPiece access q maxAttempts x with
    | (.error h, x) => (.error h, x)
    | (.ok (.error cause), x) => (.ok { moved, cause := some cause }, x)
    | (.ok (.ok bytes), x) => accessPieces access qs (moved ++ bytes) x

/-- A load or store of the running process at `count` addresses. -/
def userAccess [BackingFile F] (x : Context F) (address : VirtAddr) (count : Nat)
    (access : Access) : Except Halt Accessed × Context F :=
  accessPieces access (pieces address count) #[] x

end Context

end DemandPaging
