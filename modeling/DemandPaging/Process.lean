import DemandPaging.Kernel
import DemandPaging.Piece

/-!
# Processes

A process has an id, an address space, a strategy by which its pages become
resident, and the registers it starts with.  What changes while it lives are the
pages that its last processor's TLB held, and its exit status.

* `Kernel.copy` — moves bytes between the kernel and pages of a process, as many
  as the process may have moved.
* `Kernel.readMemory`, `Kernel.writeMemory`, `Kernel.readText` — what the kernel
  uses it for.
* `Kernel.load` — a new process, with its arguments in its argument pages.
-/

namespace DemandPaging

/-- What a process starts with. -/
structure Registers where
  /-- the address of the first instruction -/
  pc : Nat
  /-- where the stack starts -/
  sp : Nat
  /-- the number of arguments -/
  argc : Nat
  /-- the address of the argument pointers -/
  argv : VirtAddr
  deriving DecidableEq, Repr, Inhabited

/-- A process. -/
structure Process where
  pid : Pid
  space : AddressSpace
  strategy : Strategy
  registers : Registers
  /-- what the TLB held when the process was last switched out -/
  snapshot : TlbSnapshot := {}
  /-- set once the process has exited -/
  exitCode : Option Int := none
  deriving Repr

namespace Kernel

variable {F : Type}

/-! ## Copying -/

/-- The bytes moved by a copy, and what stopped it early if it was no read-only
page. -/
structure Copied where
  moved : Bytes := #[]
  failure : Option Failure := none
  deriving DecidableEq, Repr, Inhabited

/-- Moves the pieces of a range one after the other, up to the first that lies on
a page that cannot be had or may not be written. -/
def copyPieces [BackingFile F] (tlb : TlbId) (p : Process) (access : Access) :
    List Piece → (moved : Bytes) → Kernel F → Copied × Kernel F
  | [], moved, k => ({ moved }, k)
  | q :: qs, moved, k =>
    match k.accessPage tlb p.space p.strategy q.address.page access.writing (access.change q) with
    | (.ok (some page), k) =>
      copyPieces tlb p access qs (moved ++ page.slice q.address.offset q.size) k
    | (.ok none, k) => ({ moved }, k)
    | (.error e, k) => ({ moved, failure := some e }, k)

/-- Moves the bytes of a range of `count` addresses of a process. -/
def copy [BackingFile F] (k : Kernel F) (tlb : TlbId) (p : Process) (address : VirtAddr)
    (count : Nat) (access : Access) : Copied × Kernel F :=
  if maxUserAddr < address.val then
    ({ failure := some (.error (.invalidAddress address.val)) }, k)
  else copyPieces tlb p access (pieces address count) #[] k

/-- The bytes moved by a copy that the kernel survives.  An error that stopped the
copy early is noted. -/
def settle (k : Kernel F) (pid : Pid) (c : Copied) : Except Halt Bytes × Kernel F :=
  match c.failure with
  | none => (.ok c.moved, k)
  | some (.halt h) => (.error h, k)
  | some (.error e) =>
    if e.fatal then (.error (.copyFailed pid e), k)
    else (.ok c.moved, k.note (.copyStopped pid c.moved.size e))

/-- The bytes at `count` addresses of a process, or fewer. -/
def readMemory [BackingFile F] (k : Kernel F) (tlb : TlbId) (p : Process) (address : VirtAddr)
    (count : Nat) : Except Halt Bytes × Kernel F :=
  let (c, k) := k.copy tlb p address count .load
  k.settle p.pid c

/-- Writes bytes at an address of a process, up to the first read-only page.
Answers how many. -/
def writeMemory [BackingFile F] (k : Kernel F) (tlb : TlbId) (p : Process) (address : VirtAddr)
    (data : Bytes) : Except Halt Nat × Kernel F :=
  let (c, k) := k.copy tlb p address data.size (.store data)
  let (r, k) := k.settle p.pid c
  (r.map (·.size), k)

/-- The text that some bytes encode. -/
def decodeText (bytes : Bytes) : Option String := String.fromUTF8? ⟨bytes⟩

/-- The text before the first zero byte, if there is one. -/
def textBeforeZero (bytes : Bytes) : Option String :=
  (bytes.findIdx? (· == 0)).bind fun stop => decodeText (Bytes.slice bytes 0 stop)

/-- The text of at most `limit` bytes at an address of a process, which a zero byte
ends.  There is no buffer for the longest limits. -/
def readText [BackingFile F] (k : Kernel F) (tlb : TlbId) (p : Process) (address : VirtAddr)
    (limit : Nat) : Except Halt (Option String) × Kernel F :=
  if signedLimit ≤ limit + 1 then (.error .outOfBounds, k)
  else
    let (r, k) := k.readMemory tlb p address (limit + 1)
    (r.map textBeforeZero, k)

/-! ## Arguments -/

/-- The bytes that arguments take: a pointer, the text and a zero byte for each. -/
def argumentsSize : List String → Nat
  | [] => 0
  | a :: rest => userWordSize + a.utf8ByteSize + 1 + argumentsSize rest

/-- The pointers to texts that stand one after the other from `start` on. -/
def argumentPointers (start : Nat) : List String → List UInt8
  | [] => []
  | a :: rest => littleEndian userWordSize start ++ argumentPointers (start + a.utf8ByteSize + 1) rest

/-- Texts one after the other, each with a zero byte at its end. -/
def argumentTexts (args : List String) : List UInt8 :=
  args.flatMap fun a => a.toUTF8.data.toList ++ [0]

/-- The pointers to the arguments and then the arguments, to stand at `base`. -/
def argumentBlock (base : VirtAddr) (args : List String) : Bytes :=
  (argumentPointers (base.val + args.length * userWordSize) args ++ argumentTexts args).toArray

/-- Writes the arguments of a process to its argument pages. -/
def writeArguments [BackingFile F] (k : Kernel F) (tlb : TlbId) (p : Process)
    (args : List String) : Except Failure Unit × Kernel F :=
  if args.isEmpty then (.ok (), k)
  else
    let block := argumentBlock p.registers.argv args
    match k.copy tlb p p.registers.argv block.size (.store block) with
    | (⟨_, some e⟩, k) => (.error e, k)
    | (⟨moved, none⟩, k) =>
      if moved.size = block.size then (.ok (), k) else (.error (.error .argumentsTooLong), k)

/-! ## Loading -/

/-- Takes the address space of a process away after a failure, which is then the
answer unless that fails too. -/
def abandon (k : Kernel F) (pid : Pid) (why : Failure) : Failure × Kernel F :=
  match k.destroySpace pid with
  | (.ok (), k) => (why, k)
  | (.error e, k) => (e, k)

/-- Makes the pages of a new process resident, if its strategy asks for that. -/
def prepare [BackingFile F] (k : Kernel F) (tlb : TlbId) (strategy : Strategy)
    (space : AddressSpace) : Except Failure Unit × Kernel F :=
  match strategy with
  | .demand => (.ok (), k)
  | .eager =>
    let needed := space.pageCount
    let available := k.config.frames
    if available < needed then
      (.error (.error (.insufficientMemory needed available)),
        k.note (.tooLargeToPreload space.pid needed available))
    else
      match (k.toPaging.attach tlb).preload tlb k.config.victimRetries space with
      | (.error e, s) => (.error e, k.setPaging s)
      | (.ok (), s) => (.ok (), (k.setPaging s).note (.preloaded space.pid needed))

/-- A new process of a given id. -/
def loadAs [BackingFile F] (k : Kernel F) (tlb : TlbId) (pid : Pid) (image : Image)
    (args : List String) (strategy : Strategy) : Except Failure Process × Kernel F :=
  match AddressSpace.make pid image k.config with
  | .error e => (.error (.error e), k)
  | .ok space =>
    match k.createSpace pid space.pageCount with
    | (.error e, k) => (.error (.error e), k)
    | (.ok (), k) =>
      match k.prepare tlb strategy space with
      | (.error e, k) =>
        let (e, k) := k.abandon pid e
        (.error e, k)
      | (.ok (), k) =>
        let registers : Registers :=
          { pc := image.entry, sp := space.initialStack, argc := args.length
            argv := space.argBase }
        let p : Process := { pid, space, strategy, registers }
        match k.writeArguments tlb p args with
        | (.error e, k) =>
          let (e, k) := k.abandon pid e
          (.error e, k)
        | (.ok (), k) => (.ok p, k)

/-- Gives the id of a process back that is no more. -/
def dropPid (k : Kernel F) (pid : Pid) : Except Halt Unit × Kernel F :=
  let k := k.note (.pidDropped pid)
  match k.pids.dealloc pid with
  | .ok pids => (.ok (), { k with pids })
  | .error h => (.error h, k)

/-- A new process running a program with some arguments.  It is the end of the machine if the layout
of the program takes numbers that are no machine words. -/
def load [BackingFile F] (k : Kernel F) (tlb : TlbId) (image : Image) (args : List String)
    (strategy : Strategy) : Except Failure Process × Kernel F :=
  if pageSize < argumentsSize args then (.error (.error .argumentsTooLong), k)
  else if AddressSpace.overflows image k.config then (.error (.halt .overflow), k)
  else
    let (pid, pids) := k.pids.alloc
    match ({ k with pids }).loadAs tlb pid image args strategy with
    | (.ok p, k) => (.ok p, k.note (.processLoaded pid p.space.pageCount strategy))
    | (.error (.halt h), k) => (.error (.halt h), k)
    | (.error e, k) =>
      match k.dropPid pid with
      | (.ok (), k) => (.error e, k)
      | (.error h, k) => (.error (.halt h), k)

end Kernel

end DemandPaging
