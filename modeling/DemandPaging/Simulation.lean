import DemandPaging.Machine
import DemandPaging.Random.ChaCha

/-!
# Simulated workloads

A simulation loads some processes on a machine with one processor and lets them
load and store at random, in turn.  Beside the machine it keeps for each process a
plain memory without paging, to which the same stores go; every load has to yield
what the plain memory holds.  At the end all processes exit, the tables are checked,
and every frame has to be free.

* `Simulation.workload` — a whole simulation on a machine.
* `Simulation.run` — the same, from a kernel that was brought up to one that was shut down.
* `Simulation.Complaint` — what may come out wrong.
-/

namespace DemandPaging

/-- A workload. -/
structure Simulation where
  config : MachineConfig
  /-- how many processes are loaded -/
  processes : Nat := 3
  /-- how many loads and stores are made -/
  operations : Nat := 1000
  /-- seed of the choice of loads and stores -/
  seed : Nat
  strategy : Strategy := .demand
  deriving DecidableEq, Repr

namespace Simulation

/-! ## What may come out wrong -/

/-- What came out wrong. -/
inductive Complaint where
  | notLoaded (process : ProcessNumber) (error : PagingError)
  | killed (pid : Pid) (cause : ExceptionCause) (writing : Bool) (address : VirtAddr)
  | stale (pid : Pid) (address : VirtAddr)
  | notExited (pid : Pid) (error : PagingError)
  | inconsistent (how : Inconsistency)
  | framesLeaked
  deriving DecidableEq, Repr, Inhabited

/-- The complaint in words. -/
def Complaint.message : Complaint → String
  | .notLoaded i error => s!"loading process {i}: {error.message}"
  | .killed pid cause writing address =>
    let doing := if writing then "storing at" else "loading"
    s!"pid {pid} killed by {cause.name} {doing} {hexText address.val}"
  | .stale pid address => s!"pid {pid} read stale bytes at {hexText address.val}"
  | .notExited pid error => s!"pid {pid} exit: {error.message}"
  | .inconsistent how => how.message
  | .framesLeaked => "frames leaked after every process exited"

/-- Why a simulation ended early. -/
inductive Stop where
  | complaint (what : Complaint)
  | halt (why : Halt)
  deriving DecidableEq, Repr, Inhabited

/-! ## The built-in program -/

/-- The bytes of the built-in program's code. -/
def builtinCode : Bytes := Array.ofFn fun i : Fin (2 * pageSize) => UInt8.ofNat (i.val * 7)

/-- A program of two pages of code and one of data. -/
def builtinImage : Image :=
  let text : Section := { name := ".text", first := ⟨0⟩, pages := 2, readOnly := true }
  let data : Section := { name := ".data", first := ⟨2⟩, pages := 1, readOnly := false }
  .assembled
    ((SectionImage.withSection { entry := 0 } text builtinCode).withSection data
      "vm-sim data section".toUTF8.data)

/-! ## Operations -/

/-- A load or store of a process. -/
structure Operation where
  address : VirtAddr
  size : Nat
  access : Access
  deriving DecidableEq, Repr, Inhabited

/-- The largest size of an operation. -/
def maxSize : Nat := 64

/-- Draws an operation: loads go anywhere, stores to the pages behind the program.  There may be no
place for it. -/
def draw? (space : AddressSpace) (g : Random.ChaCha) : Option (Operation × Random.ChaCha) := do
  let stop := space.pageCount * pageSize
  let (size, g) ← Random.between? g 1 (maxSize + 1)
  let (writing, g) := Random.coin g
  if writing then
    let (address, g) ← Random.between? g (space.imagePages * pageSize) (stop - size)
    let (byte, g) := g.byte
    return (⟨⟨address⟩, size, .store (Array.replicate size byte)⟩, g)
  else
    let (address, g) ← Random.between? g 0 (stop - size)
    return (⟨⟨address⟩, size, .load⟩, g)

/-- An operation that a process has made, and the bytes that it moved. -/
structure Made where
  process : ProcessNumber
  operation : Operation
  moved : Bytes
  deriving DecidableEq, Repr, Inhabited

/-! ## Runs -/

/-- A machine and the plain memories beside it. -/
structure Run (F : Type) where
  machine : Machine F
  plain : Array Memory := #[]
  /-- the process that ran last -/
  running : Option ProcessNumber := none
  generator : Random.ChaCha
  /-- the operations so far, the last one first -/
  made : List Made := []

variable {F : Type} [BackingFile F]

/-- The processor of a simulation. -/
def cpu : CpuNumber := 0

/-- Loads some processes, the first of which has number `i`. -/
def loadAll (s : Simulation) (image : Image) :
    (count i : Nat) → Machine F → Except Stop Unit × Machine F
  | 0, _, m => (.ok (), m)
  | count + 1, i, m =>
    match m.perform cpu (.load image [s!"proc{i}"] s.strategy) with
    | (.error h, m) => (.error (.halt h), m)
    | (.ok (some (.error e)), m) => (.error (.complaint (.notLoaded i e)), m)
    | (.ok _, m) => s.loadAll image count (i + 1) m

/-- The plain memory of a process that was just loaded: what its pages start with,
and over it its arguments, as the kernel reads them. -/
def plainMemory (m : Machine F) (i : ProcessNumber) (p : Process) :
    Except Halt Memory × Machine F :=
  let start := p.registers.argv.val
  let memory := p.space.initialMemory
  if memory.size < start then (.error .outOfBounds, m)
  else
    match m.perform cpu (.read i p.registers.argv (memory.size - start)) with
    | (.error h, m) => (.error h, m)
    | (.ok bytes, m) => (.ok (memory.write ⟨start⟩ (bytes.getD #[])), m)

/-- The plain memories of some processes that were just loaded. -/
def plainMemories : List (ProcessNumber × Process) → Array Memory → Machine F →
    Except Stop (Array Memory) × Machine F
  | [], plain, m => (.ok plain, m)
  | (i, p) :: rest, plain, m =>
    match plainMemory m i p with
    | (.error h, m) => (.error (.halt h), m)
    | (.ok memory, m) => plainMemories rest (plain.push memory) m

/-- Gives the processor to a process, unless it has it. -/
def Run.turnTo (r : Run F) (i : ProcessNumber) : Except Halt Unit × Run F :=
  if r.running = some i then (.ok (), r)
  else
    let (a, machine) := r.machine.perform cpu (.switch r.running i)
    (a.map fun _ => (), { r with machine, running := some i })

/-- Compares a load with the plain memory, or makes a store there too.  The memory has to reach as
far. -/
def Run.compare (r : Run F) (i : ProcessNumber) (pid : Pid) (o : Operation) (moved : Bytes) :
    Except Stop Unit × Run F :=
  match r.plain[i]? with
  | none => (.error (.halt .outOfBounds), r)
  | some memory =>
    if memory.size < o.address.val + o.size then (.error (.halt .outOfBounds), r)
    else
      match o.access with
      | .store data =>
        (.ok (), { r with plain := r.plain.modify i (·.write ⟨o.address.val⟩ data) })
      | .load =>
        if moved = memory.read ⟨o.address.val⟩ o.size then (.ok (), r)
        else (.error (.complaint (.stale pid o.address)), r)

/-- Makes one operation of a process. -/
def Run.operate (r : Run F) (i : ProcessNumber) (p : Process) : Except Stop Unit × Run F :=
  match r.turnTo i with
  | (.error h, r) => (.error (.halt h), r)
  | (.ok (), r) =>
    match draw? p.space r.generator with
    | none => (.error (.halt .emptyRange), r)
    | some (o, generator) =>
      match r.machine.perform cpu (.access i o.address o.size o.access) with
      | (.error h, machine) => (.error (.halt h), { r with machine, generator })
      | (.ok none, machine) => (.ok (), { r with machine, generator })
      | (.ok (some a), machine) =>
        let r := { r with machine, generator }
        match a.cause with
        | some cause =>
          (.error (.complaint (.killed p.pid cause o.access.writing o.address)), r)
        | none => { r with made := ⟨i, o, a.moved⟩ :: r.made }.compare i p.pid o a.moved

/-- Makes some operations, the first of which has number `n`, the processes taking
turns. -/
def Run.operateAll (processes : Nat) : (count n : Nat) → Run F → Except Stop Unit × Run F
  | 0, _, r => (.ok (), r)
  | count + 1, n, r =>
    let i := n % max processes 1
    match r.machine.process? i with
    | none => (.ok (), r)
    | some p =>
      match r.operate i p with
      | (.error stop, r) => (.error stop, r)
      | (.ok (), r) => Run.operateAll processes count (n + 1) r

/-- Lets some processes exit. -/
def exitAll : List (ProcessNumber × Process) → Machine F → Except Stop Unit × Machine F
  | [], m => (.ok (), m)
  | (i, p) :: rest, m =>
    match m.perform cpu (.exit i 0) with
    | (.error h, m) => (.error (.halt h), m)
    | (.ok (some (.error e)), m) => (.error (.complaint (.notExited p.pid e)), m)
    | (.ok _, m) => exitAll rest m

/-- What the tables look like after all processes exited. -/
def verdict (s : Simulation) (m : Machine F) : Except Complaint Counters :=
  match m.kernel.inconsistency with
  | some how => .error (.inconsistent how)
  | none =>
    if m.kernel.core.frames.freeCount = s.config.frames then .ok m.kernel.core.counters
    else .error .framesLeaked

/-- The processes of a machine with their numbers. -/
def processesOf (m : Machine F) : List (ProcessNumber × Process) :=
  (List.range m.processes.size).filterMap fun i => (m.process? i).map (i, ·)

/-- The generator that the seed starts. -/
def generator (s : Simulation) : Random.ChaCha := .ofSeed s.seed.toUInt64

/-- The operations of a simulation on a machine whose processes are loaded, the last one first. -/
def drive (s : Simulation) (g : Random.ChaCha) (m : Machine F) :
    Except Stop (List Made) × Machine F :=
  let processes := processesOf m
  match plainMemories processes #[] m with
  | (.error stop, m) => (.error stop, m)
  | (.ok plain, machine) =>
    let r : Run F := { machine, plain, generator := g }
    match r.operateAll processes.length s.operations 0 with
    | (.error stop, r) => (.error stop, r.machine)
    | (.ok (), r) =>
      match exitAll processes r.machine with
      | (.error stop, m) => (.error stop, m)
      | (.ok (), m) => (.ok r.made, m)

/-- What comes of a simulation in which nothing came out wrong. -/
structure Record where
  /-- the operations that were made, the last one first -/
  made : List Made
  counters : Counters
  deriving DecidableEq, Repr, Inhabited

/-- A whole simulation of processes that run one program, with what a generator yields. -/
def workload (s : Simulation) (image : Image) (g : Random.ChaCha) (m : Machine F) :
    Except Stop Record × Machine F :=
  match s.loadAll image s.processes 0 m with
  | (.error stop, m) => (.error stop, m)
  | (.ok (), m) =>
    match s.drive g m with
    | (.error stop, m) => (.error stop, m)
    | (.ok made, m) => (((s.verdict m).map (⟨made, ·⟩)).mapError .complaint, m)

/-- The machine that a simulation runs on. -/
def machine (s : Simulation) (k : Kernel F) : Machine F :=
  ({ kernel := k } : Machine F).addCpu s.config.tlbSlots

/-- A whole simulation on a kernel that was just brought up.  Afterwards the kernel is shut down,
unless its machine came to its end. -/
def run (s : Simulation) (image : Image) (g : Random.ChaCha) (k : Kernel F) :
    Except Stop Record × Kernel F :=
  match s.workload image g (s.machine k) with
  | (.error (.halt h), m) => (.error (.halt h), m.kernel)
  | (r, m) => (r, m.kernel.shutdown)

end Simulation

end DemandPaging
