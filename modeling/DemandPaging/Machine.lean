import DemandPaging.Trap

/-!
# The machine

A kernel, the processors that share it, and the processes that were loaded.
Processors and processes are numbered in the order they came; a number stays
with what it names, also when that is gone.

* `Machine.perform` — does one `Request` on a processor.
* `Machine.run` — does jobs one after the other, up to the end of the machine.
* `Machine.run_append` — a run goes on where the one before it stopped.
-/

namespace DemandPaging

/-- The number of a processor. -/
abbrev CpuNumber := Nat

/-- The number of a process, which unlike its pid is not used again. -/
abbrev ProcessNumber := Nat

/-- A kernel with its processors and processes. -/
structure Machine (F : Type) where
  kernel : Kernel F
  cpus : Array (Option Processor) := #[]
  processes : Array (Option Process) := #[]

/-- What a machine is asked to do on a processor, by what it answers. -/
inductive Request : Type → Type where
  /-- load a program with some arguments -/
  | load (image : Image) (args : List String) (strategy : Strategy) :
    Request (Except PagingError ProcessNumber)
  /-- end a process -/
  | exit (process : ProcessNumber) (status : Int) : Request (Except PagingError Unit)
  /-- forget a process and give its pid back -/
  | drop (process : ProcessNumber) : Request Unit
  /-- give the processor to a process, after the one that ran there if one did -/
  | switch (previous : Option ProcessNumber) (next : ProcessNumber) : Request Unit
  /-- a load or store of a user program at `count` addresses -/
  | access (process : ProcessNumber) (address : VirtAddr) (count : Nat) (access : Access) :
    Request Context.Accessed
  /-- copy bytes of a process to the kernel -/
  | read (process : ProcessNumber) (address : VirtAddr) (count : Nat) : Request Bytes
  /-- copy bytes of the kernel to a process -/
  | write (process : ProcessNumber) (address : VirtAddr) (data : Bytes) : Request Nat
  /-- copy a text of at most `limit` bytes to the kernel -/
  | readText (process : ProcessNumber) (address : VirtAddr) (limit : Nat) :
    Request (Option String)
  /-- resolve a TLB miss of a process -/
  | resolveMiss (process : ProcessNumber) (address : VirtAddr) : Request (Except PagingError Nat)
  /-- let the kernel at a page of a process -/
  | accessPage (process : ProcessNumber) (page : PageNumber) (writing : Bool)
      (change : Page → Page) : Request (Except PagingError (Option Page))
  /-- handle the exception of a code -/
  | trap (process : ProcessNumber) (code : Nat) : Request TrapOutcome
  /-- take the address space of a process away -/
  | destroySpace (pid : Pid) : Request (Except PagingError Unit)

/-- The result of an operation of the kernel, or the end of the machine. -/
def settled {α : Type} : Except Failure α → Except Halt (Except PagingError α)
  | .ok a => .ok (.ok a)
  | .error (.error e) => .ok (.error e)
  | .error (.halt h) => .error h

namespace Machine

variable {F : Type}

/-! ## Processors and processes -/

/-- The processor of a number. -/
def cpu? (m : Machine F) (cpu : CpuNumber) : Option Processor := m.cpus[cpu]?.join

/-- The process of a number. -/
def process? (m : Machine F) (p : ProcessNumber) : Option Process := m.processes[p]?.join

/-- The machine with another kernel state. -/
def setKernel (m : Machine F) (k : Kernel F) : Machine F := { m with kernel := k }

/-- The machine with a processor replaced. -/
def setCpu (m : Machine F) (cpu : CpuNumber) (c : Processor) : Machine F :=
  { m with cpus := m.cpus.setIfInBounds cpu (some c) }

/-- The machine with a process replaced. -/
def setProcess (m : Machine F) (i : ProcessNumber) (p : Process) : Machine F :=
  { m with processes := m.processes.setIfInBounds i (some p) }

/-- The machine with one more processor, whose TLB has some slots. -/
def addCpu (m : Machine F) (slots : Nat) : Machine F :=
  let (tlb, tlbs) := m.kernel.core.tlbs.add slots
  { m with
    kernel := { m.kernel with core := { m.kernel.core with tlbs } }
    cpus := m.cpus.push (some { tlb }) }

/-- The machine with some more processors. -/
def addCpus (m : Machine F) (slots : Nat) : (count : Nat) → Machine F
  | 0 => m
  | count + 1 => (m.addCpu slots).addCpus slots count

/-- The machine without a processor and its TLB. -/
def dropCpu (m : Machine F) (cpu : CpuNumber) : Machine F :=
  match m.cpu? cpu with
  | none => m
  | some c =>
    let tlbs := m.kernel.core.tlbs.drop c.tlb
    { m with
      kernel := { m.kernel with core := { m.kernel.core with tlbs } }
      cpus := m.cpus.setIfInBounds cpu none }

/-- What a trap of a process on a processor works on. -/
def context? (m : Machine F) (cpu : CpuNumber) (p : ProcessNumber) : Option (Context F) :=
  match m.cpu? cpu, m.process? p with
  | some c, some p => some ⟨m.kernel, c, p⟩
  | _, _ => none

/-- The machine after a trap of a process on a processor. -/
def setContext (m : Machine F) (cpu : CpuNumber) (p : ProcessNumber) (x : Context F) :
    Machine F :=
  ((m.setKernel x.kernel).setCpu cpu x.cpu).setProcess p x.process

/-- Does something for a process on a processor, if both are there. -/
def within {α : Type} (m : Machine F) (cpu : CpuNumber) (p : ProcessNumber)
    (act : Context F → Except Halt α × Context F) : Except Halt (Option α) × Machine F :=
  match m.context? cpu p with
  | none => (.ok none, m)
  | some x =>
    let (r, x) := act x
    (r.map some, m.setContext cpu p x)

/-! ## Switching -/

/-- Takes a processor from the process that ran there.  If none did, or what ran
there is gone, the TLB is cleared. -/
def leave (m : Machine F) (c : Processor) (previous : Option (ProcessNumber × Process)) :
    Machine F :=
  match previous with
  | none => m.setKernel (m.kernel.invalidateTlb c.tlb)
  | some (i, p) =>
    let k :=
      if c.running = some p.pid then m.kernel
      else m.kernel.note (.switchedFromOther p.pid c.running)
    let (snapshot, k) := k.saveTlb c.tlb p.pid
    (m.setKernel k).setProcess i { p with snapshot }

/-- Gives a processor to a process. -/
def enter (m : Machine F) (cpu : CpuNumber) (c : Processor) (previous : Option Pid)
    (next : Process) : Machine F :=
  let (restored, k) := m.kernel.restoreTlb c.tlb next.pid next.snapshot
  let k := { k with journal := { k.journal with current := some next.pid } }
  (m.setKernel (k.note (.switched previous next.pid restored))).setCpu cpu
    { c with running := some next.pid }

/-- Switches a processor from one process to another, if all three are there. -/
def switch (m : Machine F) (cpu : CpuNumber) (previous : Option ProcessNumber)
    (next : ProcessNumber) : Option (Machine F) :=
  match m.cpu? cpu, previous, previous.bind m.process? with
  | none, _, _ => none
  | some _, some _, none => none
  | some c, _, p =>
    let m' := m.leave c (previous.bind fun i => p.map (i, ·))
    (m'.process? next).map fun q => m'.enter cpu c (p.map (·.pid)) q

/-! ## Requests -/

/-- Loads a program as a new process. -/
def load [BackingFile F] (m : Machine F) (c : Processor) (image : Image) (args : List String)
    (strategy : Strategy) : Except Halt (Except PagingError ProcessNumber) × Machine F :=
  match m.kernel.load c.tlb image args strategy with
  | (.error e, k) => (settled (.error e), m.setKernel k)
  | (.ok p, k) =>
    (.ok (.ok m.processes.size),
      { m with kernel := k, processes := m.processes.push (some p) })

/-- Forgets a process and gives its pid back.  Its address space stays. -/
def drop (m : Machine F) (i : ProcessNumber) (p : Process) : Except Halt Unit × Machine F :=
  let (r, k) := m.kernel.dropPid p.pid
  (r, { m with kernel := k, processes := m.processes.setIfInBounds i none })

/-- Does what is asked on a processor.  Nothing is answered to a request that names
a processor or a process that is not there. -/
def perform [BackingFile F] {α : Type} (m : Machine F) (cpu : CpuNumber) :
    Request α → Except Halt (Option α) × Machine F
  | .load image args strategy =>
    match m.cpu? cpu with
    | none => (.ok none, m)
    | some c =>
      let (r, m) := m.load c image args strategy
      (r.map some, m)
  | .exit i status =>
    m.within cpu i fun x =>
      let (r, x) := x.exit status
      (settled r, x)
  | .drop i =>
    match m.process? i with
    | none => (.ok none, m)
    | some p =>
      let (r, m) := m.drop i p
      (r.map some, m)
  | .switch previous next =>
    match m.switch cpu previous next with
    | none => (.ok none, m)
    | some m => (.ok (some ()), m)
  | .access i address count access =>
    m.within cpu i fun x => x.userAccess address count access
  | .read i address count =>
    m.within cpu i fun x =>
      let (r, kernel) := x.kernel.readMemory x.cpu.tlb x.process address count
      (r, { x with kernel })
  | .write i address data =>
    m.within cpu i fun x =>
      let (r, kernel) := x.kernel.writeMemory x.cpu.tlb x.process address data
      (r, { x with kernel })
  | .readText i address limit =>
    m.within cpu i fun x =>
      let (r, kernel) := x.kernel.readText x.cpu.tlb x.process address limit
      (r, { x with kernel })
  | .resolveMiss i address =>
    m.within cpu i fun x =>
      let p := x.process
      let (r, kernel) := x.kernel.handleMiss x.cpu.tlb p.space p.strategy address
      (settled r, { x with kernel })
  | .accessPage i page writing change =>
    m.within cpu i fun x =>
      let p := x.process
      let (r, kernel) := x.kernel.accessPage x.cpu.tlb p.space p.strategy page writing change
      (settled r, { x with kernel })
  | .trap i code => m.within cpu i fun x => x.handleTrap code
  | .destroySpace pid =>
    let (r, k) := m.kernel.destroySpace pid
    ((settled r).map some, m.setKernel k)

/-- A request of any kind, and the processor it is for. -/
structure Job where
  cpu : CpuNumber
  answer : Type
  request : Request answer

/-- Does some jobs one after the other.  Nothing is done after the end of the
machine. -/
def run [BackingFile F] : Machine F → List Job → Except Halt (Machine F)
  | m, [] => .ok m
  | m, job :: rest =>
    match m.perform job.cpu job.request with
    | (.ok _, m) => run m rest
    | (.error h, _) => .error h

/-- A run goes on where the one before it stopped. -/
theorem run_append [BackingFile F] (m : Machine F) (xs ys : List Job) :
    run m (xs ++ ys) = (run m xs).bind (run · ys) := by
  induction xs generalizing m with
  | nil => rfl
  | cons x xs ih =>
    simp only [List.cons_append, run]
    split
    · exact ih _
    · rfl

end Machine

end DemandPaging
