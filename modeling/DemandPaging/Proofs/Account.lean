import DemandPaging.Proofs.KernelOrder
import DemandPaging.Proofs.MachineChanges

/-!
# Machines that are used as they should be

A processor works for one process at a time: whoever switches it says truly which process ran
there, only that process accesses memory there, and the pid of a process is not given back before
the process has exited.

* `Account` — which process each processor was given to, and what plain memory every process
  should seem to have.
* `Machine.Permits` — the requests that are made of such a machine.
* `Account.after`, `Account.Tells` — what they make of the account, and what their answers say of it.
* `Machine.Orderly` — the machines that these requests lead to, in any order.
* `Machine.Orderly.after` — a machine stays orderly when it answers one more of them.
* `Machine.OrderlyWith` — the same, without the plain memories, which nothing that is permitted
  depends on.
* `Machine.serve?`, `Machine.OrderlyWith.serve` — a run of permitted jobs that can be computed, and
  what it shows.
-/

namespace DemandPaging

/-- What is to be said of a machine beside its state. -/
structure Account where
  /-- the process that each processor was given to last -/
  last : CpuNumber → Option ProcessNumber := fun _ => none
  /-- the plain memory of each process -/
  plain : ProcessNumber → Memory := fun _ => .blank 0

variable {F : Type}

namespace Machine

/-- Is the process loaded, and has it not exited yet? -/
def isLive (m : Machine F) (i : ProcessNumber) : Bool :=
  (m.process? i).any fun p => p.exitCode.isNone

/-- The live process that runs on a processor, if there is one. -/
def runner (m : Machine F) (a : Account) (cpu : CpuNumber) : Option ProcessNumber :=
  (a.last cpu).filter m.isLive

/-- May this be asked for on the processor?  Programs are loaded and ended at any time, a process
that has exited is dropped, processors are switched from the process that runs there, which is
the only one that accesses memory there, and the kernel reads and writes the memory of every
live process.  Whoever stores bytes gives as many as the range has addresses. -/
def Permits (m : Machine F) (a : Account) (cpu : CpuNumber) {α : Type} : Request α → Prop
  | .load .. | .exit .. => True
  | .drop i => m.isLive i = false
  | .switch previous _ => previous = m.runner a cpu
  | .access i _ count access =>
    m.runner a cpu = some i ∧ ∀ data, access = .store data → count = data.size
  | .read i .. => m.isLive i = true
  | .write i .. => m.isLive i = true
  | .readText i .. => m.isLive i = true
  | .resolveMiss .. | .accessPage .. | .trap .. | .destroySpace .. => False

end Machine

/-- What is permitted can be told from the machine. -/
instance Machine.decidablePermits (m : Machine F) (a : Account) (cpu : CpuNumber) {α : Type} :
    (request : Request α) → Decidable (m.Permits a cpu request)
  | .load .. | .exit .. => .isTrue trivial
  | .drop i => inferInstanceAs (Decidable (m.isLive i = false))
  | .switch previous _ => inferInstanceAs (Decidable (previous = m.runner a cpu))
  | .access i _ _ .load =>
    decidable_of_iff (m.runner a cpu = some i) ⟨fun h => ⟨h, fun _ heq => by cases heq⟩, And.left⟩
  | .access i _ count (.store data) =>
    decidable_of_iff (m.runner a cpu = some i ∧ count = data.size)
      (and_congr_right' ⟨fun h _ heq => Access.store.inj heq ▸ h, fun h => h data rfl⟩)
  | .read i .. | .write i .. | .readText i .. => inferInstanceAs (Decidable (m.isLive i = true))
  | .resolveMiss .. | .accessPage .. | .trap .. | .destroySpace .. => .isFalse id

/-- Which process each processor was given to last, after a request on one of them. -/
def Request.giving {α : Type} (cpu : CpuNumber) (last : CpuNumber → Option ProcessNumber) :
    Request α → CpuNumber → Option ProcessNumber
  | .switch _ next => Function.update last cpu (some next)
  | _ => last

namespace Account

/-- The plain memory of a process has changed. -/
def setPlain (a : Account) (i : ProcessNumber) (memory : Memory) : Account :=
  { a with plain := Function.update a.plain i memory }

theorem plain_setPlain (a : Account) (i j : ProcessNumber) (memory : Memory) :
    (a.setPlain i memory).plain j = if j = i then memory else a.plain j :=
  Function.update_apply _ _ _ _

@[simp] theorem setPlain_self (a : Account) (i : ProcessNumber) : a.setPlain i (a.plain i) = a := by
  rw [setPlain, Function.update_eq_self]

/-- The processor was given to a process, or to nobody. -/
def setLast (a : Account) (cpu : CpuNumber) (i : Option ProcessNumber) : Account :=
  { a with last := Function.update a.last cpu i }

theorem last_setLast (a : Account) (cpu n : CpuNumber) (i : Option ProcessNumber) :
    (a.setLast cpu i).last n = if n = cpu then i else a.last n :=
  Function.update_apply _ _ _ _

/-- So many bytes of an access to the memory of a process were moved. -/
def moved (a : Account) (i : ProcessNumber) (address : VirtAddr) (access : Access) (n : Nat) :
    Account :=
  match access with
  | .load => a
  | .store data => a.setPlain i ((a.plain i).write ⟨address.val⟩ (Bytes.slice data 0 n))

/-- The bytes that an access has moved are what it makes of the plain memory. -/
theorem moved_eq (a : Account) {i : ProcessNumber} {address : VirtAddr} {access : Access}
    {known : Prop} {bytes : Bytes} (h : access.Moved known (a.plain i) address.val bytes) :
    a.moved i address access bytes.size =
      a.setPlain i (access.after (a.plain i) address.val bytes) := by
  cases access with
  | load => exact (a.setPlain_self i).symm
  | store data =>
      rw [moved, ← h.store rfl]
      rfl

/-- A process was loaded, and starts with its program and its arguments. -/
def loaded (a : Account) (m : Machine F) (args : List String) (i : ProcessNumber) : Account :=
  match m.process? i with
  | some p => a.setPlain i (p.startMemory args)
  | none => a

/-- The account after a request that led to a machine and was answered.  A store changes as many
bytes as it says. -/
def after {α : Type} (a : Account) (m : Machine F) (cpu : CpuNumber) (request : Request α)
    (r : α) : Account :=
  match request with
  | .load _ args _ =>
    match r with
    | .ok i => a.loaded m args i
    | .error _ => a
  | .switch _ next => a.setLast cpu (some next)
  | .access i address _ access => a.moved i address access r.moved.size
  | .write i address data => a.moved i address (.store data) r
  | .exit .. | .drop .. | .read .. | .readText .. => a
  | .resolveMiss .. | .accessPage .. | .trap .. | .destroySpace .. => a

/-- The bytes are those that the plain memory of a process has from an address on. -/
def Shows (a : Account) (i : ProcessNumber) (address : VirtAddr) (bytes : Bytes) : Prop :=
  (0 < bytes.size → address.val + bytes.size ≤ (a.plain i).size) ∧
    bytes = (a.plain i).read ⟨address.val⟩ bytes.size

/-- The bytes in the answer to a request are those of the plain memory of the process, and an access
that no exception ended has moved all its bytes. -/
def Tells (a : Account) {α : Type} : Request α → α → Prop
  | .access i address count access, r =>
    (r.cause = none → r.moved.size = count) ∧ (access = .load → a.Shows i address r.moved)
  | .read i address _, bytes => a.Shows i address bytes
  | _, _ => True

theorem last_after {α : Type} (a : Account) (m : Machine F) (cpu : CpuNumber) (request : Request α)
    (r : α) : (a.after m cpu request r).last = request.giving cpu a.last := by
  cases request with
  | load image args strategy =>
    cases r with
    | error e => rfl
    | ok i =>
      show (a.loaded m args i).last = a.last
      unfold loaded
      split <;> rfl
  | access i address count access => cases access <;> rfl
  | _ => rfl

end Account

namespace Machine

variable [BackingFile F]

/-- The machines that permitted requests lead to, from a swap file on, in any order and on any
number of processors, also after requests that failed.  A process whose pid is that of a processor
may be taken to run there, also if another process had that pid when the processor was given to
it. -/
inductive Orderly (file : F) : Machine F → Account → Prop
  | boot {config : MachineConfig} {files : List String} {k : Kernel F} {j : Journal}
    (h : Kernel.boot config files (some file) = (.ok k, j)) : Orderly file { kernel := k } {}
  | addCpu {m : Machine F} {a : Account} (h : Orderly file m a) (slots : Nat) :
    Orderly file (m.addCpu slots) a
  | found {m : Machine F} {a : Account} {cpu : CpuNumber} {c : Processor} {i : ProcessNumber}
    {p : Process} (h : Orderly file m a) (hc : m.cpu? cpu = some c) (hp : m.process? i = some p)
    (hlive : m.isLive i = true) (hrunning : c.running = some p.pid) :
    Orderly file m (a.setLast cpu (some i))
  | perform {m m' : Machine F} {a : Account} {cpu : CpuNumber} {α : Type} {request : Request α}
    {r : α} (h : Orderly file m a) (hpermits : m.Permits a cpu request)
    (hp : m.perform cpu request = (.ok (some r), m')) :
    Orderly file m' (a.after m' cpu request r)

/-- What a request is answered with, if it is. -/
def answer? (m : Machine F) (cpu : CpuNumber) {α : Type} (request : Request α) : Option α :=
  (m.perform cpu request).1.toOption.join

theorem perform_of_answer? {m : Machine F} {cpu : CpuNumber} {α : Type} {request : Request α}
    {r : α} (h : m.answer? cpu request = some r) :
    m.perform cpu request = (.ok (some r), (m.perform cpu request).2) := by
  unfold answer? at h
  generalize m.perform cpu request = x at h ⊢
  obtain ⟨_ | answer, m'⟩ := x
  · cases h
  · obtain rfl : answer = some r := h
    rfl

/-- **A machine that is used as permitted stays orderly.** -/
theorem Orderly.after {file : F} {m : Machine F} {a : Account} (h : Orderly file m a)
    (cpu : CpuNumber) {α : Type} (request : Request α) (hpermits : m.Permits a cpu request)
    (hanswer : (m.answer? cpu request).isSome = true) :
    Orderly file (m.perform cpu request).2
      (a.after (m.perform cpu request).2 cpu request ((m.answer? cpu request).get hanswer)) :=
  h.perform hpermits (perform_of_answer? (Option.some_get hanswer).symm)

/-- A machine that was used as permitted, with the process that each processor was given to last,
which is all that it depends on what is permitted next. -/
def OrderlyWith (file : F) (m : Machine F) (last : CpuNumber → Option ProcessNumber) : Prop :=
  ∃ a, Orderly file m a ∧ a.last = last

theorem Orderly.withLast {file : F} {m : Machine F} {a : Account} (h : Orderly file m a) :
    OrderlyWith file m a.last :=
  ⟨a, h, rfl⟩

theorem OrderlyWith.after {file : F} {m : Machine F} {last : CpuNumber → Option ProcessNumber}
    (h : OrderlyWith file m last) (cpu : CpuNumber) {α : Type} (request : Request α)
    (hpermits : m.Permits { last } cpu request)
    (hanswer : (m.answer? cpu request).isSome = true) :
    OrderlyWith file (m.perform cpu request).2 (request.giving cpu last) := by
  obtain ⟨a, ha, rfl⟩ := h
  have hpermits : m.Permits a cpu request := by cases request <;> exact hpermits
  exact ⟨_, ha.after cpu request hpermits hanswer, a.last_after _ _ _ _⟩

/-! ## Runs -/

/-- The machine after some jobs, one after the other. -/
def performAll (m : Machine F) (jobs : List Job) : Machine F :=
  jobs.foldl (fun m job => (m.perform job.cpu job.request).2) m

/-- The machine after some jobs, if each of them is permitted and answered. -/
def serve? (m : Machine F) (last : CpuNumber → Option ProcessNumber) :
    List Job → Option (Machine F)
  | [] => some m
  | job :: rest =>
    if m.Permits { last } job.cpu job.request then
      match m.perform job.cpu job.request with
      | (.ok (some _), m) => m.serve? (job.request.giving job.cpu last) rest
      | _ => none
    else none

/-- **A machine that serves what it is asked for stays orderly**, however many jobs these are. -/
theorem OrderlyWith.serve {file : F} {m : Machine F} {last : CpuNumber → Option ProcessNumber}
    (h : OrderlyWith file m last) (jobs : List Job) (P : Machine F → Bool)
    (hserve : (m.serve? last jobs).any P = true) :
    ∃ n, n = m.performAll jobs ∧
      OrderlyWith file n (jobs.foldl (fun last job => job.request.giving job.cpu last) last) ∧
        P n = true := by
  induction jobs generalizing m last with
  | nil => exact ⟨m, rfl, h, hserve⟩
  | cons job rest ih =>
    rw [serve?] at hserve
    split at hserve
    · rename_i hpermits
      split at hserve
      · rename_i r m' hperform
        have hanswer : (m.answer? job.cpu job.request).isSome = true := by
          rw [answer?, hperform]
          rfl
        have hafter := h.after job.cpu job.request hpermits hanswer
        have hnext : (m.perform job.cpu job.request).2 = m' := congrArg Prod.snd hperform
        rw [performAll, List.foldl_cons, List.foldl_cons, hnext]
        exact ih (hnext ▸ hafter) hserve
      · cases hserve
    · cases hserve

end Machine

end DemandPaging
