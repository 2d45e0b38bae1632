import DemandPaging.Proofs.MachineOrder
import DemandPaging.Proofs.ProgramReach

/-!
# A process alone

What a process is answered follows from its program, its arguments and what it did before.  It is
computed here from an address space and a plain memory; there are no frames, TLBs or swap files,
and no other processes.

* `Deed`, `Outcome` — what a process does, and what comes of it.
* `Solo.load`, `Solo.perform`, `Solo.diary` — a process that is alone, and what it does.
* `Solo.Plays` — a process on a machine is the process alone.
* `Solo.Plays.perform`, `Solo.plays_of_load` — it stays so, and is answered the same.
-/

namespace DemandPaging

open Paging Kernel

/-! ## What a process does -/

/-- What a process does, and what the kernel does for it. -/
inductive Deed where
  | access (address : VirtAddr) (count : Nat) (access : Access)
  | read (address : VirtAddr) (count : Nat)
  | write (address : VirtAddr) (data : Bytes)
  | readText (address : VirtAddr) (limit : Nat)
  | exit (status : Int)

/-- What comes of it; pids are left out. -/
inductive Outcome where
  | accessed (r : Context.Accessed)
  | bytes (bytes : Bytes)
  | count (n : Nat)
  | text (text : Option String)
  | exited (r : Except PagingError Unit)

/-- One thing that a process did, what came of it, and the status with which the process has
exited by then. -/
structure Turn where
  deed : Deed
  outcome : Except Halt Outcome
  exitCode : Option Int

/-- The error without the pid in it. -/
def PagingError.unnamed : PagingError → PagingError
  | .noAddressSpace _ => .noAddressSpace 0
  | .addressSpaceExists _ => .addressSpaceExists 0
  | e => e

namespace Deed

/-- What a machine answers to a deed. -/
def Answer : Deed → Type
  | .access .. => Context.Accessed
  | .read .. => Bytes
  | .write .. => Nat
  | .readText .. => Option String
  | .exit _ => Except PagingError Unit

/-- The request by which a process does it. -/
def request (i : ProcessNumber) : (d : Deed) → Request d.Answer
  | .access address count a => .access i address count a
  | .read address count => .read i address count
  | .write address data => .write i address data
  | .readText address limit => .readText i address limit
  | .exit status => .exit i status

def outcome : (d : Deed) → d.Answer → Outcome
  | .access _ _ _, r => .accessed r
  | .read _ _, r => .bytes r
  | .write _ _, r => .count r
  | .readText _ _, r => .text r
  | .exit _, r => .exited (r.mapError PagingError.unnamed)

section

variable {F : Type} [BackingFile F] {m m' : Machine F} {i : ProcessNumber} {d : Deed}

/-- What a process does is done on a processor. -/
theorem exists_within (m : Machine F) (cpu : CpuNumber) (i : ProcessNumber) (d : Deed) :
    ∃ act : Context F → Except Halt d.Answer × Context F,
      m.perform cpu (d.request i) = m.within cpu i act := by
  cases d <;> simp only [request, Machine.perform] <;> exact ⟨_, rfl⟩

omit [BackingFile F] in
/-- Nothing else may happen to a process by it than that it is ended. -/
theorem loses_of_fates {fate : Fate} (h : m.fates m' (d.request i) fate) :
    ∃ pid, fate = .loses pid := by
  cases d with
  | access | exit =>
      obtain ⟨p, -, -, -, -, rfl⟩ := h
      exact ⟨p.pid, rfl⟩
  | read | write | readText => cases h

end

end Deed

/-- What a machine answers if a process does something on a processor, if both are there. -/
def Machine.ask {F : Type} [BackingFile F] (m : Machine F) (cpu : CpuNumber) (i : ProcessNumber)
    (d : Deed) : Except Halt (Option Outcome) :=
  (m.perform cpu (d.request i)).1.map (·.map d.outcome)

/-! ## The pid does not matter -/

namespace AddressSpace

variable {space : AddressSpace} {pid : Pid} {image : Image} {args : List String}

/-- The address space with another pid. -/
def withPid (space : AddressSpace) (pid : Pid) : AddressSpace := { space with pid }

theorem reach_withPid (writing : Bool) (qs : List Piece) :
    (space.withPid pid).reach writing qs = space.reach writing qs := by
  induction qs with
  | nil => rfl
  | cons q qs ih =>
      rw [reach, reach, ih]
      rfl

theorem initialMemory_withPid : (space.withPid pid).initialMemory = space.initialMemory := by
  unfold initialMemory
  rfl

theorem reads_withPid (memory : Memory) (address : VirtAddr) (count : Nat) :
    Kernel.reads (space.withPid pid) memory address count =
      Kernel.reads space memory address count := by
  rw [Kernel.reads, Kernel.reads, reach_withPid]

theorem accesses_withPid (memory : Memory) (address : VirtAddr) (count : Nat) (access : Access) :
    Context.accesses (space.withPid pid) memory address count access =
      Context.accesses space memory address count access := by
  rw [Context.accesses, Context.accesses, reach_withPid]

theorem argumentsError_withPid :
    (space.withPid pid).argumentsError args = space.argumentsError args := by
  unfold argumentsError
  dsimp only
  rw [reach_withPid]
  rfl

theorem make_withPid (config : MachineConfig) :
    make pid image config = (make 0 image config).map (·.withPid pid) := by
  unfold make
  cases Section.check image.sections with
  | error e => rfl
  | ok _ =>
      dsimp only
      split <;> rename_i hlt
      · rw [if_pos (by exact hlt)]
        rfl
      · rw [if_neg (by exact hlt)]
        rfl

/-- **Whether a program can be loaded does not depend on the pid.** -/
theorem ofProgram_withPid (config : MachineConfig) :
    ofProgram pid image args config = (ofProgram 0 image args config).map (·.withPid pid) := by
  unfold ofProgram
  rw [make_withPid]
  split
  · rfl
  · cases make 0 image config with
    | error e => rfl
    | ok space =>
        dsimp only [Except.map]
        rw [argumentsError_withPid]
        cases space.argumentsError args <;> rfl

/-- Of the settings, only the numbers of stack and argument pages matter. -/
theorem ofProgram_congr {c d : MachineConfig} (hstack : c.stackPages = d.stackPages)
    (hargs : c.argPages = d.argPages) : ofProgram pid image args c = ofProgram pid image args d := by
  unfold ofProgram make
  rw [hstack, hargs]

theorem fits_of_ofProgram {config : MachineConfig}
    (h : ofProgram pid image args config = .ok space) : space.pageCount * pageSize ≤ maxUserAddr := by
  unfold ofProgram at h
  split at h
  · cases h
  · split at h
    · cases h
    · rename_i made hmake
      split at h
      · cases h
      · obtain rfl := Except.ok.inj h
        exact make_fits hmake

end AddressSpace

/-! ## The process alone -/

/-- A process that is alone, with an address space of no particular pid. -/
structure Solo where
  space : AddressSpace
  registers : Registers
  memory : Memory
  exitCode : Option Int := none

instance : Inhabited Solo :=
  ⟨{ space := ⟨0, .assembled { entry := 0 }, 0, 0, 0⟩, registers := default, memory := .blank 0 }⟩

namespace Solo

variable {s : Solo}

/-- A program is loaded with some arguments. -/
def load (image : Image) (args : List String) (config : MachineConfig) : Except PagingError Solo :=
  (AddressSpace.ofProgram 0 image args config).map fun space =>
    { space, registers := space.registers args
      memory := (space.newProcess args).startMemory args }

/-- The bytes that the kernel finds at some addresses; it finds nothing once the process has
exited. -/
def reads (s : Solo) (address : VirtAddr) (count : Nat) : Bytes :=
  if s.exitCode = none then Kernel.reads s.space s.memory address count else #[]

/-- How many bytes the kernel can write. -/
def writes (s : Solo) (address : VirtAddr) (count : Nat) : Nat :=
  if s.exitCode = none then (s.space.reach true (pieces address count)).1 else 0

/-- The process does something. -/
def perform (s : Solo) : Deed → Except Halt Outcome × Solo
  | .access address count access =>
    let r := Context.accesses s.space s.memory address count access
    -- An exception is the end of the process, but what was stored before it counts.
    (.ok (.accessed r),
      { s with
        memory := access.after s.memory address.val r.moved
        exitCode := r.cause.map fun _ => Context.killedStatus })
  | .read address count => (.ok (.bytes (s.reads address count)), s)
  | .write address data =>
    let n := s.writes address data.size
    (.ok (.count n), { s with memory := s.memory.write ⟨address.val⟩ (Bytes.slice data 0 n) })
  | .readText address limit => ((textIn limit (s.reads address (limit + 1))).map .text, s)
  | .exit status =>
    -- A process that has exited can be told to exit with another status.
    (.ok (.exited (if s.exitCode = none then .ok () else .error (.noAddressSpace 0))),
      { s with exitCode := some status })

/-- The process after some deeds, of which the last comes first. -/
def after (s : Solo) : List Deed → Solo
  | [] => s
  | d :: earlier => ((s.after earlier).perform d).2

/-- What comes of a deed, as it is noted. -/
def turn (s : Solo) (d : Deed) : Turn :=
  { deed := d, outcome := (s.perform d).1, exitCode := (s.perform d).2.exitCode }

/-- What comes of some deeds, of which the last comes first. -/
def diary (s : Solo) : List Deed → List Turn
  | [] => []
  | d :: earlier => (s.after earlier).turn d :: s.diary earlier

theorem load_congr {c d : MachineConfig} (hstack : c.stackPages = d.stackPages)
    (hargs : c.argPages = d.argPages) (image : Image) (args : List String) :
    load image args c = load image args d := by
  rw [load, load, AddressSpace.ofProgram_congr hstack hargs]

/-- A process on a machine, with its plain memory, is the process alone.  What the memory of a
process was that has exited does not matter. -/
structure Plays (s : Solo) (strategy : Strategy) (memory : Memory) (p : Process) : Prop where
  space : p.space = s.space.withPid p.pid
  strategy : p.strategy = strategy
  registers : p.registers = s.registers
  exitCode : p.exitCode = s.exitCode
  memory : p.exitCode = none → memory = s.memory
  fits : s.space.pageCount * pageSize ≤ maxUserAddr

/-- What the TLB held when the process was switched out does not matter. -/
theorem Plays.of_snapshot {strategy : Strategy} {memory : Memory} {p : Process}
    (h : s.Plays strategy memory p) (snapshot : TlbSnapshot) :
    s.Plays strategy memory { p with snapshot } :=
  ⟨h.space, h.strategy, h.registers, h.exitCode, h.memory, h.fits⟩

/-! ## On a machine -/

section

variable {F : Type} [BackingFile F] {v : ReliableView F} {tenants : Pid → Option Tenant}
  {seat : TlbId → Option Pid} {m m' : Machine F} {a : Account} {cpu : CpuNumber}
  {i : ProcessNumber} {c : Processor} {p : Process} {k : Kernel F} {strategy : Strategy}

namespace Plays

theorem fits' {memory : Memory} (h : s.Plays strategy memory p) :
    p.space.pageCount * pageSize ≤ maxUserAddr := by
  rw [h.space]
  exact h.fits

/-- If nothing runs out, then not for the process either. -/
theorem supplies (h : s.Plays strategy (a.plain i) p)
    (hm : m.InOrder (some v.toFileView) tenants seat a) (hv : m.kernel.Provides v strategy)
    (hp : m.process? i = some p) (hlive : p.exitCode = none) :
    m.kernel.Supplies v p.space p.strategy := by
  obtain ⟨hpid, hcount, -⟩ := hm.kernel.lodged.space (hm.tenant hp hlive)
  rw [h.strategy]
  exact hv.supplies (hpid.symm ▸ hcount)

/-- A process that has exited has no address space. -/
theorem absent (h : s.Plays strategy (a.plain i) p) (hm : m.InOrder (some v.toFileView) tenants seat a)
    (hp : m.process? i = some p) (hexit : p.exitCode ≠ none) :
    m.kernel.core.spaces[p.space.pid]? = none := by
  rw [h.space]
  exact hm.kernel.lodged.spaces_eq_none (hm.tenants_of_exited hp hexit)

/-- The plain memory of a process that lives is read where the process alone has it. -/
theorem reads_of_live {memory : Memory} (h : s.Plays strategy memory p) (hlive : p.exitCode = none)
    (address : VirtAddr) (count : Nat) :
    Kernel.reads p.space memory address count = s.reads address count := by
  rw [reads, if_pos (h.exitCode.symm.trans hlive), h.space, AddressSpace.reads_withPid,
    h.memory hlive]

theorem reads_of_exited {memory : Memory} (h : s.Plays strategy memory p) (hexit : p.exitCode ≠ none)
    (address : VirtAddr) (count : Nat) : s.reads address count = #[] :=
  if_neg fun hlive => hexit (h.exitCode.trans hlive)

/-- **The kernel reads what it would read if the process were alone.** -/
theorem readMemory {address : VirtAddr} {count : Nat} {r : Except Halt Bytes}
    (h : s.Plays strategy (a.plain i) p) (hm : m.InOrder (some v.toFileView) tenants seat a)
    (hv : m.kernel.Provides v strategy) (hc : m.cpu? cpu = some c) (hp : m.process? i = some p)
    (hr : m.kernel.readMemory c.tlb p address count = (r, k)) :
    r = .ok (s.reads address count) ∧
      (m.setContext cpu i ⟨k, c, p⟩).InOrder (some v.toFileView) tenants seat a := by
  by_cases hexit : p.exitCode = none
  · have hT := hm.tenant hp hexit
    obtain rfl := readMemory_reach hm.kernel (h.supplies hm hv hp hexit) hT h.fits' hr
    obtain ⟨hstays, -, hk⟩ := readMemory_inOrder hm.kernel hT hr
    rw [h.reads_of_live hexit]
    exact ⟨rfl, hm.looked hc hp hexit hstays hk⟩
  · obtain ⟨rfl, hidle⟩ := readMemory_absent hm.kernel.toAgrees (h.absent hm hp hexit) hr
    rw [h.reads_of_exited hexit]
    exact ⟨rfl, hm.idled hc hp hexit rfl (fun _ _ => rfl) hidle.stays
      (hm.kernel.quiet hidle.quiet)⟩

theorem readText {address : VirtAddr} {limit : Nat} {r : Except Halt (Option String)}
    (h : s.Plays strategy (a.plain i) p) (hm : m.InOrder (some v.toFileView) tenants seat a)
    (hv : m.kernel.Provides v strategy) (hc : m.cpu? cpu = some c) (hp : m.process? i = some p)
    (hr : m.kernel.readText c.tlb p address limit = (r, k)) :
    r = textIn limit (s.reads address (limit + 1)) ∧ ∀ text, r = .ok text →
      (m.setContext cpu i ⟨k, c, p⟩).InOrder (some v.toFileView) tenants seat a := by
  by_cases hexit : p.exitCode = none
  · have hT := hm.tenant hp hexit
    refine ⟨?_, ?_⟩
    · rw [readText_reach hm.kernel (h.supplies hm hv hp hexit) hT h.fits' hr, h.reads_of_live hexit]
    · rintro text rfl
      obtain ⟨hstays, hk⟩ := readText_inOrder hm.kernel hT hr
      exact hm.looked hc hp hexit hstays hk
  · obtain ⟨rfl, hidle⟩ := readText_absent hm.kernel.toAgrees (h.absent hm hp hexit) hr
    rw [h.reads_of_exited hexit]
    exact ⟨rfl, fun _ _ => hm.idled hc hp hexit rfl (fun _ _ => rfl) hidle.stays
      (hm.kernel.quiet hidle.quiet)⟩

/-- **The kernel writes as much as it would write if the process were alone.** -/
theorem writeMemory {address : VirtAddr} {data : Bytes} {r : Except Halt Nat}
    (h : s.Plays strategy (a.plain i) p) (hm : m.InOrder (some v.toFileView) tenants seat a)
    (hv : m.kernel.Provides v strategy) (hc : m.cpu? cpu = some c) (hp : m.process? i = some p)
    (hr : m.kernel.writeMemory c.tlb p address data = (r, k)) :
    r = .ok (s.writes address data.size) ∧ ∃ tenants',
      (m.setContext cpu i ⟨k, c, p⟩).InOrder (some v.toFileView) tenants' seat
        (a.moved i address (.store data) (s.writes address data.size)) := by
  by_cases hexit : p.exitCode = none
  · have hT := hm.tenant hp hexit
    have hwrites : r = .ok (s.writes address data.size) := by
      rw [writeMemory_reach hm.kernel (h.supplies hm hv hp hexit) hT h.fits' hr, writes,
        if_pos (h.exitCode.symm.trans hexit), h.space, AddressSpace.reach_withPid]
    subst hwrites
    obtain ⟨hstays, -, hk⟩ := writeMemory_inOrder hm.kernel hT hr
    exact ⟨rfl, _, hm.worked hc hp hexit hstays hk⟩
  · -- Nothing is written, so the account changes at most for a memory that is gone.
    obtain ⟨rfl, hidle⟩ := writeMemory_absent hm.kernel.toAgrees (h.absent hm hp hexit) hr
    rw [writes, if_neg fun hlive => hexit (h.exitCode.trans hlive)]
    have hplain : ∀ j, j ≠ i → (a.moved i address (.store data) 0).plain j = a.plain j :=
      fun j hj => (a.plain_setPlain i j _).trans (if_neg hj)
    have hlast : (a.moved i address (.store data) 0).last = a.last := rfl
    exact ⟨rfl, tenants, hm.idled hc hp hexit hlast hplain hidle.stays
      (hm.kernel.quiet hidle.quiet)⟩

end Plays

/-- A program that can be loaded is laid out in machine words. -/
theorem overruns_of_load {image : Image} {args : List String} {config : MachineConfig}
    (h : load image args config = .ok s) : AddressSpace.overruns image args config = false := by
  unfold load at h
  cases hprogram : AddressSpace.ofProgram 0 image args config with
  | error e =>
      rw [hprogram] at h
      cases h
  | ok space => exact AddressSpace.overruns_of_ofProgram hprogram

/-- **Loading goes as if the process were alone**, and so does the process then. -/
theorem plays_of_load {image : Image} {args : List String}
    {r : Except Halt (Except PagingError ProcessNumber)}
    (hm : m.InOrder (some v.toFileView) tenants seat a)
    (hv : m.kernel.Ready v c.tlb m.kernel.pids.alloc.1 image strategy)
    (h : m.load c image args strategy = (r, m')) :
    (AddressSpace.overruns image args m.kernel.config = true ∧ r = .error .overflow) ∨
      AddressSpace.overruns image args m.kernel.config = false ∧
        ((∃ e, load image args m.kernel.config = .error e ∧ r = .ok (.error e) ∧
            m'.processes = m.processes) ∨
          ∃ s p, load image args m.kernel.config = .ok s ∧ r = .ok (.ok m.processes.size) ∧
            m'.processes = m.processes.push (some p) ∧
            s.Plays strategy (p.startMemory args) p) := by
  unfold Machine.load at h
  unfold load
  cases hload : m.kernel.load c.tlb image args strategy with
  | mk x k =>
      rw [hload] at h
      have hreach := load_reach hm.kernel hv hm.sound (fun pid hpid => hm.tenants_eq_none hpid) hload
      cases hwords : AddressSpace.overruns image args m.kernel.config with
      | true =>
          rw [hwords, if_pos rfl] at hreach
          subst hreach
          exact Or.inl ⟨rfl, (Prod.mk.inj h).1.symm⟩
      | false =>
          rw [hwords, if_neg Bool.false_ne_true, AddressSpace.ofProgram_withPid] at hreach
          refine Or.inr ⟨rfl, ?_⟩
          cases hprogram : AddressSpace.ofProgram 0 image args m.kernel.config with
          | error e =>
              rw [hprogram] at hreach
              subst hreach
              obtain ⟨rfl, rfl⟩ := Prod.mk.inj h
              exact Or.inl ⟨e, rfl, rfl, rfl⟩
          | ok space =>
              rw [hprogram] at hreach
              subst hreach
              obtain ⟨rfl, rfl⟩ := Prod.mk.inj h
              refine Or.inr ⟨_, _, rfl, rfl, rfl, rfl, rfl, rfl, rfl, fun _ => rfl, ?_⟩
              exact AddressSpace.fits_of_ofProgram hprogram

/-- A process has done something: it is what the process alone is now, and no other process has
noticed. -/
structure Did (v : ReliableView F) (strategy : Strategy) (s : Solo) (i : ProcessNumber)
    (m : Machine F) (a : Account) (m' : Machine F) (b : Account) : Prop where
  inOrder : ∃ tenants seat, m'.InOrder (some v.toFileView) tenants seat b
  process : ∃ q, (∀ j, m'.process? j = if j = i then some q else m.process? j) ∧
    s.Plays strategy (b.plain i) q
  plain : ∀ j, j ≠ i → b.plain j = a.plain j
  size : m'.processes.size = m.processes.size

theorem Did.process?_of_ne {b : Account} {j : ProcessNumber} (h : Did v strategy s i m a m' b)
    (hj : j ≠ i) : m'.process? j = m.process? j := by
  obtain ⟨q, hprocess, -⟩ := h.process
  exact (hprocess j).trans (if_neg hj)

theorem did_of_setContext {b : Account} {y : Context F} (hp : m.process? i = some p)
    (hend : ∃ tenants seat, (m.setContext cpu i y).InOrder (some v.toFileView) tenants seat b)
    (hplays : s.Plays strategy (b.plain i) y.process) (hplain : ∀ j, j ≠ i → b.plain j = a.plain j) :
    Did v strategy s i m a (m.setContext cpu i y) b where
  inOrder := hend
  process := ⟨y.process, fun _ => Machine.process?_setContext hp y, hplays⟩
  plain := hplain
  size := Array.size_setIfInBounds

namespace Plays

/-- **A process exits as if it were alone.** -/
theorem exit {status : Int} {r : Except Failure Unit} {y : Context F}
    (h : s.Plays strategy (a.plain i) p) (hm : m.InOrder (some v.toFileView) tenants seat a)
    (hc : m.cpu? cpu = some c) (hp : m.process? i = some p)
    (hr : Context.exit ⟨m.kernel, c, p⟩ status = (r, y)) :
    r = (if s.exitCode = none then .ok () else .error (.error (.noAddressSpace p.pid))) ∧
      Did v strategy { s with exitCode := some status } i m a (m.setContext cpu i y) a := by
  have hanswer := Context.exit_reach (x := ⟨m.kernel, c, p⟩) hm.kernel hr
  obtain ⟨hended, -⟩ := Context.exit_ended (x := ⟨m.kernel, c, p⟩) hm.kernel
    (fun hrunning => hm.seat_of_running hc hrunning) hr
  refine ⟨?_, did_of_setContext hp ⟨_, _, hm.exit hc hp hr⟩ ?_ fun _ _ => rfl⟩
  · dsimp only at hanswer
    by_cases hexit : p.exitCode = none
    · rw [hm.tenant hp hexit] at hanswer
      rw [hanswer, if_pos (h.exitCode.symm.trans hexit)]
    · rw [hm.tenants_of_exited hp hexit] at hanswer
      rw [hanswer, if_neg fun hlive => hexit (h.exitCode.trans hlive)]
  · rw [hended.process]
    exact ⟨h.space, h.strategy, h.registers, rfl, (fun hlive => by cases hlive), h.fits⟩

/-- **A process loads and stores as if it were alone.** -/
theorem access {address : VirtAddr} {count : Nat} {access : Access}
    {r : Except Halt Context.Accessed} {y : Context F}
    (h : s.Plays strategy (a.plain i) p) (hm : m.InOrder (some v.toFileView) tenants seat a)
    (hv : m.kernel.Provides v strategy) (hc : m.cpu? cpu = some c) (hp : m.process? i = some p)
    (hrunner : m.runner a cpu = some i) (hcount : ∀ data, access = .store data → count = data.size)
    (hr : Context.userAccess ⟨m.kernel, c, p⟩ address count access = (r, y)) :
    r = .ok (Context.accesses s.space s.memory address count access) ∧
      Did v strategy (s.perform (.access address count access)).2 i m a (m.setContext cpu i y)
        (a.moved i address access
          (Context.accesses s.space s.memory address count access).moved.size) := by
  obtain ⟨hlast, hlive⟩ := Machine.runner_eq_some.1 hrunner
  obtain ⟨q, hq, hexit⟩ := Machine.isLive_iff.1 hlive
  obtain rfl := Option.some.inj (hp.symm.trans hq)
  have hx : Context.Works v (some v.toFileView) tenants seat (a.plain i)
      (⟨m.kernel, c, p⟩ : Context F) :=
    { inOrder := hm.kernel
      supplies := h.supplies hm hv hp hexit
      tenant := hm.tenant hp hexit
      seated := (hm.works hc).2 ⟨i, p, hlast, hp, hexit, rfl⟩
      live := hm.live hc
      running := hexit
      fits := h.fits' }
  have hfits : ∀ data, access = .store data → count ≤ data.size :=
    fun data hd => Nat.le_of_eq (hcount data hd)
  -- The answer is known; whether the process goes on or is ended is seen from the cause in it.
  have hreach := Context.userAccess_reach hx hfits hr
  dsimp only at hreach
  rw [h.space, AddressSpace.accesses_withPid, h.memory hexit] at hreach
  subst hreach
  generalize hb : Context.accesses s.space s.memory address count access = b at hr ⊢
  obtain ⟨hmoved, hend⟩ := Context.userAccess_inOrder hx.inOrder hx.tenant hx.seated hfits hr
  have hwithin : m.within cpu i (fun x => x.userAccess address count access) =
      (.ok (some b), m.setContext cpu i y) := by
    rw [Machine.within_eq hc hp, hr]
    rfl
  refine ⟨rfl, did_of_setContext hp (hm.access hrunner hcount hwithin).2 ?_ fun j hj => ?_⟩
  · have hs : (s.perform (.access address count access)).2 =
        { s with
          memory := access.after s.memory address.val b.moved
          exitCode := b.cause.map fun _ => Context.killedStatus } := by
      rw [← hb]
      rfl
    rw [hs, a.moved_eq hmoved, Account.plain_setPlain, if_pos rfl, h.memory hexit]
    rcases hend with ⟨hcause, -, hresumes, -⟩ | ⟨hcause, hended⟩
    · rw [hresumes.process, hcause]
      exact ⟨h.space, h.strategy, h.registers, hexit, fun _ => rfl, h.fits⟩
    · obtain ⟨cause, hcause⟩ := Option.ne_none_iff_exists'.1 hcause
      rw [hended.process, hcause]
      exact ⟨h.space, h.strategy, h.registers, rfl, (fun hlive => by cases hlive), h.fits⟩
  · rw [a.moved_eq hmoved, Account.plain_setPlain, if_neg hj]

/-- **Whatever a process does, it is answered as if it were alone**, and goes on as if it were. -/
theorem perform {d : Deed} {r : Except Halt (Option d.Answer)} (h : s.Plays strategy (a.plain i) p)
    (hm : m.InOrder (some v.toFileView) tenants seat a) (hv : m.kernel.Provides v strategy)
    (hc : m.cpu? cpu = some c) (hp : m.process? i = some p)
    (hpermits : ∀ {address count access}, d = .access address count access →
      m.Permits a cpu (.access i address count access))
    (hr : m.perform cpu (d.request i) = (r, m')) :
    r.map (·.map d.outcome) = (s.perform d).1.map some ∧ ∀ answer, r = .ok (some answer) →
      Did v strategy (s.perform d).2 i m a m' (a.after m' cpu (d.request i) answer) := by
  cases d with
  | access address count access =>
      simp only [Deed.request, Machine.perform] at hr
      cases hact : Context.userAccess ⟨m.kernel, c, p⟩ address count access with
      | mk r' y =>
          obtain ⟨hrunner, hcount⟩ := hpermits rfl
          rw [Machine.within_eq hc hp, hact] at hr
          obtain ⟨rfl, rfl⟩ := Prod.mk.inj hr
          obtain ⟨rfl, hdid⟩ := h.access hm hv hc hp hrunner hcount hact
          refine ⟨rfl, fun answer hanswer => ?_⟩
          obtain rfl := Option.some.inj (Except.ok.inj hanswer)
          exact hdid
  | read address count =>
      simp only [Deed.request, Machine.perform] at hr
      cases hact : m.kernel.readMemory c.tlb p address count with
      | mk r' k =>
          rw [Machine.within_eq hc hp, hact] at hr
          obtain ⟨rfl, rfl⟩ := Prod.mk.inj hr
          obtain ⟨rfl, hend⟩ := h.readMemory hm hv hc hp hact
          refine ⟨rfl, fun answer hanswer => ?_⟩
          exact did_of_setContext hp ⟨_, _, hend⟩ h fun _ _ => rfl
  | write address data =>
      simp only [Deed.request, Machine.perform] at hr
      cases hact : m.kernel.writeMemory c.tlb p address data with
      | mk r' k =>
          rw [Machine.within_eq hc hp, hact] at hr
          obtain ⟨rfl, rfl⟩ := Prod.mk.inj hr
          obtain ⟨rfl, tenants', hend⟩ := h.writeMemory hm hv hc hp hact
          refine ⟨rfl, fun answer hanswer => ?_⟩
          obtain rfl := Option.some.inj (Except.ok.inj hanswer)
          refine did_of_setContext hp ⟨_, _, hend⟩ ⟨h.space, h.strategy, h.registers, h.exitCode, ?_, h.fits⟩ ?_
          · intro hlive
            refine (a.plain_setPlain i i _).trans ((if_pos rfl).trans ?_)
            rw [h.memory hlive]
            rfl
          · exact fun j hj => (a.plain_setPlain i j _).trans (if_neg hj)
  | readText address limit =>
      simp only [Deed.request, Machine.perform] at hr
      cases hact : m.kernel.readText c.tlb p address limit with
      | mk r' k =>
          rw [Machine.within_eq hc hp, hact] at hr
          obtain ⟨rfl, rfl⟩ := Prod.mk.inj hr
          obtain ⟨rfl, hend⟩ := h.readText hm hv hc hp hact
          refine ⟨?_, fun answer hanswer => ?_⟩
          · show _ = Except.map some ((textIn limit (s.reads address (limit + 1))).map Outcome.text)
            cases textIn limit (s.reads address (limit + 1)) <;> rfl
          · cases htext : textIn limit (s.reads address (limit + 1)) with
            | error why =>
                rw [htext] at hanswer
                cases hanswer
            | ok text => exact did_of_setContext hp ⟨_, _, hend text htext⟩ h fun _ _ => rfl
  | exit status =>
      simp only [Deed.request, Machine.perform] at hr
      cases hact : Context.exit ⟨m.kernel, c, p⟩ status with
      | mk r' y =>
          rw [Machine.within_eq hc hp, hact] at hr
          obtain ⟨rfl, rfl⟩ := Prod.mk.inj hr
          obtain ⟨rfl, hdid⟩ := h.exit hm hc hp hact
          refine ⟨?_, fun answer hanswer => hdid⟩
          by_cases hlive : s.exitCode = none
          · simp only [if_pos hlive, Solo.perform]
            rfl
          · simp only [if_neg hlive, Solo.perform]
            rfl

end Plays

end

end Solo

end DemandPaging
