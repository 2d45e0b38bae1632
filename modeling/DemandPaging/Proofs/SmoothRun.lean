import DemandPaging.Proofs.Solo

/-!
# Machines on which nothing runs out

All processes have their pages on demand, and the swap file never fails.  A log is kept of what
was answered; by it, every process does what it would do if it were alone on the machine.

* `Record`, `diary`, `deeds` — the log, and what is in it about one process.
* `Machine.Smooth` — the machines that allowed requests lead to, each with its log.
* `Machine.Smooth.serve` — a process does one thing after the other.
* `Machine.Tracked` — every program was loaded, and every process acts, as if it were alone.
* `Machine.Tracked.perform` — whatever is asked for, this stays so.
* `Machine.Smooth.tracked` — so it is always so.
-/

namespace DemandPaging

open Paging Kernel

variable {F : Type}

/-! ## What is noted -/

/-- What is noted of a request that was answered: how a program was loaded, or what came of a deed
of a process. -/
inductive Record where
  | loaded (image : Image) (args : List String)
    (r : Except PagingError (ProcessNumber × Option Registers))
  | did (i : ProcessNumber) (turn : Turn)

/-- The turn of a process. -/
def Record.turn? (i : ProcessNumber) : Record → Option Turn
  | .loaded .. => none
  | .did j turn => if j = i then some turn else none

/-- What a process did, the last first. -/
def diary (i : ProcessNumber) (log : List Record) : List Turn := log.filterMap (Record.turn? i)

/-- The deeds of a process, the last first. -/
def deeds (i : ProcessNumber) (log : List Record) : List Deed := (diary i log).map (·.deed)

section

variable {i j : ProcessNumber} {log : List Record} {turn : Turn}

theorem diary_loaded (image : Image) (args : List String)
    (r : Except PagingError (ProcessNumber × Option Registers)) :
    diary i (.loaded image args r :: log) = diary i log := rfl

theorem diary_did_self : diary i (.did i turn :: log) = turn :: diary i log :=
  List.filterMap_cons_some (if_pos rfl)

theorem diary_did_of_ne (h : j ≠ i) : diary i (.did j turn :: log) = diary i log :=
  List.filterMap_cons_none (if_neg h)

end

namespace Machine

/-- What is noted of a deed of a process. -/
def turn (m : Machine F) (i : ProcessNumber) (d : Deed) (r : d.Answer) : Turn :=
  { deed := d, outcome := .ok (d.outcome r), exitCode := (m.process? i).bind (·.exitCode) }

/-- What is noted of a request that was answered and led to a machine. -/
def record (m : Machine F) {α : Type} : Request α → α → Option Record
  | .load image args _, r =>
    some (.loaded image args (r.map fun i => (i, (m.process? i).map (·.registers))))
  | .access i address count a, r => some (.did i (m.turn i (.access address count a) r))
  | .read i address count, r => some (.did i (m.turn i (.read address count) r))
  | .write i address data, r => some (.did i (m.turn i (.write address data) r))
  | .readText i address limit, r => some (.did i (m.turn i (.readText address limit) r))
  | .exit i status, r => some (.did i (m.turn i (.exit status) r))
  | .drop _, _ => none
  | .switch _ _, _ => none
  | .resolveMiss _ _, _ => none
  | .accessPage _ _ _ _, _ => none
  | .trap _ _, _ => none
  | .destroySpace _, _ => none

/-- May this be asked for on the processor?  Programs are loaded to have their pages on demand.
The kernel may also try to read and write the memory of a process that has exited. -/
def Allows (m : Machine F) (a : Account) (cpu : CpuNumber) {α : Type} : Request α → Prop
  | .load _ _ strategy => strategy = .demand
  | .access i address count access => m.Permits a cpu (.access i address count access)
  | .read .. => True
  | .write .. => True
  | .readText .. => True
  | .exit .. => True
  | .drop i => m.Permits a cpu (.drop i)
  | .switch previous next => m.Permits a cpu (.switch previous next)
  | .resolveMiss .. => False
  | .accessPage .. => False
  | .trap .. => False
  | .destroySpace .. => False

variable [BackingFile F]

/-- The machines that allowed requests lead to, from a swap file on that never fails, with a log
of what was answered, the last first.  Every TLB has a slot, and as long as the machine can be
brought up its settings do not matter. -/
inductive Smooth (v : ReliableView F) (config : MachineConfig) :
    Machine F → Account → List Record → Prop
  | boot {file : F} {files : List String} {k : Kernel F} {j : Journal} (hgood : v.good file)
    (h : Kernel.boot config files (some file) = (.ok k, j)) :
    Smooth v config { kernel := k } {} []
  | addCpu {m : Machine F} {a : Account} {log : List Record} (h : Smooth v config m a log)
    {slots : Nat} (hslots : 0 < slots) : Smooth v config (m.addCpu slots) a log
  | found {m : Machine F} {a : Account} {log : List Record} {cpu : CpuNumber} {c : Processor}
    {i : ProcessNumber} {p : Process} (h : Smooth v config m a log) (hc : m.cpu? cpu = some c)
    (hp : m.process? i = some p) (hlive : m.isLive i = true) (hrunning : c.running = some p.pid) :
    Smooth v config m (a.setLast cpu (some i)) log
  | perform {m m' : Machine F} {a : Account} {log : List Record} {cpu : CpuNumber} {α : Type}
    {request : Request α} {r : α} (h : Smooth v config m a log)
    (hallows : m.Allows a cpu request) (hp : m.perform cpu request = (.ok (some r), m')) :
    Smooth v config m' (a.after m' cpu request r) ((m'.record request r).toList ++ log)

/-- **A machine that is used as allowed goes on smoothly.** -/
theorem Smooth.after {v : ReliableView F} {config : MachineConfig} {m : Machine F} {a : Account}
    {log : List Record} (h : Smooth v config m a log) (cpu : CpuNumber) {α : Type}
    (request : Request α) (r : α) (hallows : m.Allows a cpu request)
    (hanswer : m.answer? cpu request = some r) :
    Smooth v config (m.perform cpu request).2 (a.after (m.perform cpu request).2 cpu request r)
      (((m.perform cpu request).2.record request r).toList ++ log) :=
  h.perform hallows (perform_of_answer? hanswer)

/-- **A process does one thing after the other**, and the machine goes on smoothly as long as it
answers. -/
theorem Smooth.serve {v : ReliableView F} {config : MachineConfig} {m : Machine F} {a : Account}
    {log : List Record} {last : CpuNumber → Option ProcessNumber} (h : Smooth v config m a log)
    (hlast : a.last = last) (cpu : CpuNumber) (i : ProcessNumber) (ds : List Deed)
    (P : Machine F → Bool)
    (hserve : (m.serve? last (ds.map fun d => ⟨cpu, _, d.request i⟩)).any P = true) :
    ∃ n b log', Smooth v config n b (log' ++ log) ∧
      deeds i (log' ++ log) = ds.reverse ++ deeds i log ∧ P n = true := by
  induction ds generalizing m a log with
  | nil => exact ⟨m, a, [], h, rfl, hserve⟩
  | cons d ds ih =>
    subst hlast
    rw [List.map_cons, serve?] at hserve
    split at hserve
    · rename_i hpermits
      split at hserve
      · rename_i r m' hperform
        have hallows : m.Allows a cpu (d.request i) := by
          cases d with
          | access => exact hpermits
          | read | write | readText | exit => trivial
        have hgiving : (d.request i).giving cpu a.last = a.last := by cases d <;> rfl
        have hrecord : m'.record (d.request i) r = some (.did i (m'.turn i d r)) := by
          cases d <;> rfl
        have hnext := h.perform hallows hperform
        rw [hrecord] at hnext
        obtain ⟨n, b, log', hn, hdeeds, hP⟩ := ih hnext
          ((a.last_after m' cpu _ r).trans hgiving) (hgiving ▸ hserve)
        refine ⟨n, b, log' ++ [.did i (m'.turn i d r)], ?_, ?_, hP⟩
        · rw [List.append_assoc]
          exact hn
        · rw [List.append_assoc, List.reverse_cons, List.append_assoc]
          refine hdeeds.trans (congrArg _ ?_)
          rw [Option.toList_some, List.singleton_append, deeds, diary_did_self]
          rfl
      · cases hserve
    · cases hserve

/-! ## Every process does what it would do alone -/

variable {v : ReliableView F} {config : MachineConfig} {m m' : Machine F} {a b : Account}
  {log : List Record} {cpu : CpuNumber} {c : Processor} {i j : ProcessNumber} {p : Process}
  {s : Solo} {alone : ProcessNumber → Solo}

omit [BackingFile F] in
/-- What came of the deeds of a process is what comes of them if it is alone, and if it is still
there then so does the rest. -/
structure Follows (s : Solo) (m : Machine F) (a : Account) (log : List Record)
    (i : ProcessNumber) : Prop where
  diary : diary i log = s.diary (deeds i log)
  plays : ∀ {p}, m.process? i = some p → (s.after (deeds i log)).Plays .demand (a.plain i) p

/-- The process that does something still does what it would do alone. -/
theorem Follows.of_did {d : Deed} {r : d.Answer} (hs : Follows s m a log i)
    (hdid : Solo.Did v .demand ((s.after (deeds i log)).perform d).2 i m a m' b)
    (hanswer : ((s.after (deeds i log)).perform d).1 = .ok (d.outcome r)) :
    Follows s m' b (.did i (m'.turn i d r) :: log) i := by
  obtain ⟨q, hprocess, hplays⟩ := hdid.process
  have hself : m'.process? i = some q := (hprocess i).trans (if_pos rfl)
  have hdeeds : deeds i (.did i (m'.turn i d r) :: log) = d :: deeds i log := by
    rw [deeds, diary_did_self]
    rfl
  refine ⟨?_, fun hq => ?_⟩
  · rw [hdeeds, diary_did_self, hs.diary, Solo.diary, Solo.turn, turn, hself, hanswer]
    exact congrArg₂ List.cons (congrArg _ hplays.exitCode) rfl
  · rw [hdeeds]
    obtain rfl := Option.some.inj (hself.symm.trans hq)
    exact hplays

/-- The others do not notice. -/
theorem Follows.of_did_of_ne {s' : Solo} {turn : Turn} (hs : Follows s m a log j)
    (hdid : Solo.Did v .demand s' i m a m' b) (hj : j ≠ i) :
    Follows s m' b (.did i turn :: log) j := by
  refine ⟨?_, fun hq => ?_⟩
  · rw [deeds, diary_did_of_ne (Ne.symm hj)]
    exact hs.diary
  · rw [hdid.process?_of_ne hj] at hq
    rw [deeds, diary_did_of_ne (Ne.symm hj), hdid.plain j hj]
    exact hs.plays hq

/-- Every program was loaded as if it were alone, and every process does what it would do then. -/
structure Tracked (v : ReliableView F) (config : MachineConfig) (alone : ProcessNumber → Solo)
    (m : Machine F) (a : Account) (log : List Record) : Prop where
  inOrder : ∃ tenants seat, m.InOrder (some v.toFileView) tenants seat a
  ample : m.kernel.Ample v
  settings : m.kernel.config = config
  refused : ∀ {image args e}, .loaded image args (.error e) ∈ log →
    Solo.load image args config = .error e
  loaded : ∀ {image args i registers}, .loaded image args (.ok (i, registers)) ∈ log →
    i < m.processes.size ∧ Solo.load image args config = .ok (alone i) ∧
      registers = some (alone i).registers ∧ Follows (alone i) m a log i
  /-- nobody is there who was not loaded, -/
  born : ∀ {i p}, m.process? i = some p →
    ∃ image args registers, .loaded image args (.ok (i, registers)) ∈ log
  /-- and nobody did anything before that -/
  unborn : ∀ {i}, m.processes.size ≤ i → diary i log = []

namespace Tracked

/-- A process that is there acts as if it were alone. -/
theorem follows (hm : m.Tracked v config alone a log) (hp : m.process? i = some p) :
    Follows (alone i) m a log i := by
  obtain ⟨image, args, registers, hmem⟩ := hm.born hp
  exact (hm.loaded hmem).2.2.2

/-- Processes come to no harm, but some are forgotten. -/
theorem of_kept (hm : m.Tracked v config alone a log)
    (horder : ∃ tenants seat, m'.InOrder (some v.toFileView) tenants seat b)
    (hample : m'.kernel.Ample v) (hsettings : m'.kernel.config = m.kernel.config)
    (hsize : m'.processes.size = m.processes.size)
    (hkept : ∀ {i p}, m'.process? i = some p →
      b.plain i = a.plain i ∧ ∃ q snapshot, m.process? i = some q ∧ p = { q with snapshot }) :
    m'.Tracked v config alone b log where
  inOrder := horder
  ample := hample
  settings := hsettings.trans hm.settings
  refused := hm.refused
  loaded hmem := by
    obtain ⟨hlt, hload, hregisters, hs⟩ := hm.loaded hmem
    refine ⟨hsize ▸ hlt, hload, hregisters, hs.diary, fun hp => ?_⟩
    obtain ⟨hplain, q, snapshot, hq, rfl⟩ := hkept hp
    rw [hplain]
    exact (hs.plays hq).of_snapshot snapshot
  born hp := by
    obtain ⟨-, q, snapshot, hq, -⟩ := hkept hp
    exact hm.born hq
  unborn hle := hm.unborn (hsize ▸ hle)

/-- A program was not loaded. -/
theorem of_refused (hm : m.Tracked v config alone a log) {image : Image} {args : List String}
    {e : PagingError} (hload : Solo.load image args config = .error e) :
    m.Tracked v config alone a (.loaded image args (.error e) :: log) where
  inOrder := hm.inOrder
  ample := hm.ample
  settings := hm.settings
  refused hmem := by
    rcases List.mem_cons.1 hmem with heq | hmem
    · cases heq
      exact hload
    · exact hm.refused hmem
  loaded hmem := by
    rcases List.mem_cons.1 hmem with heq | hmem
    · cases heq
    · obtain ⟨hlt, hload, hregisters, hs⟩ := hm.loaded hmem
      exact ⟨hlt, hload, hregisters, hs.diary, hs.plays⟩
  born hp := by
    obtain ⟨image, args, registers, hmem⟩ := hm.born hp
    exact ⟨image, args, registers, List.mem_cons_of_mem _ hmem⟩
  unborn := hm.unborn

/-- **A new process starts as it would start alone.** -/
theorem of_loaded (hm : m.Tracked v config alone a log) {image : Image} {args : List String}
    (hload : Solo.load image args config = .ok s)
    (horder : ∃ tenants seat, m'.InOrder (some v.toFileView) tenants seat b)
    (hample : m'.kernel.Ample v) (hsettings : m'.kernel.config = m.kernel.config)
    (hprocesses : m'.processes = m.processes.push (some p))
    (hplays : s.Plays .demand (b.plain m.processes.size) p)
    (hplain : ∀ j, j ≠ m.processes.size → b.plain j = a.plain j) :
    m'.Tracked v config (Function.update alone m.processes.size s) b
      (.loaded image args (.ok (m.processes.size, some s.registers)) :: log) := by
  have hsize : m'.processes.size = m.processes.size + 1 := by rw [hprocesses, Array.size_push]
  have hnew : m'.process? m.processes.size = some p := (process?_push hprocesses).trans (if_pos rfl)
  have hold : ∀ {i}, i ≠ m.processes.size → m'.process? i = m.process? i :=
    fun hi => (process?_push hprocesses).trans (if_neg hi)
  refine ⟨horder, hample, hsettings.trans hm.settings, fun {image args e} hmem => ?_,
    fun {image args i registers} hmem => ?_, fun {i q} hq => ?_, fun {i} hle => ?_⟩
  · rcases List.mem_cons.1 hmem with heq | hmem
    · cases heq
    · exact hm.refused hmem
  · rw [hsize]
    rcases List.mem_cons.1 hmem with heq | hmem
    · cases heq
      have hnone : diary m.processes.size log = [] := hm.unborn (Nat.le_refl _)
      rw [Function.update_self]
      refine ⟨Nat.lt_succ_self _, hload, rfl, ?_, fun hq => ?_⟩
      · rw [deeds, diary_loaded, hnone]
        rfl
      · obtain rfl := Option.some.inj (hnew.symm.trans hq)
        rw [deeds, diary_loaded, hnone]
        exact hplays
    · obtain ⟨hlt, hload', hregisters, hs⟩ := hm.loaded hmem
      have hi := Nat.ne_of_lt hlt
      rw [Function.update_of_ne hi]
      refine ⟨Nat.lt_succ_of_lt hlt, hload', hregisters, hs.diary, fun hq => ?_⟩
      rw [hold hi] at hq
      rw [hplain i hi]
      exact hs.plays hq
  · by_cases hi : i = m.processes.size
    · exact ⟨image, args, some s.registers, hi ▸ List.mem_cons_self⟩
    · rw [hold hi] at hq
      obtain ⟨image, args, registers, hmem⟩ := hm.born hq
      exact ⟨image, args, registers, List.mem_cons_of_mem _ hmem⟩
  · rw [hsize] at hle
    exact hm.unborn (Nat.le_of_succ_le hle)

/-- **A process does what it would do alone.** -/
theorem of_did (hm : m.Tracked v config alone a log) (hp : m.process? i = some p) {d : Deed}
    {r : d.Answer}
    (hdid : Solo.Did v .demand (((alone i).after (deeds i log)).perform d).2 i m a m' b)
    (hanswer : (((alone i).after (deeds i log)).perform d).1 = .ok (d.outcome r))
    (hample : m'.kernel.Ample v) (hsettings : m'.kernel.config = m.kernel.config) :
    m'.Tracked v config alone b (.did i (m'.turn i d r) :: log) := by
  have hfollows : ∀ {j}, Follows (alone j) m a log j →
      Follows (alone j) m' b (.did i (m'.turn i d r) :: log) j := by
    intro j hs
    by_cases hj : j = i
    · subst hj
      exact hs.of_did hdid hanswer
    · exact hs.of_did_of_ne hdid hj
  have hlt := lt_size_of_process? hp
  refine ⟨hdid.inOrder, hample, hsettings.trans hm.settings, fun {image args e} hmem => ?_,
    fun {image args j registers} hmem => ?_, fun {j q'} hq => ?_, fun {j} hle => ?_⟩
  · rcases List.mem_cons.1 hmem with heq | hmem
    · cases heq
    · exact hm.refused hmem
  · rw [hdid.size]
    rcases List.mem_cons.1 hmem with heq | hmem
    · cases heq
    · obtain ⟨hlt, hload, hregisters, hs⟩ := hm.loaded hmem
      exact ⟨hlt, hload, hregisters, hfollows hs⟩
  · have hthere : ∃ q, m.process? j = some q := by
      by_cases hj : j = i
      · exact ⟨p, hj ▸ hp⟩
      · exact ⟨q', (hdid.process?_of_ne hj).symm.trans hq⟩
    obtain ⟨q, hq⟩ := hthere
    obtain ⟨image, args, registers, hmem⟩ := hm.born hq
    exact ⟨image, args, registers, List.mem_cons_of_mem _ hmem⟩
  · rw [hdid.size] at hle
    rw [diary_did_of_ne (Nat.ne_of_lt (Nat.lt_of_lt_of_le hlt hle))]
    exact hm.unborn hle

end Tracked

/-! ## Requests -/

omit [BackingFile F] in
theorem onDemand_of_allows {α : Type} {request : Request α} (h : m.Allows a cpu request) :
    request.OnDemand := by
  cases request with
  | load => exact h
  | _ => trivial

/-- A process that does something is there, and so is the processor. -/
theorem exists_of_request {d : Deed} {r : d.Answer}
    (h : m.perform cpu (d.request i) = (.ok (some r), m')) :
    ∃ c p, m.cpu? cpu = some c ∧ m.process? i = some p := by
  obtain ⟨act, hact⟩ := d.exists_within m cpu i
  rw [hact] at h
  obtain ⟨c, p, -, hc, hp, -⟩ := InOrder.within_eq_ok h
  exact ⟨c, p, hc, hp⟩

namespace Tracked

/-- The rest of the machine does not stand in the way of what a process does. -/
theorem does (hm : m.Tracked v config alone a log) {d : Deed} {r : Except Halt (Option d.Answer)}
    (hc : m.cpu? cpu = some c) (hp : m.process? i = some p)
    (hallows : m.Allows a cpu (d.request i)) (h : m.perform cpu (d.request i) = (r, m')) :
    r.map (·.map d.outcome) = (((alone i).after (deeds i log)).perform d).1.map some ∧
      ∀ answer, r = .ok (some answer) →
        Solo.Did v .demand (((alone i).after (deeds i log)).perform d).2 i m a m'
          (a.after m' cpu (d.request i) answer) := by
  obtain ⟨tenants, seat, hin⟩ := hm.inOrder
  refine ((hm.follows hp).plays hp).perform hin (.demand hm.ample) hc hp ?_ h
  rintro address count access rfl
  exact hallows

theorem deed (hm : m.Tracked v config alone a log) {d : Deed} {r : d.Answer}
    (hallows : m.Allows a cpu (d.request i)) (hample : m'.kernel.Ample v)
    (hsettings : m'.kernel.config = m.kernel.config)
    (h : m.perform cpu (d.request i) = (.ok (some r), m')) :
    m'.Tracked v config alone (a.after m' cpu (d.request i) r)
      (.did i (m'.turn i d r) :: log) := by
  obtain ⟨c, p, hc, hp⟩ := exists_of_request h
  obtain ⟨hanswer, hdid⟩ := hm.does hc hp hallows h
  refine hm.of_did hp (hdid r rfl) ?_ hample hsettings
  generalize (((alone i).after (deeds i log)).perform d).1 = outcome at hanswer
  cases outcome with
  | error why => cases hanswer
  | ok outcome => exact congrArg Except.ok (Option.some.inj (Except.ok.inj hanswer)).symm

/-- A program is loaded, or is not, as it would be alone. -/
theorem load (hm : m.Tracked v config alone a log) {image : Image} {args : List String}
    {r : Except PagingError ProcessNumber} (hample : m'.kernel.Ample v)
    (hsettings : m'.kernel.config = m.kernel.config)
    (horder : ∃ tenants seat, m'.InOrder (some v.toFileView) tenants seat
      (a.after m' cpu (.load image args .demand) r))
    (h : m.load c image args .demand = (.ok r, m')) :
    ∃ alone', m'.Tracked v config alone' (a.after m' cpu (.load image args .demand) r)
      ((m'.record (.load image args .demand) r).toList ++ log) := by
  obtain ⟨tenants, seat, hin⟩ := hm.inOrder
  rcases Solo.plays_of_load hin (ready_of_ample hm.ample) h with
    ⟨-, hr⟩ | ⟨-, ⟨e, halone, hr, hprocesses⟩ | ⟨s, p, halone, hr, hprocesses, hplays⟩⟩
  · cases hr
  · obtain rfl := Except.ok.inj hr
    rw [hm.settings] at halone
    have hsame : ∀ i, m'.process? i = m.process? i := fun i => by
      rw [process?, hprocesses, process?]
    have hkept : m'.Tracked v config alone a log :=
      hm.of_kept horder hample hsettings (by rw [hprocesses])
        fun {i p} hp => ⟨rfl, p, p.snapshot, (hsame i).symm.trans hp, rfl⟩
    exact ⟨alone, hkept.of_refused halone⟩
  · obtain rfl := Except.ok.inj hr
    rw [hm.settings] at halone
    have hnew : m'.process? m.processes.size = some p :=
      (process?_push hprocesses).trans (if_pos rfl)
    have hafter : a.after m' cpu (.load image args .demand) (.ok m.processes.size) =
        a.setPlain m.processes.size (p.startMemory args) := by
      simp only [Account.after, Account.loaded, hnew]
    have hrecord : m'.record (.load image args .demand) (.ok m.processes.size) =
        some (.loaded image args (.ok (m.processes.size, some s.registers))) := by
      rw [← hplays.registers]
      simp only [record, Except.map, hnew, Option.map_some]
    rw [hafter] at horder ⊢
    rw [hrecord]
    refine ⟨_, hm.of_loaded halone horder hample hsettings hprocesses ?_ ?_⟩
    · rw [Account.plain_setPlain, if_pos rfl]
      exact hplays
    · exact fun j hj => (a.plain_setPlain _ j _).trans (if_neg hj)

/-- **Whatever is asked for, every process goes on as if it were alone.** -/
theorem perform {α : Type} {request : Request α} {r : α} (hm : m.Tracked v config alone a log)
    (hallows : m.Allows a cpu request) (h : m.perform cpu request = (.ok (some r), m')) :
    ∃ alone', m'.Tracked v config alone' (a.after m' cpu request r)
      ((m'.record request r).toList ++ log) := by
  obtain ⟨tenants, seat, hin⟩ := hm.inOrder
  have hevolves := perform_evolves hin.kernel.toConsistent h
  have hample := hevolves.changes.ample (not_pins (onDemand_of_allows hallows)) hm.ample
  cases request with
  | load image args strategy =>
      obtain rfl : strategy = .demand := hallows
      have hpermits : m.Permits a cpu (.load image args .demand) := trivial
      have horder := (hin.perform hpermits h).2
      simp only [Machine.perform] at h
      split at h
      · cases (Prod.mk.inj h).1
      · rename_i c hc
        cases hload : m.load c image args .demand with
        | mk x n =>
            rw [hload] at h
            obtain ⟨hr, rfl⟩ := Prod.mk.inj h
            cases x with
            | error why => cases hr
            | ok x =>
                obtain rfl := Option.some.inj (Except.ok.inj hr)
                exact hm.load hample hevolves.config horder hload
  | access i address count access =>
      exact ⟨alone, hm.deed (d := .access address count access) hallows hample hevolves.config h⟩
  | read i address count =>
      exact ⟨alone, hm.deed (d := .read address count) hallows hample hevolves.config h⟩
  | write i address data =>
      exact ⟨alone, hm.deed (d := .write address data) hallows hample hevolves.config h⟩
  | readText i address limit =>
      exact ⟨alone, hm.deed (d := .readText address limit) hallows hample hevolves.config h⟩
  | exit i status =>
      exact ⟨alone, hm.deed (d := .exit status) hallows hample hevolves.config h⟩
  | drop i =>
      have hpermits : m.Permits a cpu (.drop i) := hallows
      have horder := (hin.perform hpermits h).2
      simp only [Machine.perform] at h
      split at h
      · cases (Prod.mk.inj h).1
      · rename_i p hp
        obtain ⟨-, rfl⟩ := Prod.mk.inj h
        refine ⟨alone, hm.of_kept horder hample hevolves.config Array.size_setIfInBounds ?_⟩
        intro j q hq
        rw [process?, Machine.drop, process?_set hp] at hq
        split at hq
        · cases hq
        · exact ⟨rfl, q, q.snapshot, hq, rfl⟩
  | switch previous next =>
      have hpermits : m.Permits a cpu (.switch previous next) := hallows
      have horder := (hin.perform hpermits h).2
      simp only [Machine.perform] at h
      split at h <;> rename_i hs
      · cases (Prod.mk.inj h).1
      · obtain ⟨-, rfl⟩ := Prod.mk.inj h
        obtain ⟨hsize, hkept⟩ := process?_switch hs
        refine ⟨alone, hm.of_kept horder hample hevolves.config hsize fun {i q} hq => ⟨rfl, ?_⟩⟩
        obtain ⟨keep, hkeep⟩ := hkept i
        obtain ⟨p, hp, rfl⟩ := Option.map_eq_some_iff.1 (hkeep.symm.trans hq)
        exact ⟨p, keep p, hp, rfl⟩
  | resolveMiss i address => cases hallows
  | accessPage i page writing change => cases hallows
  | trap i code => cases hallows
  | destroySpace pid => cases hallows

end Tracked

/-! ## The whole run -/

/-- A machine that was just brought up has frames, and no slot of the swap store is taken. -/
theorem ample_of_boot {files : List String} {file : F} {k : Kernel F} {journal : Journal}
    (hgood : v.good file) (h : Kernel.boot config files (some file) = (.ok k, journal)) :
    k.Ample v ∧ k.config = config := by
  have hroomy := roomy_of_boot h
  obtain ⟨-, rfl⟩ := eq_of_boot h
  refine ⟨⟨hroomy, fun {id} hlive => ?_, hgood, fun {key a} ha => ?_⟩, rfl⟩
  · simp [TlbBank.live, CoreMap.blank] at hlive
  · exact absurd (ha.symm.trans Std.ExtTreeMap.getElem?_empty) (by simp)

/-- A new processor has a TLB slot. -/
theorem ample_addCpu (h : m.kernel.Ample v) {slots : Nat} (hslots : 0 < slots) :
    (m.addCpu slots).kernel.Ample v where
  frames := h.frames
  unpinned := h.unpinned
  slots {id} hlive := by
    have hlive' : (m.kernel.core.tlbs.add slots).2.live id = true := hlive
    show 0 < ((m.kernel.core.tlbs.add slots).2.tlb id).size
    rw [TlbBank.tlb_add]
    split
    · rw [Tlb.size, Tlb.blank, Array.size_replicate]
      exact hslots
    · rename_i hid
      rw [TlbBank.live_add, decide_eq_false hid, Bool.false_or] at hlive'
      exact h.slots hlive'
  swap := h.swap

/-- **At all times every process is what it would be alone.** -/
theorem Smooth.tracked (h : Smooth v config m a log) : ∃ alone, m.Tracked v config alone a log := by
  induction h with
  | boot hgood h =>
      obtain ⟨hample, hsettings⟩ := ample_of_boot hgood h
      have hview : ∀ w, some v.toFileView = some w → w.good _ :=
        fun w hw => Option.some.inj hw ▸ hgood
      have horder := inOrder_of_boot hview h
      exact ⟨fun _ => default, ⟨_, _, horder⟩, hample,
        hsettings, (fun hmem => by cases hmem), (fun hmem => by cases hmem),
        (fun hp => by cases hp), fun _ => rfl⟩
  | addCpu _ hslots ih =>
      rename_i slots
      obtain ⟨alone, hm⟩ := ih
      obtain ⟨tenants, seat, hin⟩ := hm.inOrder
      obtain ⟨seat', horder⟩ := hin.addCpu slots
      exact ⟨alone, hm.of_kept ⟨tenants, seat', horder⟩ (ample_addCpu hm.ample hslots) rfl rfl
        fun {i p} hp => ⟨rfl, p, p.snapshot, hp, rfl⟩⟩
  | found _ hc hp hlive hrunning ih =>
      obtain ⟨alone, hm⟩ := ih
      obtain ⟨tenants, seat, hin⟩ := hm.inOrder
      obtain ⟨q, hq, hexit⟩ := isLive_iff.1 hlive
      obtain rfl := Option.some.inj (hp.symm.trans hq)
      obtain ⟨seat', horder⟩ := hin.found hc hp hexit hrunning
      exact ⟨alone, hm.of_kept ⟨tenants, seat', horder⟩ hm.ample rfl rfl
        fun {i p} hp => ⟨rfl, p, p.snapshot, hp, rfl⟩⟩
  | perform _ hallows hp ih =>
      obtain ⟨alone, hm⟩ := ih
      exact hm.perform hallows hp

end Machine

end DemandPaging
