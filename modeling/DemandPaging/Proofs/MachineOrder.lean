import DemandPaging.Proofs.Account
import DemandPaging.Proofs.TrapOrder

/-!
# Orderly machines are in order

Every permitted request keeps the kernel in order, every TLB working for the process that runs on
its processor, and the plain memories what the processes should find.

* `Machine.Peopled`, `Machine.Staffed` — processes and processors fit the account of them.
* `Machine.InOrder` — both, and the kernel in order.
* `Machine.InOrder.perform` — every permitted request keeps a machine in order.
* `Machine.Orderly.inOrder` — so all orderly machines are.
-/

namespace DemandPaging

open Paging Kernel

variable {F : Type}

namespace Machine

variable {m m' : Machine F} {a : Account} {cpu n : CpuNumber} {i j : ProcessNumber}
  {p q : Process} {c : Processor} {pid : Pid}

/-! ## New processors -/

/-- A new processor comes after all others, and has a TLB that nobody had. -/
theorem cpu?_addCpu {slots : Nat} (h : (m.addCpu slots).cpu? n = some c) :
    (n = m.cpus.size ∧ c.tlb = m.kernel.core.tlbs.tlbs.size) ∨ m.cpu? n = some c := by
  rw [cpu?, Machine.addCpu, TlbBank.add] at h
  dsimp only at h
  rw [Array.getElem?_push] at h
  split at h
  · rename_i hn
    obtain rfl := Option.some.inj h
    exact Or.inl ⟨hn, rfl⟩
  · exact Or.inr h

theorem live_size (b : TlbBank) : b.live b.tlbs.size = false := by
  rw [TlbBank.live, Array.getElem?_eq_none (Nat.le_refl _)]
  rfl

/-! ## Processes that run -/

/-- A live process of this pid runs on the processor. -/
def Runs (m : Machine F) (a : Account) (cpu : CpuNumber) (pid : Pid) : Prop :=
  ∃ i p, a.last cpu = some i ∧ m.process? i = some p ∧ p.exitCode = none ∧ p.pid = pid

theorem isLive_iff : m.isLive i = true ↔ ∃ p, m.process? i = some p ∧ p.exitCode = none := by
  rw [isLive, Option.any_eq_true]
  simp only [Option.isNone_iff_eq_none]

theorem runner_eq_some : m.runner a cpu = some i ↔ a.last cpu = some i ∧ m.isLive i = true := by
  rw [runner, Option.filter_eq_some_iff]

theorem not_runs_of_runner (h : m.runner a cpu = none) : ¬ m.Runs a cpu pid := by
  rintro ⟨i, p, hlast, hp, hexit, -⟩
  have hi := runner_eq_some.2 ⟨hlast, isLive_iff.2 ⟨p, hp, hexit⟩⟩
  rw [h] at hi
  cases hi

theorem runs_setLast_of_ne (hn : n ≠ cpu) {next : Option ProcessNumber} :
    m.Runs (a.setLast cpu next) n pid ↔ m.Runs a n pid := by
  simp only [Runs, Account.last_setLast, if_neg hn]

theorem runs_setLast_self {next : Option ProcessNumber} :
    m.Runs (a.setLast cpu next) cpu pid ↔
      ∃ i p, next = some i ∧ m.process? i = some p ∧ p.exitCode = none ∧ p.pid = pid := by
  simp only [Runs, Account.last_setLast, if_true]

/-- A process changes, but neither its pid nor whether it lives. -/
theorem runs_of_changed (hp : m.process? i = some p)
    (hprocess : ∀ j, m'.process? j = if j = i then some q else m.process? j)
    (hpid : q.pid = p.pid) (hexit : q.exitCode = p.exitCode) :
    m'.Runs a n pid ↔ m.Runs a n pid := by
  constructor
  · rintro ⟨j, r, hlast, hr, hlive, rfl⟩
    rw [hprocess] at hr
    split at hr
    · rename_i hj
      obtain rfl := Option.some.inj hr
      exact ⟨i, p, hj ▸ hlast, hp, hexit ▸ hlive, hpid.symm⟩
    · exact ⟨j, r, hlast, hr, hlive, rfl⟩
  · rintro ⟨j, r, hlast, hr, hlive, rfl⟩
    by_cases hj : j = i
    · subst hj
      obtain rfl := Option.some.inj (hp.symm.trans hr)
      exact ⟨j, q, hlast, (hprocess j).trans (if_pos rfl), hexit.trans hlive, hpid⟩
    · exact ⟨j, r, hlast, (hprocess j).trans ((if_neg hj).trans hr), hlive, rfl⟩

/-! ## Processes -/

/-- Every process has a pid of its own, and lives in an address space with the plain memory that
it is to have, unless it has exited.  Nobody else has an address space. -/
structure Peopled (tenants : Pid → Option Tenant) (a : Account) (m : Machine F) : Prop where
  sound : m.kernel.pids.Sound
  held : ∀ {i p}, m.process? i = some p → m.kernel.pids.live p.pid
  distinct : ∀ {i j p q}, m.process? i = some p → m.process? j = some q → p.pid = q.pid → i = j
  tenant : ∀ {i p}, m.process? i = some p → p.exitCode = none →
    tenants p.pid = some ⟨p.space, a.plain i⟩
  housed : ∀ {pid T}, tenants pid = some T →
    ∃ i p, m.process? i = some p ∧ p.exitCode = none ∧ p.pid = pid
  snapshot : ∀ {i p}, m.process? i = some p →
    Unrepeated p.snapshot.pages ∧ (p.exitCode ≠ none → p.snapshot = {})

namespace Peopled

variable {tenants : Pid → Option Tenant}

/-- Somebody who has a pid that nobody had does not take it from a tenant. -/
theorem tenants_eq_none (hm : m.Peopled tenants a) (hpid : ¬ m.kernel.pids.live pid) :
    tenants pid = none := by
  rw [Option.eq_none_iff_forall_ne_some]
  intro T hT
  obtain ⟨i, p, hp, -, rfl⟩ := hm.housed hT
  exact hpid (hm.held hp)

/-- A process that has exited has no memory any more. -/
theorem tenants_of_exited (hm : m.Peopled tenants a) (hp : m.process? i = some p)
    (hexit : p.exitCode ≠ none) : tenants p.pid = none := by
  rw [Option.eq_none_iff_forall_ne_some]
  intro T hT
  obtain ⟨j, q, hq, hlive, hpid⟩ := hm.housed hT
  obtain rfl := hm.distinct hq hp hpid
  obtain rfl := Option.some.inj (hp.symm.trans hq)
  exact hexit hlive

/-- A process changes, and with it at most its own tenancy and its own plain memory. -/
theorem replaced {tenants' : Pid → Option Tenant} {b : Account} (hm : m.Peopled tenants a)
    (hp : m.process? i = some p)
    (hprocess : ∀ j, m'.process? j = if j = i then some q else m.process? j)
    (hpids : m'.kernel.pids = m.kernel.pids) (hpid : q.pid = p.pid)
    (htenants : ∀ pid, pid ≠ p.pid → tenants' pid = tenants pid)
    (hplain : ∀ j, j ≠ i → b.plain j = a.plain j)
    (hown : q.exitCode = none → tenants' p.pid = some ⟨q.space, b.plain i⟩)
    (hgone : q.exitCode ≠ none → tenants' p.pid = none)
    (hsnapshot : Unrepeated q.snapshot.pages ∧ (q.exitCode ≠ none → q.snapshot = {})) :
    m'.Peopled tenants' b := by
  have hold : ∀ {j r}, m'.process? j = some r → ∃ s, m.process? j = some s ∧ r.pid = s.pid ∧
      ((j = i ∧ r = q) ∨ (j ≠ i ∧ r = s)) := by
    intro j r hr
    rw [hprocess] at hr
    split at hr
    · rename_i hj
      obtain rfl := Option.some.inj hr
      exact ⟨p, hj ▸ hp, hpid, Or.inl ⟨hj, rfl⟩⟩
    · rename_i hj
      exact ⟨r, hr, rfl, Or.inr ⟨hj, rfl⟩⟩
  refine ⟨hpids ▸ hm.sound, fun {j r} hr => ?_, fun {j l r s} hr hs hrs => ?_, fun {j r} hr he => ?_,
    fun {pid T} hT => ?_, fun {j r} hr => ?_⟩
  · obtain ⟨s, hs, hrs, -⟩ := hold hr
    rw [hpids, hrs]
    exact hm.held hs
  · obtain ⟨r', hr', hrr, -⟩ := hold hr
    obtain ⟨s', hs', hss, -⟩ := hold hs
    exact hm.distinct hr' hs' (by rw [← hrr, ← hss, hrs])
  · obtain ⟨s, hs, -, ⟨rfl, rfl⟩ | ⟨hj, rfl⟩⟩ := hold hr
    · rw [hpid]
      exact hown he
    · rw [htenants _ fun h => hj (hm.distinct hs hp h), hplain j hj]
      exact hm.tenant hs he
  · by_cases hpp : pid = p.pid
    · subst hpp
      have hlive : q.exitCode = none := by
        by_contra he
        rw [hgone he] at hT
        cases hT
      exact ⟨i, q, (hprocess i).trans (if_pos rfl), hlive, hpid⟩
    · rw [htenants pid hpp] at hT
      obtain ⟨j, r, hr, he, hrpid⟩ := hm.housed hT
      have hj : j ≠ i := by
        rintro rfl
        obtain rfl := Option.some.inj (hp.symm.trans hr)
        exact hpp hrpid.symm
      exact ⟨j, r, (hprocess j).trans ((if_neg hj).trans hr), he, hrpid⟩
  · obtain ⟨s, hs, -, ⟨-, rfl⟩ | ⟨-, rfl⟩⟩ := hold hr
    · exact hsnapshot
    · exact hm.snapshot hs

/-- A live process goes on, with another plain memory. -/
theorem changed (hm : m.Peopled tenants a) (hp : m.process? i = some p) (hlive : p.exitCode = none)
    (hprocess : ∀ j, m'.process? j = if j = i then some p else m.process? j)
    (hpids : m'.kernel.pids = m.kernel.pids) (memory : Memory) :
    m'.Peopled (Function.update tenants p.pid (some ⟨p.space, memory⟩)) (a.setPlain i memory) := by
  refine hm.replaced hp hprocess hpids rfl (fun pid hpid => Function.update_of_ne hpid _ _)
    (fun j hj => (a.plain_setPlain i j memory).trans (if_neg hj)) (fun _ => ?_)
    (fun h => absurd hlive h) (hm.snapshot hp)
  rw [Function.update_self, Account.plain_setPlain, if_pos rfl]

/-- A process is ended. -/
theorem ended {b : Account} (hm : m.Peopled tenants a) (hp : m.process? i = some p) {status : Int}
    (hplain : ∀ j, j ≠ i → b.plain j = a.plain j) (hprocess : ∀ j, m'.process? j =
      if j = i then some { p with exitCode := some status, snapshot := {} } else m.process? j)
    (hpids : m'.kernel.pids = m.kernel.pids) :
    m'.Peopled (Function.update tenants p.pid none) b :=
  hm.replaced hp hprocess hpids rfl (fun pid hpid => Function.update_of_ne hpid _ _)
    hplain nofun (fun _ => Function.update_self _ _ _)
    ⟨fun h => (by cases h), fun _ => rfl⟩

/-- A live process leaves a processor, and takes along what the TLB held. -/
theorem left {b : Account} (hm : m.Peopled tenants a) (hplain : b.plain = a.plain)
    (hp : m.process? i = some p) (hlive : p.exitCode = none) {snapshot : TlbSnapshot} (hsnapshot : Unrepeated snapshot.pages)
    (hprocess : ∀ j, m'.process? j = if j = i then some { p with snapshot } else m.process? j)
    (hpids : m'.kernel.pids = m.kernel.pids) : m'.Peopled tenants b :=
  hm.replaced hp hprocess hpids rfl (fun _ _ => rfl) (fun j _ => by rw [hplain])
    (fun _ => by rw [hplain]; exact hm.tenant hp hlive) (fun h => absurd hlive h)
    ⟨hsnapshot, fun h => absurd hlive h⟩

/-- A new process moves in. -/
theorem loaded (hm : m.Peopled tenants a) (hi : m.process? i = none)
    (hprocess : ∀ j, m'.process? j = if j = i then some p else m.process? j)
    (hsound : m'.kernel.pids.Sound) (hpid : ¬ m.kernel.pids.live p.pid)
    (hpids : ∀ pid, m'.kernel.pids.live pid ↔ m.kernel.pids.live pid ∨ pid = p.pid)
    (hsnapshot : p.snapshot = {}) (hexit : p.exitCode = none) (memory : Memory) :
    m'.Peopled (Function.update tenants p.pid (some ⟨p.space, memory⟩)) (a.setPlain i memory) := by
  have hold : ∀ {j r}, m'.process? j = some r →
      (j = i ∧ r = p) ∨ (j ≠ i ∧ m.process? j = some r ∧ r.pid ≠ p.pid) := by
    intro j r hr
    rw [hprocess] at hr
    split at hr
    · rename_i hj
      exact Or.inl ⟨hj, (Option.some.inj hr).symm⟩
    · rename_i hj
      exact Or.inr ⟨hj, hr, fun h => hpid (h ▸ hm.held hr)⟩
  refine ⟨hsound, fun {j r} hr => ?_, fun {j l r s} hr hs hrs => ?_, fun {j r} hr he => ?_,
    fun {pid T} hT => ?_, fun {j r} hr => ?_⟩
  · rw [hpids]
    rcases hold hr with ⟨-, rfl⟩ | ⟨-, hr, -⟩
    · exact Or.inr rfl
    · exact Or.inl (hm.held hr)
  · rcases hold hr with ⟨rfl, rfl⟩ | ⟨-, hr, hrp⟩ <;> rcases hold hs with ⟨rfl, rfl⟩ | ⟨-, hs, hsp⟩
    · rfl
    · exact absurd hrs.symm hsp
    · exact absurd hrs hrp
    · exact hm.distinct hr hs hrs
  · rw [Account.plain_setPlain]
    rcases hold hr with ⟨rfl, rfl⟩ | ⟨hj, hr, hrp⟩
    · rw [Function.update_self, if_pos rfl]
    · rw [Function.update_of_ne hrp, if_neg hj]
      exact hm.tenant hr he
  · by_cases hpp : pid = p.pid
    · exact ⟨i, p, (hprocess i).trans (if_pos rfl), hexit, hpp.symm⟩
    · rw [Function.update_of_ne hpp] at hT
      obtain ⟨j, r, hr, he, hrpid⟩ := hm.housed hT
      have hj : j ≠ i := by
        rintro rfl
        rw [hi] at hr
        cases hr
      exact ⟨j, r, (hprocess j).trans ((if_neg hj).trans hr), he, hrpid⟩
  · rcases hold hr with ⟨-, rfl⟩ | ⟨-, hr, -⟩
    · rw [hsnapshot]
      exact ⟨fun h => (by cases h), fun _ => rfl⟩
    · exact hm.snapshot hr

/-- A process that has exited is forgotten, and its pid given back. -/
theorem dropped (hm : m.Peopled tenants a) (hp : m.process? i = some p) (hexit : p.exitCode ≠ none)
    (hprocess : ∀ j, m'.process? j = if j = i then none else m.process? j)
    (hsound : m'.kernel.pids.Sound)
    (hpids : ∀ pid, m'.kernel.pids.live pid ↔ m.kernel.pids.live pid ∧ pid ≠ p.pid) :
    m'.Peopled tenants a := by
  have hold : ∀ {j r}, m'.process? j = some r → j ≠ i ∧ m.process? j = some r := by
    intro j r hr
    rw [hprocess] at hr
    split at hr
    · cases hr
    · rename_i hj
      exact ⟨hj, hr⟩
  refine ⟨hsound, fun {j r} hr => ?_, fun hr hs hrs => hm.distinct (hold hr).2 (hold hs).2 hrs,
    fun hr he => hm.tenant (hold hr).2 he, fun {pid T} hT => ?_, fun hr => hm.snapshot (hold hr).2⟩
  · obtain ⟨hj, hr⟩ := hold hr
    exact (hpids _).2 ⟨hm.held hr, fun h => hj (hm.distinct hr hp h)⟩
  · obtain ⟨j, r, hr, he, hrpid⟩ := hm.housed hT
    have hj : j ≠ i := by
      rintro rfl
      obtain rfl := Option.some.inj (hp.symm.trans hr)
      exact hexit he
    exact ⟨j, r, (hprocess j).trans ((if_neg hj).trans hr), he, hrpid⟩

/-- Other things than processes, pids and plain memories do not matter. -/
theorem of_same {b : Account} (hm : m.Peopled tenants a) (hplain : b.plain = a.plain)
    (hprocess : ∀ j, m'.process? j = m.process? j) (hsound : m'.kernel.pids.Sound)
    (hpids : ∀ pid, m'.kernel.pids.live pid ↔ m.kernel.pids.live pid) : m'.Peopled tenants b := by
  refine ⟨hsound, fun hr => ?_, fun hr hs hrs => ?_, fun hr he => ?_, fun hT => ?_, fun hr => ?_⟩
  · rw [hprocess] at hr
    exact (hpids _).2 (hm.held hr)
  · rw [hprocess] at hr hs
    exact hm.distinct hr hs hrs
  · rw [hprocess] at hr
    rw [hplain]
    exact hm.tenant hr he
  · obtain ⟨i, p, hp, hrest⟩ := hm.housed hT
    exact ⟨i, p, (hprocess i).trans hp, hrest⟩
  · rw [hprocess] at hr
    exact hm.snapshot hr

end Peopled

/-! ## Processors -/

/-- Every processor has a TLB of its own, which works for the live process that runs there. -/
structure Staffed (seat : TlbId → Option Pid) (a : Account) (m : Machine F) : Prop where
  live : ∀ {n c}, m.cpu? n = some c → m.kernel.core.tlbs.live c.tlb = true
  apart : ∀ {n l c d}, m.cpu? n = some c → m.cpu? l = some d → c.tlb = d.tlb → n = l
  works : ∀ {n c pid}, m.cpu? n = some c → (seat c.tlb = some pid ↔ m.Runs a n pid)
  running : ∀ {n c pid}, m.cpu? n = some c → m.Runs a n pid → c.running = some pid
  known : ∀ {n i}, a.last n = some i → n < m.cpus.size ∧ i < m.processes.size

namespace Staffed

variable {seat seat' : TlbId → Option Pid} {b : Account}

/-- Processors keep their TLBs, but others may run there. -/
theorem of_cpus (hm : m.Staffed seat a)
    (hlive : ∀ id, m'.kernel.core.tlbs.live id = m.kernel.core.tlbs.live id)
    (hcpu : ∀ {n d}, m'.cpu? n = some d → ∃ c, m.cpu? n = some c ∧ d.tlb = c.tlb ∧
      (∀ pid, seat' c.tlb = some pid ↔ m'.Runs b n pid) ∧
      ∀ pid, m'.Runs b n pid → d.running = some pid)
    (hknown : ∀ {n i}, b.last n = some i → n < m'.cpus.size ∧ i < m'.processes.size) :
    m'.Staffed seat' b := by
  refine ⟨fun {n d} hd => ?_, fun {n l d e} hd he hde => ?_, fun {n d pid} hd => ?_,
    fun {n d pid} hd => ?_, hknown⟩
  · obtain ⟨c, hc, htlb, -⟩ := hcpu hd
    rw [htlb, hlive]
    exact hm.live hc
  · obtain ⟨c, hc, hctlb, -⟩ := hcpu hd
    obtain ⟨c', hc', hctlb', -⟩ := hcpu he
    exact hm.apart hc hc' (by rw [← hctlb, ← hctlb', hde])
  · obtain ⟨c, -, htlb, hseat, -⟩ := hcpu hd
    rw [htlb]
    exact hseat pid
  · obtain ⟨c, -, -, -, hrunning⟩ := hcpu hd
    exact hrunning pid

/-- The same processes run where they did. -/
theorem of_runs (hm : m.Staffed seat a) (hlast : b.last = a.last)
    (hlive : ∀ id, m'.kernel.core.tlbs.live id = m.kernel.core.tlbs.live id)
    (hruns : ∀ n pid, m'.Runs b n pid ↔ m.Runs a n pid)
    (hcpu : ∀ {n d}, m'.cpu? n = some d →
      ∃ c, m.cpu? n = some c ∧ d.tlb = c.tlb ∧ d.running = c.running)
    (hcpus : m'.cpus.size = m.cpus.size) (hprocesses : m.processes.size ≤ m'.processes.size) :
    m'.Staffed seat b := by
  refine hm.of_cpus hlive (fun {n d} hd => ?_) fun {n i} hi => ?_
  · obtain ⟨c, hc, htlb, hrunning⟩ := hcpu hd
    refine ⟨c, hc, htlb, fun pid => ?_, fun pid hr => ?_⟩
    · rw [hruns]
      exact hm.works hc
    · rw [hrunning]
      exact hm.running hc ((hruns n pid).1 hr)
  · rw [hlast] at hi
    obtain ⟨hn, hi⟩ := hm.known hi
    exact ⟨hcpus ▸ hn, Nat.lt_of_lt_of_le hi hprocesses⟩

/-- A process is ended, and runs nowhere any more. -/
theorem ended (hm : m.Staffed seat a) (hlast : b.last = a.last)
    (hlive : ∀ id, m'.kernel.core.tlbs.live id = m.kernel.core.tlbs.live id)
    (hruns : ∀ n p, m'.Runs b n p ↔ m.Runs a n p ∧ p ≠ pid)
    (hcpu : ∀ {n d}, m'.cpu? n = some d → ∃ c, m.cpu? n = some c ∧ d.tlb = c.tlb ∧
      (d.running = c.running ∨ c.running = some pid))
    (hcpus : m'.cpus.size = m.cpus.size) (hprocesses : m'.processes.size = m.processes.size) :
    m'.Staffed (unseat seat pid) b := by
  refine hm.of_cpus hlive (fun {n d} hd => ?_) fun {n i} hi => ?_
  · obtain ⟨c, hc, htlb, hrunning⟩ := hcpu hd
    refine ⟨c, hc, htlb, fun p => ?_, fun p hr => ?_⟩
    · rw [unseat_eq_some, hruns, hm.works hc]
    · obtain ⟨hr, hne⟩ := (hruns n p).1 hr
      have hp := hm.running hc hr
      rcases hrunning with hsame | hgone
      · rw [hsame, hp]
      · rw [hp] at hgone
        exact absurd (Option.some.inj hgone) hne
  · rw [hlast] at hi
    rw [hcpus, hprocesses]
    exact hm.known hi

/-- A processor goes to somebody, or to nobody; others do not notice. -/
theorem given (hm : m.Staffed seat a) (hc : m.cpu? cpu = some c) {next : Option ProcessNumber}
    {who : Option Pid} (hlive : ∀ id, m'.kernel.core.tlbs.live id = m.kernel.core.tlbs.live id)
    (hothers : ∀ n p, n ≠ cpu → (m'.Runs (a.setLast cpu next) n p ↔ m.Runs a n p))
    (hhere : ∀ p, who = some p ↔ m'.Runs (a.setLast cpu next) cpu p)
    (hcpu : ∀ {n d}, m'.cpu? n = some d → ∃ c, m.cpu? n = some c ∧ d.tlb = c.tlb ∧
      (n ≠ cpu → d.running = c.running) ∧ (n = cpu → ∀ p, who = some p → d.running = some p))
    (hcpus : m'.cpus.size = m.cpus.size) (hprocesses : m'.processes.size = m.processes.size)
    (hnext : ∀ i, next = some i → i < m.processes.size) :
    m'.Staffed (Function.update seat c.tlb who) (a.setLast cpu next) := by
  refine hm.of_cpus hlive (fun {n d} hd => ?_) fun {n i} hi => ?_
  · obtain ⟨e, he, htlb, hsame, hmine⟩ := hcpu hd
    refine ⟨e, he, htlb, fun p => ?_, fun p hr => ?_⟩
    · by_cases hn : n = cpu
      · subst hn
        obtain rfl := Option.some.inj (hc.symm.trans he)
        rw [Function.update_self]
        exact hhere p
      · rw [Function.update_of_ne fun h => hn (hm.apart he hc h), hothers n p hn]
        exact hm.works he
    · by_cases hn : n = cpu
      · subst hn
        exact hmine rfl p ((hhere p).2 hr)
      · rw [hsame hn]
        exact hm.running he ((hothers n p hn).1 hr)
  · rw [hcpus, hprocesses]
    rw [Account.last_setLast] at hi
    split at hi
    · rename_i hn
      exact ⟨hn ▸ lt_size_of_cpu? hc, hnext i hi⟩
    · exact hm.known hi

/-- Nobody runs on a new processor, and its TLB works for nobody. -/
theorem grown (hm : m.Staffed seat a) (slots : Nat) :
    (m.addCpu slots).Staffed (Function.update seat m.kernel.core.tlbs.tlbs.size none) a := by
  have hne : ∀ {n c}, m.cpu? n = some c → c.tlb ≠ m.kernel.core.tlbs.tlbs.size := by
    intro n c hc heq
    have hlive := hm.live hc
    rw [heq, live_size] at hlive
    cases hlive
  have hlive : ∀ id, (m.addCpu slots).kernel.core.tlbs.live id =
      (decide (id = m.kernel.core.tlbs.tlbs.size) || m.kernel.core.tlbs.live id) :=
    TlbBank.live_add _ _
  have hnobody : ∀ pid, ¬ m.Runs a m.cpus.size pid := by
    rintro pid ⟨i, p, hi, -⟩
    exact absurd (hm.known hi).1 (Nat.lt_irrefl _)
  refine ⟨fun {n d} hd => ?_, fun {n l d e} hd he hde => ?_, fun {n d pid} hd => ?_,
    fun {n d pid} hd hr => ?_, fun {n i} hi => ?_⟩
  · rw [hlive, Bool.or_eq_true, decide_eq_true_iff]
    rcases cpu?_addCpu hd with ⟨-, htlb⟩ | hd
    · exact Or.inl htlb
    · exact Or.inr (hm.live hd)
  · rcases cpu?_addCpu hd with ⟨rfl, hdt⟩ | hd <;> rcases cpu?_addCpu he with ⟨rfl, het⟩ | he
    · rfl
    · exact absurd (hde.symm.trans hdt) (hne he)
    · exact absurd (hde.trans het) (hne hd)
    · exact hm.apart hd he hde
  · rcases cpu?_addCpu hd with ⟨rfl, htlb⟩ | hd
    · rw [htlb, Function.update_self]
      exact ⟨nofun, fun hr => absurd hr (hnobody pid)⟩
    · rw [Function.update_of_ne (hne hd)]
      exact hm.works hd
  · rcases cpu?_addCpu hd with ⟨rfl, -⟩ | hd
    · exact absurd hr (hnobody pid)
    · exact hm.running hd hr
  · obtain ⟨hn, hi⟩ := hm.known hi
    refine ⟨Nat.lt_trans hn ?_, hi⟩
    rw [Machine.addCpu, TlbBank.add]
    dsimp only
    rw [Array.size_push]
    exact Nat.lt_succ_self _

end Staffed

/-! ## Both together -/

variable [BackingFile F] {view : Option (FileView F)} {tenants : Pid → Option Tenant}
  {seat : TlbId → Option Pid} {x y : Context F} {memory : Memory}

/-- The kernel is in order, and processes and processors are what the account says. -/
structure InOrder (view : Option (FileView F)) (tenants : Pid → Option Tenant)
    (seat : TlbId → Option Pid) (a : Account) (m : Machine F) : Prop
    extends Peopled tenants a m, Staffed seat a m where
  kernel : m.kernel.InOrder view tenants seat

omit [BackingFile F] in
/-- One processor changes, but it keeps its TLB. -/
theorem exists_cpu_of_setContext (hc : m.cpu? cpu = some c) (htlb : y.cpu.tlb = c.tlb)
    {d : Processor} (hd : (m.setContext cpu i y).cpu? n = some d) :
    ∃ e, m.cpu? n = some e ∧ d.tlb = e.tlb ∧
      ((n = cpu ∧ e = c ∧ d = y.cpu) ∨ (n ≠ cpu ∧ d = e)) := by
  rw [cpu?_setContext hc] at hd
  split at hd
  · rename_i hn
    obtain rfl := Option.some.inj hd
    exact ⟨c, hn ▸ hc, htlb, Or.inl ⟨hn, rfl, rfl⟩⟩
  · rename_i hn
    exact ⟨d, hd, rfl, Or.inr ⟨hn, rfl⟩⟩

namespace InOrder

/-- **A process that goes on** has the plain memory that it is said to have. -/
theorem resumed (hm : m.InOrder view tenants seat a) (hc : m.cpu? cpu = some c)
    (hp : m.process? i = some p) (hlive : p.exitCode = none)
    (h : Context.Resumes ⟨m.kernel, c, p⟩ y)
    (hk : y.kernel.InOrder view (Function.update tenants p.pid (some ⟨p.space, memory⟩)) seat) :
    (m.setContext cpu i y).InOrder view
      (Function.update tenants p.pid (some ⟨p.space, memory⟩)) seat (a.setPlain i memory) := by
  have hprocess : ∀ j, (m.setContext cpu i y).process? j =
      if j = i then some p else m.process? j := by
    intro j
    rw [process?_setContext hp, h.process]
  refine ⟨hm.changed hp hlive hprocess h.kernel.pids memory,
    hm.of_runs rfl h.kernel.live (fun n pid => ?_) (fun {n d} hd => ?_) ?_ ?_, hk⟩
  · exact runs_of_changed hp hprocess rfl rfl
  · obtain ⟨e, he, htlb, ⟨-, rfl, rfl⟩ | ⟨-, rfl⟩⟩ := exists_cpu_of_setContext hc h.tlb hd
    · exact ⟨e, he, htlb, h.running⟩
    · exact ⟨d, he, rfl, rfl⟩
  · exact Array.size_setIfInBounds
  · exact Nat.le_of_eq Array.size_setIfInBounds.symm

/-- **A process that is ended** is nobody's tenant any more. -/
theorem ended {b : Account} (hm : m.InOrder view tenants seat a) (hc : m.cpu? cpu = some c)
    (hp : m.process? i = some p) (hlast : b.last = a.last)
    (hplain : ∀ j, j ≠ i → b.plain j = a.plain j) {status : Int}
    (h : Context.Ended view tenants seat status ⟨m.kernel, c, p⟩ y) :
    (m.setContext cpu i y).InOrder view (Function.update tenants p.pid none) (unseat seat p.pid)
      b := by
  have hprocess : ∀ j, (m.setContext cpu i y).process? j =
      if j = i then some { p with exitCode := some status, snapshot := {} }
      else m.process? j := by
    intro j
    rw [process?_setContext hp, h.process]
  refine ⟨hm.toPeopled.ended hp hplain hprocess h.kernel.pids,
    hm.toStaffed.ended hlast h.kernel.live (fun n pid => ⟨?_, ?_⟩) (fun {n d} hd => ?_) ?_ ?_, h.inOrder⟩
  · rintro ⟨j, r, hj, hr, hlive, rfl⟩
    rw [hlast] at hj
    rw [hprocess] at hr
    split at hr
    · rw [← Option.some.inj hr] at hlive
      cases hlive
    · rename_i hji
      exact ⟨⟨j, r, hj, hr, hlive, rfl⟩, fun h => hji (hm.distinct hr hp h)⟩
  · rintro ⟨⟨j, r, hlast', hr, hlive, rfl⟩, hne⟩
    have hj : j ≠ i := by
      rintro rfl
      exact hne (congrArg _ (Option.some.inj (hr.symm.trans hp)))
    exact ⟨j, r, hlast ▸ hlast', (hprocess j).trans ((if_neg hj).trans hr), hlive, rfl⟩
  · obtain ⟨e, he, htlb, ⟨-, rfl, rfl⟩ | ⟨-, rfl⟩⟩ := exists_cpu_of_setContext hc h.tlb hd
    · refine ⟨e, he, htlb, ?_⟩
      have hrunning := h.running
      split at hrunning
      · rename_i hgone
        exact Or.inr hgone
      · exact Or.inl hrunning
    · exact ⟨d, he, rfl, Or.inl rfl⟩
  · exact Array.size_setIfInBounds
  · exact Array.size_setIfInBounds

/-- The processor of a process that is ended has no pages of another. -/
theorem seat_of_running (hm : m.InOrder view tenants seat a) (hc : m.cpu? cpu = some c)
    (hrunning : c.running = some pid) : ∀ r, seat c.tlb = some r → r = pid := by
  intro r hr
  have hruns := hm.running hc ((hm.works hc).1 hr)
  exact Option.some.inj (hruns.symm.trans hrunning)

theorem exit (hm : m.InOrder view tenants seat a) (hc : m.cpu? cpu = some c)
    (hp : m.process? i = some p) {status : Int} {r : Except Failure Unit}
    (h : Context.exit ⟨m.kernel, c, p⟩ status = (r, y)) :
    (m.setContext cpu i y).InOrder view (Function.update tenants p.pid none) (unseat seat p.pid)
      a :=
  hm.ended hc hp rfl (fun _ _ => rfl) (Context.exit_ended (x := ⟨m.kernel, c, p⟩) hm.kernel
    (fun hrunning => hm.seat_of_running hc hrunning) h).1

/-- The kernel works for a process, on the processor that it is on. -/
theorem worked (hm : m.InOrder view tenants seat a) (hc : m.cpu? cpu = some c)
    (hp : m.process? i = some p) (hlive : p.exitCode = none) {k : Kernel F}
    (h : Kernel.Stays m.kernel k)
    (hk : k.InOrder view (Function.update tenants p.pid (some ⟨p.space, memory⟩)) seat) :
    (m.setContext cpu i ⟨k, c, p⟩).InOrder view
      (Function.update tenants p.pid (some ⟨p.space, memory⟩)) seat (a.setPlain i memory) :=
  hm.resumed hc hp hlive ⟨h, rfl, rfl, rfl⟩ hk

/-! ## Switching -/

theorem seat_eq_none (hm : m.InOrder view tenants seat a) (hc : m.cpu? cpu = some c)
    (hruns : ∀ pid, ¬ m.Runs a cpu pid) : seat c.tlb = none := by
  rw [Option.eq_none_iff_forall_ne_some]
  exact fun pid hpid => hruns pid ((hm.works hc).1 hpid)

/-- **A process leaves a processor**, and nobody runs there then. -/
theorem leave (hm : m.InOrder view tenants seat a) (hc : m.cpu? cpu = some c)
    {previous : Option (ProcessNumber × Process)}
    (hprevious : (previous = none ∧ m.runner a cpu = none) ∨ ∃ i p, previous = some (i, p) ∧
      m.runner a cpu = some i ∧ m.process? i = some p) :
    (m.leave c previous).InOrder view tenants (Function.update seat c.tlb none)
      (a.setLast cpu none) := by
  have hspec := m.leave_spec c previous
  obtain ⟨hcpus, -, hpids, hrest⟩ := hspec
  have hcpu : ∀ n, (m.leave c previous).cpu? n = m.cpu? n := fun n => by rw [cpu?, hcpus, cpu?]
  have hnobody : ∀ pid, ¬ (m.leave c previous).Runs (a.setLast cpu none) cpu pid := by
    intro pid hruns
    obtain ⟨i, p, hnone, -⟩ := runs_setLast_self.1 hruns
    cases hnone
  have hgiven : ∀ {m' : Machine F}, m' = m.leave c previous →
      (∀ id, m'.kernel.core.tlbs.live id = m.kernel.core.tlbs.live id) →
      (∀ n pid, m'.Runs a n pid ↔ m.Runs a n pid) → m'.processes.size = m.processes.size →
      m'.Staffed (Function.update seat c.tlb none) (a.setLast cpu none) := by
    rintro _ rfl hlive hruns hsize
    refine hm.given hc hlive (fun n p hn => ?_) (fun p => ?_) (fun {n d} hd => ?_) (by rw [hcpus])
      hsize fun i hi => ?_
    · rw [runs_setLast_of_ne hn, hruns]
    · constructor
      · intro h
        cases h
      · intro h
        exact absurd h (hnobody p)
    · rw [hcpu] at hd
      refine ⟨d, hd, rfl, fun _ => rfl, fun _ p hp => ?_⟩
      cases hp
    · cases hi
  rcases hprevious with ⟨rfl, hnone⟩ | ⟨i, p, rfl, hrunner, hp⟩
  · obtain ⟨hcleared, hprocesses⟩ := hrest
    have hprocess : ∀ j, (m.leave c none).process? j = m.process? j := fun j => by
      rw [process?, hprocesses, process?]
    have hseat := hm.seat_eq_none hc fun _ => not_runs_of_runner hnone
    refine ⟨hm.of_same rfl hprocess (hpids ▸ hm.sound) fun pid => by rw [hpids],
      hgiven rfl hcleared.live (fun n pid => ?_) (by rw [hprocesses]), ?_⟩
    · simp only [Runs, hprocess]
    · rw [Function.update_eq_self_iff.2 hseat.symm]
      exact hm.kernel.cleared hcleared hseat
  · obtain ⟨s, snapshot, hquiet, hsaved, hpages, hprocesses⟩ := hrest
    obtain ⟨hlast, hlive⟩ := runner_eq_some.1 hrunner
    obtain ⟨r, hr, hexit⟩ := isLive_iff.1 hlive
    obtain rfl := Option.some.inj (hp.symm.trans hr)
    have hs := hm.kernel.quiet hquiet
    have hprocess : ∀ j, (m.leave c (some (i, p))).process? j =
        if j = i then some { p with snapshot } else m.process? j := fun j => by
      rw [process?, hprocesses, process?_set hp]
    refine ⟨hm.left rfl hp hexit (hs.coherent.unrepeated hpages) hprocess hpids,
      hgiven rfl ?_ (fun n pid => runs_of_changed hp hprocess rfl rfl)
        (by rw [hprocesses, Array.size_setIfInBounds]), hs.saved hsaved fun pid hpid => ?_⟩
    · exact (hquiet.toSameShape.trans hsaved.toSameShape).live
    · have hruns : m.Runs a cpu p.pid := ⟨i, p, hlast, hp, hexit, rfl⟩
      have hwho := (hm.works hc).2 hruns
      exact Option.some.inj (hpid.symm.trans hwho)

/-- **A process comes to a processor** where nobody runs. -/
theorem enter {next : ProcessNumber} (hm : m.InOrder view tenants seat a)
    (hc : m.cpu? cpu = some c) (hlast : a.last cpu = none) (hq : m.process? next = some q)
    (previous : Option Pid) :
    ∃ seat', (m.enter cpu c previous q).InOrder view tenants seat'
      (a.setLast cpu (some next)) := by
  obtain ⟨hcpus, hprocesses, -, hpids, s, t, hs, hattached, hrestored, ht⟩ :=
    m.enter_spec cpu c previous q
  have hprocess : ∀ j, (m.enter cpu c previous q).process? j = m.process? j := fun j => by
    rw [process?, hprocesses, process?]
  have hseat : seat c.tlb = none := by
    refine hm.seat_eq_none hc fun pid hruns => ?_
    obtain ⟨i, p, hi, -⟩ := hruns
    rw [hlast] at hi
    cases hi
  have hpeopled : (m.enter cpu c previous q).Peopled tenants (a.setLast cpu (some next)) :=
    hm.of_same rfl hprocess (hpids ▸ hm.sound) fun pid => by rw [hpids]
  have hhere : ∀ {pid}, (m.enter cpu c previous q).Runs (a.setLast cpu (some next)) cpu pid ↔
      q.exitCode = none ∧ q.pid = pid := by
    intro pid
    rw [runs_setLast_self]
    constructor
    · rintro ⟨i, p, hi, hp, hexit, rfl⟩
      obtain rfl := Option.some.inj hi
      rw [hprocess] at hp
      obtain rfl := Option.some.inj (hq.symm.trans hp)
      exact ⟨hexit, rfl⟩
    · rintro ⟨hexit, rfl⟩
      exact ⟨next, q, rfl, (hprocess next).trans hq, hexit, rfl⟩
  have hgiven : ∀ who : Option Pid, (∀ pid, who = some pid ↔ q.exitCode = none ∧ q.pid = pid) →
      (m.enter cpu c previous q).Staffed (Function.update seat c.tlb who)
        (a.setLast cpu (some next)) := by
    intro who hwho
    refine hm.given hc ((hs.toSameShape.trans hrestored.toSameShape).trans ht.toSameShape).live
      (fun n pid hn => ?_) (fun pid => by rw [hhere, hwho]) (fun {n d} hd => ?_)
      (by rw [hcpus, Array.size_setIfInBounds]) (by rw [hprocesses])
      fun i hi => Option.some.inj hi ▸ lt_size_of_process? hq
    · rw [runs_setLast_of_ne hn]
      simp only [Runs, hprocess]
    · rw [cpu?, hcpus, cpu?_set hc] at hd
      split at hd
      · rename_i hn
        obtain rfl := Option.some.inj hd
        refine ⟨c, hn ▸ hc, rfl, fun hne => absurd hn hne, fun _ pid hpid => ?_⟩
        rw [((hwho pid).1 hpid).2]
      · rename_i hn
        exact ⟨d, hd, rfl, fun _ => rfl, fun h => absurd h hn⟩
  obtain ⟨hunrepeated, hempty⟩ := hm.snapshot hq
  have hks := hm.kernel.quiet hs
  by_cases hexit : q.exitCode = none
  · refine ⟨_, hpeopled, hgiven (some q.pid) fun pid => ?_, ?_⟩
    · simp [hexit]
    · exact (hks.restored hrestored hattached hseat hunrepeated (hm.tenant hq hexit)).quiet ht
  · refine ⟨_, hpeopled, hgiven none fun pid => by simp [hexit], ?_⟩
    rw [Function.update_eq_self_iff.2 hseat.symm]
    rw [hempty hexit] at hrestored
    exact (hks.restored_empty hrestored hattached hseat).quiet ht

/-- **A switch from the process that runs on a processor** to any other. -/
theorem switch {previous : Option ProcessNumber} {next : ProcessNumber}
    (hm : m.InOrder view tenants seat a) (hprevious : previous = m.runner a cpu)
    (h : m.switch cpu previous next = some m') :
    ∃ seat', m'.InOrder view tenants seat' (a.setLast cpu (some next)) := by
  obtain ⟨c, q, who, hc, hwho, hq, rfl⟩ := switch_spec h
  have hleft : (m.leave c who).InOrder view tenants (Function.update seat c.tlb none)
      (a.setLast cpu none) := by
    refine hm.leave hc ?_
    rcases hwho with ⟨rfl, rfl⟩ | ⟨i, p, rfl, hp, rfl⟩
    · exact Or.inl ⟨rfl, hprevious.symm⟩
    · exact Or.inr ⟨i, p, rfl, hprevious.symm, hp⟩
  have hcpu : (m.leave c who).cpu? cpu = some c := by
    rw [cpu?, (m.leave_spec c who).1]
    exact hc
  obtain ⟨seat', hend⟩ := hleft.enter hcpu (by rw [Account.last_setLast, if_pos rfl]) hq
    (who.map (·.2.pid))
  refine ⟨seat', ?_⟩
  have hsame : (a.setLast cpu none).setLast cpu (some next) = a.setLast cpu (some next) := by
    simp only [Account.setLast, Function.update_idem]
  rwa [hsame] at hend

/-- A process whose pid a processor has runs there, even if another process brought the pid. -/
theorem found (hm : m.InOrder view tenants seat a) (hc : m.cpu? cpu = some c)
    (hp : m.process? i = some p) (hexit : p.exitCode = none) (hrunning : c.running = some p.pid) :
    ∃ seat', m.InOrder view tenants seat' (a.setLast cpu (some i)) := by
  refine ⟨Function.update seat c.tlb (some p.pid),
    hm.of_same rfl (fun _ => rfl) hm.sound fun _ => Iff.rfl,
    hm.given hc (fun _ => rfl) (fun n pid hn => runs_setLast_of_ne hn) (fun pid => ?_)
      (fun {n d} hd => ⟨d, hd, rfl, fun _ => rfl, ?_⟩) rfl rfl
      (fun j hj => Option.some.inj hj ▸ lt_size_of_process? hp),
    hm.kernel.seat_congr (fun id => ?_) fun {id r} hr => ?_⟩
  · rw [runs_setLast_self]
    constructor
    · intro hpid
      exact ⟨i, p, rfl, hp, hexit, Option.some.inj hpid⟩
    · rintro ⟨j, r, hj, hr, -, rfl⟩
      obtain rfl := Option.some.inj hj
      obtain rfl := Option.some.inj (hp.symm.trans hr)
      rfl
  · rintro rfl pid hpid
    obtain rfl := Option.some.inj (hc.symm.trans hd)
    rw [hrunning, hpid]
  · by_cases hid : id = c.tlb
    · subst hid
      rw [Function.update_self]
      cases hseat : seat c.tlb with
      | none => exact Or.inr fun n => hm.kernel.not_valid hseat n
      | some r => exact Or.inl (congrArg _ (hm.seat_of_running hc hrunning r hseat).symm)
    · exact Or.inl (Function.update_of_ne hid _ _)
  · by_cases hid : id = c.tlb
    · subst hid
      rw [Function.update_self] at hr
      exact ⟨_, Option.some.inj hr ▸ hm.tenant hp hexit⟩
    · rw [Function.update_of_ne hid] at hr
      exact hm.kernel.seated hr

/-! ## Processes and processors that come and go -/

/-- **A program is loaded** as a new process, or nothing is left of it. -/
theorem load {image : Image} {args : List String} {strategy : Strategy}
    {r : Except PagingError ProcessNumber} (hm : m.InOrder view tenants seat a)
    (h : m.load c image args strategy = (.ok r, m')) :
    ∃ tenants', m'.InOrder view tenants' seat
      (a.after m' cpu (.load image args strategy) r) := by
  unfold Machine.load at h
  cases hload : m.kernel.load c.tlb image args strategy with
  | mk x k =>
      rw [hload] at h
      obtain ⟨hshape, -, hsound, hrest⟩ := load_inOrder hm.kernel hm.sound
        (fun pid hpid => hm.tenants_eq_none hpid) hload
      rcases hrest with ⟨⟨e, rfl⟩ | ⟨rfl, -⟩, hpids, hk⟩ |
        ⟨p, rfl, hfree, hpids, hsnapshot, hexit, hk⟩
      · obtain ⟨hr, rfl⟩ := Prod.mk.inj h
        obtain rfl := Except.ok.inj hr
        exact ⟨tenants, hm.of_same rfl (fun _ => rfl) hsound hpids,
          hm.of_runs rfl hshape.live (fun _ _ => Iff.rfl)
            (fun {n d} hd => ⟨d, hd, rfl, rfl⟩) rfl (Nat.le_refl _), hk⟩
      · cases (Prod.mk.inj h).1
      · obtain ⟨hr, rfl⟩ := Prod.mk.inj h
        obtain rfl := Except.ok.inj hr
        have hnone : m.process? m.processes.size = none := by
          rw [process?, Array.getElem?_eq_none (Nat.le_refl _)]
          rfl
        have hprocess : ∀ j,
            ({ m with kernel := k, processes := m.processes.push (some p) } : Machine F).process? j =
              if j = m.processes.size then some p else m.process? j := fun _ => process?_push rfl
        have hafter : a.after
            ({ m with kernel := k, processes := m.processes.push (some p) } : Machine F) cpu
              (.load image args strategy) (.ok m.processes.size) =
            a.setPlain m.processes.size (p.startMemory args) := by
          simp only [Account.after, Account.loaded, hprocess, if_true]
        rw [hafter]
        refine ⟨_, hm.loaded hnone hprocess hsound hfree hpids hsnapshot hexit _,
          hm.of_runs rfl hshape.live (fun n pid => ?_) (fun {n d} hd => ⟨d, hd, rfl, rfl⟩) rfl
            (by rw [Array.size_push]; exact Nat.le_succ _), hk⟩
        have hne : ∀ {i}, a.last n = some i → i ≠ m.processes.size := fun hi =>
          Nat.ne_of_lt (hm.known hi).2
        constructor
        · rintro ⟨i, q, hi, hq, hrest⟩
          rw [hprocess, if_neg (hne hi)] at hq
          exact ⟨i, q, hi, hq, hrest⟩
        · rintro ⟨i, q, hi, hq, hrest⟩
          exact ⟨i, q, hi, (hprocess i).trans ((if_neg (hne hi)).trans hq), hrest⟩

/-- **A process that has exited is dropped**, so that another may get its pid. -/
theorem drop (hm : m.InOrder view tenants seat a) (hp : m.process? i = some p)
    (hexit : p.exitCode ≠ none) (h : m.drop i p = (.ok (), m')) :
    m'.InOrder view tenants seat a := by
  unfold Machine.drop dropPid at h
  dsimp only at h
  split at h
  · rename_i ids hids
    obtain ⟨-, rfl⟩ := Prod.mk.inj h
    obtain ⟨hsound, hlive⟩ := hm.sound.dealloc hids
    refine ⟨hm.dropped hp hexit (fun j => process?_set hp none) hsound hlive,
      hm.of_runs rfl (fun _ => rfl) (fun n pid => ?_) (fun {n d} hd => ⟨d, hd, rfl, rfl⟩) rfl
        (Nat.le_of_eq Array.size_setIfInBounds.symm), inOrder_note hm.kernel _⟩
    constructor
    · rintro ⟨j, q, hj, hq, hrest⟩
      rw [process?, process?_set hp] at hq
      split at hq
      · cases hq
      · exact ⟨j, q, hj, hq, hrest⟩
    · rintro ⟨j, q, hj, hq, hlive, hpid⟩
      have hne : j ≠ i := by
        rintro rfl
        obtain rfl := Option.some.inj (hp.symm.trans hq)
        exact hexit hlive
      exact ⟨j, q, hj, (process?_set hp none).trans ((if_neg hne).trans hq), hlive, hpid⟩
  · cases (Prod.mk.inj h).1

/-- **A new processor** has a TLB of its own, and nobody runs there. -/
theorem addCpu (hm : m.InOrder view tenants seat a) (slots : Nat) :
    ∃ seat', (m.addCpu slots).InOrder view tenants seat' a := by
  have hgrown := hm.kernel.grown (TlbBank.slot_add m.kernel.core.tlbs slots) rfl
  refine ⟨Function.update seat m.kernel.core.tlbs.tlbs.size none,
    hm.of_same rfl (fun _ => rfl) hm.sound fun _ => Iff.rfl, hm.toStaffed.grown slots,
    hgrown.seat_congr (fun id => ?_) ?_⟩
  · by_cases hid : id = m.kernel.core.tlbs.tlbs.size
    · refine Or.inr fun n => ?_
      have hslot := TlbBank.slot_add m.kernel.core.tlbs slots id n
      show ((m.kernel.core.tlbs.add slots).2.slot id n).valid = false
      rw [hslot, hid, TlbBank.slot_of_not_live (live_size _)]
      rfl
    · exact Or.inl (Function.update_of_ne hid _ _)
  · intro id pid hid
    by_cases heq : id = m.kernel.core.tlbs.tlbs.size
    · rw [heq, Function.update_self] at hid
      cases hid
    · rw [Function.update_of_ne heq] at hid
      exact hm.kernel.seated hid

/-! ## Requests -/

omit [BackingFile F] in
theorem within_eq_ok {α : Type} {act : Context F → Except Halt α × Context F} {r : α}
    (h : m.within cpu i act = (.ok (some r), m')) :
    ∃ c p y, m.cpu? cpu = some c ∧ m.process? i = some p ∧ act ⟨m.kernel, c, p⟩ = (.ok r, y) ∧
      m' = m.setContext cpu i y := by
  rcases within_spec h with ⟨hr, -⟩ | ⟨c, p, r', y, hc, hp, hact, hr, rfl⟩
  · cases hr
  · cases r' with
    | error why => cases hr
    | ok r' =>
        obtain rfl := Option.some.inj (Except.ok.inj hr)
        exact ⟨c, p, y, hc, hp, hact, rfl⟩

omit [BackingFile F] in
theorem within_live {α : Type} {act : Context F → Except Halt α × Context F} {r : α}
    (hlive : m.isLive i = true) (h : m.within cpu i act = (.ok (some r), m')) :
    ∃ c p y, m.cpu? cpu = some c ∧ m.process? i = some p ∧ p.exitCode = none ∧
      act ⟨m.kernel, c, p⟩ = (.ok r, y) ∧ m' = m.setContext cpu i y := by
  obtain ⟨c, p, y, hc, hp, hact, rfl⟩ := within_eq_ok h
  obtain ⟨q, hq, hexit⟩ := isLive_iff.1 hlive
  obtain rfl := Option.some.inj (hp.symm.trans hq)
  exact ⟨c, p, y, hc, hp, hexit, hact, rfl⟩

/-- **A load or store of the process that runs on a processor.** -/
theorem access {address : VirtAddr} {count : Nat} {access : Access} {r : Context.Accessed}
    (hm : m.InOrder view tenants seat a) (hrunner : m.runner a cpu = some i)
    (hcount : ∀ data, access = .store data → count = data.size)
    (h : m.within cpu i (fun x => x.userAccess address count access) = (.ok (some r), m')) :
    ((∃ w, view = some w) → a.Tells (.access i address count access) r) ∧
      ∃ tenants' seat', m'.InOrder view tenants' seat'
        (a.after m' cpu (.access i address count access) r) := by
  obtain ⟨hlast, hlive⟩ := runner_eq_some.1 hrunner
  obtain ⟨c, p, y, hc, hp, hexit, hact, rfl⟩ := within_live hlive h
  have hT := hm.tenant hp hexit
  have hseat : seat c.tlb = some p.pid := (hm.works hc).2 ⟨i, p, hlast, hp, hexit, rfl⟩
  obtain ⟨hmoved, hend⟩ := Context.userAccess_inOrder (x := ⟨m.kernel, c, p⟩) hm.kernel hT hseat
    (fun data hd => Nat.le_of_eq (hcount data hd)) hact
  have hafter : a.after (m.setContext cpu i y) cpu (.access i address count access) r =
      a.setPlain i (access.after (a.plain i) address.val r.moved) := a.moved_eq hmoved
  refine ⟨fun hview => ⟨fun hcause => ?_, fun hload => ⟨hmoved.fits, hmoved.load hview hload⟩⟩, ?_⟩
  · rcases hend with ⟨-, hsize, -⟩ | ⟨hsome, -⟩
    · exact hsize
    · exact absurd hcause hsome
  · rw [hafter]
    rcases hend with ⟨-, -, hresumes, hk⟩ | ⟨-, hended⟩
    · exact ⟨_, _, hm.resumed hc hp hexit hresumes hk⟩
    · refine ⟨_, _, hm.ended hc hp rfl (fun j hj => ?_) hended⟩
      rw [Account.plain_setPlain, if_neg hj]

/-- The kernel works for a process that is live, and leaves its plain memory alone. -/
theorem looked (hm : m.InOrder view tenants seat a) (hc : m.cpu? cpu = some c)
    (hp : m.process? i = some p) (hexit : p.exitCode = none) {k : Kernel F}
    (h : Kernel.Stays m.kernel k) (hk : k.InOrder view tenants seat) :
    (m.setContext cpu i ⟨k, c, p⟩).InOrder view tenants seat a := by
  have hT := hm.tenant hp hexit
  have hsame : Function.update tenants p.pid (some ⟨p.space, a.plain i⟩) = tenants :=
    Function.update_eq_self_iff.2 hT.symm
  have hk' : k.InOrder view (Function.update tenants p.pid (some ⟨p.space, a.plain i⟩)) seat := by
    rw [hsame]
    exact hk
  have hend := hm.worked hc hp hexit h hk'
  rwa [hsame, a.setPlain_self] at hend

/-- The kernel does not notice a process that has exited. -/
theorem idled {b : Account} (hm : m.InOrder view tenants seat a) (hc : m.cpu? cpu = some c)
    (hp : m.process? i = some p) (hexit : p.exitCode ≠ none) (hlast : b.last = a.last)
    (hplain : ∀ j, j ≠ i → b.plain j = a.plain j) {k : Kernel F} (h : Kernel.Stays m.kernel k)
    (hk : k.InOrder view tenants seat) :
    (m.setContext cpu i ⟨k, c, p⟩).InOrder view tenants seat b := by
  have hprocess : ∀ j, (m.setContext cpu i ⟨k, c, p⟩).process? j =
      if j = i then some p else m.process? j := fun _ => process?_setContext hp _
  refine ⟨hm.replaced hp hprocess h.pids rfl (fun _ _ => rfl) hplain
      (fun hlive => absurd hlive hexit) (fun _ => hm.tenants_of_exited hp hexit) (hm.snapshot hp),
    hm.of_runs hlast h.live (fun n pid => ?_) (fun {n d} hd => ?_) ?_ ?_, hk⟩
  · have hsame : (m.setContext cpu i ⟨k, c, p⟩).Runs a n pid ↔ m.Runs a n pid :=
      runs_of_changed hp hprocess rfl rfl
    simp only [Runs, hlast] at hsame ⊢
    exact hsame
  · obtain ⟨e, he, htlb, ⟨-, hec, hdc⟩ | ⟨-, rfl⟩⟩ :=
      exists_cpu_of_setContext (y := ⟨k, c, p⟩) hc rfl hd
    · exact ⟨e, he, htlb, by rw [hdc, hec]⟩
    · exact ⟨d, he, rfl, rfl⟩
  · exact Array.size_setIfInBounds
  · exact Nat.le_of_eq Array.size_setIfInBounds.symm

/-- **Every permitted request keeps a machine in order**, and is answered with bytes of the plain
memories. -/
theorem perform {α : Type} {request : Request α} {r : α} (hm : m.InOrder view tenants seat a)
    (hpermits : m.Permits a cpu request) (h : m.perform cpu request = (.ok (some r), m')) :
    ((∃ w, view = some w) → a.Tells request r) ∧
      ∃ tenants' seat', m'.InOrder view tenants' seat' (a.after m' cpu request r) := by
  cases request with
  | load image args strategy =>
      simp only [Machine.perform] at h
      split at h
      · cases (Prod.mk.inj h).1
      · rename_i c hc
        cases hload : m.load c image args strategy with
        | mk x n =>
            rw [hload] at h
            obtain ⟨hr, rfl⟩ := Prod.mk.inj h
            cases x with
            | error why => cases hr
            | ok x =>
                obtain rfl := Option.some.inj (Except.ok.inj hr)
                exact ⟨fun _ => trivial, (hm.load hload).imp fun _ hn => ⟨seat, hn⟩⟩
  | exit i status =>
      simp only [Machine.perform] at h
      obtain ⟨c, p, y, hc, hp, hact, rfl⟩ := within_eq_ok h
      obtain ⟨-, rfl⟩ := Prod.mk.inj hact
      exact ⟨fun _ => trivial, _, _, hm.exit hc hp rfl⟩
  | drop i =>
      simp only [Machine.perform] at h
      split at h
      · cases (Prod.mk.inj h).1
      · rename_i p hp
        cases hdrop : m.drop i p with
        | mk x n =>
            rw [hdrop] at h
            obtain ⟨hr, rfl⟩ := Prod.mk.inj h
            cases x with
            | error why => cases hr
            | ok x =>
                refine ⟨fun _ => trivial, tenants, seat, hm.drop hp (fun hexit => ?_) hdrop⟩
                have hdead : m.isLive i = false := hpermits
                rw [isLive_iff.2 ⟨p, hp, hexit⟩] at hdead
                cases hdead
  | switch previous next =>
      simp only [Machine.perform] at h
      split at h <;> rename_i hs
      · cases (Prod.mk.inj h).1
      · obtain ⟨-, rfl⟩ := Prod.mk.inj h
        obtain ⟨seat', hn⟩ := hm.switch hpermits hs
        exact ⟨fun _ => trivial, tenants, seat', hn⟩
  | access i address count access =>
      simp only [Machine.perform] at h
      exact hm.access hpermits.1 hpermits.2 h
  | read i address count =>
      simp only [Machine.perform] at h
      obtain ⟨c, p, y, hc, hp, hexit, hact, rfl⟩ := within_live hpermits h
      obtain ⟨hr, rfl⟩ := Prod.mk.inj hact
      obtain ⟨hstays, hmoved, hk⟩ :=
        readMemory_inOrder hm.kernel (hm.tenant hp hexit) (Prod.ext hr rfl)
      exact ⟨fun hview => ⟨hmoved.fits, hmoved.load hview rfl⟩, _, _, hm.looked hc hp hexit hstays hk⟩
  | write i address data =>
      simp only [Machine.perform] at h
      obtain ⟨c, p, y, hc, hp, hexit, hact, rfl⟩ := within_live hpermits h
      obtain ⟨hr, rfl⟩ := Prod.mk.inj hact
      obtain ⟨hstays, -, hk⟩ :=
        writeMemory_inOrder hm.kernel (hm.tenant hp hexit) (Prod.ext hr rfl)
      exact ⟨fun _ => trivial, _, _, hm.worked hc hp hexit hstays hk⟩
  | readText i address limit =>
      simp only [Machine.perform] at h
      obtain ⟨c, p, y, hc, hp, hexit, hact, rfl⟩ := within_live hpermits h
      obtain ⟨hr, rfl⟩ := Prod.mk.inj hact
      obtain ⟨hstays, hk⟩ := readText_inOrder hm.kernel (hm.tenant hp hexit) (Prod.ext hr rfl)
      exact ⟨fun _ => trivial, _, _, hm.looked hc hp hexit hstays hk⟩
  | resolveMiss i address => cases hpermits
  | accessPage i page writing change => cases hpermits
  | trap i code => cases hpermits
  | destroySpace pid => cases hpermits

end InOrder

/-- Paging runs only if all of memory has addresses. -/
theorem fits_of_check {config : MachineConfig} (h : config.check = .ok ()) :
    config.frames * pageSize < wordLimit := by
  unfold MachineConfig.check MachineConfig.usable at h
  split at h
  · rename_i husable
    rw [Bool.and_eq_true, decide_eq_true_iff] at husable
    exact Nat.lt_trans husable.2 (by decide)
  · cases h

/-- A machine that was just brought up is in order. -/
theorem inOrder_of_boot {config : MachineConfig} {files : List String} {file : F} {k : Kernel F}
    {journal : Journal} (hgood : ∀ w, view = some w → w.good file)
    (h : Kernel.boot config files (some file) = (.ok k, journal)) :
    InOrder view (fun _ => none) (fun _ => none) {} { kernel := k } := by
  have hc := consistent_of_boot h
  have hprocess : ∀ {i p}, ({ kernel := k } : Machine F).process? i ≠ some p := fun h => by cases h
  have hcpu : ∀ {n c}, ({ kernel := k } : Machine F).cpu? n ≠ some c := fun h => by cases h
  obtain ⟨husable, rfl⟩ := eq_of_boot h
  exact
    { sound := PidAllocator.sound_empty
      held := fun hp => absurd hp hprocess
      distinct := fun hp => absurd hp hprocess
      tenant := fun hp => absurd hp hprocess
      housed := fun hT => (by cases hT)
      snapshot := fun hp => absurd hp hprocess
      live := fun hd => absurd hd hcpu
      apart := fun hd => absurd hd hcpu
      works := fun hd => absurd hd hcpu
      running := fun hd => absurd hd hcpu
      known := fun hi => (by cases hi)
      kernel := .of_blank hc rfl (fits_of_check (if_pos husable)) rfl rfl hgood }

/-- **All orderly machines are in order**, whatever the swap file does. -/
theorem Orderly.inOrder {file : F} (hgood : ∀ w, view = some w → w.good file)
    (h : Orderly file m a) : ∃ tenants seat, m.InOrder view tenants seat a := by
  induction h with
  | boot h => exact ⟨_, _, inOrder_of_boot hgood h⟩
  | addCpu _ slots ih =>
      obtain ⟨tenants, seat, hm⟩ := ih
      obtain ⟨seat', hm'⟩ := hm.addCpu slots
      exact ⟨tenants, seat', hm'⟩
  | found _ hc hp hlive hrunning ih =>
      obtain ⟨tenants, seat, hm⟩ := ih
      obtain ⟨q, hq, hexit⟩ := isLive_iff.1 hlive
      obtain rfl := Option.some.inj (hp.symm.trans hq)
      obtain ⟨seat', hm'⟩ := hm.found hc hp hexit hrunning
      exact ⟨tenants, seat', hm'⟩
  | perform _ hpermits hp ih =>
      obtain ⟨tenants, seat, hm⟩ := ih
      exact (hm.perform hpermits hp).2

end Machine

end DemandPaging
