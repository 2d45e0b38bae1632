import DemandPaging.Proofs.Copies
import DemandPaging.Proofs.Retries

/-!
# What comes of a load or store

A load or store of a running process is made as a whole, or the process is ended at the first page
that it may not have; which of them it is, and why, is known beforehand.

* `Paging.cause_of_obstacle` — the three causes for which a page is refused.
* `Paging.Bereft` — nothing is left of a process.
* `Machine.Accesses`, `Machine.Expelled` — what has come of a load or store, and of a process that was
  ended by it.
* `Machine.accesses_of_orderly` — this comes of every load and store, after two tries at most on each
  page.
-/

namespace DemandPaging

open Paging Kernel

variable {F : Type}

namespace Paging

variable {s : Paging F} {space : AddressSpace} {writing : Bool} {p : PageNumber} {pid : Pid}
  {cause : ExceptionCause}

/-- A page is refused because it lies outside the address space, or else because it cannot be had,
or else because it may not be written. -/
theorem cause_of_obstacle (h : s.obstacle space writing p = some cause) :
    cause = if space.contains p = false then .addressError
      else if s.Obtainable (space.key p) then .readOnly else .busError := by
  by_cases hinside : space.contains p = true
  · rw [if_neg (by simp [hinside])]
    by_cases hobtainable : s.Obtainable (space.key p)
    · rw [obstacle_obtainable hobtainable, AddressSpace.refusal, if_pos hinside] at h
      rw [if_pos hobtainable]
      split at h
      · exact (Option.some.inj h).symm
      · cases h
    · rw [obstacle_exhausted hinside hobtainable] at h
      rw [if_neg hobtainable]
      exact (Option.some.inj h).symm
  · rw [Bool.not_eq_true] at hinside
    rw [obstacle_outside hinside] at h
    rw [if_pos hinside]
    exact (Option.some.inj h).symm

/-- Nothing is left of a process. -/
structure Bereft (s : Paging F) (pid : Pid) : Prop where
  space : s.core.spaces[pid]? = none
  entry : ∀ {key}, key.pid = pid → s.entry key = none
  owner : ∀ {f o}, s.owner f = some o → o.key.pid ≠ pid
  stored : ∀ {key : PageKey}, key.pid = pid → s.swap.slots[key]? = none

/-- **A process without an address space has nothing.** -/
theorem Consistent.bereft (hs : s.Consistent) (h : s.core.spaces[pid]? = none) : s.Bereft pid := by
  have hnot : ∀ {key : PageKey}, key.pid = pid → ¬ s.InRange key := by
    rintro key rfl ⟨count, hcount, -⟩
    cases h.symm.trans hcount
  have hentry : ∀ {key : PageKey}, key.pid = pid → s.entry key = none := fun hkey =>
    Option.eq_none_iff_forall_ne_some.2 fun _ he => hnot hkey (hs.resident he)
  refine ⟨h, hentry, fun {f o} ho hkey => ?_, fun {key} hkey => ?_⟩
  · obtain ⟨e, he, -⟩ := hs.owned (holder_eq_some.2 ⟨o, ho, rfl⟩)
    cases (hentry hkey).symm.trans he
  · exact Option.eq_none_iff_forall_ne_some.2 fun _ hslot => hnot hkey (hs.stored hslot)

end Paging

/-- The byte that an address has after an access from another address on, made as a whole. -/
def Access.byteAfter (access : Access) (address b : VirtAddr) (old : UInt8) : UInt8 :=
  match access with
  | .load => old
  | .store data =>
    if address.val ≤ b.val ∧ b.val < address.val + data.size then data[b.val - address.val]?.getD 0
    else old

namespace Machine

variable [BackingFile F] {m m' : Machine F} {a : Account} {file : F} {w : FileView F}
  {cpu : CpuNumber} {c : Processor} {i : ProcessNumber} {p : Process} {address : VirtAddr}
  {count : Nat} {access : Access}

/-! ## What has come of it -/

/-- A process was ended on a processor, with nothing left of it. -/
structure Expelled (m' : Machine F) (cpu : CpuNumber) (i : ProcessNumber) (p : Process) : Prop where
  process : m'.process? i =
    some { p with exitCode := some Context.killedStatus, snapshot := {} }
  bereft : m'.kernel.Bereft p.pid
  /-- Nothing runs on the processor, and its TLB holds nothing. -/
  cpu : ∃ c, m'.cpu? cpu = some c ∧ c.running = none ∧
    ∀ n, (m'.kernel.slot c.tlb n).valid = false

/-- What has come of a load or store of a process at `count` addresses. -/
structure Accesses (w : FileView F) (m m' : Machine F) (cpu : CpuNumber) (i : ProcessNumber)
    (p : Process) (address : VirtAddr) (count : Nat) (access : Access) (r : Context.Accessed) :
    Prop where
  /-- It was made as a whole exactly if all pages lie in the address space, may be written if that is
  asked for, and are resident or can become so. -/
  whole : r.cause = none ↔ ∀ k < count, p.space.contains (address.advance k).page = true ∧
    ¬ (access.writing = true ∧ p.space.isSealed (address.advance k).page = true) ∧
    m.kernel.Obtainable (p.space.key (address.advance k).page)
  /-- Otherwise it stopped at the first page that is refused, for the first cause that there is. -/
  stops : Stops (m.kernel.obstacle p.space access.writing) address count r.moved.size r.cause
  cause : ∀ {c}, r.cause = some c → c =
    if p.space.contains (address.advance r.moved.size).page = false then .addressError
    else if m.kernel.Obtainable (p.space.key (address.advance r.moved.size).page) then .readOnly
    else .busError
  /-- All that comes before was moved. -/
  aligned : r.moved.size < count →
    r.moved.size = 0 ∨ (address.advance r.moved.size).offset = 0
  loaded : access = .load → ∀ k (hk : k < r.moved.size),
    r.moved[k] = m.kernel.byteAt w p.space (address.advance k)
  stored : ∀ {data}, access = .store data → r.moved = Bytes.slice data 0 r.moved.size
  /-- If it was made as a whole the process goes on, and has what it stored. -/
  resumes : r.cause = none → m'.process? i = some p ∧
    ∃ c, m'.cpu? cpu = some c ∧ c.running = some p.pid
  contents : r.cause = none → ∀ {b : VirtAddr}, b.val < p.space.pageCount * pageSize →
    m'.kernel.byteAt w p.space b = access.byteAfter address b (m.kernel.byteAt w p.space b)
  /-- Otherwise the process was ended. -/
  ended : r.cause ≠ none → Expelled m' cpu i p
  /-- Other processes have what they had. -/
  others : ∀ {j q}, j ≠ i → m.process? j = some q → m'.process? j = some q
  kept : ∀ {j q} {b : VirtAddr}, j ≠ i → m.process? j = some q → q.exitCode = none →
    b.val < q.space.pageCount * pageSize →
    m'.kernel.byteAt w q.space b = m.kernel.byteAt w q.space b

/-! ## At any time -/

theorem perform_access (hc : m.cpu? cpu = some c) (hp : m.process? i = some p) :
    m.perform cpu (.access i address count access) =
      ((Context.userAccess ⟨m.kernel, c, p⟩ address count access).1.map some,
        m.setContext cpu i (Context.userAccess ⟨m.kernel, c, p⟩ address count access).2) := by
  rw [perform, within_eq hc hp]

/-- What a processor and the process that runs there are to a trap. -/
theorem Lives.runs {tenants : Pid → Option Tenant} {seat : TlbId → Option Pid}
    (hm : Lives w tenants seat a m i p) (hc : m.cpu? cpu = some c) (hp : m.process? i = some p)
    (hlive : p.exitCode = none) (hlast : a.last cpu = some i)
    (hslots : 0 < (m.kernel.core.tlbs.tlb c.tlb).size) :
    Context.Runs (some w) tenants seat (a.plain i) ⟨m.kernel, c, p⟩ where
  inOrder := hm.inOrder.kernel
  stocked := hm.stocked
  tenant := hm.tenant
  seated := (hm.inOrder.works hc).2 ⟨i, p, hlast, hp, hlive, rfl⟩
  slots := hslots
  live := hlive
  fits := hm.fits

/-- **A process that is ended by an access** leaves nothing. -/
theorem expelled_of_ended {view : Option (FileView F)} {tenants : Pid → Option Tenant}
    {seat : TlbId → Option Pid} {y : Context F} (hc : m.cpu? cpu = some c)
    (hp : m.process? i = some p) (hrunning : c.running = some p.pid) (hseat : seat c.tlb = some p.pid)
    (h : Context.Ended view tenants seat Context.killedStatus ⟨m.kernel, c, p⟩ y) :
    Expelled (m.setContext cpu i y) cpu i p := by
  have horder := h.inOrder
  refine ⟨?_, ?_, y.cpu, ?_, ?_, fun n => ?_⟩
  · rw [process?_setContext hp, if_pos rfl, h.process]
  · exact horder.toConsistent.bereft (horder.lodged.spaces_eq_none (Function.update_self _ _ _))
  · rw [cpu?_setContext hc, if_pos rfl]
  · rw [h.running]
    exact if_pos hrunning
  · refine horder.not_valid ?_ n
    rw [h.tlb]
    exact if_pos hseat

/-- The bytes of a process that has made an access as a whole. -/
theorem byteAt_of_moved {b : VirtAddr} {bytes : Bytes} (hgood : w.good file)
    (h : Orderly file m a) (hp : m.process? i = some p) (hlive : p.exitCode = none)
    (hafter : Orderly file m' (a.moved i address access count)) (hp' : m'.process? i = some p)
    (hdata : ∀ data, access = .store data → count = data.size)
    (hmoved : access.Moved True (a.plain i) address.val bytes) (hsize : bytes.size = count)
    (hb : b.val < p.space.pageCount * pageSize) :
    m'.kernel.byteAt w p.space b = access.byteAfter address b (m.kernel.byteAt w p.space b) := by
  cases access with
  | load => exact h.byteAt_congr hafter hgood hp hlive hp' hlive rfl rfl hb
  | store data =>
      obtain rfl := hdata data rfl
      rw [hafter.byteAt_eq hgood hp' hlive hb, h.byteAt_eq hgood hp hlive hb, Account.moved,
        Account.plain_setPlain, if_pos rfl]
      exact (a.plain i).byte_write_slice (Nat.le_refl _) (hsize ▸ hmoved.fits) b.val

/-- **An access that no transfer has failed** is made as far as its pages are granted. -/
theorem accesses_of_stops {r : Context.Accessed} (hgood : w.good file)
    (h : Orderly file m a) (hc : m.cpu? cpu = some c) (hp : m.process? i = some p)
    (hlive : p.exitCode = none) (hrunning : c.running = some p.pid)
    (hrunner : m.runner a cpu = some i) (hdata : ∀ data, access = .store data → count = data.size)
    (hstep : m.perform cpu (.access i address count access) = (.ok (some r), m'))
    (hstops : Stops (m.kernel.obstacle p.space access.writing) address count r.moved.size r.cause) :
    Accesses w m m' cpu i p address count access r := by
  obtain ⟨tenants, seat, hm⟩ := h.lives hgood hp hlive
  have hseat : seat c.tlb = some p.pid :=
    (hm.inOrder.works hc).2 ⟨i, p, (runner_eq_some.1 hrunner).1, hp, hlive, rfl⟩
  have hafter : Orderly file m' (a.moved i address access r.moved.size) :=
    h.perform (show m.Permits a cpu (.access i address count access) from ⟨hrunner, hdata⟩) hstep
  rw [perform_access hc hp] at hstep
  cases hact : Context.userAccess ⟨m.kernel, c, p⟩ address count access with
  | mk answer y =>
      rw [hact] at hstep
      obtain ⟨hanswer, rfl⟩ := Prod.mk.inj hstep
      obtain rfl : answer = .ok r := by
        cases answer with
        | error why => cases hanswer
        | ok b => exact congrArg Except.ok (Option.some.inj (Except.ok.inj hanswer))
      obtain ⟨hmoved, hend⟩ := Context.userAccess_inOrder (x := ⟨m.kernel, c, p⟩) hm.inOrder.kernel
        hm.tenant hseat (fun data hd => Nat.le_of_eq (hdata data hd)) hact
      have hmoved : access.Moved True (a.plain i) address.val r.moved :=
        ⟨hmoved.fits, fun _ => hmoved.load ⟨w, rfl⟩, hmoved.store⟩
      have hother : ∀ {j q}, j ≠ i → m.process? j = some q →
          (m.setContext cpu i y).process? j = some q := by
        intro j q hj hq
        rw [process?_setContext hp, if_neg hj]
        exact hq
      have hresumed : r.cause = none → (m.setContext cpu i y).process? i = some p ∧
          (m.setContext cpu i y).cpu? cpu = some y.cpu ∧ y.cpu.running = some p.pid := by
        intro hnone
        obtain ⟨-, -, hresumes, -⟩ | ⟨hsome, -⟩ := hend
        · rw [process?_setContext hp, cpu?_setContext hc, if_pos rfl, if_pos rfl, hresumes.process]
          exact ⟨rfl, rfl, hresumes.running.trans hrunning⟩
        · exact absurd hnone hsome
      refine ⟨?_, hstops, fun hcause => cause_of_obstacle (hstops.refused _ hcause).2,
        hstops.aligned, fun hload k hk => ?_, hmoved.store,
        fun hnone => ⟨(hresumed hnone).1, _, (hresumed hnone).2⟩, fun hnone b hb => ?_,
        fun hsome => ?_, hother, fun {j q b} hj hq hqlive hb => ?_⟩
      · rw [hstops.eq_none_iff]
        exact forall_congr' fun k => imp_congr_right fun _ => obstacle_eq_none
      · have hinside := (obstacle_eq_none.1 (hstops.granted k hk)).1
        have hread := (a.plain i).getElem?_read ⟨address.val⟩ r.moved.size k
        rw [← hmoved.load trivial hload, if_pos hk, Array.getElem?_eq_getElem hk] at hread
        rw [h.byteAt_eq hgood hp hlive (AddressSpace.contains_page.1 hinside)]
        exact Option.some.inj hread
      · have hsize := hstops.whole hnone
        exact byteAt_of_moved hgood h hp hlive (hsize ▸ hafter) (hresumed hnone).1 hdata hmoved
          hsize hb
      · obtain ⟨hnone, -⟩ | ⟨-, hended⟩ := hend
        · exact absurd hnone hsome
        · exact expelled_of_ended hc hp hrunning hseat hended
      · rw [a.moved_eq hmoved] at hafter
        exact h.byteAt_congr hafter hgood hq hqlive (hother hj hq) hqlive rfl
          ((a.plain_setPlain i j _).trans (if_neg hj)) hb

/-- **Loads and stores have one outcome.**  Whatever was asked of a machine before, a process that
runs on a processor loads or stores all that it asks for, or is ended at the first page that it may
not have.  No page is tried more than twice, so that the tries never run out.  Only a transfer of the
swap file that comes up short can change that, and none does if the file never fails. -/
theorem accesses_of_orderly (hgood : w.good file) (h : Orderly file m a) (hc : m.cpu? cpu = some c)
    (hp : m.process? i = some p) (hlive : p.exitCode = none) (hrunning : c.running = some p.pid)
    (hslots : 0 < (m.kernel.core.tlbs.tlb c.tlb).size)
    (hdata : ∀ data, access = .store data → count = data.size) :
    (∀ n ∈ Context.rangeTranslations access (pieces address count) ⟨m.kernel, c, p⟩,
        n ≤ 2 ∧ n < Context.maxAttempts) ∧
      ∀ {r m'}, m.perform cpu (.access i address count access) = (r, m') →
        (m'.kernel.shortfalls = m.kernel.shortfalls →
          ∃ b, r = .ok (some b) ∧ Accesses w m m' cpu i p address count access b) ∧
        ∀ {v : ReliableView F}, v.Keeps m.kernel.swap →
          m'.kernel.shortfalls = m.kernel.shortfalls := by
  have hisLive : m.isLive i = true := isLive_iff.2 ⟨p, hp, hlive⟩
  -- The process may be taken to run there, whoever the processor was given to before.
  have hfound : Orderly file m (a.setLast cpu (some i)) := h.found hc hp hisLive hrunning
  have hlast : (a.setLast cpu (some i)).last cpu = some i := by rw [Account.last_setLast, if_pos rfl]
  have hrunner : m.runner (a.setLast cpu (some i)) cpu = some i := runner_eq_some.2 ⟨hlast, hisLive⟩
  obtain ⟨tenants, seat, hm⟩ := hfound.lives hgood hp hlive
  obtain ⟨hcounts, hserved⟩ := Context.userAccess_served (hm.runs hc hp hlive hlast hslots)
    (fun data hd => Nat.le_of_eq (hdata data hd))
    (Prod.eta (Context.userAccess ⟨m.kernel, c, p⟩ address count access)).symm
  refine ⟨fun n hn => ⟨hcounts n hn, Nat.lt_succ_of_le (hcounts n hn)⟩, fun {r m'} hstep => ?_⟩
  have hkernel := hstep
  rw [perform_access hc hp] at hkernel
  obtain ⟨rfl, rfl⟩ := Prod.mk.inj hkernel
  refine ⟨fun hnone => ?_, fun hv => Shorts.none_noted hserved hv⟩
  obtain ⟨b, hb, hstops⟩ := Shorts.served hserved hnone
  rw [hb] at hstep ⊢
  exact ⟨b, rfl, accesses_of_stops hgood hfound hc hp hlive hrunning hrunner hdata hstep hstops⟩

set_option maxRecDepth 100000 in
/-- A program stores two bytes up to where its address space ends, and is ended by the third. -/
theorem accesses_past_the_end :
    ∃ (m m' : Machine MemoryFile) (p : Process),
      Accesses MemoryFile.view m m' 0 0 p ⟨9214⟩ 4 (.store #[1, 2, 3, 4])
        { moved := #[1, 2], cause := some .addressError } := by
  have hboot : Kernel.boot (.withFrames 1 1) [] (some ({} : MemoryFile)) = (.ok _, _) := rfl
  obtain ⟨m, -, ⟨a, h, -⟩, hall⟩ := ((Orderly.boot hboot).addCpu 1).withLast.serve
    [⟨0, _, .load (.assembled { entry := 0 }) [] .demand⟩, ⟨0, _, .switch none 0⟩]
    (fun m => ((m.cpu? 0).any fun c => 0 < (m.kernel.core.tlbs.tlb c.tlb).size &&
        (m.process? 0).any fun p => c.running = some p.pid) = true ∧ m.isLive 0 = true ∧
      m.answer? 0 (.access 0 ⟨9214⟩ 4 (.store #[1, 2, 3, 4])) =
        some { moved := #[1, 2], cause := some .addressError } ∧
      (m.perform 0 (.access 0 ⟨9214⟩ 4 (.store #[1, 2, 3, 4]))).2.kernel.shortfalls =
        m.kernel.shortfalls)
    (by decide_cbv)
  obtain ⟨hcpu, hlive, hanswer, hnone⟩ := of_decide_eq_true hall
  obtain ⟨c, hc, hcpu⟩ := (Option.any_eq_true _ _).1 hcpu
  obtain ⟨p, hp, hexit⟩ := isLive_iff.1 hlive
  rw [hp, Bool.and_eq_true, decide_eq_true_eq] at hcpu
  have hstep := perform_of_answer? hanswer
  obtain ⟨-, hall⟩ := accesses_of_orderly (w := MemoryFile.view) trivial h hc hp hexit
    (of_decide_eq_true hcpu.2) hcpu.1 (show ∀ data, Access.store #[1, 2, 3, 4] = .store data →
      4 = data.size by rintro _ ⟨⟩; rfl)
  obtain ⟨b, hb, haccesses⟩ := (hall hstep).1 hnone
  obtain rfl := Option.some.inj (Except.ok.inj hb)
  exact ⟨m, _, p, haccesses⟩

end Machine

end DemandPaging
