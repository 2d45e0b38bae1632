import DemandPaging.Proofs.Processes

/-!
# Processes that have exited

A process is ended by an exit, or by a trap or an access that cannot be served.  It has no address
space then, and never gets one again.  Its status stays until somebody ends it once more, which is
refused but puts another status in the place of the first.

* `Context.Step`, `Context.userAccess_steps` — what is done for a process, step by step.
* `Request.records` — the statuses that a request may record for a process.
* `Machine.keeps_of_perform` — a status changes only if a request records another.
* `Machine.Reached.parted` — a process that has exited has no address space.
* `Machine.recorded_of_reached` — what becomes of a status that was recorded.
* `Machine.status_replaced` — a run on which it is replaced.
-/

namespace DemandPaging

open Paging

variable {F : Type} [BackingFile F]

/-! ## What is done for a process -/

namespace Context

variable {x y z : Context F} {status : Int}

/-- The kernel works for a process, or ends it. -/
inductive Step (x y : Context F) : Prop
  | works (hprocess : y.process = x.process) (hkernel : x.kernel.Evolves (fun _ => False) y.kernel)
  | ends {r : Except Failure Unit} (h : x.exit killedStatus = (r, y))

/-- Any number of steps. -/
abbrev Steps : Context F → Context F → Prop := Relation.ReflTransGen Step

theorem steps_note (x : Context F) {e : Event} (hdropped : e.dropped = 0)
    (hshort : e.shortfall = 0) : Steps x (x.note e) :=
  .single (.works rfl (.note _ hdropped hshort))

theorem Step.consistent (h : Step x y) (hx : x.kernel.Consistent) : y.kernel.Consistent := by
  cases h with
  | works _ hkernel => exact hkernel.consistent hx
  | ends h => exact (exit_evolves hx h).consistent hx

theorem Steps.consistent (h : Steps x y) (hx : x.kernel.Consistent) : y.kernel.Consistent := by
  induction h with
  | refl => exact hx
  | tail _ hstep ih => exact hstep.consistent ih

/-! ## The end -/

omit [BackingFile F] in
/-- An exit records its status, whatever it is answered. -/
theorem exitCode_of_exit {r : Except Failure Unit} (h : x.exit status = (r, y)) :
    y.process.exitCode = some status := by
  unfold exit at h
  dsimp only at h
  split at h <;> obtain ⟨-, rfl⟩ := Prod.mk.inj h <;> rfl

/-- Afterwards the process has no address space. -/
theorem not_mem_spaces_of_exit {r : Except Failure Unit} (hx : x.kernel.Consistent)
    (h : x.exit status = (r, y)) : y.process.pid ∉ y.kernel.core.spaces := by
  rw [(exit_evolves hx h).pid]
  by_cases hpid : x.process.pid ∈ x.kernel.core.spaces
  · obtain ⟨y', hy', -, hgone⟩ := exit_of_mem status hx hpid
    obtain rfl : y' = y := congrArg Prod.snd (hy'.symm.trans h)
    rw [Std.ExtTreeMap.mem_iff_isSome_getElem?, hgone.spaces, if_pos rfl]
    nofun
  · obtain ⟨y', tlbs, hy', hcore, -⟩ := exit_of_not_mem status hx hpid
    obtain rfl : y' = y := congrArg Prod.snd (hy'.symm.trans h)
    rw [hcore]
    exact hpid

/-- A process was ended with a status, and has lost its address space. -/
structure EndedWith (y : Context F) (status : Int) : Prop where
  status : y.process.exitCode = some status
  unregistered : y.process.pid ∉ y.kernel.core.spaces

theorem endedWith_of_exit {r : Except Failure Unit} (hx : x.kernel.Consistent)
    (h : x.exit status = (r, y)) : y.EndedWith status :=
  ⟨exitCode_of_exit h, not_mem_spaces_of_exit hx h⟩

/-- **After any steps a process is what it was**, or it was ended because of an exception. -/
theorem Steps.process_or_ended (h : Steps x y) (hx : x.kernel.Consistent) :
    y.process = x.process ∨ y.EndedWith killedStatus := by
  induction h with
  | refl => exact .inl rfl
  | tail hsteps hstep ih =>
    cases hstep with
    | works hprocess hkernel =>
      refine ih.imp hprocess.trans fun hended => ⟨hprocess ▸ hended.status, ?_⟩
      rw [hprocess]
      exact hkernel.changes.not_mem_spaces id hended.unregistered
    | ends h => exact .inr (endedWith_of_exit (Steps.consistent hsteps hx) h)

/-! ## Traps and accesses -/

theorem terminate_steps {cause : ExceptionCause} {r : Except Halt TrapOutcome}
    (h : x.terminate cause = (r, y)) : Steps x y := by
  unfold terminate at h
  cases he : x.exit killedStatus with
  | mk r' z =>
    rw [he] at h
    have hend : Steps x z := .single (.ends he)
    split at h <;> rename_i heq <;> obtain ⟨-, rfl⟩ := Prod.mk.inj heq <;>
      obtain ⟨-, rfl⟩ := Prod.mk.inj h
    · exact hend
    · exact hend
    · exact hend.trans (steps_note _ rfl rfl)

theorem handlePage_steps {r : Except Halt TrapOutcome} (hx : x.kernel.Consistent)
    (h : x.handlePage = (r, y)) : Steps x y := by
  unfold handlePage at h
  dsimp only at h
  cases hm : x.kernel.handleMiss x.cpu.tlb x.process.space x.process.strategy x.cpu.badAddress with
  | mk r' k =>
    rw [hm] at h
    have hmiss : Steps x { x with kernel := k } :=
      .single (.works rfl (Kernel.handleMiss_evolves hx hm))
    split at h <;> rename_i heq <;> obtain ⟨-, rfl⟩ := Prod.mk.inj heq
    · obtain ⟨-, rfl⟩ := Prod.mk.inj h
      exact hmiss
    · obtain ⟨-, rfl⟩ := Prod.mk.inj h
      exact hmiss
    · split at h
      · obtain ⟨-, rfl⟩ := Prod.mk.inj h
        exact hmiss
      · exact (hmiss.trans (steps_note _ rfl rfl)).trans (terminate_steps h)

theorem handleTrap_steps {code : Nat} {r : Except Halt TrapOutcome} (hx : x.kernel.Consistent)
    (h : x.handleTrap code = (r, y)) : Steps x y := by
  unfold handleTrap at h
  split at h
  · obtain ⟨-, rfl⟩ := Prod.mk.inj h
    exact .refl
  · obtain ⟨-, rfl⟩ := Prod.mk.inj h
    exact .refl
  · exact handlePage_steps hx h
  · exact handlePage_steps hx h
  · exact (steps_note _ rfl rfl).trans (terminate_steps h)

/-- Translating an address and touching what is there leaves the process alone. -/
theorem touch_steps {access : Access} {q : Piece} {a : PhysAddr} {k : Kernel F} {cpu : Processor}
    {b : Except Halt Bytes} {e : PageEvent}
    (ht : x.kernel.translate x.cpu q.address access.writing = (.ok a, k, cpu))
    (h : (({ x with kernel := k, cpu } : Context F).record e).touchMemory access q a = (b, y)) :
    Steps x y := by
  obtain ⟨hconfig, hpids, ⟨i, f, -, -, -, -, -, -, hhit⟩ | ⟨c, hr, -⟩⟩ := Kernel.translate_spec ht
  · obtain ⟨hadj, hposted, hconfig', hpids', -⟩ := touchMemory_adjusted h
    have htranslated : x.kernel.Evolves (fun _ => False) k :=
      .adjusted hhit.adjusted (Kernel.translate_posted ht) hconfig hpids
    have hrecorded : k.Evolves (fun _ => False)
        (({ x with kernel := k, cpu } : Context F).record e).kernel :=
      .adjusted (record_adjusted { x with kernel := k, cpu } e)
        (.of_same rfl rfl rfl rfl rfl) rfl rfl
    have hkernel : x.kernel.Evolves (fun _ => False) y.kernel :=
      htranslated.trans (hrecorded.trans (.adjusted hadj hposted hconfig' hpids'))
    refine .single (.works ?_ hkernel)
    unfold touchMemory at h
    dsimp only at h
    split at h
    · split at h <;> obtain ⟨-, rfl⟩ := Prod.mk.inj h <;> rfl
    · obtain ⟨-, rfl⟩ := Prod.mk.inj h
      rfl
  · cases hr

theorem accessPiece_steps {access : Access} {q : Piece} {attempts : Nat}
    {r : Except Halt (Except ExceptionCause Bytes)} (hx : x.kernel.Consistent)
    (h : accessPiece access q attempts x = (r, y)) : Steps x y := by
  induction attempts generalizing x with
  | zero =>
    unfold accessPiece at h
    cases ht : (x.note (.neverTranslated q.address x.process.pid)).terminate .busError with
    | mk r' z =>
      rw [ht] at h
      have hend := (steps_note x rfl rfl).trans (terminate_steps ht)
      split at h <;> rename_i heq <;> obtain ⟨-, rfl⟩ := Prod.mk.inj heq <;>
        obtain ⟨-, rfl⟩ := Prod.mk.inj h
      · exact hend
      · exact hend
  | succ n ih =>
    unfold accessPiece at h
    cases ht : x.kernel.translate x.cpu q.address access.writing with
    | mk r' rest =>
      obtain ⟨k, cpu⟩ := rest
      rw [ht] at h
      dsimp only at h
      cases r' with
      | ok a =>
        dsimp only at h
        split at h <;> rename_i htouch <;> obtain ⟨-, rfl⟩ := Prod.mk.inj h
        · exact touch_steps ht htouch
        · exact touch_steps ht htouch
      | error c =>
        dsimp only at h
        obtain ⟨hconfig, hpids, ⟨i, f, hr, -⟩ | ⟨c', -, -, hquiet, -⟩⟩ := Kernel.translate_spec ht
        · cases hr
        have hmissed : Steps x { x with kernel := k, cpu } :=
          .single (.works rfl (.quiet hquiet (Kernel.translate_posted ht) hconfig hpids))
        have hk := Steps.consistent hmissed hx
        split at h <;> rename_i htrap
        · obtain ⟨-, rfl⟩ := Prod.mk.inj h
          exact hmissed.trans (handleTrap_steps hk htrap)
        · have hsteps := hmissed.trans (handleTrap_steps hk htrap)
          exact hsteps.trans (ih (Steps.consistent hsteps hx) h)
        · obtain ⟨-, rfl⟩ := Prod.mk.inj h
          exact hmissed.trans (handleTrap_steps hk htrap)
        · obtain ⟨-, rfl⟩ := Prod.mk.inj h
          exact hmissed.trans (handleTrap_steps hk htrap)

theorem accessPieces_steps {access : Access} {qs : List Piece} {moved : Bytes}
    {r : Except Halt Accessed} (hx : x.kernel.Consistent)
    (h : accessPieces access qs moved x = (r, y)) : Steps x y := by
  induction qs generalizing x moved with
  | nil =>
    obtain ⟨-, rfl⟩ := Prod.mk.inj h
    exact .refl
  | cons q qs ih =>
    unfold accessPieces at h
    split at h <;> rename_i hpiece
    · obtain ⟨-, rfl⟩ := Prod.mk.inj h
      exact accessPiece_steps hx hpiece
    · obtain ⟨-, rfl⟩ := Prod.mk.inj h
      exact accessPiece_steps hx hpiece
    · have hsteps := accessPiece_steps hx hpiece
      exact hsteps.trans (ih (Steps.consistent hsteps hx) h)

/-- **A load or store is made of steps**, however it ends. -/
theorem userAccess_steps {address : VirtAddr} {count : Nat} {access : Access}
    {r : Except Halt Accessed} (hx : x.kernel.Consistent)
    (h : x.userAccess address count access = (r, y)) : Steps x y :=
  accessPieces_steps hx h

end Context

/-! ## Statuses -/

/-- The statuses that a request may record for a process. -/
def Request.records (i : ProcessNumber) {α : Type} : Request α → List Int
  | .exit j status => if j = i then [status] else []
  | .access j _ _ _ => if j = i then [Context.killedStatus] else []
  | .trap j _ => if j = i then [Context.killedStatus] else []
  | _ => []

theorem Kernel.exitCode_of_load {k k' : Kernel F} {tlb : TlbId} {image : Image}
    {args : List String} {strategy : Strategy} {p : Process}
    (h : k.load tlb image args strategy = (.ok p, k')) : p.exitCode = none := by
  cases loadsNext_of_load h with
  | loaded hargs hload =>
    cases loads_of_loadAs hload with
    | loaded hmake hcreate hprepare hwrite => rfl

namespace Machine

variable {m m' n : Machine F} {cpu : CpuNumber} {i : ProcessNumber} {p q : Process} {s : Int}
  {given : List Int}

omit [BackingFile F] in
/-- A processor that is gone leaves the processes alone, and their address spaces. -/
theorem processes_dropCpu (m : Machine F) (cpu : CpuNumber) :
    (m.dropCpu cpu).processes = m.processes := by
  unfold Machine.dropCpu
  split <;> rfl

omit [BackingFile F] in
theorem process?_dropCpu (m : Machine F) (cpu : CpuNumber) (i : ProcessNumber) :
    (m.dropCpu cpu).process? i = m.process? i := by
  rw [process?, processes_dropCpu, process?]

omit [BackingFile F] in
theorem spaces_dropCpu (m : Machine F) (cpu : CpuNumber) :
    (m.dropCpu cpu).kernel.core.spaces = m.kernel.core.spaces := by
  unfold Machine.dropCpu
  split <;> rfl

/-- The status of a process that is there and has exited. -/
def status? (m : Machine F) (i : ProcessNumber) : Option Int := (m.process? i).bind (·.exitCode)

/-- A process has the status that its number had, or one that was given just now.  It has lost its
address space then. -/
inductive Keeps (m m' : Machine F) (i : ProcessNumber) (q : Process) (given : List Int) : Prop
  | same (h : q.exitCode = m.status? i)
  | ended {status : Int} (hgiven : status ∈ given) (hstatus : q.exitCode = some status)
    (hgone : q.pid ∉ m'.kernel.core.spaces)

omit [BackingFile F] in
theorem keeps_of_same (h : m'.process? i = m.process? i) (hq : m'.process? i = some q) :
    Keeps m m' i q given :=
  .same (by rw [status?, ← h, hq]; rfl)

omit [BackingFile F] in
/-- What is done for a process leaves it its status, or ends it. -/
theorem keeps_of_within {α : Type} {j : ProcessNumber}
    {act : Context F → Except Halt α × Context F} {r : Except Halt (Option α)}
    (hact : j = i → ∀ c p r y, act ⟨m.kernel, c, p⟩ = (r, y) →
      y.process.exitCode = p.exitCode ∨ ∃ status ∈ given, y.EndedWith status)
    (h : m.within cpu j act = (r, m')) (hq : m'.process? i = some q) : Keeps m m' i q given := by
  rcases within_spec h with ⟨-, rfl⟩ | ⟨c, p, r', y, -, hp, hy, -, rfl⟩
  · exact keeps_of_same rfl hq
  · have hset : (m.setContext cpu j y).process? i =
        if i = j then some y.process else m.process? i := process?_setContext hp y
    by_cases hij : i = j
    · subst hij
      rw [if_pos rfl] at hset
      obtain rfl := Option.some.inj (hset.symm.trans hq)
      rcases hact rfl c p r' y hy with hsame | ⟨status, hgiven, hended⟩
      · exact .same (by rw [hsame, status?, hp]; rfl)
      · exact .ended hgiven hended.status hended.unregistered
    · exact keeps_of_same (hset.trans (if_neg hij)) hq

/-- **A status changes only if a request records one.** -/
theorem keeps_of_perform {α : Type} {request : Request α} {r : Except Halt (Option α)}
    (hm : m.kernel.Consistent) (h : m.perform cpu request = (r, m'))
    (hq : m'.process? i = some q) : Keeps m m' i q (request.records i) := by
  cases request with
  | load image args strategy =>
    simp only [perform] at h
    split at h
    · obtain ⟨-, rfl⟩ := Prod.mk.inj h
      exact keeps_of_same rfl hq
    · unfold load at h
      split at h <;> rename_i hload <;> obtain ⟨-, rfl⟩ := Prod.mk.inj h
      · exact keeps_of_same rfl hq
      · by_cases hi : i = m.processes.size
        · subst hi
          obtain rfl := Option.some.inj (((process?_push rfl).trans (if_pos rfl)).symm.trans hq)
          refine .same ((Kernel.exitCode_of_load hload).trans ?_)
          rw [status?, process?, Array.getElem?_eq_none (Nat.le_refl _)]
          rfl
        · exact keeps_of_same ((process?_push rfl).trans (if_neg hi)) hq
  | exit j status =>
    simp only [perform] at h
    refine keeps_of_within (fun hj c p r y hy => .inr ⟨status, ?_, ?_⟩) h hq
    · simp [Request.records, hj]
    obtain ⟨-, rfl⟩ := Prod.mk.inj hy
    exact Context.endedWith_of_exit (x := ⟨m.kernel, c, p⟩) hm rfl
  | drop j =>
    simp only [perform] at h
    split at h
    · obtain ⟨-, rfl⟩ := Prod.mk.inj h
      exact keeps_of_same rfl hq
    · rename_i p hp
      obtain ⟨-, rfl⟩ := Prod.mk.inj h
      have hset := process?_set (j := i) hp none
      by_cases hij : i = j
      · rw [if_pos hij] at hset
        cases hset.symm.trans hq
      · exact keeps_of_same (hset.trans (if_neg hij)) hq
  | switch previous next =>
    simp only [perform] at h
    split at h <;> rename_i hs <;> obtain ⟨-, rfl⟩ := Prod.mk.inj h
    · exact keeps_of_same rfl hq
    · obtain ⟨keep, hkeep⟩ := (process?_switch hs).2 i
      obtain ⟨p, hp, rfl⟩ := Option.map_eq_some_iff.1 (hkeep.symm.trans hq)
      exact .same (by rw [status?, hp]; rfl)
  | access j address count access =>
    refine keeps_of_within (fun hj c p r y hy => ?_) h hq
    refine ((Context.userAccess_steps hm hy).process_or_ended hm).imp (congrArg _) fun hended => ?_
    exact ⟨_, by simp [Request.records, hj], hended⟩
  | trap j code =>
    refine keeps_of_within (fun hj c p r y hy => ?_) h hq
    refine ((Context.handleTrap_steps hm hy).process_or_ended hm).imp (congrArg _) fun hended => ?_
    exact ⟨_, by simp [Request.records, hj], hended⟩
  | destroySpace pid =>
    obtain ⟨-, rfl⟩ := Prod.mk.inj h
    exact keeps_of_same rfl hq
  | read | write | readText | resolveMiss | accessPage =>
    simp only [perform] at h
    refine keeps_of_within (fun _ c p r y hy => .inl ?_) h hq
    obtain ⟨-, rfl⟩ := Prod.mk.inj hy
    rfl

/-- **A process that has exited has no address space.** -/
theorem Reached.parted (hm : Reached m) (hp : m.process? i = some p) (hexit : p.exitCode ≠ none) :
    p.pid ∉ m.kernel.core.spaces := by
  induction hm generalizing i p with
  | boot h => cases hp
  | addCpu _ _ ih => exact ih hp hexit
  | dropCpu _ cpu ih =>
    rw [process?_dropCpu] at hp
    rw [spaces_dropCpu]
    exact ih hp hexit
  | @perform m m' cpu α request r hm h ih =>
    cases keeps_of_perform hm.consistent h hp with
    | ended _ _ hgone => exact hgone
    | same hsame =>
      obtain ⟨q, hq, hcode⟩ := Option.bind_eq_some_iff.1
        (hsame.symm.trans (Option.some_get (Option.isSome_iff_ne_none.2 hexit)).symm)
      have hwas : q.exitCode ≠ none := by rw [hcode]; nofun
      obtain ⟨q', hq', hbecomes⟩ | ⟨hi, -⟩ := becomes_of_perform hm.consistent h hp
      · obtain rfl := Option.some.inj (hq.symm.trans hq')
        rw [hbecomes.pid]
        refine not_mem_spaces_of_perform hm (ih hq hwas) h fun j u hu hpid => ?_
        -- Whoever has the pid afterwards is this process, and that was there before.
        obtain rfl := (hm.perform h).named.distinct hu hp (hpid.trans hbecomes.pid.symm)
        rw [hq]
        nofun
      · exact absurd hi (Nat.ne_of_lt (lt_size_of_process? hq))

/-! ## After an exit -/

/-- What may happen to a machine, and the statuses that are recorded for a process meanwhile. -/
inductive Since (i : ProcessNumber) (m : Machine F) : List Int → Machine F → Prop
  | here : Since i m [] m
  | addCpu {given : List Int} {n : Machine F} (h : Since i m given n) (slots : Nat) :
    Since i m given (n.addCpu slots)
  | dropCpu {given : List Int} {n : Machine F} (h : Since i m given n) (cpu : CpuNumber) :
    Since i m given (n.dropCpu cpu)
  | perform {given : List Int} {n n' : Machine F} {cpu : CpuNumber} {α : Type}
    {request : Request α} {r : Except Halt (Option α)} (h : Since i m given n)
    (hp : n.perform cpu request = (r, n')) : Since i m (request.records i ++ given) n'

theorem Since.reached (h : Since i m given n) (hm : Reached m) : Reached n := by
  induction h with
  | here => exact hm
  | addCpu _ slots ih => exact ih.addCpu slots
  | dropCpu _ cpu ih => exact ih.dropCpu cpu
  | perform _ hp ih => exact ih.perform hp

/-- The exit status of a process that has exited. -/
structure Recorded (m : Machine F) (i : ProcessNumber) (p : Process) (s : Int) : Prop where
  /-- The process has no address space, and gets none as long as it is there. -/
  unregistered : ∀ {given n q}, Since i m given n → n.process? i = some q →
    q.pid = p.pid ∧ p.pid ∉ n.kernel.core.spaces
  /-- The status stays, unless another was recorded for the process. -/
  status : ∀ {given n q}, Since i m given n → n.process? i = some q →
    ∃ t ∈ s :: given, q.exitCode = some t
  /-- Another exit is refused, and the tables stay as they are, apart from those of the TLB.
  Nevertheless it puts its own status in the place of the first. -/
  replaced : ∀ {cpu c} (t : Int), m.cpu? cpu = some c → ∃ m' tlbs,
    m.perform cpu (.exit i t) = (.ok (some (.error (.noAddressSpace p.pid))), m') ∧
      m'.kernel.core = { m.kernel.core with tlbs } ∧ m'.kernel.swap = m.kernel.swap ∧
      m'.status? i = some t ∧ ∀ j, j ≠ i → m'.process? j = m.process? j

theorem Since.size_le (h : Since i m given n) : m.processes.size ≤ n.processes.size := by
  induction h with
  | here => exact Nat.le_refl _
  | addCpu _ _ ih => exact ih
  | dropCpu _ cpu ih =>
    rw [processes_dropCpu]
    exact ih
  | perform _ hp ih => exact ih.trans (size_processes_of_perform hp)

/-- As long as a process is there it is the same. -/
theorem Since.becomes (h : Since i m given n) (hm : Reached m) (hp : m.process? i = some p)
    (hq : n.process? i = some q) : p.Becomes q := by
  induction h generalizing q with
  | here =>
    obtain rfl := Option.some.inj (hp.symm.trans hq)
    exact .refl p
  | addCpu _ _ ih => exact ih hq
  | dropCpu _ cpu ih =>
    rw [process?_dropCpu] at hq
    exact ih hq
  | perform hn hperform ih =>
    obtain ⟨u, hu, hbecomes⟩ | ⟨hi, -⟩ :=
      becomes_of_perform (hn.reached hm).consistent hperform hq
    · exact (ih hu).trans hbecomes
    · exact absurd hi (Nat.ne_of_lt ((lt_size_of_process? hp).trans_le hn.size_le))

/-- **A status stays, unless another is recorded for the process.** -/
theorem Since.status (h : Since i m given n) (hm : Reached m) (hp : m.process? i = some p)
    (hs : p.exitCode = some s) (hq : n.process? i = some q) :
    ∃ t ∈ s :: given, q.exitCode = some t := by
  induction h generalizing q with
  | here =>
    obtain rfl := Option.some.inj (hp.symm.trans hq)
    exact ⟨s, List.mem_singleton.2 rfl, hs⟩
  | addCpu _ _ ih => exact ih hq
  | dropCpu _ cpu ih =>
    rw [process?_dropCpu] at hq
    exact ih hq
  | @perform given n n' cpu α request r hn hperform ih =>
    cases keeps_of_perform (hn.reached hm).consistent hperform hq with
    | ended hgiven hstatus _ =>
      exact ⟨_, List.mem_cons_of_mem _ (List.mem_append_left _ hgiven), hstatus⟩
    | same hsame =>
      obtain ⟨u, hu, -⟩ | ⟨hi, -⟩ := becomes_of_perform (hn.reached hm).consistent hperform hq
      · obtain ⟨t, ht, hcode⟩ := ih hu
        refine ⟨t, ?_, by rw [hsame, status?, hu, ← hcode]; rfl⟩
        exact (List.mem_cons.1 ht).elim (· ▸ List.mem_cons_self)
          fun ht => List.mem_cons_of_mem _ (List.mem_append_right _ ht)
      · exact absurd hi (Nat.ne_of_lt ((lt_size_of_process? hp).trans_le hn.size_le))

/-- **What becomes of an exit status.** -/
theorem recorded_of_reached (hm : Reached m) (hp : m.process? i = some p)
    (hs : p.exitCode = some s) : m.Recorded i p s where
  unregistered {given n q} hn hq := by
    have hbecomes := hn.becomes hm hp hq
    refine ⟨hbecomes.pid, ?_⟩
    rw [← hbecomes.pid]
    exact (hn.reached hm).parted hq (hbecomes.exited (by rw [hs]; nofun))
  status hn hq := hn.status hm hp hs hq
  replaced {cpu c} t hc := by
    have hgone := hm.parted hp (by rw [hs]; nofun)
    obtain ⟨y, tlbs, hexit, hcore, hswap⟩ :=
      Context.exit_of_not_mem (x := ⟨m.kernel, c, p⟩) t hm.consistent hgone
    have hprocess : ∀ j, (m.setContext cpu i y).process? j =
        if j = i then some y.process else m.process? j := fun _ => process?_setContext hp y
    refine ⟨m.setContext cpu i y, tlbs, ?_, hcore, hswap, ?_, fun j hj => ?_⟩
    · simp only [perform, within_eq hc hp, hexit]
      rfl
    · rw [status?, hprocess, if_pos rfl]
      exact Context.exitCode_of_exit hexit
    · exact (hprocess j).trans (if_neg hj)

set_option maxRecDepth 100000 in
/-- A process has exited with status 3. -/
theorem recorded_after_exit : ∃ (m : Machine MemoryFile) (p : Process), m.Recorded 0 p 3 := by
  have hboot : Kernel.boot (.withFrames 1 1) [] (some ({} : MemoryFile)) = (.ok _, _) := rfl
  have hended : ∃ m : Machine MemoryFile, Reached m ∧ m.status? 0 = some 3 :=
    ⟨_, (((Reached.boot hboot).addCpu 1).after 0
      (.load (.assembled { entry := 0 }) [] .demand)).after 0 (.exit 0 3), by decide_cbv⟩
  obtain ⟨m, hm, hstatus⟩ := hended
  obtain ⟨p, hp, hs⟩ := Option.bind_eq_some_iff.1 hstatus
  exact ⟨m, p, recorded_of_reached hm hp hs⟩

set_option maxRecDepth 100000 in
/-- **A status is not final.**  A process that has exited with status 3 is ended again, with status
5.  That is refused, and its status is 5. -/
theorem status_replaced : ∃ m m' : Machine MemoryFile, Reached m ∧ m.status? 0 = some 3 ∧
    m.perform 0 (.exit 0 5) = (.ok (some (.error (.noAddressSpace 0))), m') ∧
      m'.status? 0 = some 5 := by
  have hboot : Kernel.boot (.withFrames 1 1) [] (some ({} : MemoryFile)) = (.ok _, _) := rfl
  have hended := (((Reached.boot hboot).addCpu 1).after 0
    (.load (.assembled { entry := 0 }) [] .demand)).after 0 (.exit 0 3)
  exact ⟨_, _, hended, by decide_cbv, Prod.ext (by decide_cbv) rfl, by decide_cbv⟩

end Machine

end DemandPaging
