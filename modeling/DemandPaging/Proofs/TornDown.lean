import DemandPaging.Proofs.LoadUndone

/-!
# Address spaces that are taken away

When a process loses its address space, all tables forget it, its frames are free, and no TLB leads
to them.  Nobody else notices.  The process is unknown from then on, until its pid is given to
another one.

* `Paging.TornDown` — what the tables say afterwards.
* `Paging.Gone.tornDown` — a process that is gone is torn down.
* `Machine.Without` — what may happen while no process of a pid is loaded.
* `Machine.TearsDown`, `Machine.tearsDown_of_reached` — the two ways to lose an address space, at
  any time.
-/

namespace DemandPaging

namespace Paging

variable {F : Type} {s m t : Paging F} {pid : Pid} {id : TlbId} {cleared : Option TlbId}

/-! ## The tables afterwards -/

/-- A process has lost its address space and all that it had in it, and others have kept theirs.
One TLB may have been `cleared` of all that it held. -/
structure TornDown (s t : Paging F) (pid : Pid) (cleared : Option TlbId) : Prop where
  entry : ∀ key, t.entry key = if key.pid = pid then none else s.entry key
  owner : ∀ f, t.owner f = (s.owner f).filter (·.key.pid ≠ pid)
  stored : ∀ key : PageKey,
    t.swap.slots[key]? = if key.pid = pid then none else s.swap.slots[key]?
  spaces : ∀ q : Pid, t.core.spaces[q]? = if q = pid then none else s.core.spaces[q]?
  /-- No TLB maps a frame that the process had. -/
  unmapped : ∀ {f key}, s.holder f = some key → key.pid = pid →
    ∀ id i, (t.slot id i).maps f = false
  /-- As many frames are free as the process had resident pages. -/
  freeCount : t.core.frames.freeCount = s.core.frames.freeCount + s.core.residentOf pid
  frame : ∀ f, t.frame f = s.frame f
  file : t.swap.file = s.swap.file
  /-- The slots of TLBs that map frames of others are as they were. -/
  kept : ∀ {f key id i}, s.holder f = some key → key.pid ≠ pid → cleared ≠ some id →
    (s.slot id i).maps f = true ∨ (t.slot id i).maps f = true → t.slot id i = s.slot id i

/-- A process that loses all its entries leaves as many frames free as it had entries. -/
theorem freeCount_of_entry (hs : s.Agrees) (ht : t.Agrees)
    (hframes : t.core.frames.size = s.core.frames.size)
    (h : ∀ key, t.entry key = if key.pid = pid then none else s.entry key) :
    t.core.frames.freeCount = s.core.frames.freeCount + s.core.residentOf pid := by
  have hperm : t.core.table.keys.Perm (s.core.table.keys.filter fun key => !(key.pid == pid)) := by
    refine (List.perm_ext_iff_of_nodup Std.ExtTreeMap.nodup_keys
      (Std.ExtTreeMap.nodup_keys.filter _)).2 fun key => ?_
    have hkey : t.core.table[key]? = if key.pid = pid then none else s.core.table[key]? := h key
    rw [List.mem_filter, Std.ExtTreeMap.mem_keys, Std.ExtTreeMap.mem_keys,
      Std.ExtTreeMap.mem_iff_isSome_getElem?, Std.ExtTreeMap.mem_iff_isSome_getElem?, hkey]
    by_cases hpid : key.pid = pid <;> simp [hpid]
  have hlength := hperm.length_eq
  have hsplit := s.core.table.keys.length_eq_length_filter_add (·.pid == pid)
  rw [Std.ExtTreeMap.length_keys] at hlength hsplit
  have hfree := hs.size_table_add_freeCount
  have hfree' := ht.size_table_add_freeCount
  rw [CoreMap.residentOf, PageMap.keysOf]
  omega

/-- **A process that is gone is torn down.** -/
theorem Gone.tornDown (h : Gone s t pid) (hs : s.Agrees) (ht : t.Agrees) :
    TornDown s t pid none := by
  have hentry : ∀ key, t.entry key = if key.pid = pid then none else s.entry key := by
    intro key
    by_cases hkey : key.pid = pid
    · rw [if_pos hkey, h.absent key hkey]
    · rw [if_neg hkey]
      exact (h.entry key).resolve_right fun hgone => hkey hgone.1
  -- Owners have entries, so the process owns nothing any more.
  have howned : ∀ {f o}, t.owner f = some o → o.key.pid ≠ pid := by
    intro f o ho hpid
    obtain ⟨e, he, -⟩ := ht.owned (holder_eq_some.2 ⟨o, ho, rfl⟩)
    rw [h.absent _ hpid] at he
    cases he
  refine
    { entry := hentry
      owner := fun f => ?_
      stored := h.swap.slots
      spaces := h.spaces
      unmapped := fun {f key} hf hkey id i => ?_
      freeCount := freeCount_of_entry hs ht h.frames hentry
      frame := h.frame
      file := h.swap.file
      kept := fun {f key id i} hf hkey _ hm => ?_ }
  · rcases h.owner f with hsame | ⟨hnone, o, ho, hpid⟩
    · rw [hsame]
      cases ho : s.owner f with
      | none => rfl
      | some o =>
        have hne := howned (hsame.trans ho)
        simp [Option.filter, hne]
    · simp [Option.filter, hnone, ho, hpid]
  · by_contra hm
    rw [Bool.not_eq_false] at hm
    obtain ⟨-, key', hkey', -⟩ := ht.mirror hm
    obtain ⟨o, ho, rfl⟩ := holder_eq_some.1 hkey'
    obtain ⟨p, hp, rfl⟩ := holder_eq_some.1 hf
    rcases h.owner f with hsame | ⟨hnone, -⟩
    · rw [hsame, hp] at ho
      obtain rfl := Option.some.inj ho
      exact howned (hsame.trans hp) hkey
    · rw [hnone] at ho
      cases ho
  · rcases hm with hm | hm
    · rcases h.kept (Translation.valid_of_maps hm) with hsame | ⟨key', e, g, hkey', he, heg, hg⟩
      · exact hsame
      · obtain rfl := Translation.maps_unique hg hm
        have hheld := hs.holder_of_maps he heg
        rw [hf] at hheld
        exact absurd (Option.some.inj hheld ▸ hkey') hkey
    · exact h.slot (Translation.valid_of_maps hm)

/-- The TLB of the processor may have been cleared before. -/
theorem Cleared.tornDown (h : Cleared s m id) (h' : Gone m t pid) (hs : s.Agrees)
    (ht : t.Agrees) : TornDown s t pid (some id) := by
  have hframes := h'.frames.trans h.frames
  replace h' := h'.tornDown (h.adjusted.agrees hs) ht
  have hentry : ∀ key, t.entry key = if key.pid = pid then none else s.entry key := fun key => by
    rw [h'.entry, h.entry]
  have hholder : ∀ f, m.holder f = s.holder f := fun f => by rw [holder, holder, h.owner]
  refine
    { entry := hentry
      owner := fun f => by rw [h'.owner, h.owner]
      stored := fun key => by rw [h'.stored, h.swap]
      spaces := fun q => by rw [h'.spaces, h.spaces]
      unmapped := fun {f key} hf => h'.unmapped ((hholder f).trans hf)
      freeCount := freeCount_of_entry hs ht hframes hentry
      frame := fun f => (h'.frame f).trans (h.frame f)
      file := h'.file.trans (congrArg _ h.swap)
      kept := fun {f key j i} hf hkey hj hm => ?_ }
  · have hne : j ≠ id := fun heq => hj (congrArg some heq.symm)
    have hslot : m.slot j i = s.slot j i := (h.slot j i).trans (if_neg hne)
    rw [← hslot] at hm ⊢
    exact h'.kept ((hholder f).trans hf) hkey (fun heq => by cases heq) hm

/-! ## Unknown processes -/

/-- Nothing is to be found of the pages of a process. -/
def Forgotten [BackingFile F] (pid : Pid) (s : Paging F) : Prop :=
  ∀ (space : AddressSpace) (p : PageNumber), space.pid = pid →
    (∀ tlb retries, s.resolve tlb retries space p = (.error (.noAddressSpace pid), s)) ∧
      s.lookupResident space p = .error (.noAddressSpace pid)

theorem forgotten_of_not_mem [BackingFile F] (hpid : pid ∉ s.core.spaces) :
    s.Forgotten pid := by
  rintro space p rfl
  have hnone : s.core.spaces[space.pid]? = none := Std.ExtTreeMap.getElem?_eq_none hpid
  have hcheck : s.checkRange space.pid p = .error (.noAddressSpace space.pid) := by
    rw [checkRange, CoreMap.pageCount, hnone]
  exact ⟨fun tlb retries => by rw [resolve, hcheck], by rw [lookupResident, hcheck]⟩

end Paging

open Paging

variable {F : Type}

/-! ## The end of a process -/

namespace Kernel

variable {k k' : Kernel F} {pid : Pid}

/-- **An address space that exists can be taken away.** -/
theorem destroySpace_of_mem (hk : k.Agrees) (hpid : pid ∈ k.core.spaces) :
    ∃ k', k.destroySpace pid = (.ok (), k') ∧ Destroyed k.toPaging k'.toPaging pid := by
  obtain ⟨-, -, ⟨hr, hdes⟩ | ⟨-, hnot, -⟩⟩ := destroySpace_spec hk (Prod.eta (k.destroySpace pid)).symm
  · exact ⟨_, Prod.ext hr rfl, hdes⟩
  · exact absurd hpid hnot

theorem destroySpace_of_not_mem (hk : k.Agrees) (hpid : pid ∉ k.core.spaces) :
    k.destroySpace pid = (.error (.error (.noAddressSpace pid)), k) := by
  obtain ⟨-, -, ⟨-, hdes⟩ | ⟨hr, -, hsame⟩⟩ :=
    destroySpace_spec hk (Prod.eta (k.destroySpace pid)).symm
  · obtain ⟨hreg, -⟩ := hdes
    exact absurd hreg hpid
  · exact Prod.ext hr hsame

/-- A program is loaded with the next pid. -/
theorem pid_of_load [BackingFile F] {tlb : TlbId} {image : Image} {args : List String}
    {strategy : Strategy} {p : Process} (h : k.load tlb image args strategy = (.ok p, k')) :
    p.pid = k.pids.alloc.1 := by
  cases loadsNext_of_load h with
  | loaded hargs hload =>
    cases loads_of_loadAs hload with
    | loaded hmake hcreate hprepare hwrite => exact space_pid_of_make hmake

end Kernel

namespace Context

variable {x y : Context F}

/-- **A process that has an address space can be ended.** -/
theorem exit_of_mem (status : Int) (hx : x.kernel.Consistent)
    (hpid : x.process.pid ∈ x.kernel.core.spaces) :
    ∃ y, x.exit status = (.ok (), y) ∧ y.kernel.Consistent ∧
      Gone x.unschedule.kernel.toPaging y.kernel.toPaging x.process.pid := by
  have hadj := unschedule_adjusted x
  have hc := hadj.consistent hx
  have hprocess : x.unschedule.process = x.process := by
    unfold unschedule
    split <;> rfl
  obtain ⟨k, hd, hdes⟩ := Kernel.destroySpace_of_mem hc.toAgrees (hadj.spaces.symm ▸ hpid)
  have hquiet := quiet_note k.toPaging (.processExited x.process.pid status)
  unfold exit
  dsimp only
  rw [hprocess, hd]
  exact ⟨_, rfl, hquiet.consistent (hdes.consistent hc), (hdes.gone hc.toAgrees).quiet hquiet⟩

/-- The TLB of its processor is cleared if it runs there. -/
theorem tornDown_of_exit (hx : x.kernel.Consistent) (hy : y.kernel.Consistent)
    (h : Gone x.unschedule.kernel.toPaging y.kernel.toPaging x.process.pid) :
    TornDown x.kernel.toPaging y.kernel.toPaging x.process.pid
      (if x.cpu.running = some x.process.pid then some x.cpu.tlb else none) := by
  rcases unschedule_spec x with ⟨hrunning, hcleared, -⟩ | ⟨hrunning, hsame⟩
  · rw [if_pos hrunning]
    exact hcleared.tornDown h hx.toAgrees hy.toAgrees
  · rw [if_neg hrunning]
    rw [hsame] at h
    exact h.tornDown hx.toAgrees hy.toAgrees

/-- If nobody else has pages in that TLB, nobody notices. -/
theorem tornDown_of_coherent {seat : TlbId → Option Pid} (hx : x.kernel.Consistent)
    (hy : y.kernel.Consistent)
    (h : Gone x.unschedule.kernel.toPaging y.kernel.toPaging x.process.pid)
    (hc : x.kernel.Coherent seat) (hseat : x.cpu.running = some x.process.pid →
      ∀ p, seat x.cpu.tlb = some p → p = x.process.pid) :
    TornDown x.kernel.toPaging y.kernel.toPaging x.process.pid none := by
  refine Gone.tornDown ?_ hx.toAgrees hy.toAgrees
  rcases unschedule_spec x with ⟨hrunning, hcleared, -⟩ | ⟨-, hsame⟩
  · exact (hcleared.lost hc hx.toAgrees (hseat hrunning)).gone hcleared.swap hcleared.spaces h
  · rwa [hsame] at h

/-- A process that has no address space cannot be ended, but it leaves its processor. -/
theorem exit_of_not_mem (status : Int) (hx : x.kernel.Consistent)
    (hpid : x.process.pid ∉ x.kernel.core.spaces) :
    ∃ y tlbs, x.exit status = (.error (.error (.noAddressSpace x.process.pid)), y) ∧
      y.kernel.core = { x.kernel.core with tlbs } ∧ y.kernel.swap = x.kernel.swap := by
  have hadj := unschedule_adjusted x
  have hprocess : x.unschedule.process = x.process := by
    unfold unschedule
    split <;> rfl
  have hd := Kernel.destroySpace_of_not_mem (hadj.agrees hx.toAgrees) (hadj.spaces.symm ▸ hpid)
  have hcore : ∃ tlbs, x.unschedule.kernel.core = { x.kernel.core with tlbs } := by
    unfold unschedule
    split <;> exact ⟨_, rfl⟩
  obtain ⟨tlbs, htlbs⟩ := hcore
  unfold exit
  dsimp only
  rw [hprocess, hd]
  exact ⟨_, tlbs, rfl, htlbs, hadj.swap⟩

end Context

namespace Machine

variable [BackingFile F] {m n : Machine F} {cpu : CpuNumber} {pid : Pid}

/-! ## Until the pid is given again -/

/-- What may happen to a machine, while no process with a certain pid is loaded. -/
inductive Without (pid : Pid) (m : Machine F) : Machine F → Prop
  | here : Without pid m m
  | addCpu {n : Machine F} (h : Without pid m n) (slots : Nat) : Without pid m (n.addCpu slots)
  | dropCpu {n : Machine F} (h : Without pid m n) (cpu : CpuNumber) : Without pid m (n.dropCpu cpu)
  | perform {n n' : Machine F} {cpu : CpuNumber} {α : Type} {request : Request α}
    {r : Except Halt (Option α)} (h : Without pid m n) (hp : n.perform cpu request = (r, n'))
    (hold : ∀ i p, n'.process? i = some p → p.pid = pid → n.process? i ≠ none) : Without pid m n'

theorem Without.reached (h : Without pid m n) (hm : Reached m) : Reached n := by
  induction h with
  | here => exact hm
  | addCpu _ slots ih => exact ih.addCpu slots
  | dropCpu _ cpu ih => exact ih.dropCpu cpu
  | perform _ hp _ ih => exact ih.perform hp

/-- Only a load gives a process an address space, and then the process is new. -/
theorem not_mem_spaces_of_perform {m' : Machine F} {α : Type} {request : Request α}
    {r : Except Halt (Option α)} (hm : Reached m) (hpid : pid ∉ m.kernel.core.spaces)
    (h : m.perform cpu request = (r, m'))
    (hold : ∀ i p, m'.process? i = some p → p.pid = pid → m.process? i ≠ none) :
    pid ∉ m'.kernel.core.spaces := by
  have hchanges := (perform_evolves hm.consistent h).changes
  by_cases hmay : m.fates m' request (.gains pid)
  · cases request with
    | load image args strategy =>
      obtain rfl : pid = m.kernel.pids.alloc.1 := by
        rcases hmay with heq | heq | ⟨-, heq⟩ | heq <;> cases heq
        rfl
      simp only [Machine.perform] at h
      split at h
      · obtain ⟨-, rfl⟩ := Prod.mk.inj h
        exact hpid
      · unfold Machine.load at h
        split at h <;> rename_i hload <;> obtain ⟨-, rfl⟩ := Prod.mk.inj h
        · have hundone := (Kernel.load_undone hm.consistent hm.sound_pids hload).2
          exact hundone.spaces ▸ hpid
        · refine absurd ?_ (hold m.processes.size _ ?_ (Kernel.pid_of_load hload))
          · rw [process?, Array.getElem?_eq_none (Nat.le_refl _)]
            rfl
          · rw [process?, Array.getElem?_push_size]
            rfl
    | exit | access | trap =>
      obtain ⟨p, q, -, -, -, heq⟩ := hmay
      cases heq
    | destroySpace => cases hmay
    | drop =>
      obtain ⟨p, -, -, heq⟩ := hmay
      cases heq
    | switch | read | write | readText | resolveMiss | accessPage => exact hmay.elim
  · exact hchanges.not_mem_spaces hmay hpid

/-- **A process without an address space gets none** before a process with its pid is loaded. -/
theorem Without.not_mem_spaces (h : Without pid m n) (hm : Reached m)
    (hpid : pid ∉ m.kernel.core.spaces) : pid ∉ n.kernel.core.spaces := by
  induction h with
  | here => exact hpid
  | addCpu _ _ ih => exact ih
  | dropCpu _ cpu ih =>
    unfold Machine.dropCpu
    split
    · exact ih
    · exact ih
  | perform hn hp hold ih => exact not_mem_spaces_of_perform (hn.reached hm) ih hp hold

/-! ## Both ways to lose an address space -/

/-- What comes of taking the address space of a process away, or of ending the process. -/
structure TearsDown (m : Machine F) (cpu : CpuNumber) (pid : Pid) : Prop where
  /-- An address space that exists is taken away, and the process is unknown until its pid is given
  to another. -/
  destroyed : pid ∈ m.kernel.core.spaces → ∃ m',
    m.perform cpu (.destroySpace pid) = (.ok (some (.ok ())), m') ∧
      TornDown m.kernel.toPaging m'.kernel.toPaging pid none ∧
      ∀ n, Without pid m' n → n.kernel.Forgotten pid
  /-- One that does not exist cannot be taken away, and nothing changes. -/
  refused : pid ∉ m.kernel.core.spaces →
    m.perform cpu (.destroySpace pid) = (.ok (some (.error (.noAddressSpace pid))), m)
  /-- A process that has an address space is ended with the same effect.  If it runs on the
  processor the TLB there is cleared; nobody else has pages in it if the machine was used as it
  should be. -/
  exited : ∀ {c : Processor} {i : ProcessNumber} {p : Process} (status : Int),
    m.cpu? cpu = some c → m.process? i = some p → p.pid = pid → pid ∈ m.kernel.core.spaces →
    ∃ m', m.perform cpu (.exit i status) = (.ok (some (.ok ())), m') ∧
      TornDown m.kernel.toPaging m'.kernel.toPaging pid
        (if c.running = some pid then some c.tlb else none) ∧
      (∀ file a, Orderly file m a → TornDown m.kernel.toPaging m'.kernel.toPaging pid none) ∧
      ∀ n, Without pid m' n → n.kernel.Forgotten pid
  /-- One that has none is refused, and at most the TLB is cleared. -/
  exit_refused : ∀ {c : Processor} {i : ProcessNumber} {p : Process} (status : Int),
    m.cpu? cpu = some c → m.process? i = some p → p.pid = pid → pid ∉ m.kernel.core.spaces →
    ∃ m' tlbs, m.perform cpu (.exit i status) = (.ok (some (.error (.noAddressSpace pid))), m') ∧
      m'.kernel.core = { m.kernel.core with tlbs } ∧ m'.kernel.swap = m.kernel.swap

/-- A process that is torn down is forgotten until its pid is given to another. -/
theorem forgotten_of_tornDown {m' : Machine F} {cleared : Option TlbId} (hm' : Reached m')
    (h : TornDown m.kernel.toPaging m'.kernel.toPaging pid cleared) (hn : Without pid m' n) :
    n.kernel.Forgotten pid := by
  refine forgotten_of_not_mem (hn.not_mem_spaces hm' fun hmem => ?_)
  rw [Std.ExtTreeMap.mem_iff_isSome_getElem?, h.spaces, if_pos rfl] at hmem
  cases hmem

/-- **An address space can always be taken away, with all that is in it and nothing else.** -/
theorem tearsDown_of_reached (hm : Reached m) (cpu : CpuNumber) (pid : Pid) :
    m.TearsDown cpu pid where
  destroyed hpid := by
    obtain ⟨k, hd, hdes⟩ := Kernel.destroySpace_of_mem hm.consistent.toAgrees hpid
    have hperform : m.perform cpu (.destroySpace pid) = (.ok (some (.ok ())), m.setKernel k) := by
      simp only [perform, hd]
      rfl
    have htorn : TornDown m.kernel.toPaging k.toPaging pid none :=
      (hdes.gone hm.consistent.toAgrees).tornDown hm.consistent.toAgrees
        (hdes.agrees hm.consistent.toAgrees)
    exact ⟨_, hperform, htorn, fun n hn => forgotten_of_tornDown (hm.perform hperform) htorn hn⟩
  refused hpid := by
    simp only [perform, Kernel.destroySpace_of_not_mem hm.consistent.toAgrees hpid]
    rfl
  exited {c i p} status hc hp hpp hpid := by
    subst hpp
    obtain ⟨y, hexit, hy, hgone⟩ :=
      Context.exit_of_mem (x := ⟨m.kernel, c, p⟩) status hm.consistent hpid
    have hperform : m.perform cpu (.exit i status) = (.ok (some (.ok ())), m.setContext cpu i y) := by
      simp only [perform, within_eq hc hp, hexit]
      rfl
    have htorn := Context.tornDown_of_exit (x := ⟨m.kernel, c, p⟩) hm.consistent hy hgone
    refine ⟨_, hperform, htorn, fun file a horderly => ?_,
      fun n hn => forgotten_of_tornDown (hm.perform hperform) htorn hn⟩
    have hview : ∀ w : FileView F, none = some w → w.good file := fun w hw => by cases hw
    obtain ⟨tenants, seat, horder⟩ := horderly.inOrder hview
    exact Context.tornDown_of_coherent (x := ⟨m.kernel, c, p⟩) hm.consistent hy hgone
      horder.kernel.coherent fun hrunning => horder.seat_of_running hc hrunning
  exit_refused {c i p} status hc hp hpp hpid := by
    subst hpp
    obtain ⟨y, tlbs, hexit, hcore, hswap⟩ :=
      Context.exit_of_not_mem (x := ⟨m.kernel, c, p⟩) status hm.consistent hpid
    refine ⟨m.setContext cpu i y, tlbs, ?_, hcore, hswap⟩
    simp only [perform, within_eq hc hp, hexit]
    rfl

set_option maxRecDepth 100000 in
/-- A process that has its arguments in the only frame of a machine loses its address space. -/
theorem tearsDown_of_arguments :
    ∃ m m' : Machine MemoryFile, m.perform 0 (.destroySpace 0) = (.ok (some (.ok ())), m') ∧
      m.kernel.core.residentOf 0 = 1 ∧
      TornDown m.kernel.toPaging m'.kernel.toPaging 0 none ∧
      ∀ n, Without 0 m' n → n.kernel.Forgotten 0 := by
  have hboot : Kernel.boot (.withFrames 1 1) [] (some ({} : MemoryFile)) = (.ok _, _) := rfl
  have hloaded := ((Reached.boot hboot).addCpu 1).after 0
    (.load (.assembled { entry := 0 }) ["a"] .demand)
  obtain ⟨m', hperform, htorn, hforgotten⟩ :=
    (tearsDown_of_reached hloaded 0 0).destroyed (by decide_cbv)
  exact ⟨_, m', hperform, by decide_cbv, htorn, hforgotten⟩

end Machine

end DemandPaging
