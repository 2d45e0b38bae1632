import DemandPaging.Proofs.Exits
import DemandPaging.Proofs.Reload

/-!
# Pids that are used again

A process gives its address space back when it exits, and its pid when it is dropped.  If it is
dropped before it has exited it is lost: its pid is used again, but its address space stays for
good, and whenever its pid is next no program can be loaded.  Apart from that, nothing but pages
that others have for good can keep a program from being loaded again.

* `Machine.orphans`, `Machine.Turnover` — processes come and go, and some are lost.
* `Machine.Tenanted` — whose the address spaces are; `Machine.Tenanted.perform` for one request.
* `Machine.inOrder_of_turns`, `Machine.Turnover.inOrder` — the kernel is in order all the time.
* `Machine.Reusable`, `Machine.reusable_of_turnover` — which pid is given next, and what can be
  loaded.
* `Machine.reuse_refused` — two runs on which a program cannot be loaded again.
-/

namespace DemandPaging

open Paging

variable {F : Type} [BackingFile F]

/-- Does the request load, end or drop a process? -/
def Request.turns {α : Type} : Request α → Prop
  | .load .. | .exit .. | .drop .. => True
  | _ => False

namespace Machine

variable {m m' n : Machine F} {cpu : CpuNumber} {i : ProcessNumber} {p q : Process} {pid : Pid}
  {lost : List Pid}

/-! ## Address spaces -/

/-- The pid of a process that a request drops before it has exited. -/
def orphans (m : Machine F) {α : Type} : Request α → List Pid
  | .drop i => ((m.process? i).filter (·.exitCode.isNone)).toList.map (·.pid)
  | _ => []

/-- Whose the address spaces are: each is that of a process that has not exited, or it was lost when
a process was dropped. -/
structure Tenanted (lost : List Pid) (m : Machine F) : Prop where
  tenant : ∀ pid ∈ m.kernel.core.spaces,
    (∃ i p, m.process? i = some p ∧ p.exitCode = none ∧ p.pid = pid) ∨ pid ∈ lost
  /-- Who has not exited has an address space. -/
  housed : ∀ {i p}, m.process? i = some p → p.exitCode = none → p.pid ∈ m.kernel.core.spaces
  /-- What was lost stays, and nobody has a pid that was lost. -/
  registered : ∀ pid ∈ lost, pid ∈ m.kernel.core.spaces
  nobody : ∀ {i p}, m.process? i = some p → p.pid ∉ lost

/-- A process only goes when it is dropped. -/
theorem mem_orphans_of_perform {α : Type} {request : Request α} {r : Except Halt (Option α)}
    (h : m.perform cpu request = (r, m')) (hp : m.process? i = some p) (hlive : p.exitCode = none)
    (hnone : m'.process? i = none) : p.pid ∈ m.orphans request := by
  have hstays : m'.process? i = m.process? i → p.pid ∈ m.orphans request := fun heq => by
    rw [heq, hp] at hnone
    cases hnone
  have hwithin : ∀ {β : Type} {j : ProcessNumber} {act : Context F → Except Halt β × Context F}
      {r : Except Halt (Option β)}, m.within cpu j act = (r, m') → p.pid ∈ m.orphans request := by
    intro β j act r h
    obtain ⟨-, rfl⟩ | ⟨c, p', r', y, -, hp', -, -, rfl⟩ := within_spec h
    · exact hstays rfl
    · rw [process?_setContext hp'] at hnone
      split at hnone
      · cases hnone
      · rw [hp] at hnone
        cases hnone
  cases request with
  | load image args strategy =>
    simp only [perform] at h
    split at h
    · obtain ⟨-, rfl⟩ := Prod.mk.inj h
      exact hstays rfl
    · unfold load at h
      split at h <;> obtain ⟨-, rfl⟩ := Prod.mk.inj h
      · exact hstays rfl
      · exact hstays ((process?_push rfl).trans (if_neg (Nat.ne_of_lt (lt_size_of_process? hp))))
  | drop j =>
    simp only [perform] at h
    split at h <;> rename_i hj <;> obtain ⟨-, rfl⟩ := Prod.mk.inj h
    · exact hstays rfl
    · by_cases hij : i = j
      · subst hij
        simp [orphans, hp, hlive]
      · exact hstays ((process?_set hj none).trans (if_neg hij))
  | switch previous next =>
    simp only [perform] at h
    split at h <;> rename_i hs <;> obtain ⟨-, rfl⟩ := Prod.mk.inj h
    · exact hstays rfl
    · obtain ⟨keep, hkeep⟩ := (process?_switch hs).2 i
      rw [hkeep, hp] at hnone
      cases hnone
  | destroySpace pid =>
    obtain ⟨-, rfl⟩ := Prod.mk.inj h
    exact hstays rfl
  | exit | access | read | write | readText | resolveMiss | accessPage | trap =>
    simp only [perform] at h
    exact hwithin h

/-- A process that was just loaded has an address space, which nobody had before. -/
theorem registered_of_loaded {k k' : Kernel F} {tlb : TlbId} {image : Image} {strategy : Strategy}
    (h : k.Loaded k' tlb pid image strategy p) (hk : k.Consistent) :
    p.pid ∉ k.core.spaces ∧ p.pid ∈ k'.core.spaces := by
  obtain ⟨u, w, hreg, -, -, hprepare, hrest⟩ := h.stages
  have hspace := Kernel.space_pid_of_make h.space
  have hnew : u.New p.space := Kernel.new_of_registered hk (hspace.symm ▸ hreg)
  obtain ⟨hserves, -⟩ := Kernel.prepare_serves (hreg.consistent hk).toAgrees hnew hprepare
  refine ⟨hreg.not_mem, hrest.changes.mem_spaces id ?_⟩
  rw [hserves.spaces, hreg.spaces]
  exact Std.ExtTreeMap.mem_insert_self

/-- An address space stays until its process is ended. -/
theorem mem_spaces_of_turns {α : Type} {request : Request α} {r : Except Halt (Option α)}
    (hm : Reached m) (hturns : request.turns) (h : m.perform cpu request = (r, m'))
    (hpid : pid ∈ m.kernel.core.spaces)
    (hlive : ∀ {i p q}, m.process? i = some p → m'.process? i = some q → p.pid = pid →
      q.exitCode = none) : pid ∈ m'.kernel.core.spaces := by
  have hchanges := (perform_evolves hm.consistent h).changes
  cases request with
  | load image args strategy =>
    by_cases hnext : pid = m.kernel.pids.alloc.1
    · subst hnext
      simp only [perform] at h
      split at h
      · obtain ⟨-, rfl⟩ := Prod.mk.inj h
        exact hpid
      · unfold load at h
        split at h <;> rename_i hload <;> obtain ⟨-, rfl⟩ := Prod.mk.inj h
        · exact (Kernel.load_undone hm.consistent hm.sound_pids hload).2.spaces ▸ hpid
        · have hloaded := Kernel.loaded_of_load hm.consistent hload
          exact absurd (hloaded.pid ▸ hpid) (registered_of_loaded hloaded hm.consistent).1
    · refine hchanges.mem_spaces (fun hloses => ?_) hpid
      rcases hloses with heq | heq | ⟨-, heq⟩ | heq <;> cases heq
      exact hnext rfl
  | exit i status =>
    refine hchanges.mem_spaces (fun hloses => ?_) hpid
    obtain ⟨p, q, hp, hq, hexit, heq⟩ := hloses
    exact hexit (hlive hp hq (Fate.loses.inj heq).symm)
  | drop i =>
    refine hchanges.mem_spaces (fun hloses => ?_) hpid
    obtain ⟨p, -, -, heq⟩ := hloses
    cases heq
  | switch | access | read | write | readText | resolveMiss | accessPage | trap | destroySpace =>
    cases hturns

/-- Who was lost was there until then, and is gone. -/
theorem exists_of_mem_orphans {α : Type} {request : Request α} {r : Except Halt (Option α)}
    (h : m.perform cpu request = (r, m')) (hpid : pid ∈ m.orphans request) :
    ∃ i p, m.process? i = some p ∧ p.exitCode = none ∧ p.pid = pid ∧ m'.process? i = none := by
  cases request with
  | drop i =>
    simp only [orphans, List.mem_map, Option.mem_toList,
      Option.filter_eq_some_iff, Option.isNone_iff_eq_none] at hpid
    obtain ⟨p, ⟨hp, hlive⟩, rfl⟩ := hpid
    simp only [perform, hp] at h
    obtain ⟨-, rfl⟩ := Prod.mk.inj h
    refine ⟨i, p, hp, hlive, rfl, ?_⟩
    exact (process?_set hp none).trans (if_pos rfl)
  | load | exit | switch | access | read | write | readText | resolveMiss | accessPage | trap |
    destroySpace => cases hpid

namespace Tenanted

variable {α : Type} {request : Request α} {r : Except Halt (Option α)}

/-- Every address space has a process that has not exited, or it was lost. -/
theorem tenant_or_lost (htenanted : Tenanted lost m) (hm : Reached m)
    (h : m.perform cpu request = (r, m')) (hmem : pid ∈ m'.kernel.core.spaces) :
    (∃ i p, m'.process? i = some p ∧ p.exitCode = none ∧ p.pid = pid) ∨
      pid ∈ m.orphans request ++ lost := by
  have hlives : ∀ {i q}, m'.process? i = some q → q.pid = pid → q.exitCode = none := by
    rintro i q hq rfl
    by_contra hexit
    exact (hm.perform h).parted hq hexit hmem
  by_cases hold : pid ∈ m.kernel.core.spaces
  · obtain ⟨i, p, hp, hlive, rfl⟩ | hlost := htenanted.tenant pid hold
    · cases hq : m'.process? i with
      | none => exact .inr (List.mem_append_left _ (mem_orphans_of_perform h hp hlive hq))
      | some q =>
        obtain ⟨u, hu, hbecomes⟩ | ⟨hi, -⟩ := becomes_of_perform hm.consistent h hq
        · obtain rfl := Option.some.inj (hp.symm.trans hu)
          exact .inl ⟨i, q, hq, hlives hq hbecomes.pid, hbecomes.pid⟩
        · exact absurd hi (Nat.ne_of_lt (lt_size_of_process? hp))
    · exact .inr (List.mem_append_right _ hlost)
  · have hnew : ∃ i q, m'.process? i = some q ∧ q.pid = pid := by
      by_contra hnone
      refine not_mem_spaces_of_perform hm hold h (fun i q hq hpid => ?_) hmem
      exact absurd ⟨i, q, hq, hpid⟩ hnone
    obtain ⟨i, q, hq, hpid⟩ := hnew
    exact .inl ⟨i, q, hq, hlives hq hpid, hpid⟩

/-- Who has not exited has an address space: it is kept, or it is new with the process. -/
theorem housed_of_perform (htenanted : Tenanted lost m) (hm : Reached m) (hturns : request.turns)
    (h : m.perform cpu request = (r, m')) (hq : m'.process? i = some q)
    (hlive : q.exitCode = none) : q.pid ∈ m'.kernel.core.spaces := by
  obtain ⟨p, hp, hbecomes⟩ | ⟨-, tlb, image, strategy, hloaded⟩ :=
    becomes_of_perform hm.consistent h hq
  · have hwas : p.exitCode = none := by
      by_contra hexit
      exact hbecomes.exited hexit hlive
    rw [hbecomes.pid]
    refine mem_spaces_of_turns hm hturns h (htenanted.housed hp hwas) fun {j u w} hu hw hpid => ?_
    obtain rfl := hm.named.distinct hu hp hpid
    obtain rfl := Option.some.inj (hq.symm.trans hw)
    exact hlive
  · exact (registered_of_loaded hloaded hm.consistent).2

/-- What is lost after a request was registered before it, and if a process had it, that process is
gone. -/
theorem mem_of_lost (htenanted : Tenanted lost m) (hm : Reached m)
    (h : m.perform cpu request = (r, m')) (hlost : pid ∈ m.orphans request ++ lost) :
    pid ∈ m.kernel.core.spaces ∧
      ∀ {i p q}, m.process? i = some p → p.pid = pid → m'.process? i ≠ some q := by
  obtain horphan | hlost := List.mem_append.1 hlost
  · obtain ⟨j, u, hu, hlive, rfl, hgone⟩ := exists_of_mem_orphans h horphan
    refine ⟨htenanted.housed hu hlive, fun {i p q} hp hpid hq => ?_⟩
    obtain rfl := hm.named.distinct hp hu hpid
    cases hgone.symm.trans hq
  · refine ⟨htenanted.registered pid hlost, ?_⟩
    rintro i p q hp rfl
    exact absurd hlost (htenanted.nobody hp)

/-- **Address spaces come with new processes and go with those that exit.** -/
theorem perform (htenanted : Tenanted lost m) (hm : Reached m) (hturns : request.turns)
    (h : m.perform cpu request = (r, m')) : Tenanted (m.orphans request ++ lost) m' where
  tenant _ hmem := htenanted.tenant_or_lost hm h hmem
  housed hq hlive := htenanted.housed_of_perform hm hturns h hq hlive
  registered pid hlost := by
    obtain ⟨hmem, hnobody⟩ := htenanted.mem_of_lost hm h hlost
    exact mem_spaces_of_turns hm hturns h hmem fun hp hq hpid =>
      absurd hq (hnobody hp hpid)
  nobody {i q} hq hlost := by
    obtain ⟨hmem, hnobody⟩ := htenanted.mem_of_lost hm h hlost
    obtain ⟨p, hp, hbecomes⟩ | ⟨-, tlb, image, strategy, hloaded⟩ :=
      becomes_of_perform hm.consistent h hq
    · exact hnobody hp hbecomes.pid.symm hq
    · exact (registered_of_loaded hloaded hm.consistent).1 hmem

/-- **The next pid has an address space exactly if it was lost.** -/
theorem next (h : Tenanted lost m) (hm : Reached m) :
    m.kernel.pids.alloc.1 ∈ m.kernel.core.spaces ↔ m.kernel.pids.alloc.1 ∈ lost := by
  refine ⟨fun hmem => ?_, h.registered _⟩
  obtain ⟨i, p, hp, -, hpid⟩ | hlost := h.tenant _ hmem
  · exact absurd (hpid ▸ hm.named.held hp) hm.sound_pids.alloc.1
  · exact hlost

end Tenanted

/-! ## Coming and going -/

/-- Programs are loaded, ended and dropped, on more and more processors.  Some processes were lost:
they were dropped before they had exited. -/
inductive Turnover (m : Machine F) : List Pid → Machine F → Prop
  | here : Turnover m [] m
  | addCpu {lost : List Pid} {n : Machine F} (h : Turnover m lost n) (slots : Nat) :
    Turnover m lost (n.addCpu slots)
  | perform {lost : List Pid} {n n' : Machine F} {cpu : CpuNumber} {α : Type} {request : Request α}
    {r : Except Halt (Option α)} (h : Turnover m lost n) (hturns : request.turns)
    (hp : n.perform cpu request = (r, n')) : Turnover m (n.orphans request ++ lost) n'

namespace Turnover

theorem reached (h : Turnover m lost n) (hm : Reached m) : Reached n := by
  induction h with
  | here => exact hm
  | addCpu _ slots ih => exact ih.addCpu slots
  | perform _ _ hp ih => exact ih.perform hp

/-- One more request, and the processes that are lost then. -/
theorem after (h : Turnover m lost n) (cpu : CpuNumber) {α : Type} (request : Request α)
    (hturns : request.turns) {lost' : List Pid} (hlost : n.orphans request ++ lost = lost') :
    Turnover m lost' (n.perform cpu request).2 :=
  hlost ▸ h.perform hturns (Prod.eta (n.perform cpu request)).symm

theorem trans {l : Machine F} {lost' : List Pid} (h : Turnover m lost n) (h' : Turnover n lost' l) :
    Turnover m (lost' ++ lost) l := by
  induction h' with
  | here => exact h
  | addCpu _ slots ih => exact ih.addCpu slots
  | perform _ hturns hp ih =>
    rw [List.append_assoc]
    exact ih.perform hturns hp

theorem config (h : Turnover m lost n) (hm : Reached m) : n.kernel.config = m.kernel.config := by
  induction h with
  | here => rfl
  | addCpu _ _ ih => exact ih
  | perform h _ hp ih => exact (perform_evolves (h.reached hm).consistent hp).config.trans ih

theorem tenanted (h : Turnover m lost n) (hm : Reached m) (htenanted : Tenanted [] m) :
    Tenanted lost n := by
  induction h with
  | here => exact htenanted
  | addCpu _ _ ih => exact ⟨ih.tenant, ih.housed, ih.registered, ih.nobody⟩
  | perform h hturns hp ih => exact ih.perform (h.reached hm) hturns hp

end Turnover

/-- **Loading, ending and dropping keep the kernel in order**, lost processes or not.  No process
works at any TLB. -/
theorem inOrder_of_turns {α : Type} {request : Request α} {r : Except Halt (Option α)}
    {view : Option (FileView F)} {tenants : Pid → Option Tenant} (hm : Reached m)
    (hk : m.kernel.InOrder view tenants fun _ => none) (hturns : request.turns)
    (h : m.perform cpu request = (r, m')) :
    ∃ tenants', m'.kernel.InOrder view tenants' fun _ => none := by
  cases request with
  | load image args strategy =>
    simp only [perform] at h
    split at h
    · obtain ⟨-, rfl⟩ := Prod.mk.inj h
      exact ⟨_, hk⟩
    · unfold load at h
      split at h <;> rename_i hload <;> obtain ⟨-, rfl⟩ := Prod.mk.inj h
      · exact Kernel.inOrder_of_load hk hm.sound_pids hload
      · exact Kernel.inOrder_of_load hk hm.sound_pids hload
  | exit i status =>
    simp only [perform] at h
    obtain ⟨-, rfl⟩ | ⟨c, p, r', y, -, -, hact, -, rfl⟩ := within_spec h
    · exact ⟨_, hk⟩
    · have hexit : (⟨m.kernel, c, p⟩ : Context F).exit status = (_, y) :=
        Prod.ext rfl (Prod.mk.inj hact).2
      have hnobody : c.running = some p.pid → ∀ q, (none : Option Pid) = some q → q = p.pid := by
        rintro - q hq
        cases hq
      obtain ⟨hended, -⟩ := Context.exit_ended hk hnobody hexit
      have hseat : unseat (fun _ => none) p.pid = fun _ => none :=
        funext fun _ => if_neg (Option.some_ne_none _).symm
      exact ⟨_, hseat ▸ hended.inOrder⟩
  | drop i =>
    simp only [perform] at h
    split at h <;> obtain ⟨-, rfl⟩ := Prod.mk.inj h
    · exact ⟨_, hk⟩
    · refine ⟨tenants, ?_⟩
      rw [drop, Kernel.dropPid]
      dsimp only
      split
      · exact Kernel.inOrder_note hk _
      · exact Kernel.inOrder_note hk _
  | switch | access | read | write | readText | resolveMiss | accessPage | trap | destroySpace =>
    cases hturns

/-! ## Loading again -/

/-- What there is to be said of pids and programs on a machine on which some processes were lost. -/
structure Reusable (lost : List Pid) (m : Machine F) : Prop where
  /-- The pid that is given next has an address space exactly if it is that of a lost process. -/
  next : m.kernel.pids.alloc.1 ∈ m.kernel.core.spaces ↔ m.kernel.pids.alloc.1 ∈ lost
  /-- The address spaces of lost processes stay. -/
  registered : ∀ pid ∈ lost, pid ∈ m.kernel.core.spaces
  /-- A program is only refused because of an address space if that is the one of its own pid, and
  the pid that of a lost process. -/
  exists_lost : ∀ {cpu image args strategy pid},
    (m.perform cpu (.load image args strategy)).1 = .ok (some (.error (.addressSpaceExists pid))) →
      pid = m.kernel.pids.alloc.1 ∧ pid ∈ lost
  /-- If the next pid is that of a lost process, that is what a program that was loaded is refused
  for.  If not, it is loaded again, exactly if enough frames can be had, unless a transfer of the
  swap file comes up short. -/
  again : ∀ {cpu image args strategy i m' lost' n cpu' c},
    m.perform cpu (.load image args strategy) = (.ok (some (.ok i)), m') → Turnover m' lost' n →
    n.cpu? cpu' = some c → ∃ p r n', m'.process? i = some p ∧
      n.perform cpu' (.load image args strategy) = (.ok (some r), n') ∧
      ((n.kernel.pids.alloc.1 ∈ lost' ++ lost ∧
          r = .error (.addressSpaceExists n.kernel.pids.alloc.1)) ∨
        n.kernel.pids.alloc.1 ∉ lost' ++ lost ∧
          ((r = .error .shortTransfer ∧ ∀ v : ReliableView F, ¬ v.Keeps n.kernel.swap) ∨
            ((∃ j, r = .ok j) ↔ p.space.framesNeeded args strategy ≤ n.kernel.unpinned.card)))

theorem perform_load {c : Processor} {image : Image} {args : List String} {strategy : Strategy}
    (hc : m.cpu? cpu = some c) : m.perform cpu (.load image args strategy) =
      ((m.load c image args strategy).1.map some, (m.load c image args strategy).2) := by
  simp only [perform, hc]

/-- A load is answered as the kernel answers it, if the layout of the program takes machine words
only. -/
theorem load_spec {c : Processor} {image : Image} {args : List String} {strategy : Strategy}
    (hm : Reached m) (hc : m.cpu? cpu = some c)
    (hwords : AddressSpace.overflows image m.kernel.config = false) : ∃ x k r m',
      m.kernel.load c.tlb image args strategy = (x, k) ∧
        m.perform cpu (.load image args strategy) = (.ok (some r), m') ∧
          ((∃ p, x = .ok p) ↔ ∃ j, r = .ok j) ∧ ∀ e, x = .error (.error e) ↔ r = .error e := by
  cases hload : m.kernel.load c.tlb image args strategy with
  | mk x k =>
    rw [perform_load hc, load, hload]
    cases x with
    | ok p => exact ⟨_, _, _, _, rfl, rfl, by simp, by simp⟩
    | error why =>
      obtain ⟨⟨e, rfl⟩ | ⟨-, hover⟩, -⟩ := Kernel.load_undone hm.consistent hm.sound_pids hload
      · exact ⟨_, _, _, _, rfl, rfl, by simp, by simp⟩
      · cases hwords.symm.trans hover

/-- A refusal is the kernel's. -/
theorem error_of_perform {image : Image} {args : List String} {strategy : Strategy}
    {e : PagingError}
    (h : (m.perform cpu (.load image args strategy)).1 = .ok (some (.error e))) :
    ∃ tlb k, m.kernel.load tlb image args strategy = (.error (.error e), k) := by
  simp only [perform] at h
  split at h
  · cases h
  · rename_i c hc
    unfold load at h
    split at h <;> rename_i hload
    · rename_i why k
      cases why with
      | error e' =>
        obtain rfl : e' = e := Except.error.inj (Option.some.inj (Except.ok.inj h))
        exact ⟨_, k, hload⟩
      | halt why => cases h
    · cases h

section Boot

variable {config : MachineConfig} {files : List String} {file : F} {k : Kernel F} {j : Journal}

omit [BackingFile F] in
theorem tenanted_of_boot (h : Kernel.boot config files (some file) = (.ok k, j)) :
    Tenanted [] { kernel := k } := by
  obtain ⟨-, rfl⟩ := eq_of_boot h
  exact ⟨fun pid hmem => absurd hmem Std.ExtTreeMap.not_mem_empty, nofun, nofun, nofun⟩

/-- **The kernel is in order all the time.** -/
theorem Turnover.inOrder (hboot : Kernel.boot config files (some file) = (.ok k, j))
    (h : Turnover { kernel := k } lost m) :
    ∃ tenants, m.kernel.InOrder none tenants fun _ => none := by
  have hview : ∀ w : FileView F, none = some w → w.good file := nofun
  induction h with
  | here => exact ⟨_, (inOrder_of_boot hview hboot).kernel⟩
  | @addCpu lost n h slots ih =>
    exact ih.imp fun _ hn => hn.grown (TlbBank.slot_add n.kernel.core.tlbs slots) rfl
  | perform h hturns hp ih =>
    obtain ⟨tenants, hn⟩ := ih
    exact inOrder_of_turns (h.reached (.boot hboot)) hn hturns hp

/-- **Pids are used again, and programs are loaded again.** -/
theorem reusable_of_turnover (hboot : Kernel.boot config files (some file) = (.ok k, j))
    (h : Turnover { kernel := k } lost m) : m.Reusable lost where
  next := (h.tenanted (.boot hboot) (tenanted_of_boot hboot)).next (h.reached (.boot hboot))
  registered := (h.tenanted (.boot hboot) (tenanted_of_boot hboot)).registered
  exists_lost {cpu image args strategy pid} hanswer := by
    have hm := h.reached (.boot hboot)
    obtain ⟨tenants, horder⟩ := h.inOrder hboot
    obtain ⟨tlb, k', hload⟩ := error_of_perform hanswer
    obtain ⟨rfl, hmem⟩ := Kernel.taken_of_load horder hm.sound_pids hload rfl
    exact ⟨rfl, ((h.tenanted (.boot hboot) (tenanted_of_boot hboot)).next hm).1 hmem⟩
  again {cpu image args strategy i m' lost' n cpu' c} hload hn hc := by
    have hm := h.reached (.boot hboot)
    obtain ⟨tenants, horder⟩ := h.inOrder hboot
    have hturns : (Request.load image args strategy).turns := trivial
    have hboth : Turnover { kernel := k } (lost' ++ lost) n := (h.perform hturns hload).trans hn
    have hreached := hboth.reached (.boot hboot)
    obtain ⟨tenants', horder'⟩ := hboth.inOrder hboot
    -- The layout of the program is what it was, as the settings are.
    have hconfig : n.kernel.config = m.kernel.config :=
      (hn.config (hm.perform hload)).trans (perform_evolves hm.consistent hload).config
    obtain ⟨tlb, p, k', hk', rfl, rfl⟩ := load_of_perform hload
    obtain ⟨hsize, hmake, hsuits⟩ := Kernel.suits_of_load horder hm.sound_pids hk'
    rw [← hconfig] at hmake hsuits
    obtain ⟨x, k, r, n', hx, hperform, hok, herror⟩ :=
      load_spec hreached hc (AddressSpace.overflows_of_make hmake)
    refine ⟨p, r, n', (process?_push rfl).trans (if_pos rfl), hperform, ?_⟩
    rw [← hok, ← herror, ← herror,
      ← (hboth.tenanted (.boot hboot) (tenanted_of_boot hboot)).next hreached]
    exact Kernel.load_iff_room horder' hreached.sound_pids hsize hmake hsuits hx

end Boot

set_option maxRecDepth 100000 in
/-- Of two processes one was lost.  The other has exited and was dropped, and its pid is given
next. -/
theorem reusable_after_drop :
    ∃ m : Machine MemoryFile, m.Reusable [0] ∧ m.kernel.pids.alloc.1 = 1 := by
  have hboot : Kernel.boot (.withFrames 1 1) [] (some ({} : MemoryFile)) = (.ok _, _) := rfl
  exact ⟨_, reusable_of_turnover hboot ((((((Turnover.here.addCpu 1).after 0
    (.load (.assembled { entry := 0 }) [] .demand) trivial rfl).after 0
      (.load (.assembled { entry := 0 }) [] .demand) trivial rfl).after 0
        (.drop 0) trivial (by decide_cbv) : Turnover _ [0] _).after 0
          (.exit 1 3) trivial rfl).after 0 (.drop 1) trivial (by decide_cbv)), by decide_cbv⟩

set_option maxRecDepth 100000 in
/-- **A program that was loaded is not always loaded again.**  Its process is dropped before it has
exited, so that the next process gets a pid that still has an address space.  Or it has exited, but
then another program gets both frames for good, and there is none for the arguments. -/
theorem reuse_refused :
    (∃ m m' n : Machine MemoryFile, Reached m ∧
      m.perform 0 (.load (.assembled { entry := 0 }) [] .demand) = (.ok (some (.ok 0)), m') ∧
        Turnover m' [0] n ∧ (n.perform 0 (.load (.assembled { entry := 0 }) [] .demand)).1 =
          .ok (some (.error (.addressSpaceExists 0)))) ∧
    ∃ m m' n : Machine MemoryFile, Reached m ∧
      m.perform 0 (.load (.assembled { entry := 0 }) ["a"] .demand) = (.ok (some (.ok 0)), m') ∧
        Turnover m' [] n ∧ (n.perform 0 (.load (.assembled { entry := 0 }) ["a"] .demand)).1 =
          .ok (some (.error .outOfFrames)) := by
  have hboot : Kernel.boot { frames := 2, tlbSlots := 1, stackPages := 1 } []
    (some ({} : MemoryFile)) = (.ok _, _) := rfl
  have hstart := (Reached.boot hboot).addCpu 1
  constructor
  · exact ⟨_, _, _, hstart, Prod.ext (by decide_cbv) rfl,
      Turnover.here.after 0 (.drop 0) trivial (by decide_cbv), by decide_cbv⟩
  · exact ⟨_, _, _, hstart, Prod.ext (by decide_cbv) rfl,
      ((Turnover.here.after 0 (.exit 0 3) trivial rfl).after 0 (.drop 0) trivial
        (by decide_cbv)).after 0 (.load (.assembled { entry := 0 }) [] .eager) trivial rfl,
      by decide_cbv⟩

end Machine

end DemandPaging
