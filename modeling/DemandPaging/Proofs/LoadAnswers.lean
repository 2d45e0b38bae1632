import DemandPaging.Proofs.ArgumentBlock
import DemandPaging.Proofs.EagerLoad
import DemandPaging.Proofs.Holdings
import DemandPaging.Proofs.Preloading

/-!
# What comes of loading a program

A program is loaded in steps: its address space is made and registered, its pages are made resident
if that is asked for, and its arguments are written.  The first step that fails is the answer.

* `Kernel.Prepares`, `Kernel.prepares_of_prepare` — what comes of making pages resident.
* `Kernel.prepare_error`, `Kernel.writeArguments_served` — no step finds arguments too long that fit
  a page.
* `Kernel.load_served` — arguments are too long exactly if they do not fit a page; otherwise, if the
  program is loaded, they lie in the address space.
-/

namespace DemandPaging

open Paging

namespace Kernel

variable {F : Type} [BackingFile F] {view : Option (FileView F)} {tenants : Pid → Option Tenant}
  {seat : TlbId → Option Pid} {k k' : Kernel F} {tlb : TlbId} {pid : Pid} {image : Image}
  {args : List String} {strategy : Strategy} {space : AddressSpace} {memory : Memory} {why : Failure}

/-! ## Pages -/

/-- What comes of making the pages of a new process resident, if that is asked for. -/
inductive Prepares (k : Kernel F) (strategy : Strategy) (space : AddressSpace) :
    Except Failure Unit → Prop
  | ready (hroom : strategy = .eager → 0 < space.pageCount ∧
      space.pageCount ≤ k.config.frames ∧ space.pageCount ≤ k.unpinned.card) :
    Prepares k strategy space (.ok ())
  | tooLarge (heager : strategy = .eager) (hlarge : k.config.frames < space.pageCount) :
    Prepares k strategy space
      (.error (.error (.insufficientMemory space.pageCount k.config.frames)))
  | empty (heager : strategy = .eager) (hzero : space.pageCount = 0) :
    Prepares k strategy space (.error (.error (.invalidAddress 0)))
  | exhausted (heager : strategy = .eager) (hfew : k.unpinned.card < space.pageCount) :
    Prepares k strategy space (.error (.error .outOfFrames))
  | short (hfails : ∀ v : ReliableView F, ¬ v.Keeps k.swap) :
    Prepares k strategy space (.error (.error .shortTransfer))

theorem prepares_of_prepare {r : Except Failure Unit} (hk : k.Consistent) (hnew : k.New space)
    (h : k.prepare tlb strategy space = (r, k')) : k.Prepares strategy space r := by
  cases strategy with
  | demand =>
    obtain ⟨rfl, -⟩ := Prod.mk.inj h
    exact .ready nofun
  | eager =>
    unfold prepare at h
    dsimp only at h
    split at h
    · rename_i hlarge
      obtain ⟨rfl, -⟩ := Prod.mk.inj h
      exact .tooLarge rfl hlarge
    · rename_i hfits
      have hattach := quiet_attach k.toPaging tlb
      have hunpinned : (k.toPaging.attach tlb).unpinned = k.unpinned :=
        unpinned_congr hattach.frames fun f => by rw [hattach.owner]
      cases hpreload : (k.toPaging.attach tlb).preload tlb k.config.victimRetries space with
      | mk x s =>
        have hanswered := preloadAnswered_of_preload (hattach.consistent hk)
          (hattach.spaces ▸ hnew.pages) (fun p _ => (hattach.entry _).trans (hnew.absent _ rfl))
          hpreload
        have hr : r = x := by
          rw [hpreload] at h
          cases x <;> exact (Prod.mk.inj h).1.symm
        subst hr
        rcases Nat.eq_zero_or_pos space.pageCount with hzero | hpos
        · rw [(hanswered.empty hzero).1]
          exact .empty rfl hzero
        · by_cases hshort : s.shortfalls = (k.toPaging.attach tlb).shortfalls
          · have henough := hanswered.enough hpos hshort
            rw [hunpinned] at henough
            by_cases hok : r = .ok ()
            · subst hok
              exact .ready fun _ => ⟨hpos, Nat.le_of_not_lt hfits, henough.1 rfl⟩
            · rw [hanswered.exhausted hpos hshort hok]
              exact .exhausted rfl (Nat.lt_of_not_le (mt henough.2 hok))
          · rw [hanswered.short.2 hshort]
            exact .short fun v hv => hshort (hanswered.reliable (v := v) (hattach.swap ▸ hv))

/-- Arguments have nothing to do with it if no pages are to be had. -/
theorem prepare_error (hk : k.Consistent) (hnew : k.New space)
    (h : k.prepare tlb strategy space = (.error why, k')) : why ≠ .error .argumentsTooLong := by
  cases prepares_of_prepare hk hnew h <;> nofun

/-! ## Arguments -/

omit [BackingFile F] in
/-- Only sealed pages may not be written. -/
theorem isSealed_of_obstacle {s : Paging F} {writing : Bool} {p : PageNumber}
    (h : s.obstacle space writing p = some .readOnly) : space.isSealed p = true := by
  by_contra hnot
  rw [obstacle] at h
  split at h
  · cases h
  · rw [AddressSpace.refusal] at h
    simp [hnot] at h

omit [BackingFile F] in
/-- Behind the program nothing stops a copy without an error. -/
theorem Copied.Stopped.inside {a : VirtAddr} {count : Nat} {c : Copied}
    {cause : Option ExceptionCause} (h : c.Stopped (k.obstacle space true) a count cause)
    (hbehind : space.image.pageCount * pageSize ≤ a.val) (hfailure : c.failure = none) :
    c.moved.size = count ∧ (0 < count → a.val + count ≤ space.pageCount * pageSize) := by
  have hcause : cause = none := by
    refine (h.silent hfailure).resolve_right fun hreadOnly => ?_
    obtain ⟨-, hrefused⟩ := h.stops.refused _ hreadOnly
    have hsealed := isSealed_of_obstacle hrefused
    rw [AddressSpace.isSealed_of_le] at hsealed
    · cases hsealed
    · refine (Nat.le_div_iff_mul_le (by decide)).2 (Nat.le_trans hbehind ?_)
      exact Nat.le_add_right _ _
  have hwhole := h.stops.whole hcause
  refine ⟨hwhole, fun hpos => ?_⟩
  have hlast := (obstacle_eq_none.1 (h.stops.granted (count - 1) (by omega))).1
  rw [AddressSpace.contains_page, VirtAddr.advance] at hlast
  dsimp only at hlast
  omega

/-- **Arguments are written as a whole, or a page is not to be had.**  Those that are written lie in
the address space. -/
theorem writeArguments_served {p : Process} {r : Except Failure Unit}
    (hk : k.InOrder view tenants seat) (hstocked : k.Stocked p.space p.strategy)
    (hT : tenants p.pid = some ⟨p.space, memory⟩)
    (hfits : p.space.pageCount * pageSize ≤ maxUserAddr)
    (hargv : p.registers.argv = p.space.argBase)
    (hbehind : p.space.image.pageCount * pageSize ≤ p.space.argBase.val)
    (h : k.writeArguments tlb p args = (r, k')) :
    r ≠ .error (.error .argumentsTooLong) ∧ (r = .ok () → args ≠ [] →
      p.space.argBase.val + argumentsSize args ≤ p.space.pageCount * pageSize) := by
  unfold writeArguments at h
  rw [hargv] at h
  split at h
  · rename_i hempty
    obtain ⟨rfl, -⟩ := Prod.mk.inj h
    exact ⟨nofun, fun _ hne => absurd (List.isEmpty_iff.1 hempty) hne⟩
  · dsimp only at h
    rw [size_argumentBlock] at h
    cases hc : k.copy tlb p p.space.argBase (argumentsSize args)
        (.store (argumentBlock p.space.argBase args)) with
    | mk c m =>
        have hserved := copy_served hk hstocked hT hfits
          (fun d hd => Nat.le_of_eq (by rw [← Access.store.inj hd, size_argumentBlock])) hc
        rw [hc] at h
        split at h
        · rename_i moved e m heq
          obtain ⟨rfl, -⟩ := Prod.mk.inj heq
          obtain ⟨rfl, -⟩ := Prod.mk.inj h
          refine ⟨fun he => ?_, nofun⟩
          obtain rfl := Except.error.inj he
          obtain ⟨-, cause, hstopped⟩ | ⟨-, hshort⟩ := hserved
          · obtain he | ⟨a, he⟩ := hstopped.failed _ rfl <;> cases he
          · cases hshort
        · rename_i moved m heq
          obtain ⟨rfl, -⟩ := Prod.mk.inj heq
          obtain ⟨-, cause, hstopped⟩ | ⟨-, hshort⟩ := hserved
          · obtain ⟨hwhole, hinside⟩ := hstopped.inside hbehind rfl
            rw [if_pos hwhole] at h
            obtain ⟨rfl, -⟩ := Prod.mk.inj h
            refine ⟨nofun, fun _ hne => hinside ?_⟩
            obtain ⟨a, rest, rfl⟩ := List.exists_cons_of_ne_nil hne
            rw [argumentsSize]
            omega
          · cases hshort

/-! ## Programs -/

omit [BackingFile F] in
/-- An address space cannot be made because of the program alone. -/
theorem make_error {config : MachineConfig} {e : PagingError}
    (h : AddressSpace.make pid image config = .error e) :
    e = .overlappingSections ∨ ∃ why, e = .badImage why := by
  unfold AddressSpace.make Section.check at h
  split at h
  · rename_i hcheck
    split at hcheck
    · cases hcheck
    · obtain rfl := Except.error.inj h
      exact .inl (Except.error.inj hcheck).symm
  · dsimp only at h
    split at h
    · exact .inr ⟨_, (Except.error.inj h).symm⟩
    · cases h

/-- A process with its arguments. -/
structure Equipped (p : Process) (args : List String) : Prop where
  registers : p.registers = p.space.registers args
  /-- The arguments lie in the address space. -/
  inside : args ≠ [] → p.space.argBase.val + argumentsSize args ≤ p.space.pageCount * pageSize

/-- What becomes of the arguments of a new process. -/
theorem writeArguments_new {m u v : Kernel F} {r : Except Failure Unit}
    (hk : k.InOrder view tenants seat) (hmake : AddressSpace.make pid image k.config = .ok space)
    (hcreate : k.createSpace space.pid space.pageCount = (.ok (), m))
    (hprepare : m.prepare tlb strategy space = (.ok (), u))
    (h : u.writeArguments tlb { space.newProcess args with strategy } args = (r, v)) :
    r ≠ .error (.error .argumentsTooLong) ∧ (r = .ok () → args ≠ [] →
      space.argBase.val + argumentsSize args ≤ space.pageCount * pageSize) := by
  obtain ⟨-, hm, hnew⟩ := createSpace_inOrder hk hcreate
  have hstocked : u.Stocked space strategy := by
    rintro rfl
    exact preloaded_of_prepare hm.toConsistent hnew hprepare
  have hbehind : space.image.pageCount * pageSize ≤ space.argBase.val := by
    rw [AddressSpace.argBase_eq hmake, AddressSpace.eq_of_make hmake]
    exact Nat.mul_le_mul_right _ (Nat.le_add_right _ _)
  exact writeArguments_served (p := { space.newProcess args with strategy })
    (prepare_inOrder hk hcreate hprepare).2 hstocked (Function.update_self _ _ _)
    (AddressSpace.make_fits hmake) rfl hbehind h

/-- **A program that is loaded has its arguments**, and if it is not that is not because they are
too long. -/
theorem loadAs_served {r : Except Failure Process} (hk : k.InOrder view tenants seat)
    (h : k.loadAs tlb pid image args strategy = (r, k')) :
    r ≠ .error (.error .argumentsTooLong) ∧ ∀ p, r = .ok p → Equipped p args := by
  cases loads_of_loadAs h with
  | unmade hmake =>
      refine ⟨fun he => ?_, nofun⟩
      obtain rfl | ⟨_, rfl⟩ := make_error hmake <;> cases he
  | unregistered hmake hcreate =>
      obtain ⟨rfl, -⟩ := createSpace_error hcreate
      exact ⟨nofun, nofun⟩
  | unprepared hmake hcreate hprepare habandon =>
      obtain ⟨-, hm, hnew⟩ := createSpace_inOrder hk hcreate
      obtain ⟨hserves, -⟩ := prepare_serves hm.toAgrees hnew hprepare
      obtain ⟨rfl, -⟩ := serves_of_abandon hk.toConsistent hcreate hserves habandon
      exact ⟨fun he => prepare_error hm.toConsistent hnew hprepare (Except.error.inj he), nofun⟩
  | unwritten hmake hcreate hprepare hwrite habandon =>
      obtain ⟨-, hm, hnew⟩ := createSpace_inOrder hk hcreate
      obtain ⟨hserves, -⟩ := prepare_serves hm.toAgrees hnew hprepare
      obtain ⟨hserves', -⟩ := writeArguments_serves (hserves.agrees hm.toAgrees) hwrite
      obtain ⟨rfl, -⟩ :=
        serves_of_abandon hk.toConsistent hcreate (hserves.trans hserves') habandon
      exact ⟨fun he => (writeArguments_new hk hmake hcreate hprepare hwrite).1
        (congrArg _ (Except.error.inj he)), nofun⟩
  | loaded hmake hcreate hprepare hwrite =>
      refine ⟨nofun, fun p hp => ?_⟩
      obtain rfl := Except.ok.inj hp
      exact ⟨rfl, (writeArguments_new hk hmake hcreate hprepare hwrite).2 rfl⟩

/-- **Arguments are too long exactly if they do not fit a page.**  A program that is loaded has its
arguments. -/
theorem load_served {r : Except Failure Process} (hk : k.InOrder view tenants seat)
    (h : k.load tlb image args strategy = (r, k')) :
    (r = .error (.error .argumentsTooLong) ↔ pageSize < argumentsSize args) ∧
      ∀ p, r = .ok p → argumentsSize args ≤ pageSize ∧ Equipped p args := by
  have hloaded : ∀ {x m}, ({ k with pids := k.pids.alloc.2 } : Kernel F).loadAs tlb k.pids.alloc.1
      image args strategy = (x, m) →
        x ≠ .error (.error .argumentsTooLong) ∧ ∀ p, x = .ok p → Equipped p args :=
    fun hload => loadAs_served (k := { k with pids := k.pids.alloc.2 }) hk hload
  cases loadsNext_of_load h with
  | tooLong hargs => exact ⟨iff_of_true rfl hargs, nofun⟩
  | overflowed hargs => exact ⟨iff_of_false nofun hargs, nofun⟩
  | loaded hargs hload =>
      exact ⟨iff_of_false nofun hargs, fun p hp => ⟨Nat.le_of_not_lt hargs, (hloaded hload).2 p hp⟩⟩
  | halted hargs hload => exact ⟨iff_of_false nofun hargs, nofun⟩
  | failed hargs hload hdrop => exact ⟨iff_of_false (hloaded hload).1 hargs, nofun⟩
  | undropped hargs hload hdrop => exact ⟨iff_of_false nofun hargs, nofun⟩

end Kernel

end DemandPaging
