import DemandPaging.Proofs.LoadAnswers

/-!
# What a program needs to be loaded

Whether a program can be loaded hangs on its layout, which is the same for every process, on
whether the pid of the new process is in use, and on how many frames nobody has for good.  Only a
transfer of the swap file that comes up short can come in between.

* `AddressSpace.Suits`, `AddressSpace.framesNeeded` — what is asked of layout and frames.
* `Kernel.Writes`, `Kernel.writes_of_writeArguments` — what comes of writing the arguments.
* `Kernel.Equips` — what comes of both stages after the address space is there.
* `Kernel.LoadEnds`, `Kernel.loadEnds_of_loadAs` — how a process is made, or why it is not.
* `Kernel.inOrder_of_load` — the kernel is in order afterwards, even if another has the pid.
-/

namespace DemandPaging

open Paging

variable {F : Type} {args : List String} {strategy : Strategy} {space : AddressSpace}

/-! ## Layouts -/

namespace AddressSpace

variable {pid : Pid} {image : Image} {config : MachineConfig}

/-- A program has the same layout in every process. -/
theorem make_of_make (h : make pid image config = .ok space) (pid' : Pid) :
    make pid' image config = .ok { space with pid := pid' } := by
  unfold make at h ⊢
  split at h
  · cases h
  · dsimp only at h ⊢
    split at h
    · cases h
    · rename_i hfits
      obtain rfl := Except.ok.inj h
      exact if_neg hfits

/-- The pointers to the arguments stand at the start of the first argument page. -/
theorem argBase_at (h : make pid image config = .ok space) :
    space.argBase.page = space.argPage ∧ space.argBase.offset = 0 := by
  have hbase := argBase_eq h
  refine ⟨congrArg PageNumber.mk ?_, ?_⟩
  · rw [hbase, Nat.mul_div_cancel _ (by decide)]
  · rw [VirtAddr.offset, hbase, Nat.mul_mod_left]

/-- How many frames a program needs that nobody has for good: one for each of its pages if they all
are made resident, and otherwise one for its arguments. -/
def framesNeeded (space : AddressSpace) (args : List String) : Strategy → Nat
  | .eager => space.pageCount
  | .demand => if args.isEmpty then 0 else 1

/-- A layout has a page for the arguments, and the machine has frames for all pages if they are all
made resident. -/
structure Suits (space : AddressSpace) (config : MachineConfig) (args : List String)
    (strategy : Strategy) : Prop where
  arguments : args ≠ [] → space.contains space.argPage = true
  eager : strategy = .eager → 0 < space.pageCount ∧ space.pageCount ≤ config.frames

end AddressSpace

/-! ## Pieces -/

/-- A range that does not leave its page is one piece. -/
theorem pieces_eq_singleton {a : VirtAddr} {count : Nat} (hpos : 0 < count)
    (hpage : a.offset + count ≤ pageSize) : pieces a count = [⟨a, 0, count⟩] := by
  have hmin : min (pageSize - a.offset) count = count := Nat.min_eq_right (by omega)
  rw [pieces, piecesFrom, dif_neg hpos.ne']
  dsimp only
  rw [hmin, Nat.sub_self, piecesFrom, dif_pos rfl]

/-! ## Frames that nobody has for good -/

theorem Paging.card_unpinned_eq_zero {s : Paging F} : s.unpinned.card = 0 ↔ s.AllPinned := by
  refine ⟨fun h f hf => ?_, fun h => by rw [h.unpinned]; rfl⟩
  have hpinned := Finset.filter_eq_empty_iff.1 (Finset.card_eq_zero.1 h) (Finset.mem_range.2 hf)
  exact (Option.any_eq_true ..).1 (by simpa using hpinned)

namespace Kernel

variable [BackingFile F] {view : Option (FileView F)} {tenants : Pid → Option Tenant}
  {seat : TlbId → Option Pid} {k k' : Kernel F} {tlb : TlbId} {pid : Pid} {image : Image}
  {memory : Memory}

/-! ## Arguments -/

omit [BackingFile F] in
theorem contains_of_obstacle {s : Paging F} {writing : Bool} {p : PageNumber}
    (h : s.obstacle space writing p = some .addressError) : space.contains p = false := by
  rw [obstacle] at h
  split at h
  · cases h
  · rw [AddressSpace.refusal] at h
    by_contra hinside
    rw [if_pos (Bool.eq_true_of_not_eq_false hinside)] at h
    split at h <;> cases h

omit [BackingFile F] in
theorem exhausted_of_obstacle {s : Paging F} {writing : Bool} {p : PageNumber}
    (h : s.obstacle space writing p = some .busError) :
    space.contains p = true ∧ ¬ s.Obtainable (space.key p) := by
  by_contra hnot
  rw [obstacle, if_neg hnot, AddressSpace.refusal] at h
  split at h
  · split at h <;> cases h
  · cases h

/-- What comes of writing arguments to their page. -/
inductive Writes (k : Kernel F) (space : AddressSpace) (args : List String) :
    Except Failure Unit → Prop
  | written (h : args ≠ [] → space.contains space.argPage = true ∧
      k.Obtainable (space.key space.argPage)) : Writes k space args (.ok ())
  | outside (hne : args ≠ []) (houtside : space.contains space.argPage = false) :
    Writes k space args (.error (.error (.invalidAddress space.argPage.base.val)))
  | exhausted (hne : args ≠ []) (hinside : space.contains space.argPage = true)
    (hnot : ¬ k.Obtainable (space.key space.argPage)) :
    Writes k space args (.error (.error .outOfFrames))
  | short (hfails : ∀ v : ReliableView F, ¬ v.Keeps k.swap) :
    Writes k space args (.error (.error .shortTransfer))

theorem writes_of_writeArguments {p : Process} {config : MachineConfig} {r : Except Failure Unit}
    (hk : k.InOrder view tenants seat) (hstocked : k.Stocked p.space p.strategy)
    (hT : tenants p.space.pid = some ⟨p.space, memory⟩)
    (hmake : AddressSpace.make pid image config = .ok p.space)
    (hargv : p.registers.argv = p.space.argBase) (hsize : argumentsSize args ≤ pageSize)
    (h : k.writeArguments tlb p args = (r, k')) : k.Writes p.space args r := by
  obtain ⟨hpage, hoffset⟩ := AddressSpace.argBase_at hmake
  unfold writeArguments at h
  rw [hargv] at h
  split at h
  · rename_i hempty
    obtain ⟨rfl, -⟩ := Prod.mk.inj h
    exact .written fun hne => absurd (List.isEmpty_iff.1 hempty) hne
  · rename_i hempty
    have hne : args ≠ [] := fun heq => hempty (List.isEmpty_iff.2 heq)
    have hpos : 0 < argumentsSize args := by
      obtain ⟨a, rest, rfl⟩ := List.exists_cons_of_ne_nil hne
      rw [argumentsSize]
      omega
    dsimp only at h
    rw [size_argumentBlock, copy, if_neg (Nat.not_lt_of_le (AddressSpace.argBase_le hmake)),
      pieces_eq_singleton hpos (by rw [hoffset, Nat.zero_add]; exact hsize)] at h
    simp only [copyPieces, hpage, Access.writing] at h
    cases ha : k.accessPage tlb p.space p.strategy p.space.argPage true
        (Access.change (.store (argumentBlock p.space.argBase args))
          ⟨p.space.argBase, 0, argumentsSize args⟩) with
    | mk x m =>
      rw [ha] at h
      obtain ⟨-, hserved⟩ | ⟨hshorts, rfl⟩ := accessPage_served hk hstocked hT ha
      · generalize hrefused : k.obstacle p.space true p.space.argPage = cause at hserved
        cases hserved with
        | granted page =>
          obtain ⟨hinside, -, hobtainable⟩ := obstacle_eq_none.1 hrefused
          have hwhole : ((#[] : Bytes) ++
              page.slice p.space.argBase.offset (argumentsSize args)).size =
              argumentsSize args := by
            rw [Array.empty_append, Page.slice, hoffset, Bytes.size_slice]
            rw [Vector.size_toArray, Nat.zero_add]
            exact hsize
          dsimp only at h
          rw [if_pos hwhole] at h
          obtain ⟨rfl, -⟩ := Prod.mk.inj h
          exact .written fun _ => ⟨hinside, hobtainable⟩
        | readOnly =>
          have hsealed := isSealed_of_obstacle hrefused
          rw [AddressSpace.isSealed_of_le] at hsealed
          · cases hsealed
          · rw [AddressSpace.eq_of_make hmake]
            exact Nat.le_add_right _ _
        | outside =>
          obtain ⟨rfl, -⟩ := Prod.mk.inj h
          exact .outside hne (contains_of_obstacle hrefused)
        | exhausted =>
          obtain ⟨rfl, -⟩ := Prod.mk.inj h
          obtain ⟨hinside, hnot⟩ := exhausted_of_obstacle hrefused
          exact .exhausted hne hinside hnot
      · obtain ⟨rfl, -⟩ := Prod.mk.inj h
        exact .short fun v hv => absurd (hshorts.reliable hv).1 (by decide)

/-! ## Programs -/

/-- What comes of both stages, once a new process has its address space. -/
inductive Equips (k : Kernel F) (space : AddressSpace) (args : List String) (strategy : Strategy) :
    Except Failure Unit → Prop
  /-- The machine has too few frames for the program, or no page for its arguments. -/
  | unsuited {e : PagingError} (hnot : ¬ space.Suits k.config args strategy)
    (hwhy : (∃ n, e = .insufficientMemory n k.config.frames) ∨ ∃ a, e = .invalidAddress a) :
    Equips k space args strategy (.error (.error e))
  | crowded (hfew : k.unpinned.card < space.framesNeeded args strategy) :
    Equips k space args strategy (.error (.error .outOfFrames))
  | short (hfails : ∀ v : ReliableView F, ¬ v.Keeps k.swap) :
    Equips k space args strategy (.error (.error .shortTransfer))
  | equipped (hsuits : space.Suits k.config args strategy)
    (hroom : space.framesNeeded args strategy ≤ k.unpinned.card) :
    Equips k space args strategy (.ok ())

variable {m u : Kernel F}

theorem Prepares.equips {why : Failure} (h : k.Prepares strategy space (.error why)) :
    k.Equips space args strategy (.error why) := by
  cases h with
  | tooLarge heager hlarge =>
    exact .unsuited (fun hsuits => Nat.not_lt_of_le (hsuits.eager heager).2 hlarge) (.inl ⟨_, rfl⟩)
  | empty heager hzero =>
    exact .unsuited (fun hsuits => (hsuits.eager heager).1.ne' hzero) (.inr ⟨_, rfl⟩)
  | exhausted heager hfew =>
    subst heager
    exact .crowded hfew
  | short hfails => exact .short hfails

/-- Pages that are all resident have room for arguments. -/
theorem Writes.equips_eager {r : Except Failure Unit} (h : u.Writes space args r)
    (hm : m.Prepares .eager space (.ok ())) (hu : u.Agrees) {place : PageNumber → FrameNumber}
    (hplace : u.Preloaded space.pid space.pageCount place)
    (hswap : ∀ v : ReliableView F, v.Keeps m.swap → v.Keeps u.swap) :
    m.Equips space args .eager r := by
  cases hm with
  | ready hroom =>
    obtain ⟨hpos, hfits, hfew⟩ := hroom rfl
    cases h with
    | written h => exact .equipped ⟨fun hne => (h hne).1, fun _ => ⟨hpos, hfits⟩⟩ hfew
    | outside hne houtside =>
      refine .unsuited (fun hsuits => ?_) (.inr ⟨_, rfl⟩)
      rw [hsuits.arguments hne] at houtside
      cases houtside
    | exhausted _ hinside hnot =>
      obtain ⟨e, he, -⟩ := hplace.entry hu (of_decide_eq_true hinside)
      exact absurd (.inl (Option.isSome_of_eq_some he)) hnot
    | short hfails => exact .short fun v hv => hfails v (hswap v hv)

/-- If none is resident yet, arguments need a frame. -/
theorem Writes.equips_demand {r : Except Failure Unit} (h : k.Writes space args r)
    (hnew : k.New space) : k.Equips space args .demand r := by
  have hobtainable : k.Obtainable (space.key space.argPage) ↔ 0 < k.unpinned.card := by
    rw [Obtainable, hnew.absent _ rfl, ← card_unpinned_eq_zero, Nat.pos_iff_ne_zero]
    exact or_iff_right (by decide)
  have hneeded : args ≠ [] → space.framesNeeded args .demand = 1 := fun hne =>
    if_neg fun hempty => hne (List.isEmpty_iff.1 hempty)
  cases h with
  | written h =>
    refine .equipped ⟨fun hne => (h hne).1, fun heager => by cases heager⟩ ?_
    by_cases hne : args = []
    · subst hne
      exact Nat.zero_le _
    · rw [hneeded hne]
      exact hobtainable.1 (h hne).2
  | outside hne houtside =>
    refine .unsuited (fun hsuits => ?_) (.inr ⟨_, rfl⟩)
    rw [hsuits.arguments hne] at houtside
    cases houtside
  | exhausted hne _ hnot =>
    refine .crowded ?_
    rw [hneeded hne]
    exact Nat.lt_of_not_le fun hpos => hnot (hobtainable.2 hpos)
  | short hfails => exact .short hfails

theorem Equips.of_same {r : Except Failure Unit} (h : m.Equips space args strategy r)
    (hunpinned : m.unpinned = k.unpinned) (hswap : m.swap = k.swap)
    (hconfig : m.config = k.config) : k.Equips space args strategy r := by
  cases h with
  | unsuited hnot hwhy => exact .unsuited (hconfig ▸ hnot) (hconfig ▸ hwhy)
  | crowded hfew => exact .crowded (hunpinned ▸ hfew)
  | short hfails => exact .short (hswap ▸ hfails)
  | equipped hsuits hroom => exact .equipped (hconfig ▸ hsuits) (hunpinned ▸ hroom)

/-- An address space that is registered leaves all frames and the swap file alone. -/
theorem Equips.of_registered {pages : Nat} {r : Except Failure Unit}
    (h : m.Equips space args strategy r) (hreg : Registered k.toPaging m.toPaging pid pages)
    (hconfig : m.config = k.config) : k.Equips space args strategy r :=
  h.of_same (unpinned_congr hreg.frames fun f => by rw [hreg.owner]) hreg.swap hconfig

/-- How a process of a given id is made, or why it is not. -/
inductive LoadEnds (k : Kernel F) (pid : Pid) (image : Image) (args : List String)
    (strategy : Strategy) : Except Failure Process → Prop
  /-- The program has no layout. -/
  | unmade {e : PagingError} (hmake : AddressSpace.make pid image k.config = .error e) :
    LoadEnds k pid image args strategy (.error (.error e))
  /-- Its layout takes numbers that are no machine words. -/
  | overflowed (hwords : AddressSpace.overflows image k.config = true) :
    LoadEnds k pid image args strategy (.error (.halt .overflow))
  /-- Another process has the pid. -/
  | taken (hmem : pid ∈ k.core.spaces) :
    LoadEnds k pid image args strategy (.error (.error (.addressSpaceExists pid)))
  | failed {space : AddressSpace} {why : Failure} (hfree : pid ∉ k.core.spaces)
    (hmake : AddressSpace.make pid image k.config = .ok space)
    (h : k.Equips space args strategy (.error why)) :
    LoadEnds k pid image args strategy (.error why)
  | loaded {p : Process} (hfree : pid ∉ k.core.spaces)
    (hmake : AddressSpace.make pid image k.config = .ok p.space)
    (h : k.Equips p.space args strategy (.ok ())) : LoadEnds k pid image args strategy (.ok p)

/-- What comes of the arguments of a new process. -/
theorem equips_of_writeArguments {v : Kernel F} {r : Except Failure Unit}
    (hk : k.InOrder view tenants seat)
    (hmake : AddressSpace.make space.pid image k.config = .ok space)
    (hsize : argumentsSize args ≤ pageSize)
    (hcreate : k.createSpace space.pid space.pageCount = (.ok (), m))
    (hprepare : m.prepare tlb strategy space = (.ok (), u))
    (h : u.writeArguments tlb { space.newProcess args with strategy } args = (r, v)) :
    k.Equips space args strategy r := by
  obtain ⟨-, hm, hnew⟩ := createSpace_inOrder hk hcreate
  obtain ⟨hconfig, -, hreg⟩ := registered_of_createSpace hcreate
  obtain ⟨-, hu⟩ := prepare_inOrder hk hcreate hprepare
  have hplaced : u.Stocked space strategy := by
    rintro rfl
    exact preloaded_of_prepare hm.toConsistent hnew hprepare
  have hwrites : u.Writes space args r :=
    writes_of_writeArguments (p := { space.newProcess args with strategy }) hu hplaced
      (Function.update_self _ _ _) hmake rfl hsize h
  refine Equips.of_registered ?_ hreg hconfig
  cases strategy with
  | demand =>
    obtain ⟨-, rfl⟩ := Prod.mk.inj hprepare
    exact hwrites.equips_demand hnew
  | eager =>
    obtain ⟨place, hplace⟩ := hplaced rfl
    have hprepares := prepares_of_prepare hm.toConsistent hnew hprepare
    refine hwrites.equips_eager hprepares hu.toAgrees hplace fun v hv => ?_
    obtain ⟨-, -, ⟨-, hmoves, -⟩ | ⟨⟨_, hr⟩, -⟩⟩ := prepare_spec hm.toAgrees hnew hprepare
    · exact hmoves.keeps hv
    · cases hr

/-- **There are as many ends to making a process.** -/
theorem loadEnds_of_loadAs {r : Except Failure Process} (hk : k.InOrder view tenants seat)
    (hsize : argumentsSize args ≤ pageSize)
    (h : k.loadAs tlb pid image args strategy = (r, k')) :
    k.LoadEnds pid image args strategy r := by
  cases loads_of_loadAs h with
  | unmade hmake => exact .unmade hmake
  | unregistered hmake hcreate =>
    obtain rfl := space_pid_of_make hmake
    obtain ⟨rfl, hmem, -⟩ := createSpace_error hcreate
    exact .taken hmem
  | unprepared hmake hcreate hprepare habandon =>
    obtain rfl := space_pid_of_make hmake
    obtain ⟨-, hm, hnew⟩ := createSpace_inOrder hk hcreate
    obtain ⟨hconfig, -, hreg⟩ := registered_of_createSpace hcreate
    obtain ⟨hserves, -⟩ := prepare_serves hm.toAgrees hnew hprepare
    obtain ⟨rfl, -⟩ := serves_of_abandon hk.toConsistent hcreate hserves habandon
    exact .failed hreg.not_mem hmake
      ((prepares_of_prepare hm.toConsistent hnew hprepare).equips.of_registered hreg hconfig)
  | unwritten hmake hcreate hprepare hwrite habandon =>
    obtain rfl := space_pid_of_make hmake
    obtain ⟨-, hm, hnew⟩ := createSpace_inOrder hk hcreate
    obtain ⟨-, -, hreg⟩ := registered_of_createSpace hcreate
    obtain ⟨hserves, -⟩ := prepare_serves hm.toAgrees hnew hprepare
    obtain ⟨hserves', -⟩ := writeArguments_serves (hserves.agrees hm.toAgrees) hwrite
    obtain ⟨rfl, -⟩ :=
      serves_of_abandon hk.toConsistent hcreate (hserves.trans hserves') habandon
    exact .failed hreg.not_mem hmake
      (equips_of_writeArguments hk hmake hsize hcreate hprepare hwrite)
  | loaded hmake hcreate hprepare hwrite =>
    obtain rfl := space_pid_of_make hmake
    obtain ⟨-, -, hreg⟩ := registered_of_createSpace hcreate
    exact .loaded hreg.not_mem hmake
      (equips_of_writeArguments hk hmake hsize hcreate hprepare hwrite)

/-- **So there are to loading a program**, if its arguments fit a page. -/
theorem loadEnds_of_load {r : Except Failure Process} (hk : k.InOrder view tenants seat)
    (hids : k.pids.Sound) (hsize : argumentsSize args ≤ pageSize)
    (h : k.load tlb image args strategy = (r, k')) :
    k.LoadEnds k.pids.alloc.1 image args strategy r := by
  have hends : ∀ {x m}, ({ k with pids := k.pids.alloc.2 } : Kernel F).loadAs tlb k.pids.alloc.1
      image args strategy = (x, m) → k.LoadEnds k.pids.alloc.1 image args strategy x := by
    intro x m hload
    cases loadEnds_of_loadAs (k := { k with pids := k.pids.alloc.2 }) hk hsize hload with
    | unmade hmake => exact .unmade hmake
    | overflowed hwords => exact .overflowed hwords
    | taken hmem => exact .taken hmem
    | failed hfree hmake h => exact .failed hfree hmake (h.of_same rfl rfl rfl)
    | loaded hfree hmake h => exact .loaded hfree hmake (h.of_same rfl rfl rfl)
  cases loadsNext_of_load h with
  | tooLong hargs => exact absurd hargs (Nat.not_lt_of_le hsize)
  | overflowed _ hwords => exact .overflowed hwords
  | loaded _ hload => exact hends hload
  | halted _ hload => exact hends hload
  | failed _ hload _ => exact hends hload
  | undropped _ hload hdrop =>
    have hbase : ({ k with pids := k.pids.alloc.2 } : Kernel F).Consistent := hk.toConsistent
    obtain ⟨-, hserves, -⟩ := loadAs_undone hbase hload
    obtain ⟨hok, -⟩ := dropPid_alloc hids hserves.pids hdrop
    cases hok

namespace LoadEnds

variable {r : Except Failure Process} {p : Process}

/-- A process is only in the way of one with its pid. -/
theorem taken_of_exists {q : Pid} (h : k.LoadEnds pid image args strategy r)
    (hr : r = .error (.error (.addressSpaceExists q))) : q = pid ∧ pid ∈ k.core.spaces := by
  subst hr
  cases h with
  | unmade hmake => obtain he | ⟨_, he⟩ := make_error hmake <;> cases he
  | taken hmem => exact ⟨rfl, hmem⟩
  | failed _ _ h =>
    cases h with
    | unsuited _ hwhy => obtain ⟨_, he⟩ | ⟨_, he⟩ := hwhy <;> cases he

/-- A program that was loaded suits the machine. -/
theorem suits (h : k.LoadEnds pid image args strategy (.ok p)) :
    AddressSpace.make pid image k.config = .ok p.space ∧ p.space.Suits k.config args strategy := by
  cases h with
  | loaded _ hmake h =>
    cases h with
    | equipped hsuits _ => exact ⟨hmake, hsuits⟩

/-- **A program that suits the machine is loaded exactly if there are enough frames**, unless its
pid has an address space, and then that is the answer, or a transfer comes up short. -/
theorem iff_room (h : k.LoadEnds pid image args strategy r)
    (hmake : AddressSpace.make pid image k.config = .ok space)
    (hsuits : space.Suits k.config args strategy) :
    (pid ∈ k.core.spaces ∧ r = .error (.error (.addressSpaceExists pid))) ∨
      pid ∉ k.core.spaces ∧
        ((r = .error (.error .shortTransfer) ∧ ∀ v : ReliableView F, ¬ v.Keeps k.swap) ∨
          ((∃ p, r = .ok p) ↔ space.framesNeeded args strategy ≤ k.unpinned.card)) := by
  cases h with
  | unmade hmake' => cases hmake.symm.trans hmake'
  | overflowed hwords =>
    rw [AddressSpace.overflows_of_make hmake] at hwords
    cases hwords
  | taken hmem => exact .inl ⟨hmem, rfl⟩
  | failed hfree hmake' h =>
    obtain rfl := Except.ok.inj (hmake.symm.trans hmake')
    refine .inr ⟨hfree, ?_⟩
    cases h with
    | unsuited hnot _ => exact absurd hsuits hnot
    | crowded hfew =>
      exact .inr (iff_of_false (fun ⟨_, hp⟩ => nomatch hp) (Nat.not_le.2 hfew))
    | short hfails => exact .inl ⟨rfl, hfails⟩
  | loaded hfree hmake' h =>
    obtain rfl := Except.ok.inj (hmake.symm.trans hmake')
    cases h with
    | equipped _ hroom => exact .inr ⟨hfree, .inr (iff_of_true ⟨_, rfl⟩ hroom)⟩

end LoadEnds

/-- **A program is refused because of an address space only if its own pid has one.** -/
theorem taken_of_load {r : Except Failure Process} {q : Pid} (hk : k.InOrder view tenants seat)
    (hids : k.pids.Sound) (h : k.load tlb image args strategy = (r, k'))
    (hr : r = .error (.error (.addressSpaceExists q))) :
    q = k.pids.alloc.1 ∧ k.pids.alloc.1 ∈ k.core.spaces := by
  by_cases hsize : argumentsSize args ≤ pageSize
  · exact (loadEnds_of_load hk hids hsize h).taken_of_exists hr
  · rw [(load_served hk h).1.2 (Nat.lt_of_not_le hsize)] at hr
    cases hr

/-- A program that is loaded suits the machine, and so do its arguments. -/
theorem suits_of_load {p : Process} (hk : k.InOrder view tenants seat) (hids : k.pids.Sound)
    (h : k.load tlb image args strategy = (.ok p, k')) : argumentsSize args ≤ pageSize ∧
      AddressSpace.make k.pids.alloc.1 image k.config = .ok p.space ∧
      p.space.Suits k.config args strategy := by
  have hsize := ((load_served hk h).2 p rfl).1
  exact ⟨hsize, (loadEnds_of_load hk hids hsize h).suits⟩

/-- **One that suits the machine in another process is loaded exactly if there are enough frames**,
unless its own pid has an address space, and then that is the answer, or a transfer comes up
short. -/
theorem load_iff_room {r : Except Failure Process} (hk : k.InOrder view tenants seat)
    (hids : k.pids.Sound) (hsize : argumentsSize args ≤ pageSize)
    (hmake : AddressSpace.make pid image k.config = .ok space)
    (hsuits : space.Suits k.config args strategy)
    (h : k.load tlb image args strategy = (r, k')) :
    (k.pids.alloc.1 ∈ k.core.spaces ∧
        r = .error (.error (.addressSpaceExists k.pids.alloc.1))) ∨
      k.pids.alloc.1 ∉ k.core.spaces ∧
        ((r = .error (.error .shortTransfer) ∧ ∀ v : ReliableView F, ¬ v.Keeps k.swap) ∨
          ((∃ p, r = .ok p) ↔ space.framesNeeded args strategy ≤ k.unpinned.card)) := by
  have hends := loadEnds_of_load hk hids hsize h
  have hmake' := AddressSpace.make_of_make hmake k.pids.alloc.1
  generalize hnew : ({ space with pid := k.pids.alloc.1 } : AddressSpace) = new at hmake'
  have hneeded : new.framesNeeded args strategy = space.framesNeeded args strategy := by
    subst hnew
    cases strategy <;> rfl
  rw [← hneeded]
  refine hends.iff_room hmake' ?_
  subst hnew
  exact ⟨hsuits.arguments, hsuits.eager⟩

/-! ## Whoever has the pid -/

/-- The kernel stays in order when a process is made, whether or not another has the pid. -/
theorem inOrder_of_loadAs {r : Except Failure Process} (hk : k.InOrder view tenants seat)
    (h : k.loadAs tlb pid image args strategy = (r, k')) :
    ∃ tenants', k'.InOrder view tenants' seat := by
  cases hpid : tenants pid with
  | none =>
    obtain ⟨-, ⟨-, hk'⟩ | ⟨p, -, -, -, -, hk'⟩⟩ := loadAs_inOrder hk hpid h
    · exact ⟨_, hk'⟩
    · exact ⟨_, hk'⟩
  | some T =>
    have hspaces := (hk.lodged.space hpid).2.1
    cases r with
    | error why =>
      have hmem := Std.ExtTreeMap.mem_iff_isSome_getElem?.2 (Option.isSome_of_eq_some hspaces)
      obtain rfl := (loadAs_undone hk.toConsistent h).2.2 hmem
      exact ⟨_, hk⟩
    | ok p =>
      cases loads_of_loadAs h with
      | loaded hmake hcreate hprepare hwrite =>
        obtain rfl := space_pid_of_make hmake
        obtain ⟨-, -, hreg⟩ := registered_of_createSpace hcreate
        cases hreg.absent.symm.trans hspaces

/-- **The kernel stays in order when a program is loaded.** -/
theorem inOrder_of_load {r : Except Failure Process} (hk : k.InOrder view tenants seat)
    (hids : k.pids.Sound) (h : k.load tlb image args strategy = (r, k')) :
    ∃ tenants', k'.InOrder view tenants' seat := by
  have hbase : ({ k with pids := k.pids.alloc.2 } : Kernel F).InOrder view tenants seat := hk
  have hdropped : ∀ {why x m t}, ({ k with pids := k.pids.alloc.2 } : Kernel F).loadAs tlb
      k.pids.alloc.1 image args strategy = (.error why, m) → m.dropPid k.pids.alloc.1 = (x, t) →
      ∃ tenants', t.InOrder view tenants' seat := by
    intro why x m t hload hdrop
    obtain ⟨tenants', hm⟩ := inOrder_of_loadAs hbase hload
    obtain ⟨-, hserves, -⟩ := loadAs_undone hbase.toConsistent hload
    obtain ⟨-, ids, -, -, rfl⟩ := dropPid_alloc hids hserves.pids hdrop
    exact ⟨tenants', inOrder_note hm _⟩
  cases loadsNext_of_load h with
  | tooLong => exact ⟨_, hk⟩
  | overflowed => exact ⟨_, hk⟩
  | loaded _ hload => exact (inOrder_of_loadAs hbase hload).imp fun _ hm => inOrder_note hm _
  | halted _ hload => exact inOrder_of_loadAs hbase hload
  | failed _ hload hdrop => exact hdropped hload hdrop
  | undropped _ hload hdrop => exact hdropped hload hdrop

end Kernel

end DemandPaging
