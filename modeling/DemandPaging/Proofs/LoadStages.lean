import DemandPaging.Process

/-!
# The stages of loading a program

A program is loaded in stages: its address space is made and registered, its pages are made resident
if that is asked for, and its arguments are written.  Here it is said once how each way through them
ends, and what the new process starts with.

* `AddressSpace.eq_of_make` — the layout of a program.
* `AddressSpace.newProcess` — what a process starts with.
* `Kernel.Loads` — how a process of a given id is made, or not.
* `Kernel.LoadsNext` — how a program is loaded with the next id, or not.
-/

namespace DemandPaging

/-! ## New processes -/

namespace AddressSpace

variable {pid : Pid} {image : Image} {config : MachineConfig} {space : AddressSpace}

/-- The layout of a program. -/
theorem eq_of_make (h : make pid image config = .ok space) :
    space = ⟨pid, image, image.pageCount, config.stackPages, config.argPages⟩ := by
  unfold make at h
  split at h
  · cases h
  · dsimp only at h
    split at h
    · cases h
    · exact (Except.ok.inj h).symm

theorem image_of_make (h : make pid image config = .ok space) : space.image = image := by
  rw [eq_of_make h]

/-- What a process starts with. -/
def registers (space : AddressSpace) (args : List String) : Registers :=
  { pc := space.image.entry, sp := space.initialStack, argc := args.length, argv := space.argBase }

/-- A new process in an address space, whose pages become resident on demand. -/
def newProcess (space : AddressSpace) (args : List String) : Process :=
  { pid := space.pid, space, strategy := .demand, registers := space.registers args }

end AddressSpace

namespace Kernel

variable {F : Type} {pid : Pid} {image : Image} {args : List String} {strategy : Strategy}
  {config : MachineConfig} {space : AddressSpace}

theorem space_pid_of_make (h : AddressSpace.make pid image config = .ok space) :
    space.pid = pid := by
  rw [AddressSpace.eq_of_make h]

variable {k k' : Kernel F}

/-- What failed before is the answer, unless the address space cannot be taken away. -/
theorem destroySpace_of_abandon {why r : Failure} (h : k.abandon pid why = (r, k')) :
    ∃ x, k.destroySpace pid = (x, k') ∧ ((x = .ok () ∧ r = why) ∨ x = .error r) := by
  unfold abandon at h
  split at h <;> rename_i hd <;> obtain ⟨rfl, rfl⟩ := Prod.mk.inj h
  · exact ⟨_, hd, .inl ⟨rfl, rfl⟩⟩
  · exact ⟨_, hd, .inr rfl⟩

variable [BackingFile F] {tlb : TlbId}

/-! ## Stages -/

/-- How a process of a given id is made, or not. -/
inductive Loads (k : Kernel F) (tlb : TlbId) (pid : Pid) (image : Image) (args : List String)
    (strategy : Strategy) : Except Failure Process → Kernel F → Prop
  | unmade {e : PagingError} (hmake : AddressSpace.make pid image k.config = .error e) :
    Loads k tlb pid image args strategy (.error (.error e)) k
  | unregistered {space : AddressSpace} {e : PagingError} {t : Kernel F}
    (hmake : AddressSpace.make pid image k.config = .ok space)
    (hcreate : k.createSpace space.pid space.pageCount = (.error e, t)) :
    Loads k tlb pid image args strategy (.error (.error e)) t
  | unprepared {space : AddressSpace} {why r : Failure} {m u t : Kernel F}
    (hmake : AddressSpace.make pid image k.config = .ok space)
    (hcreate : k.createSpace space.pid space.pageCount = (.ok (), m))
    (hprepare : m.prepare tlb strategy space = (.error why, u))
    (habandon : u.abandon space.pid why = (r, t)) :
    Loads k tlb pid image args strategy (.error r) t
  | unwritten {space : AddressSpace} {why r : Failure} {m u v t : Kernel F}
    (hmake : AddressSpace.make pid image k.config = .ok space)
    (hcreate : k.createSpace space.pid space.pageCount = (.ok (), m))
    (hprepare : m.prepare tlb strategy space = (.ok (), u))
    (hwrite : u.writeArguments tlb { space.newProcess args with strategy } args = (.error why, v))
    (habandon : v.abandon space.pid why = (r, t)) :
    Loads k tlb pid image args strategy (.error r) t
  | loaded {space : AddressSpace} {m u t : Kernel F}
    (hmake : AddressSpace.make pid image k.config = .ok space)
    (hcreate : k.createSpace space.pid space.pageCount = (.ok (), m))
    (hprepare : m.prepare tlb strategy space = (.ok (), u))
    (hwrite : u.writeArguments tlb { space.newProcess args with strategy } args = (.ok (), t)) :
    Loads k tlb pid image args strategy (.ok { space.newProcess args with strategy }) t

/-- How a program is loaded with the next id, or not. -/
inductive LoadsNext (k : Kernel F) (tlb : TlbId) (image : Image) (args : List String)
    (strategy : Strategy) : Except Failure Process → Kernel F → Prop
  | tooLong (hargs : pageSize < argumentsSize args) :
    LoadsNext k tlb image args strategy (.error (.error .argumentsTooLong)) k
  | overflowed (hargs : ¬ pageSize < argumentsSize args)
    (hwords : AddressSpace.overflows image k.config = true) :
    LoadsNext k tlb image args strategy (.error (.halt .overflow)) k
  | loaded {p : Process} {m : Kernel F} (hargs : ¬ pageSize < argumentsSize args)
    (hload : ({ k with pids := k.pids.alloc.2 }).loadAs tlb k.pids.alloc.1 image args strategy =
      (.ok p, m)) :
    LoadsNext k tlb image args strategy (.ok p)
      (m.note (.processLoaded k.pids.alloc.1 p.space.pageCount strategy))
  | halted {why : Halt} {m : Kernel F} (hargs : ¬ pageSize < argumentsSize args)
    (hload : ({ k with pids := k.pids.alloc.2 }).loadAs tlb k.pids.alloc.1 image args strategy =
      (.error (.halt why), m)) : LoadsNext k tlb image args strategy (.error (.halt why)) m
  | failed {e : PagingError} {m t : Kernel F} (hargs : ¬ pageSize < argumentsSize args)
    (hload : ({ k with pids := k.pids.alloc.2 }).loadAs tlb k.pids.alloc.1 image args strategy =
      (.error (.error e), m)) (hdrop : m.dropPid k.pids.alloc.1 = (.ok (), t)) :
    LoadsNext k tlb image args strategy (.error (.error e)) t
  | undropped {e : PagingError} {why : Halt} {m t : Kernel F}
    (hargs : ¬ pageSize < argumentsSize args)
    (hload : ({ k with pids := k.pids.alloc.2 }).loadAs tlb k.pids.alloc.1 image args strategy =
      (.error (.error e), m)) (hdrop : m.dropPid k.pids.alloc.1 = (.error why, t)) :
    LoadsNext k tlb image args strategy (.error (.halt why)) t

/-! ## The operations go through them -/

theorem loads_of_loadAs {r : Except Failure Process}
    (h : k.loadAs tlb pid image args strategy = (r, k')) :
    k.Loads tlb pid image args strategy r k' := by
  unfold loadAs at h
  cases hmake : AddressSpace.make pid image k.config with
  | error e =>
      rw [hmake] at h
      obtain ⟨rfl, rfl⟩ := Prod.mk.inj h
      exact .unmade hmake
  | ok space =>
      rw [hmake] at h
      dsimp only at h
      obtain rfl := space_pid_of_make hmake
      obtain rfl := AddressSpace.image_of_make hmake
      cases hcreate : k.createSpace space.pid space.pageCount with
      | mk x m =>
          rw [hcreate] at h
          cases x with
          | error e =>
              obtain ⟨rfl, rfl⟩ := Prod.mk.inj h
              exact .unregistered hmake hcreate
          | ok _ =>
              dsimp only at h
              cases hprepare : m.prepare tlb strategy space with
              | mk y u =>
                  rw [hprepare] at h
                  cases y with
                  | error why =>
                      obtain ⟨rfl, rfl⟩ := Prod.mk.inj h
                      exact .unprepared hmake hcreate hprepare rfl
                  | ok _ =>
                      dsimp only at h
                      split at h
                      · rename_i hwrite
                        obtain ⟨rfl, rfl⟩ := Prod.mk.inj h
                        exact .unwritten hmake hcreate hprepare hwrite rfl
                      · rename_i hwrite
                        obtain ⟨rfl, rfl⟩ := Prod.mk.inj h
                        exact .loaded hmake hcreate hprepare hwrite

theorem loadsNext_of_load {r : Except Failure Process}
    (h : k.load tlb image args strategy = (r, k')) : k.LoadsNext tlb image args strategy r k' := by
  unfold load at h
  split at h
  · rename_i hargs
    obtain ⟨rfl, rfl⟩ := Prod.mk.inj h
    exact .tooLong hargs
  · rename_i hargs
    split at h
    · rename_i hwords
      obtain ⟨rfl, rfl⟩ := Prod.mk.inj h
      exact .overflowed hargs hwords
    · dsimp only at h
      cases hload : ({ k with pids := k.pids.alloc.2 }).loadAs tlb k.pids.alloc.1 image args
          strategy with
      | mk x m =>
          rw [hload] at h
          cases x with
          | ok p =>
              obtain ⟨rfl, rfl⟩ := Prod.mk.inj h
              exact .loaded hargs hload
          | error e =>
              cases e with
              | halt why =>
                  obtain ⟨rfl, rfl⟩ := Prod.mk.inj h
                  exact .halted hargs hload
              | error e =>
                  dsimp only at h
                  split at h <;> rename_i hdrop <;> obtain ⟨rfl, rfl⟩ := Prod.mk.inj h
                  · exact .failed hargs hload hdrop
                  · exact .undropped hargs hload hdrop

end Kernel

end DemandPaging
