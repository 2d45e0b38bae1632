import DemandPaging.Proofs.InOrder
import DemandPaging.Proofs.PlainMemory

/-!
# The kernel keeps everything in order

A miss that is resolved keeps the kernel in order; so does a copy, which on top of that yields
the bytes of the plain memory of the process, and changes it as it changes the pages.

* `Kernel.handleMiss_inOrder`, `Kernel.accessPage_inOrder` — one page.
* `Kernel.copy_inOrder`, `Kernel.readMemory_inOrder`, `Kernel.writeMemory_inOrder` — ranges of
  addresses.
* `Kernel.load_inOrder` — a new process starts with its program and its arguments.
-/

namespace DemandPaging

/-- The plain memory that a process starts with: its program, and its arguments where they
belong. -/
def Process.startMemory (p : Process) (args : List String) : Memory :=
  p.space.initialMemory.write ⟨p.registers.argv.val⟩ (Kernel.argumentBlock p.registers.argv args)

namespace Kernel

open Paging

variable {F : Type}

/-- Settings, ids and the shape of all tables stay as they are. -/
structure Stays (k k' : Kernel F) : Prop extends SameShape k.toPaging k'.toPaging where
  config : k'.config = k.config
  pids : k'.pids = k.pids

namespace Stays

variable {k m k' : Kernel F}

theorem refl (k : Kernel F) : Stays k k := ⟨SameShape.refl _, rfl, rfl⟩

theorem trans (h : Stays k m) (h' : Stays m k') : Stays k k' :=
  ⟨h.toSameShape.trans h'.toSameShape, h'.config.trans h.config, h'.pids.trans h.pids⟩

theorem note (k : Kernel F) (e : Event) : Stays k (k.note e) :=
  ⟨(quiet_note k.toPaging e).toSameShape, rfl, rfl⟩

end Stays

variable [BackingFile F] {view : Option (FileView F)} {tenants : Pid → Option Tenant}
  {seat : TlbId → Option Pid} {k k' : Kernel F} {tlb : TlbId} {space : AddressSpace}
  {strategy : Strategy} {memory : Memory} {access : Access}

theorem inOrder_note (hk : k.InOrder view tenants seat) (e : Event) :
    (k.note e).InOrder view tenants seat :=
  hk.quiet (quiet_note _ _)

/-! ## One page -/

/-- **A miss on a page that the TLB lacks** is resolved for the process that works there. -/
theorem handleMiss_inOrder {address : VirtAddr} {r : Except Failure Nat}
    (hk : k.InOrder view tenants seat) (hT : tenants space.pid = some ⟨space, memory⟩)
    (hseat : seat tlb = some space.pid)
    (habsent : ∀ n, (k.slot tlb n).valid = true → (k.slot tlb n).page ≠ address.page)
    (h : k.handleMiss tlb space strategy address = (r, k')) :
    Stays k k' ∧ k'.InOrder view tenants seat := by
  obtain ⟨hconfig, hpids, m, hmoves, hrest⟩ := handleMiss_spec hk.toAgrees h
  have hm := hk.moves hmoves hT rfl
  rcases hrest with ⟨-, -, hend, -⟩ | ⟨e, i, u, -, -, hattached, he, -, hinst, hquiet⟩
  · exact ⟨⟨hend ▸ hmoves.sameShape, hconfig, hpids⟩, hend ▸ hm⟩
  · have hpage : e.page = address.page := (hm.entry he).1
    have hnew : ∀ n, (m.slot tlb n).valid = true → (m.slot tlb n).page ≠ e.page := by
      intro n hv
      have hsame := Moves.slot hmoves hv
      rw [hsame] at hv
      rw [hsame, hpage]
      exact habsent n hv
    have hu := hm.installed hinst hattached hseat (by rw [hpage]; exact he) hnew
    exact ⟨⟨(hmoves.sameShape.trans hinst.toSameShape).trans hquiet.toSameShape, hconfig, hpids⟩,
      hu.quiet hquiet⟩

/-- A page of a process was found as `old` and changed.  The kernel is in order if the plain memory
of the process changes in the same way. -/
structure Turned (view : Option (FileView F)) (tenants : Pid → Option Tenant)
    (seat : TlbId → Option Pid) (pid : Pid) (space : AddressSpace) (memory : Memory)
    (p : PageNumber) (change : Page → Page) (old : Page) (k' : Kernel F) : Prop where
  inside : p.val < memory.frameCount
  found : (∃ w, view = some w) → old = memory.frame ⟨p.val⟩
  inOrder : ∀ memory' : Memory, memory'.frameCount = memory.frameCount →
    (∀ n, memory'.frame ⟨n⟩ =
      if n = p.val then change (memory.frame ⟨p.val⟩) else memory.frame ⟨n⟩) →
    k'.InOrder view (Function.update tenants pid (some ⟨space, memory'⟩)) seat

/-- **An access that has got at its next page** has moved one more piece. -/
theorem Turned.append {pid : Pid} {a stop : Nat} {q : Piece} {qs : List Piece} {moved : Bytes}
    {old : Page} {T : Tenant}
    (h : Turned view (Function.update tenants pid (some T)) seat pid space
      (access.after memory a moved) q.address.page (access.change q) old k')
    (hqs : Pieces a moved.size stop (q :: qs))
    (hdata : ∀ data, access = .store data → stop ≤ data.size)
    (hmoved : access.Moved (∃ w, view = some w) memory a moved) :
    ∃ moved', moved' = moved ++ (access.change q old).slice q.address.offset q.size ∧
      Pieces a moved'.size stop qs ∧ access.Moved (∃ w, view = some w) memory a moved' ∧
      k'.InOrder view
        (Function.update tenants pid (some ⟨space, access.after memory a moved'⟩)) seat := by
  obtain ⟨-, hfits⟩ := hqs.fits hdata
  cases hqs with
  | cons haddress hplace hpage hrest =>
      have hin := h.inside
      rw [Access.frameCount_after] at hin
      obtain ⟨hmoved', hframes⟩ := hmoved.append haddress hplace hpage hin hfits h.found rfl
      have hk := h.inOrder _ (by simp only [Access.frameCount_after]) hframes
      rw [Function.update_idem] at hk
      refine ⟨_, rfl, ?_, hmoved', hk⟩
      rwa [Array.size_append, Page.slice, Bytes.size_slice (by rw [Vector.size_toArray]; exact hpage)]

/-- **What the kernel finds on a page is what the plain memory has there**, and what it makes of
the page is made of the plain memory, too. -/
theorem accessPage_inOrder {p : PageNumber} {writing : Bool} {change : Page → Page}
    {r : Except Failure (Option Page)} (hk : k.InOrder view tenants seat)
    (hT : tenants space.pid = some ⟨space, memory⟩)
    (hchange : writing = false → ∀ page, change page = page)
    (h : k.accessPage tlb space strategy p writing change = (r, k')) :
    Stays k k' ∧
      ((((∃ err, r = .error (.error err)) ∨ r = .ok none) ∧ k'.InOrder view tenants seat) ∨
        ∃ old, r = .ok (some (change old)) ∧
          Turned view tenants seat space.pid space memory p change old k') := by
  obtain ⟨hconfig, hpids, m, hmoves, hrest⟩ := accessPage_spec hk.toAgrees h
  have hm := hk.moves hmoves hT rfl
  rcases hrest with ⟨err, rfl, hend, -⟩ | ⟨rfl, hend, -⟩ | ⟨e, f, hr, he, hf, hro, hrange, hcopied⟩
  · exact ⟨⟨hend ▸ hmoves.sameShape, hconfig, hpids⟩, Or.inl ⟨Or.inl ⟨err, rfl⟩, hend ▸ hm⟩⟩
  · exact ⟨⟨hend ▸ hmoves.sameShape, hconfig, hpids⟩, Or.inl ⟨Or.inr rfl, hend ▸ hm⟩⟩
  · have hin : p.val < memory.frameCount := by
      have hlt := hk.lodged.lt_of_inRange hT hrange
      rwa [(hk.lodged.space hT).2.2]
    have hold : (∃ w, view = some w) → m.frame f = memory.frame ⟨p.val⟩ := by
      rintro ⟨w, hw⟩
      exact (hm.faithful hw).resident he hf hT
    refine ⟨⟨hmoves.sameShape.trans hcopied.toSameShape, hconfig, hpids⟩,
      Or.inr ⟨m.frame f, hr, hin, hold, fun memory' hcount hframes => ?_⟩⟩
    refine hm.copied hcopied he hf hro hT rfl hcount (fun {w} hw q => ?_) fun hw => hchange hw _
    rw [hold ⟨w, hw⟩]
    exact Tenant.page_of_frames hframes q

/-! ## Ranges of addresses -/

/-- **The pieces of a range are copied** as if the process had a plain memory of its own. -/
theorem copyPieces_inOrder {p : Process} {a stop : Nat} {qs : List Piece} {moved : Bytes}
    {c : Copied} (hqs : Pieces a moved.size stop qs)
    (hdata : ∀ data, access = .store data → stop ≤ data.size)
    (hmoved : access.Moved (∃ w, view = some w) memory a moved) (hpid : p.space.pid = p.pid)
    (hk : k.InOrder view
      (Function.update tenants p.pid (some ⟨p.space, access.after memory a moved⟩)) seat)
    (h : copyPieces tlb p access qs moved k = (c, k')) :
    Stays k k' ∧ (∀ why, c.failure ≠ some (.halt why)) ∧
      access.Moved (∃ w, view = some w) memory a c.moved ∧
      k'.InOrder view
        (Function.update tenants p.pid (some ⟨p.space, access.after memory a c.moved⟩)) seat := by
  induction qs generalizing k moved with
  | nil =>
      obtain ⟨rfl, rfl⟩ := Prod.mk.inj h
      exact ⟨.refl k, (fun _ heq => by cases heq), hmoved, hk⟩
  | cons q qs ih =>
      unfold copyPieces at h
      cases ha : k.accessPage tlb p.space p.strategy q.address.page access.writing
          (access.change q) with
      | mk r m =>
          rw [ha] at h
          have hT : Function.update tenants p.pid
              (some ⟨p.space, access.after memory a moved⟩) p.space.pid =
                some ⟨p.space, access.after memory a moved⟩ := by
            rw [hpid, Function.update_self]
          obtain ⟨hstays, ⟨hstop, hm⟩ | ⟨old, rfl, hturned⟩⟩ :=
            accessPage_inOrder hk hT (fun hw => Access.change_of_not_writing hw q) ha
          · rcases hstop with ⟨err, rfl⟩ | rfl
            · obtain ⟨rfl, rfl⟩ := Prod.mk.inj h
              exact ⟨hstays, (fun _ heq => by cases heq), hmoved, hm⟩
            · obtain ⟨rfl, rfl⟩ := Prod.mk.inj h
              exact ⟨hstays, (fun _ heq => by cases heq), hmoved, hm⟩
          · rw [hpid] at hturned
            obtain ⟨_, rfl, hrest, hmoved', hm⟩ := hturned.append hqs hdata hmoved
            obtain ⟨hstays', hend⟩ := ih hrest hmoved' hm h
            exact ⟨hstays.trans hstays', hend⟩

theorem copy_inOrder {p : Process} {address : VirtAddr} {count : Nat} {c : Copied}
    (hk : k.InOrder view tenants seat) (hT : tenants p.pid = some ⟨p.space, memory⟩)
    (hdata : ∀ data, access = .store data → count ≤ data.size)
    (h : k.copy tlb p address count access = (c, k')) :
    Stays k k' ∧ (∀ why, c.failure ≠ some (.halt why)) ∧
      access.Moved (∃ w, view = some w) memory address.val c.moved ∧
      k'.InOrder view
        (Function.update tenants p.pid (some ⟨p.space, access.after memory address.val c.moved⟩))
        seat := by
  have hpid : p.space.pid = p.pid := (hk.lodged.space hT).1
  have hempty := access.moved_empty (∃ w, view = some w) memory address.val
  have hstart : k.InOrder view
      (Function.update tenants p.pid (some ⟨p.space, access.after memory address.val #[]⟩)) seat :=
    hk.tenant_congr hT rfl (access.frameCount_after _ _ _) fun q =>
      access.frame_after_empty memory address.val q.val
  unfold copy at h
  split at h
  · obtain ⟨rfl, rfl⟩ := Prod.mk.inj h
    exact ⟨.refl k, nofun, hempty, hstart⟩
  · have hqs : Pieces address.val (#[] : Bytes).size count (pieces address count) :=
      pieces_spec address count
    exact copyPieces_inOrder hqs hdata hempty hpid hstart h

omit [BackingFile F] in
theorem settle_eq_ok {pid : Pid} {c : Copied} {bytes : Bytes}
    (h : k.settle pid c = (.ok bytes, k')) : bytes = c.moved := by
  unfold settle at h
  split at h
  · exact (Except.ok.inj (Prod.mk.inj h).1).symm
  · cases (Prod.mk.inj h).1
  · split at h
    · cases (Prod.mk.inj h).1
    · exact (Except.ok.inj (Prod.mk.inj h).1).symm

omit [BackingFile F] in
theorem settle_stays {pid : Pid} {c : Copied} {r : Except Halt Bytes}
    (h : k.settle pid c = (r, k')) : Stays k k' := by
  obtain ⟨hquiet, -, hconfig, hpids⟩ := settle_quiet h
  exact ⟨hquiet.toSameShape, hconfig, hpids⟩

/-- **What the kernel reads is what the plain memory has there.** -/
theorem readMemory_inOrder {p : Process} {address : VirtAddr} {count : Nat} {bytes : Bytes}
    (hk : k.InOrder view tenants seat) (hT : tenants p.pid = some ⟨p.space, memory⟩)
    (h : k.readMemory tlb p address count = (.ok bytes, k')) :
    Stays k k' ∧ Access.load.Moved (∃ w, view = some w) memory address.val bytes ∧
      k'.InOrder view tenants seat := by
  unfold readMemory at h
  cases hc : k.copy tlb p address count .load with
  | mk c m =>
      rw [hc] at h
      obtain ⟨hstays, -, hmoved, hm⟩ := copy_inOrder hk hT (fun _ hd => by cases hd) hc
      have hsame : Function.update tenants p.pid
          (some ⟨p.space, Access.load.after memory address.val c.moved⟩) = tenants := by
        rw [Function.update_eq_self_iff, hT]
        rfl
      rw [hsame] at hm
      obtain rfl := settle_eq_ok h
      exact ⟨hstays.trans (settle_stays h), hmoved, hm.quiet (settle_quiet h).1⟩

/-- **What the kernel writes is written to the plain memory**, as far as it gets. -/
theorem writeMemory_inOrder {p : Process} {address : VirtAddr} {data : Bytes} {n : Nat}
    (hk : k.InOrder view tenants seat) (hT : tenants p.pid = some ⟨p.space, memory⟩)
    (h : k.writeMemory tlb p address data = (.ok n, k')) :
    Stays k k' ∧ (0 < n → address.val + n ≤ memory.size) ∧
      k'.InOrder view (Function.update tenants p.pid
        (some ⟨p.space, memory.write ⟨address.val⟩ (Bytes.slice data 0 n)⟩)) seat := by
  unfold writeMemory at h
  cases hc : k.copy tlb p address data.size (.store data) with
  | mk c m =>
      rw [hc] at h
      dsimp only at h
      obtain ⟨hstays, -, hmoved, hm⟩ := copy_inOrder hk hT
        (fun d hd => Nat.le_of_eq (by rw [Access.store.inj hd])) hc
      cases hs : m.settle p.pid c with
      | mk x u =>
          rw [hs] at h
          obtain ⟨hx, rfl⟩ := Prod.mk.inj h
          cases x with
          | error why => cases hx
          | ok bytes =>
              obtain rfl := settle_eq_ok hs
              obtain rfl := Except.ok.inj hx
              refine ⟨hstays.trans (settle_stays hs), hmoved.fits, ?_⟩
              rw [← hmoved.store rfl]
              exact hm.quiet (settle_quiet hs).1

theorem readText_inOrder {p : Process} {address : VirtAddr} {limit : Nat} {text : Option String}
    (hk : k.InOrder view tenants seat) (hT : tenants p.pid = some ⟨p.space, memory⟩)
    (h : k.readText tlb p address limit = (.ok text, k')) :
    Stays k k' ∧ k'.InOrder view tenants seat := by
  unfold readText at h
  split at h
  · cases (Prod.mk.inj h).1
  · cases hm : k.readMemory tlb p address (limit + 1) with
    | mk x m =>
        rw [hm] at h
        obtain ⟨hx, rfl⟩ := Prod.mk.inj h
        cases x with
        | error why => cases hx
        | ok bytes =>
            obtain ⟨hstays, -, hend⟩ := readMemory_inOrder hk hT hm
            exact ⟨hstays, hend⟩

/-! ## Address spaces -/

omit [BackingFile F] in
/-- **An address space that is taken away is gone**, whether or not there was one. -/
theorem destroySpace_gone {pid : Pid} {r : Except Failure Unit} (hk : k.Consistent)
    (h : k.destroySpace pid = (r, k')) :
    Stays k k' ∧ Gone k.toPaging k'.toPaging pid ∧ k'.Consistent ∧
      ∀ why, r ≠ .error (.halt why) := by
  obtain ⟨hconfig, hpids, ⟨rfl, hdes⟩ | ⟨rfl, hnot, rfl⟩⟩ := destroySpace_spec hk.toAgrees h
  · have hgone := hdes.gone hk.toAgrees
    exact ⟨⟨hgone.toSameShape, hconfig, hpids⟩, hgone, hdes.consistent hk, nofun⟩
  · exact ⟨.refl k', gone_of_not_mem hk hnot, hk, nofun⟩

/-! ## Loading -/

/-- A new process that has lost some pages and is then abandoned leaves nothing behind. -/
theorem abandon_inOrder {pid : Pid} {why r : Failure} {s : Paging F} {T : Tenant}
    (hpid : tenants pid = none) (hfree : ∀ id, seat id ≠ some pid)
    (hs : s.InOrder view (Function.update tenants pid (some T)) seat)
    (hlost : Lost s k.toPaging pid) (hswap : k.swap = s.swap)
    (hspaces : k.core.spaces = s.core.spaces) (hk : k.Consistent)
    (hwhy : ∃ err, why = .error err) (h : k.abandon pid why = (r, k')) :
    Stays k k' ∧ (∃ err, r = .error err) ∧ k'.InOrder view tenants seat := by
  have hseat : unseat seat pid = seat := funext fun id => if_neg (hfree id)
  have htenants : Function.update (Function.update tenants pid (some T)) pid none = tenants := by
    rw [Function.update_idem, ← hpid, Function.update_eq_self]
  obtain ⟨x, hd, hx⟩ := destroySpace_of_abandon h
  obtain ⟨hstays, hgone, hm, hhalt⟩ := destroySpace_gone hk hd
  have hend := hs.gone (hlost.gone hswap hspaces hgone) hm
  rw [htenants, hseat] at hend
  refine ⟨hstays, ?_, hend⟩
  obtain ⟨-, rfl⟩ | rfl := hx
  · exact hwhy
  · cases r with
    | halt why => exact absurd rfl (hhalt why)
    | error err => exact ⟨err, rfl⟩

theorem writeArguments_inOrder {p : Process} {args : List String} {r : Except Failure Unit}
    (hk : k.InOrder view tenants seat) (hT : tenants p.pid = some ⟨p.space, memory⟩)
    (h : k.writeArguments tlb p args = (r, k')) :
    Stays k k' ∧
      (((∃ err, r = .error (.error err)) ∧ ∃ memory', k'.InOrder view
          (Function.update tenants p.pid (some ⟨p.space, memory'⟩)) seat) ∨
        (r = .ok () ∧ k'.InOrder view (Function.update tenants p.pid (some ⟨p.space,
          memory.write ⟨p.registers.argv.val⟩ (argumentBlock p.registers.argv args)⟩)) seat)) := by
  unfold writeArguments at h
  split at h
  · rename_i hempty
    obtain ⟨rfl, rfl⟩ := Prod.mk.inj h
    obtain rfl := List.isEmpty_iff.1 hempty
    refine ⟨.refl k, Or.inr ⟨rfl, hk.tenant_congr hT rfl rfl fun q => ?_⟩⟩
    exact memory.frame_write_empty _ _
  · dsimp only at h
    cases hc : k.copy tlb p p.registers.argv (argumentBlock p.registers.argv args).size
        (.store (argumentBlock p.registers.argv args)) with
    | mk c m =>
        rw [hc] at h
        obtain ⟨hstays, hhalt, hmoved, hm⟩ := copy_inOrder hk hT
          (fun d hd => Nat.le_of_eq (by rw [Access.store.inj hd])) hc
        split at h
        · rename_i moved e k₁ heq
          obtain ⟨rfl, rfl⟩ := Prod.mk.inj heq
          obtain ⟨rfl, rfl⟩ := Prod.mk.inj h
          cases e with
          | halt why => exact absurd rfl (hhalt why)
          | error err => exact ⟨hstays, Or.inl ⟨⟨err, rfl⟩, _, hm⟩⟩
        · rename_i moved k₁ heq
          obtain ⟨rfl, rfl⟩ := Prod.mk.inj heq
          split at h
          · rename_i hall
            obtain ⟨rfl, rfl⟩ := Prod.mk.inj h
            have hblock : moved = argumentBlock p.registers.argv args := by
              have hslice := hmoved.store rfl
              rw [Bytes.slice, if_pos ⟨rfl, Nat.le_of_eq hall.symm⟩] at hslice
              exact hslice
            exact ⟨hstays, Or.inr ⟨rfl, hblock ▸ hm⟩⟩
          · obtain ⟨rfl, rfl⟩ := Prod.mk.inj h
            exact ⟨hstays, Or.inl ⟨⟨_, rfl⟩, _, hm⟩⟩

/-- A new address space is known to everybody. -/
theorem createSpace_inOrder {space : AddressSpace} {m : Kernel F} (hk : k.InOrder view tenants seat)
    (h : k.createSpace space.pid space.pageCount = (.ok (), m)) : Stays k m ∧ m.InOrder view
      (Function.update tenants space.pid (some ⟨space, space.initialMemory⟩)) seat ∧ m.New space := by
  obtain ⟨hconfig, hpids, hreg⟩ := registered_of_createSpace h
  exact ⟨⟨hreg.toSameShape, hconfig, hpids⟩, hk.registered hreg,
    new_of_registered hk.toConsistent hreg⟩

/-- Then its pages are made resident, if that is asked for. -/
theorem prepare_inOrder {space : AddressSpace} {m u : Kernel F} (hk : k.InOrder view tenants seat)
    (hcreate : k.createSpace space.pid space.pageCount = (.ok (), m))
    (h : m.prepare tlb strategy space = (.ok (), u)) : Stays k u ∧ u.InOrder view
      (Function.update tenants space.pid (some ⟨space, space.initialMemory⟩)) seat := by
  obtain ⟨hstays, hm, hnew⟩ := createSpace_inOrder hk hcreate
  obtain ⟨hconfig, hpids, ⟨-, hmoves, -⟩ | ⟨⟨_, hr⟩, -⟩⟩ := prepare_spec hm.toAgrees hnew h
  · exact ⟨hstays.trans ⟨hmoves.sameShape, hconfig, hpids⟩,
      hm.moves hmoves (Function.update_self _ _ _) rfl⟩
  · cases hr

/-- **A new process starts with its program and its arguments**; if it cannot be loaded nothing
of it stays. -/
theorem loadAs_inOrder {pid : Pid} {image : Image} {args : List String}
    {r : Except Failure Process} (hk : k.InOrder view tenants seat) (hpid : tenants pid = none)
    (h : k.loadAs tlb pid image args strategy = (r, k')) :
    Stays k k' ∧
      (((∃ err, r = .error (.error err)) ∧ k'.InOrder view tenants seat) ∨
        ∃ p, r = .ok p ∧ p.pid = pid ∧ p.snapshot = {} ∧ p.exitCode = none ∧
          k'.InOrder view (Function.update tenants pid (some ⟨p.space, p.startMemory args⟩))
            seat) := by
  -- Nobody works for the new process yet, so a failure brings all back as it was.
  have hfree : ∀ id, seat id ≠ some pid := by
    intro id hid
    obtain ⟨T, hT⟩ := hk.seated hid
    rw [hpid] at hT
    cases hT
  cases loads_of_loadAs h with
  | unmade hmake => exact ⟨.refl k, Or.inl ⟨⟨_, rfl⟩, hk⟩⟩
  | unregistered hmake hcreate =>
      obtain ⟨-, -, rfl⟩ := createSpace_error hcreate
      exact ⟨.refl _, Or.inl ⟨⟨_, rfl⟩, hk⟩⟩
  | unprepared hmake hcreate hprepare habandon =>
      obtain rfl := space_pid_of_make hmake
      obtain ⟨hstays, hm, hnew⟩ := createSpace_inOrder hk hcreate
      obtain ⟨huconfig, hupids, ⟨hr, -⟩ | ⟨⟨err, he⟩, s, hmoves, hemptied⟩⟩ :=
        prepare_spec hm.toAgrees hnew hprepare
      · cases hr
      · obtain rfl := Except.error.inj he
        have hs := hm.moves hmoves (Function.update_self _ _ _) rfl
        have hustays : Stays k _ := hstays.trans
          ⟨hmoves.sameShape.trans hemptied.steps.sameShape, huconfig, hupids⟩
        have hrest := hemptied.steps.rest
        obtain ⟨hwstays, ⟨err', rfl⟩, hw⟩ := abandon_inOrder hpid hfree hs
          (hemptied.steps.lost hs.toAgrees) hrest.1 hrest.2.2
          (hemptied.consistent hs.toConsistent) ⟨err, rfl⟩ habandon
        exact ⟨hustays.trans hwstays, Or.inl ⟨⟨err', rfl⟩, hw⟩⟩
  | unwritten hmake hcreate hprepare hwrite habandon =>
      obtain rfl := space_pid_of_make hmake
      obtain ⟨hustays, hu⟩ := prepare_inOrder hk hcreate hprepare
      obtain ⟨hvstays, ⟨⟨err, he⟩, memory', hv⟩ | ⟨hok, -⟩⟩ :=
        writeArguments_inOrder hu (Function.update_self _ _ _) hwrite
      · obtain rfl := Except.error.inj he
        dsimp only [AddressSpace.newProcess] at hv
        rw [Function.update_idem] at hv
        obtain ⟨hwstays, ⟨err', rfl⟩, hw⟩ := abandon_inOrder hpid hfree hv
          (quiet_refl _).toStill.lost rfl rfl hv.toConsistent ⟨err, rfl⟩ habandon
        exact ⟨(hustays.trans hvstays).trans hwstays, Or.inl ⟨⟨err', rfl⟩, hw⟩⟩
      · cases hok
  | loaded hmake hcreate hprepare hwrite =>
      obtain rfl := space_pid_of_make hmake
      obtain ⟨hustays, hu⟩ := prepare_inOrder hk hcreate hprepare
      obtain ⟨hvstays, ⟨⟨err, he⟩, -⟩ | ⟨-, hv⟩⟩ :=
        writeArguments_inOrder hu (Function.update_self _ _ _) hwrite
      · cases he
      · dsimp only [AddressSpace.newProcess] at hv
        rw [Function.update_idem] at hv
        exact ⟨hustays.trans hvstays, Or.inr ⟨_, rfl, rfl, rfl, rfl, hv⟩⟩

/-- What loading a program makes of the ids: an id that nobody had goes to the new process. -/
theorem load_inOrder {image : Image} {args : List String} {r : Except Failure Process}
    (hk : k.InOrder view tenants seat) (hids : k.pids.Sound)
    (htenants : ∀ pid, ¬ k.pids.live pid → tenants pid = none)
    (h : k.load tlb image args strategy = (r, k')) :
    SameShape k.toPaging k'.toPaging ∧ k'.config = k.config ∧ k'.pids.Sound ∧
      (((∃ e, r = .error (.error e)) ∨
            r = .error (.halt .overflow) ∧ AddressSpace.overflows image k.config = true) ∧
          (∀ pid, k'.pids.live pid ↔ k.pids.live pid) ∧ k'.InOrder view tenants seat ∨
        ∃ p, r = .ok p ∧ ¬ k.pids.live p.pid ∧
          (∀ pid, k'.pids.live pid ↔ k.pids.live pid ∨ pid = p.pid) ∧
          p.snapshot = {} ∧ p.exitCode = none ∧
          k'.InOrder view (Function.update tenants p.pid (some ⟨p.space, p.startMemory args⟩))
            seat) := by
  obtain ⟨hfree, hids', hlive⟩ := hids.alloc
  have hloaded {x m} (hload : ({ k with pids := k.pids.alloc.2 }).loadAs tlb k.pids.alloc.1 image args
      strategy = (x, m)) :=
    loadAs_inOrder (k := { k with pids := k.pids.alloc.2 }) hk (htenants _ hfree) hload
  cases loadsNext_of_load h with
  | tooLong hargs =>
      exact ⟨SameShape.refl _, rfl, hids, Or.inl ⟨Or.inl ⟨_, rfl⟩, fun _ => Iff.rfl, hk⟩⟩
  | overflowed _ hwords =>
      exact ⟨SameShape.refl _, rfl, hids, Or.inl ⟨Or.inr ⟨rfl, hwords⟩, fun _ => Iff.rfl, hk⟩⟩
  | @loaded p m hargs hload =>
      obtain ⟨hstays, ⟨⟨err, hr⟩, -⟩ | ⟨p, hr, hp, hsnapshot, hexit, hm⟩⟩ := hloaded hload
      · cases hr
      · obtain rfl := Except.ok.inj hr
        have hpids : m.pids = k.pids.alloc.2 := hstays.pids
        rw [← hp] at hfree hlive hm
        refine ⟨hstays.toSameShape.trans (quiet_note _ _).toSameShape, hstays.config, ?_,
          Or.inr ⟨_, rfl, hfree, fun pid => ?_, hsnapshot, hexit, inOrder_note hm _⟩⟩
        · exact hpids.symm ▸ hids'
        · exact hpids.symm ▸ hlive pid
  | halted hargs hload =>
      obtain ⟨-, ⟨⟨err, hr⟩, -⟩ | ⟨p, hr, -⟩⟩ := hloaded hload
      · cases hr
      · cases hr
  | failed hargs hload hdrop =>
      obtain ⟨hstays, ⟨-, hm⟩ | ⟨p, hr, -⟩⟩ := hloaded hload
      · obtain ⟨-, ids, hids'', hlive', rfl⟩ := dropPid_alloc hids hstays.pids hdrop
        exact ⟨hstays.toSameShape.trans (quiet_note _ _).toSameShape, hstays.config, hids'',
          Or.inl ⟨Or.inl ⟨_, rfl⟩, hlive', inOrder_note hm _⟩⟩
      · cases hr
  | undropped hargs hload hdrop =>
      obtain ⟨hstays, -⟩ := hloaded hload
      obtain ⟨hr, -⟩ := dropPid_alloc hids hstays.pids hdrop
      cases hr

end Kernel

end DemandPaging
