import DemandPaging.Proofs.Holdings

/-!
# Copies take what is to be had

The kernel reads the memory of a process up to where its address space ends, and writes it up to the
first read-only page, as long as there are frames to be had.  It moves exactly these bytes, even if
the pages of the range drive each other out of memory meanwhile.

* `Machine.perform_read`, `Machine.perform_write` — only the kernel has anything to do with copies.
* `Machine.Reads`, `Machine.Writes` — what a machine answers, and what it has done to all bytes.
* `Machine.Copies`, `Machine.copies_of_orderly` — so it does at any time when it is asked to read or
  to write.
-/

namespace DemandPaging

open Paging Kernel

variable {F : Type}

/-! ## Strings -/

/-- A buffer, after some bytes were copied to its front. -/
def Bytes.over (bytes buffer : Bytes) : Bytes := bytes ++ buffer.extract bytes.size buffer.size

theorem Bytes.getElem?_over (bytes buffer : Bytes) (n : Nat) :
    (bytes.over buffer)[n]? = if n < bytes.size then bytes[n]? else buffer[n]? := by
  rw [Bytes.over, Array.getElem?_append]
  split
  · rfl
  · rename_i hn
    rw [Array.getElem?_extract, Nat.min_self]
    split
    · congr 1
      omega
    · rw [Array.getElem?_eq_none]
      omega

/-- The bytes of a string that was written replace those that were there. -/
theorem Memory.byte_write_slice (memory : Memory) {a n : Nat} {data : Bytes} (hn : n ≤ data.size)
    (hfits : 0 < n → a + n ≤ memory.size) (c : Nat) :
    (memory.write ⟨a⟩ (Bytes.slice data 0 n)).byte ⟨c⟩ =
      if a ≤ c ∧ c < a + n then data[c - a]?.getD 0 else memory.byte ⟨c⟩ := by
  have hsize : (Bytes.slice data 0 n).size = n := Bytes.size_slice (by omega)
  by_cases hpos : 0 < n
  · rw [byte_write _ _ _ _ (by rw [hsize]; exact hfits hpos)]
    dsimp only
    rw [Bytes.slice_eq_extract, Array.getElem?_extract]
    by_cases hle : a ≤ c
    · by_cases hlt : c < a + n
      · rw [if_pos hle, if_pos (by omega : a ≤ c ∧ c < a + n), if_pos (by omega), Nat.zero_add,
          Array.getElem?_eq_getElem (by omega)]
        rfl
      · rw [if_pos hle, if_neg (by omega : ¬ (a ≤ c ∧ c < a + n)), if_neg (by omega)]
        rfl
    · rw [if_neg hle, if_neg (by omega)]
  · have hempty : Bytes.slice data 0 n = #[] := Array.eq_empty_of_size_eq_zero (by omega)
    rw [hempty, if_neg (by omega), byte_eq_get, memory.frame_write_empty, byte_eq_get]

namespace Machine

variable {m m' : Machine F} {cpu : CpuNumber} {c : Processor} {i : ProcessNumber} {p : Process}

/-! ## The kernel alone -/

/-- If neither the processor nor the process changes, only the kernel does. -/
theorem setContext_same (hc : m.cpu? cpu = some c) (hp : m.process? i = some p) (k : Kernel F) :
    m.setContext cpu i ⟨k, c, p⟩ = m.setKernel k := by
  have hsame : ∀ {α : Type} {xs : Array (Option α)} {n : Nat} {x : α}, xs[n]?.join = some x →
      xs.setIfInBounds n (some x) = xs := by
    intro α xs n x h
    apply Array.ext_getElem?
    intro l
    rw [Array.getElem?_setIfInBounds]
    split
    · rename_i hl
      rw [← hl]
      split
      · exact (Option.join_eq_some_iff.1 h).symm
      · rw [Array.getElem?_eq_none (by omega)]
    · rfl
  unfold setContext setCpu setProcess
  dsimp only [setKernel]
  rw [hsame hc, hsame hp]

variable [BackingFile F] {a : Account} {file : F} {w : FileView F} {address : VirtAddr}
  {count n : Nat} {bytes data : Bytes} {cause : Option ExceptionCause}

theorem perform_read (hc : m.cpu? cpu = some c) (hp : m.process? i = some p) :
    m.perform cpu (.read i address count) =
      ((m.kernel.readMemory c.tlb p address count).1.map some,
        m.setKernel (m.kernel.readMemory c.tlb p address count).2) := by
  rw [perform, within_eq hc hp]
  exact Prod.ext rfl (setContext_same hc hp _)

theorem perform_write (hc : m.cpu? cpu = some c) (hp : m.process? i = some p) :
    m.perform cpu (.write i address data) =
      ((m.kernel.writeMemory c.tlb p address data).1.map some,
        m.setKernel (m.kernel.writeMemory c.tlb p address data).2) := by
  rw [perform, within_eq hc hp]
  exact Prod.ext rfl (setContext_same hc hp _)

/-! ## Reading -/

/-- A machine has answered a request to read at some addresses of a process with some bytes. -/
structure Reads (w : FileView F) (m m' : Machine F) (p : Process) (address : VirtAddr)
    (count : Nat) (bytes : Bytes) : Prop where
  /-- They end where a page is refused. -/
  stops : ∃ cause, Stops (m.kernel.obstacle p.space false) address count bytes.size cause
  /-- If all pages can be had they end where the address space ends. -/
  whole : (∀ k < count, p.space.contains (address.advance k).page = true →
      m.kernel.Obtainable (p.space.key (address.advance k).page)) →
    bytes.size = min count (p.space.pageCount * pageSize - address.val)
  /-- If they end before, all pages up to there were read, and the next one cannot be had. -/
  partway : bytes.size < min count (p.space.pageCount * pageSize - address.val) →
    ¬ m.kernel.Obtainable (p.space.key (address.advance bytes.size).page) ∧
      (bytes.size = 0 ∨ (address.advance bytes.size).offset = 0)
  contents : ∀ k (hk : k < bytes.size), bytes[k] = m.kernel.byteAt w p.space (address.advance k)
  /-- A buffer for them keeps all that comes after them. -/
  buffer : ∀ {buffer : Bytes}, buffer.size = count → (bytes.over buffer).size = count ∧
    ∀ k, bytes.size ≤ k → (bytes.over buffer)[k]? = buffer[k]?
  cpus : m'.cpus = m.cpus
  processes : m'.processes = m.processes
  /-- Every byte of every process is what it was. -/
  kept : ∀ {j : ProcessNumber} {q : Process} {b : VirtAddr}, m.process? j = some q →
    q.exitCode = none → b.val < q.space.pageCount * pageSize →
    m'.kernel.byteAt w q.space b = m.kernel.byteAt w q.space b

omit [BackingFile F] in
/-- A page is granted to a reader if it lies in the address space and can be had. -/
theorem granted_iff {s : Paging F} {space : AddressSpace} {k : Nat} :
    s.obstacle space false (address.advance k).page = none ↔
      k < space.pageCount * pageSize - address.val ∧
        s.Obtainable (space.key (address.advance k).page) := by
  have hinside : address.val + k < space.pageCount * pageSize ↔
      k < space.pageCount * pageSize - address.val := by omega
  rw [obstacle_eq_none, AddressSpace.contains_page, ← hinside]
  simp [VirtAddr.advance]

/-- **A read that no transfer has failed** goes on up to where the space ends. -/
theorem reads_of_stops (hgood : w.good file) (h : Orderly file m a) (hp : m.process? i = some p)
    (hlive : p.exitCode = none) (hstep : m.perform cpu (.read i address count) = (.ok (some bytes), m'))
    (hstops : Stops (m.kernel.obstacle p.space false) address count bytes.size cause)
    (hcpus : m'.cpus = m.cpus) (hprocesses : m'.processes = m.processes) :
    Reads w m m' p address count bytes := by
  have hpermits : m.Permits a cpu (.read i address count) := isLive_iff.2 ⟨p, hp, hlive⟩
  have hafter : Orderly file m' a := h.perform hpermits hstep
  obtain ⟨tenants, seat, hm⟩ := h.lives hgood hp hlive
  obtain ⟨-, hbytes⟩ : a.Shows i address bytes := (hm.inOrder.perform hpermits hstep).1 ⟨w, rfl⟩
  refine ⟨⟨cause, hstops⟩, fun hall => ?_, fun hlt => ?_, fun k hk => ?_, fun {buffer} hbuffer => ?_,
    hcpus, hprocesses, fun {j q b} hq hqlive hb => ?_⟩
  · refine hstops.eq_min fun k hk => granted_iff.trans ⟨And.left, fun hlt => ⟨hlt, hall k hk ?_⟩⟩
    rw [AddressSpace.contains_page]
    simp only [VirtAddr.advance]
    omega
  · obtain ⟨hnot, hrefused⟩ := hstops.refused_of_lt (by omega)
    refine ⟨fun hobtainable => hnot ?_, hstops.aligned (by omega)⟩
    rw [← hrefused]
    exact granted_iff.2 ⟨by omega, hobtainable⟩
  · have hinside := (granted_iff.1 (hstops.granted k hk)).1
    have hread := (a.plain i).getElem?_read ⟨address.val⟩ bytes.size k
    rw [← hbytes, if_pos hk, Array.getElem?_eq_getElem hk] at hread
    rw [h.byteAt_eq hgood hp hlive (by simp only [VirtAddr.advance]; omega)]
    exact Option.some.inj hread
  · refine ⟨?_, fun k hk => ?_⟩
    · have hle := hstops.le
      rw [Bytes.over, Array.size_append, Array.size_extract]
      omega
    · rw [Bytes.getElem?_over, if_neg (Nat.not_lt_of_le hk)]
  · have hq' : m'.process? j = some q := by rw [process?, hprocesses]; exact hq
    exact h.byteAt_congr hafter hgood hq hqlive hq' hqlive rfl rfl hb

/-- **A live process is read** up to where its address space ends, unless a transfer comes up short;
that is the end of the machine. -/
theorem read_served (hgood : w.good file) (h : Orderly file m a) (hc : m.cpu? cpu = some c)
    (hp : m.process? i = some p) (hlive : p.exitCode = none) {r : Except Halt (Option Bytes)}
    (hstep : m.perform cpu (.read i address count) = (r, m')) :
    (Shorts m.kernel.toPaging m'.kernel.toPaging 0 ∧
        ∃ bytes, r = .ok (some bytes) ∧ Reads w m m' p address count bytes) ∨
      (Shorts m.kernel.toPaging m'.kernel.toPaging 1 ∧ ∃ why, r = .error why) := by
  obtain ⟨tenants, seat, hm⟩ := h.lives hgood hp hlive
  have hkernel := hstep
  rw [perform_read hc hp] at hkernel
  obtain ⟨rfl, rfl⟩ := Prod.mk.inj hkernel
  obtain ⟨hshorts, bytes, cause, hr, hstops⟩ | ⟨hshorts, hr⟩ := readMemory_served
    hm.inOrder.kernel hm.stocked hm.tenant hm.fits
    (Prod.eta (m.kernel.readMemory c.tlb p address count)).symm
  · rw [hr] at hstep ⊢
    exact Or.inl ⟨hshorts, bytes, rfl, reads_of_stops hgood h hp hlive hstep hstops rfl rfl⟩
  · rw [hr]
    exact Or.inr ⟨hshorts, _, rfl⟩

/-! ## Writing -/

/-- A machine has written the first `n` bytes of a string to a process. -/
structure Writes (w : FileView F) (m m' : Machine F) (i : ProcessNumber) (p : Process)
    (address : VirtAddr) (data : Bytes) (n : Nat) : Prop where
  /-- They end where a page is refused. -/
  stops : ∃ cause, Stops (m.kernel.obstacle p.space true) address data.size n cause
  /-- They lie in the address space, and on no read-only page. -/
  writable : ∀ k < n, p.space.contains (address.advance k).page = true ∧
    p.space.isSealed (address.advance k).page = false
  /-- If all pages can be had, they end at a read-only page or where the address space ends. -/
  whole : (∀ k < data.size, p.space.contains (address.advance k).page = true →
      m.kernel.Obtainable (p.space.key (address.advance k).page)) → n < data.size →
    p.space.contains (address.advance n).page = false ∨
      p.space.isSealed (address.advance n).page = true
  /-- If they end before, all pages up to there were written, and the next one cannot be had. -/
  partway : n < data.size → p.space.contains (address.advance n).page = true →
    p.space.isSealed (address.advance n).page = false →
    ¬ m.kernel.Obtainable (p.space.key (address.advance n).page) ∧
      (n = 0 ∨ (address.advance n).offset = 0)
  le : n ≤ data.size
  /-- These bytes of the process are replaced, and no others. -/
  contents : ∀ {b : VirtAddr}, b.val < p.space.pageCount * pageSize →
    m'.kernel.byteAt w p.space b =
      if address.val ≤ b.val ∧ b.val < address.val + n then data[b.val - address.val]?.getD 0
      else m.kernel.byteAt w p.space b
  cpus : m'.cpus = m.cpus
  processes : m'.processes = m.processes
  /-- Every byte of every other process is what it was. -/
  kept : ∀ {j : ProcessNumber} {q : Process} {b : VirtAddr}, j ≠ i → m.process? j = some q →
    q.exitCode = none → b.val < q.space.pageCount * pageSize →
    m'.kernel.byteAt w q.space b = m.kernel.byteAt w q.space b

/-- **A write that no transfer has failed** goes on up to the first page that may not be written. -/
theorem writes_of_stops (hgood : w.good file) (h : Orderly file m a) (hp : m.process? i = some p)
    (hlive : p.exitCode = none) (hstep : m.perform cpu (.write i address data) = (.ok (some n), m'))
    (hstops : Stops (m.kernel.obstacle p.space true) address data.size n cause)
    (hcpus : m'.cpus = m.cpus) (hprocesses : m'.processes = m.processes) :
    Writes w m m' i p address data n := by
  have hpermits : m.Permits a cpu (.write i address data) := isLive_iff.2 ⟨p, hp, hlive⟩
  have hafter : Orderly file m'
      (a.setPlain i ((a.plain i).write ⟨address.val⟩ (Bytes.slice data 0 n))) :=
    h.perform hpermits hstep
  obtain ⟨tenants, seat, hm⟩ := h.lives hgood hp hlive
  have hprocess : ∀ j, m'.process? j = m.process? j := fun j => by rw [process?, hprocesses, process?]
  have hwritable : ∀ k < n, p.space.contains (address.advance k).page = true ∧
      p.space.isSealed (address.advance k).page = false := by
    intro k hk
    obtain ⟨hinside, hsealed, -⟩ := obstacle_eq_none.1 (hstops.granted k hk)
    exact ⟨hinside, Bool.eq_false_iff.2 fun hs => hsealed ⟨rfl, hs⟩⟩
  have hpartway : n < data.size → p.space.contains (address.advance n).page = true →
      p.space.isSealed (address.advance n).page = false →
      ¬ m.kernel.Obtainable (p.space.key (address.advance n).page) := by
    intro hlt hinside hsealed hobtainable
    obtain ⟨hnot, hrefused⟩ := hstops.refused_of_lt hlt
    refine hnot (hrefused.symm.trans (obstacle_eq_none.2 ⟨hinside, fun hs => ?_, hobtainable⟩))
    rw [hsealed] at hs
    cases hs.2
  refine ⟨⟨cause, hstops⟩, hwritable, fun hall hlt => ?_, fun hlt hinside hsealed =>
    ⟨hpartway hlt hinside hsealed, hstops.aligned hlt⟩, hstops.le, fun {b} hb => ?_, hcpus, hprocesses,
    fun {j q b} hj hq hqlive hb => ?_⟩
  · by_contra hnone
    rw [not_or, Bool.not_eq_false, Bool.not_eq_true] at hnone
    exact hpartway hlt hnone.1 hnone.2 (hall n hlt hnone.1)
  · have hsize : (a.plain i).size = p.space.pageCount * pageSize := by
      rw [Memory.size, (hm.inOrder.kernel.lodged.space hm.tenant).2.2]
    have hfits : 0 < n → address.val + n ≤ (a.plain i).size := by
      intro hpos
      have hlast := AddressSpace.contains_page.1 (hwritable (n - 1) (by omega)).1
      simp only [VirtAddr.advance] at hlast
      omega
    rw [hafter.byteAt_eq hgood ((hprocess i).trans hp) hlive hb, h.byteAt_eq hgood hp hlive hb,
      Account.plain_setPlain, if_pos rfl]
    exact (a.plain i).byte_write_slice hstops.le hfits b.val
  · exact h.byteAt_congr hafter hgood hq hqlive ((hprocess j).trans hq) hqlive rfl
      ((a.plain_setPlain i j _).trans (if_neg hj)) hb

/-- **A live process is written** up to its first read-only page, unless a transfer comes up short;
that is the end of the machine. -/
theorem write_served (hgood : w.good file) (h : Orderly file m a) (hc : m.cpu? cpu = some c)
    (hp : m.process? i = some p) (hlive : p.exitCode = none) {r : Except Halt (Option Nat)}
    (hstep : m.perform cpu (.write i address data) = (r, m')) :
    (Shorts m.kernel.toPaging m'.kernel.toPaging 0 ∧
        ∃ n, r = .ok (some n) ∧ Writes w m m' i p address data n) ∨
      (Shorts m.kernel.toPaging m'.kernel.toPaging 1 ∧ ∃ why, r = .error why) := by
  obtain ⟨tenants, seat, hm⟩ := h.lives hgood hp hlive
  have hkernel := hstep
  rw [perform_write hc hp] at hkernel
  obtain ⟨rfl, rfl⟩ := Prod.mk.inj hkernel
  obtain ⟨hshorts, n, cause, hr, hstops⟩ | ⟨hshorts, hr⟩ := writeMemory_served
    hm.inOrder.kernel hm.stocked hm.tenant hm.fits
    (Prod.eta (m.kernel.writeMemory c.tlb p address data)).symm
  · rw [hr] at hstep ⊢
    exact Or.inl ⟨hshorts, n, rfl, writes_of_stops hgood h hp hlive hstep hstops rfl rfl⟩
  · rw [hr]
    exact Or.inr ⟨hshorts, _, rfl⟩

/-! ## At any time -/

/-- What a machine does when it is asked to read or to write the memory of a process, unless a
transfer of the swap file comes up short. -/
structure Copies (w : FileView F) (m : Machine F) (cpu : CpuNumber) (i : ProcessNumber)
    (p : Process) : Prop where
  read : ∀ {address : VirtAddr} {count : Nat} {r : Except Halt (Option Bytes)} {m' : Machine F},
    m.perform cpu (.read i address count) = (r, m') → m'.kernel.shortfalls = m.kernel.shortfalls →
    ∃ bytes, r = .ok (some bytes) ∧ Reads w m m' p address count bytes
  write : ∀ {address : VirtAddr} {data : Bytes} {r : Except Halt (Option Nat)} {m' : Machine F},
    m.perform cpu (.write i address data) = (r, m') → m'.kernel.shortfalls = m.kernel.shortfalls →
    ∃ n, r = .ok (some n) ∧ Writes w m m' i p address data n
  /-- None does if the swap file never fails. -/
  reliable : ∀ {v : ReliableView F}, v.Keeps m.kernel.swap → ∀ address count data,
    (m.perform cpu (.read i address count)).2.kernel.shortfalls = m.kernel.shortfalls ∧
      (m.perform cpu (.write i address data)).2.kernel.shortfalls = m.kernel.shortfalls

/-- **Copies move exactly what is to be had.**  Whatever was asked of a machine before, a live
process is read up to where its address space ends, and written up to the first read-only page;
nothing else is changed.  A process that has exited is not read nor written. -/
theorem copies_of_orderly (hgood : w.good file) (h : Orderly file m a) (hc : m.cpu? cpu = some c)
    (hp : m.process? i = some p) :
    (p.exitCode = none → Copies w m cpu i p) ∧
      (p.exitCode ≠ none → ∀ address count data,
        (m.perform cpu (.read i address count)).1 = .ok (some #[]) ∧
          (m.perform cpu (.write i address data)).1 = .ok (some 0)) := by
  refine ⟨fun hlive => ?_, fun hexit address count data => ?_⟩
  · exact ⟨fun hstep => Shorts.served (read_served hgood h hc hp hlive hstep),
      fun hstep => Shorts.served (write_served hgood h hc hp hlive hstep),
      fun hv address count data =>
        ⟨Shorts.none_noted (read_served hgood h hc hp hlive (Prod.eta _).symm) hv,
          Shorts.none_noted (write_served hgood h hc hp hlive (Prod.eta _).symm) hv⟩⟩
  · have hview : ∀ v, some w = some v → v.good file := fun v hv => Option.some.inj hv ▸ hgood
    obtain ⟨tenants, seat, hm⟩ := h.inOrder hview
    obtain ⟨image, config, hmake⟩ := h.reached.named.space hp
    have hspace : m.kernel.core.spaces[p.space.pid]? = none := by
      rw [space_pid_of_make hmake]
      exact hm.kernel.lodged.spaces_eq_none (hm.tenants_of_exited hp hexit)
    rw [perform_read hc hp, perform_write hc hp]
    obtain ⟨hread, -⟩ := readMemory_absent hm.kernel.toAgrees hspace
      (Prod.eta (m.kernel.readMemory c.tlb p address count)).symm
    obtain ⟨hwrite, -⟩ := writeMemory_absent hm.kernel.toAgrees hspace
      (Prod.eta (m.kernel.writeMemory c.tlb p address data)).symm
    rw [hread, hwrite]
    exact ⟨rfl, rfl⟩

set_option maxRecDepth 100000 in
/-- The arguments of a process have the only frame, and lose it to every other page that is copied. -/
theorem copies_in_one_frame :
    ∃ (m : Machine MemoryFile) (p : Process), Copies MemoryFile.view m 0 0 p ∧
      m.kernel.core.frames.size = 1 ∧ (m.kernel.core.frames.owner ⟨0⟩).isSome = true := by
  have hboot : Kernel.boot (.withFrames 1 1) [] (some ({} : MemoryFile)) = (.ok _, _) := rfl
  obtain ⟨m, -, ⟨a, h, -⟩, hall⟩ := ((Orderly.boot hboot).addCpu 1).withLast.serve
    [⟨0, _, .load (.assembled { entry := 0 }) ["x"] .demand⟩]
    (fun m => (m.cpu? 0).isSome ∧ m.isLive 0 = true ∧ m.kernel.core.frames.size = 1 ∧
      (m.kernel.core.frames.owner ⟨0⟩).isSome = true)
    (by decide_cbv)
  obtain ⟨hcpu, hlive, hframes⟩ := of_decide_eq_true hall
  obtain ⟨c, hc⟩ := Option.isSome_iff_exists.1 hcpu
  obtain ⟨p, hp, hexit⟩ := isLive_iff.1 hlive
  exact ⟨m, p, (copies_of_orderly (w := MemoryFile.view) trivial h hc hp).1 hexit, hframes⟩

end Machine

end DemandPaging
