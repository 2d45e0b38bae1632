import DemandPaging.Proofs.LoadAnswers
import DemandPaging.Proofs.Texts

/-!
# Arguments of a process

A program that is loaded finds its arguments, whatever happens on the machine before it looks for
them, as long as nobody writes on the page where they are.

* `Kernel.ArgumentsApart` — how the pointers and the texts share the first argument page.
* `Machine.Spared`, `Machine.Spared.kept` — the machines that are reached while nobody writes on a
  page of a process.
* `Machine.FindsArguments` — what is read where the arguments should be.
* `Machine.arguments_of_orderly` — a program is loaded with its arguments unless they are longer than
  a page.
-/

namespace DemandPaging

open Paging Kernel

variable {F : Type}

/-! ## The argument page -/

namespace Kernel

variable {p : Process} {args : List String} {image : Image} {config : MachineConfig}

/-- The address of a text among the arguments of a process. -/
def textAddress (p : Process) (args : List String) (n : Nat) : VirtAddr :=
  p.registers.argv.advance (textOffset args n)

/-- The pointers and the texts of a process share its first argument page, each byte of it belonging
to one of them at most, and every pointer has room for the address of its text. -/
structure ArgumentsApart (p : Process) (args : List String) : Prop where
  /-- The pointers start where the page does. -/
  argv : p.registers.argv.page = p.space.argPage ∧ p.registers.argv.offset = 0
  argc : p.registers.argc = args.length
  pointers : ∀ k < args.length * userWordSize,
    (p.registers.argv.advance k).page = p.space.argPage
  texts : ∀ {n a}, args[n]? = some a → ∀ k ≤ a.utf8ByteSize,
    ((textAddress p args n).advance k).page = p.space.argPage
  /-- Every text comes after all pointers, -/
  behind : ∀ n, p.registers.argv.val + args.length * userWordSize ≤ (textAddress p args n).val
  /-- and its zero byte comes before the next text. -/
  apart : ∀ {n l a}, args[n]? = some a → n < l →
    (textAddress p args n).val + a.utf8ByteSize < (textAddress p args l).val
  narrow : ∀ n < args.length, (textAddress p args n).val < 1 <<< (8 * userWordSize)

/-- An address less than a page behind the first argument page lies on it. -/
theorem page_argBase (hmake : AddressSpace.make p.pid image config = .ok p.space) {k : Nat}
    (hk : k < pageSize) : (p.space.argBase.advance k).page = p.space.argPage := by
  have hbase := AddressSpace.argBase_eq hmake
  rw [VirtAddr.page, VirtAddr.advance, hbase, AddressSpace.argPage]
  congr 1
  simp only [pageSize] at *
  omega

/-- **Arguments that fit a page are kept apart.** -/
theorem Equipped.apart (h : Equipped p args) (hsize : argumentsSize args ≤ pageSize)
    (hmake : AddressSpace.make p.pid image config = .ok p.space) : ArgumentsApart p args := by
  have hargv : p.registers.argv = p.space.argBase := by rw [h.registers]; rfl
  have hbase := AddressSpace.argBase_eq hmake
  have hle := AddressSpace.argBase_le hmake
  have hplace : ∀ n, (textAddress p args n).val = p.space.argBase.val + textOffset args n :=
    fun n => by rw [textAddress, hargv]; rfl
  have htext : ∀ {n}, n < args.length → textOffset args n < argumentsSize args := fun hn =>
    Nat.lt_of_le_of_lt (Nat.le_add_right _ _) (textOffset_lt (List.getElem?_eq_getElem hn))
  refine ⟨⟨?_, ?_⟩, by rw [h.registers]; rfl, fun k hk => ?_, fun {n a} ha k hk => ?_, fun n => ?_,
    fun {n l a} ha hlt => ?_, fun n hn => ?_⟩
  · rw [hargv]
    exact page_argBase hmake (k := 0) (by decide)
  · rw [hargv, VirtAddr.offset, hbase, Nat.mul_mod_left]
  · rw [hargv]
    rw [argumentsSize_eq] at hsize
    exact page_argBase hmake (by omega)
  · have hlt := textOffset_lt ha
    have hsame : (textAddress p args n).advance k =
        p.space.argBase.advance (textOffset args n + k) := by
      rw [textAddress, hargv]
      simp only [VirtAddr.advance, Nat.add_assoc]
    rw [hsame]
    exact page_argBase hmake (by omega)
  · rw [hplace, hargv, textOffset]
    omega
  · have hnext := textOffset_before ha hlt
    rw [hplace, hplace]
    omega
  · have hlt := htext hn
    rw [hplace]
    simp only [maxUserAddr, pageSize, userWordSize] at *
    omega

/-- **A process starts with its arguments in its first argument page.** -/
theorem Equipped.byte_startMemory (h : Equipped p args) {k : Nat} {b : UInt8}
    (hb : (argumentBlock p.registers.argv args)[k]? = some b) :
    (p.startMemory args).byte ⟨(p.registers.argv.advance k).val⟩ = b := by
  have hargv : p.registers.argv = p.space.argBase := by rw [h.registers]; rfl
  have hne : args ≠ [] := by
    rintro rfl
    cases hb
  have hfits := h.inside hne
  have hsize : p.space.initialMemory.size = p.space.pageCount * pageSize := by
    rw [Memory.size, p.space.frameCount_initialMemory]
  rw [Process.startMemory, VirtAddr.advance,
    Memory.byte_write _ _ _ _ (by rw [size_argumentBlock, hsize, hargv]; exact hfits)]
  dsimp only
  rw [if_pos (Nat.le_add_right _ _), Nat.add_sub_cancel_left, hb]
  rfl

end Kernel

/-! ## Pages that nobody writes on -/

/-- A request that was answered has written nothing on a page of a process. -/
def Request.Spares (i : ProcessNumber) (page : PageNumber) {α : Type} : Request α → α → Prop
  | .access j address _ (.store _), r =>
    j = i → ∀ k < r.moved.size, (address.advance k).page ≠ page
  | .write j address _, n => j = i → ∀ k < n, (address.advance k).page ≠ page
  | _, _ => True

/-- A write changes no byte outside its range. -/
theorem Memory.byte_write_outside (memory : Memory) {a b : Nat} {data : Bytes}
    (h : ¬ (a ≤ b ∧ b < a + data.size)) : (memory.write ⟨a⟩ data).byte ⟨b⟩ = memory.byte ⟨b⟩ := by
  have hsize : (Bytes.slice data 0 (memory.size - a)).size ≤ data.size := by
    rw [Bytes.slice_eq_extract, Array.size_extract]
    omega
  rw [byte, write, ByteRow.byte_write, dif_neg (by dsimp only; omega)]
  rfl

/-- What was not moved to a page has not changed it. -/
theorem Account.byte_moved {a : Account} {i j : ProcessNumber} {address b : VirtAddr}
    {access : Access} {n : Nat}
    (h : ∀ data, access = .store data → j = i → ∀ k < n, (address.advance k).page ≠ b.page) :
    ((a.moved j address access n).plain i).byte ⟨b.val⟩ = (a.plain i).byte ⟨b.val⟩ := by
  cases access with
  | load => rfl
  | store data =>
      rw [moved, plain_setPlain]
      split
      · rename_i hij
        obtain rfl := hij
        refine Memory.byte_write_outside _ fun hin => ?_
        have hsize : (Bytes.slice data 0 n).size ≤ n := by
          rw [Bytes.slice_eq_extract, Array.size_extract]
          omega
        refine h data rfl rfl (b.val - address.val) (by omega) (congrArg VirtAddr.page ?_)
        rw [VirtAddr.advance, Nat.add_sub_cancel' hin.1]
      · rfl

namespace Machine

variable [BackingFile F] {m m' n : Machine F} {a b : Account} {file : F} {w : FileView F}
  {cpu : CpuNumber} {c : Processor} {i : ProcessNumber} {p q : Process} {page : PageNumber}
  {args : List String}

/-- A program that was loaded is a new process, and has its arguments. -/
theorem equipped_of_perform {image : Image} {strategy : Strategy} (h : Orderly file m a)
    (hstep : m.perform cpu (.load image args strategy) = (.ok (some (.ok i)), m')) :
    i = m.processes.size ∧ i < m'.processes.size ∧ argumentsSize args ≤ pageSize ∧
      ∃ p config, m'.process? i = some p ∧ AddressSpace.make p.pid image config = .ok p.space ∧
        Equipped p args := by
  have hnone : ∀ w : FileView F, none = some w → w.good file := nofun
  obtain ⟨tenants, seat, hm⟩ := h.inOrder hnone
  obtain ⟨tlb, p, k, hload, rfl, rfl⟩ := load_of_perform hstep
  obtain ⟨hsize, hequipped⟩ := (load_served hm.kernel hload).2 p rfl
  exact ⟨rfl, (Array.size_push _).symm ▸ Nat.lt_succ_self _, hsize, p, _,
    (process?_push rfl).trans (if_pos rfl),
    (loaded_of_load hm.kernel.toConsistent hload).space, hequipped⟩

/-- What is answered has changed no byte of a page that it spared. -/
theorem byte_after {α : Type} {request : Request α} {r : α} {address : VirtAddr}
    (horderly : Orderly file m a) (hi : i < m.processes.size)
    (h : m.perform cpu request = (.ok (some r), m')) (hspares : request.Spares i address.page r) :
    ((a.after m' cpu request r).plain i).byte ⟨address.val⟩ = (a.plain i).byte ⟨address.val⟩ := by
  cases request with
  | load image args strategy =>
      cases r with
      | error e => rfl
      | ok j =>
          obtain ⟨hj, -, -, p, _, hp, -⟩ := equipped_of_perform horderly h
          simp only [Account.after, Account.loaded, hp]
          rw [Account.plain_setPlain, if_neg fun hij => Nat.ne_of_lt hi (hij.trans hj)]
  | access j start count access =>
      refine Account.byte_moved fun data hdata hj => ?_
      subst hdata
      exact hspares hj
  | write j start data =>
      show ((a.moved j start (.store data) r).plain i).byte _ = _
      exact Account.byte_moved fun _ _ => hspares
  | exit | drop | switch | read | readText | resolveMiss | accessPage | trap | destroySpace => rfl

/-- The machines that are reached from a machine while nobody writes on a page of a process. -/
inductive Spared (i : ProcessNumber) (page : PageNumber) (m : Machine F) (a : Account) :
    Machine F → Account → Prop
  | start : Spared i page m a m a
  | addCpu {n : Machine F} {b : Account} (h : Spared i page m a n b) (slots : Nat) :
    Spared i page m a (n.addCpu slots) b
  | found {n : Machine F} {b : Account} {cpu : CpuNumber} {c : Processor} {j : ProcessNumber}
    {p : Process} (h : Spared i page m a n b) (hc : n.cpu? cpu = some c)
    (hp : n.process? j = some p) (hlive : n.isLive j = true) (hrunning : c.running = some p.pid) :
    Spared i page m a n (b.setLast cpu (some j))
  | perform {n n' : Machine F} {b : Account} {cpu : CpuNumber} {α : Type} {request : Request α}
    {r : α} (h : Spared i page m a n b) (hpermits : n.Permits b cpu request)
    (hp : n.perform cpu request = (.ok (some r), n')) (hspares : request.Spares i page r) :
    Spared i page m a n' (b.after n' cpu request r)

namespace Spared

theorem orderly (h : Spared i page m a n b) (hm : Orderly file m a) : Orderly file n b := by
  induction h with
  | start => exact hm
  | addCpu _ slots ih => exact ih.addCpu slots
  | found _ hc hp hlive hrunning ih => exact ih.found hc hp hlive hrunning
  | perform _ hpermits hp _ ih => exact ih.perform hpermits hp

/-- **A page that nobody writes on stays what it is**, and so does the process that it belongs to. -/
theorem kept (h : Spared i page m a n b) (hm : Orderly file m a) (hi : i < m.processes.size) :
    i < n.processes.size ∧
      (∀ {address : VirtAddr}, address.page = page →
        (b.plain i).byte ⟨address.val⟩ = (a.plain i).byte ⟨address.val⟩) ∧
      ∀ {q}, n.process? i = some q → ∃ p, m.process? i = some p ∧ p.Becomes q := by
  induction h with
  | start => exact ⟨hi, fun _ => rfl, fun hq => ⟨_, hq, .refl _⟩⟩
  | addCpu _ slots ih => exact ih
  | found _ _ _ _ _ ih => exact ih
  | @perform n n' b cpu α request r h hpermits hstep hspares ih =>
      obtain ⟨hlt, hbytes, hprocess⟩ := ih
      have hn := h.orderly hm
      refine ⟨Nat.lt_of_lt_of_le hlt (size_processes_of_perform hstep), fun {address} hpage => ?_,
        fun {q} hq => ?_⟩
      · rw [byte_after hn hlt hstep (hpage ▸ hspares), hbytes hpage]
      · obtain ⟨u, hu, huq⟩ | ⟨hnew, -⟩ := becomes_of_perform hn.reached.consistent hstep hq
        · obtain ⟨p, hp, hpu⟩ := hprocess hu
          exact ⟨p, hp, hpu.trans huq⟩
        · exact absurd hnew (Nat.ne_of_lt hlt)

end Spared

/-! ## Looking for arguments -/

/-- A process that was loaded with some arguments finds them: where the pointers should be it reads
the addresses of the texts, and there it reads the texts, as long as their lengths are allowed.
This is so unless a transfer of the swap file comes up short. -/
structure FindsArguments (m : Machine F) (cpu : CpuNumber) (i : ProcessNumber) (p : Process)
    (args : List String) : Prop where
  pointers : ∀ {r m'},
    m.perform cpu (.read i p.registers.argv (p.registers.argc * userWordSize)) = (r, m') →
    m'.kernel.shortfalls = m.kernel.shortfalls →
    ∃ bytes, r = .ok (some bytes) ∧ bytes.size = p.registers.argc * userWordSize ∧
      ∀ n < args.length, pointerAt bytes n = textAddress p args n
  texts : ∀ {n text limit r m'}, args[n]? = some text → (∀ c ∈ text.toList, c.val ≠ 0) →
    text.utf8ByteSize ≤ limit → limit + 1 < signedLimit →
    m.perform cpu (.readText i (textAddress p args n) limit) = (r, m') →
    m'.kernel.shortfalls = m.kernel.shortfalls → r = .ok (some (some text))
  /-- None does if the swap file never fails. -/
  reliable : ∀ {v : ReliableView F}, v.Keeps m.kernel.swap → ∀ address limit,
    limit + 1 < signedLimit →
    (m.perform cpu (.read i address limit)).2.kernel.shortfalls = m.kernel.shortfalls ∧
      (m.perform cpu (.readText i address limit)).2.kernel.shortfalls = m.kernel.shortfalls

/-- **A process finds its arguments** if their bytes stand where they should and can be had. -/
theorem findsArguments_of_block (hgood : w.good file) (h : Orderly file m a)
    (hc : m.cpu? cpu = some c) (hq : m.process? i = some q) (hlive : q.exitCode = none)
    (hapart : ArgumentsApart p args)
    (hgranted : ∀ k < argumentsSize args,
      m.kernel.obstacle q.space false (p.registers.argv.advance k).page = none)
    (hblock : ∀ k < argumentsSize args, (argumentBlock p.registers.argv args)[k]? =
      some (m.kernel.byteAt w q.space (p.registers.argv.advance k))) :
    FindsArguments m cpu i p args := by
  have hsize := argumentsSize_eq args
  have hadvance : ∀ n k, (textAddress p args n).advance k =
      p.registers.argv.advance (textOffset args n + k) := by
    intro n k
    rw [textAddress]
    simp only [VirtAddr.advance, Nat.add_assoc]
  refine ⟨fun {r m'} hread hnone => ?_, fun {n text limit r m'} htext hclean hlimit hbuffer hread
    hnone => ?_, fun hv address limit hbuffer => ?_⟩
  · obtain ⟨bytes, rfl, hreads⟩ := Shorts.served (read_served hgood h hc hq hlive hread) hnone
    rw [hapart.argc] at hreads ⊢
    have hle : bytes.size ≤ args.length * userWordSize := hreads.stops.choose_spec.le
    have hwhole : ∀ k < args.length * userWordSize, k < bytes.size := fun k hk =>
      hreads.lt_size hk fun l hl => hgranted l (by omega)
    refine ⟨bytes, rfl, Nat.le_antisymm hle (Nat.le_of_not_lt fun hlt =>
      Nat.lt_irrefl _ (hwhole _ hlt)), fun n hn => ?_⟩
    have hpointers : (n + 1) * userWordSize ≤ args.length * userWordSize :=
      Nat.mul_le_mul_right _ hn
    rw [textAddress, ← pointerAt_argumentBlock hn (hapart.narrow n hn)]
    refine pointerAt_congr fun k hk => ?_
    rw [hreads.getElem?_eq, if_pos (hwhole k (by omega)), hblock k (by omega)]
  · have hplace := textOffset_lt htext
    rw [perform_readText hc hq hbuffer] at hread
    cases hbytes : m.perform cpu (.read i (textAddress p args n) (limit + 1)) with
    | mk x u =>
        rw [hbytes] at hread
        obtain ⟨rfl, rfl⟩ := Prod.mk.inj hread
        obtain ⟨bytes, rfl, hreads⟩ := Shorts.served (read_served hgood h hc hq hlive hbytes) hnone
        have hpages : ∀ l ≤ text.utf8ByteSize,
            m.kernel.obstacle q.space false ((textAddress p args n).advance l).page = none := by
          intro l hl
          rw [hadvance]
          exact hgranted _ (by omega)
        have hat : m.kernel.TextAt w q.space (textAddress p args n) limit text := by
          refine textAt_of_bytes hlimit (AddressSpace.contains_page.1
            (obstacle_eq_none.1 (hpages _ (Nat.le_refl _))).1) (fun k hk => ?_)
            (not_mem_toUTF8 hclean)
          rw [hadvance, ← hblock _ (by omega), getElem?_argumentBlock htext hk]
        exact congrArg (fun found => Except.ok (some found)) (hreads.text_of_textAt hat hpages)
  · have hread : ∀ count,
        (m.perform cpu (.read i address count)).2.kernel.shortfalls = m.kernel.shortfalls :=
      fun count => Shorts.none_noted (read_served hgood h hc hq hlive
        (Prod.eta (m.perform cpu (.read i address count))).symm) hv
    rw [perform_readText hc hq hbuffer]
    exact ⟨hread limit, hread (limit + 1)⟩

/-- **The arguments are where they were written**, if nobody has written there since. -/
theorem Spared.findsArguments {config : MachineConfig} {image : Image} (hgood : w.good file)
    (hm : Orderly file m a) (hp : m.process? i = some p) (hequipped : Equipped p args)
    (hmake : AddressSpace.make p.pid image config = .ok p.space)
    (hsize : argumentsSize args ≤ pageSize) (hplain : a.plain i = p.startMemory args)
    (h : Spared i p.space.argPage m a n b) (hc : n.cpu? cpu = some c)
    (hq : n.process? i = some q) (hlive : q.exitCode = none)
    (hobtainable : n.kernel.Obtainable (p.space.key p.space.argPage)) :
    FindsArguments n cpu i p args := by
  have hapart := hequipped.apart hsize hmake
  obtain ⟨-, hbytes, hbecomes⟩ := h.kept hm (lt_size_of_process? hp)
  obtain ⟨u, hu, hpq⟩ := hbecomes hq
  obtain rfl : p = u := Option.some.inj (hp.symm.trans hu)
  have hargv : p.registers.argv = p.space.argBase := by rw [hequipped.registers]; rfl
  have hpage : ∀ k < argumentsSize args,
      (p.registers.argv.advance k).page = p.space.argPage := by
    intro k hk
    rw [hargv]
    exact page_argBase hmake (Nat.lt_of_lt_of_le hk hsize)
  have hinside : ∀ k < argumentsSize args,
      (p.registers.argv.advance k).val < p.space.pageCount * pageSize := by
    intro k hk
    have hne : args ≠ [] := by
      rintro rfl
      cases hk
    have hfits := hequipped.inside hne
    rw [hargv]
    simp only [VirtAddr.advance]
    omega
  refine findsArguments_of_block hgood (h.orderly hm) hc hq hlive hapart (fun k hk => ?_)
    fun k hk => ?_
  · rw [hpq.space]
    refine obstacle_eq_none.2 ⟨AddressSpace.contains_page.2 (hinside k hk), fun hwriting => ?_, ?_⟩
    · cases hwriting.1
    · rw [hpage k hk]
      exact hobtainable
  · rw [(h.orderly hm).byteAt_eq hgood hq hlive (hpq.space ▸ hinside k hk),
      hbytes (hpage k hk), hplain]
    obtain ⟨byte, hbyte⟩ : ∃ byte, (argumentBlock p.registers.argv args)[k]? = some byte :=
      ⟨_, Array.getElem?_eq_getElem (by rw [size_argumentBlock]; exact hk)⟩
    rw [hbyte, hequipped.byte_startMemory hbyte]

/-- **Arguments are handed over.**  A program is refused for its arguments exactly if they are longer
than a page.  Otherwise, once it is loaded, it finds them on its first argument page, however long
after and whatever was done in between, if nobody has written there. -/
theorem arguments_of_orderly (hgood : w.good file) (h : Orderly file m a) (hc : m.cpu? cpu = some c)
    (image : Image) (args : List String) (strategy : Strategy) :
    ((m.perform cpu (.load image args strategy)).1 = .ok (some (.error .argumentsTooLong)) ↔
        pageSize < (args.map fun s => userWordSize + s.utf8ByteSize + 1).sum) ∧
      ∀ {i m'}, m.perform cpu (.load image args strategy) = (.ok (some (.ok i)), m') →
        ∃ p, m'.process? i = some p ∧ ArgumentsApart p args ∧
          ∀ {n b cpu' c' q}, Spared i p.space.argPage m'
            (a.after m' cpu (.load image args strategy) (.ok i)) n b → n.cpu? cpu' = some c' →
            n.process? i = some q → q.exitCode = none →
            n.kernel.Obtainable (p.space.key p.space.argPage) →
            FindsArguments n cpu' i p args := by
  have hnone : ∀ w : FileView F, none = some w → w.good file := nofun
  obtain ⟨tenants, seat, hm⟩ := h.inOrder hnone
  refine ⟨?_, fun {i m'} hload => ?_⟩
  · rw [← argumentsSize_eq_sum]
    simp only [perform, hc, load]
    cases hkernel : m.kernel.load c.tlb image args strategy with
    | mk r k =>
        obtain ⟨htoolong, -⟩ := load_served hm.kernel hkernel
        rw [← htoolong]
        cases r with
        | ok p => simp [Except.map]
        | error e =>
            cases e with
            | halt why => simp [settled, Except.map]
            | error e => simp [settled, Except.map]
  · obtain ⟨-, -, hsize, p, config, hp, hmake, hequipped⟩ := equipped_of_perform h hload
    refine ⟨p, hp, hequipped.apart hsize hmake, fun hspared hc' hq hlive hobtainable => ?_⟩
    have hpermits : m.Permits a cpu (.load image args strategy) := trivial
    refine hspared.findsArguments hgood (h.perform hpermits hload) hp hequipped hmake hsize ?_ hc' hq
      hlive hobtainable
    simp only [Account.after, Account.loaded, hp]
    exact (Account.plain_setPlain _ _ _ _).trans (if_pos rfl)

set_option maxRecDepth 100000 in
/-- The arguments of a process have lost their frame to those of another, and are found in the swap
file. -/
theorem arguments_after_eviction :
    ∃ (n : Machine MemoryFile) (p : Process), FindsArguments n 0 0 p ["hi", ""] ∧
      n.kernel.entry (p.space.key p.space.argPage) = none ∧ 0 < n.kernel.swap.writes := by
  have hboot : Kernel.boot (.withFrames 1 1) [] (some ({} : MemoryFile)) = (.ok _, _) := rfl
  have hfound {m : Machine MemoryFile} {a : Account} (h : Orderly {} m a) {m₁ n : Machine MemoryFile}
      (hm₁ : m₁ = (m.perform 0 (.load (.assembled { entry := 0 }) ["hi", ""] .demand)).2)
      (hn : n = (m₁.perform 0 (.load (.assembled { entry := 0 }) ["x"] .demand)).2)
      (hall : (m.cpu? 0).isSome = true ∧
        m.answer? 0 (.load (.assembled { entry := 0 }) ["hi", ""] .demand) = some (.ok 0) ∧
        m₁.answer? 0 (.load (.assembled { entry := 0 }) ["x"] .demand) = some (.ok 1) ∧
        (n.cpu? 0).isSome = true ∧ n.isLive 0 = true ∧
        (m₁.process? 0).all (fun p => (n.kernel.entry (p.space.key p.space.argPage)).isNone) = true ∧
        0 < n.kernel.core.frames.size ∧
        (n.kernel.core.frames.owner ⟨0⟩).all (fun o => !o.pinned) = true ∧
        0 < n.kernel.swap.writes) :
      ∃ (n : Machine MemoryFile) (p : Process), FindsArguments n 0 0 p ["hi", ""] ∧
        n.kernel.entry (p.space.key p.space.argPage) = none ∧ 0 < n.kernel.swap.writes := by
    obtain ⟨hcpu, hload, hother, hcpu', hlive, hentry, hframe, howner, hwrites⟩ := hall
    obtain ⟨c, hc⟩ := Option.isSome_iff_exists.1 hcpu
    obtain ⟨c', hc'⟩ := Option.isSome_iff_exists.1 hcpu'
    obtain ⟨q, hq, hexit⟩ := isLive_iff.1 hlive
    obtain ⟨-, hloaded⟩ := arguments_of_orderly (w := MemoryFile.view) trivial h hc
      (.assembled { entry := 0 }) ["hi", ""] .demand
    obtain ⟨p, hp, -, hfinds⟩ := hloaded (hm₁ ▸ perform_of_answer? hload)
    rw [hp, Option.all_some, Option.isNone_iff_eq_none] at hentry
    have hpermits : ∀ b, m₁.Permits b 0 (.load (.assembled { entry := 0 }) ["x"] .demand) :=
      fun _ => trivial
    exact ⟨n, p, hfinds (.perform .start (hpermits _) (hn ▸ perform_of_answer? hother) trivial) hc' hq
      hexit (Or.inr (not_allPinned hframe howner)), hentry, hwrites⟩
  exact hfound ((Orderly.boot hboot).addCpu 1) rfl rfl (by decide_cbv)

set_option maxRecDepth 100000 in
/-- **There is no buffer for the longest limits**, and no argument is found with them. -/
theorem arguments_longest_limit :
    ∃ (m m' : Machine MemoryFile) (a : Account) (p : Process), Orderly {} m a ∧
      m.perform 0 (.load (.assembled { entry := 0 }) ["ok"] .demand) = (.ok (some (.ok 0)), m') ∧
      m'.process? 0 = some p ∧ p.exitCode = none ∧ ¬ m'.kernel.AllPinned ∧
      "ok".utf8ByteSize ≤ signedLimit - 1 ∧
      (m'.perform 0 (.readText 0 (textAddress p ["ok"] 0) (signedLimit - 1))).1 =
        .error .outOfBounds := by
  have hboot : Kernel.boot (.withFrames 1 1) [] (some ({} : MemoryFile)) = (.ok _, _) := rfl
  have hrefused {m : Machine MemoryFile} {a : Account} (h : Orderly {} m a) {m' : Machine MemoryFile}
      (hm' : m' = (m.perform 0 (.load (.assembled { entry := 0 }) ["ok"] .demand)).2)
      (hall : m.answer? 0 (.load (.assembled { entry := 0 }) ["ok"] .demand) = some (.ok 0) ∧
        m'.isLive 0 = true ∧ 0 < m'.kernel.core.frames.size ∧
        (m'.kernel.core.frames.owner ⟨0⟩).all (fun o => !o.pinned) = true ∧
        (m'.process? 0).all (fun p =>
          (m'.perform 0 (.readText 0 (textAddress p ["ok"] 0) (signedLimit - 1))).1 =
            .error .outOfBounds) = true) :
      ∃ (m m' : Machine MemoryFile) (a : Account) (p : Process), Orderly {} m a ∧
        m.perform 0 (.load (.assembled { entry := 0 }) ["ok"] .demand) = (.ok (some (.ok 0)), m') ∧
        m'.process? 0 = some p ∧ p.exitCode = none ∧ ¬ m'.kernel.AllPinned ∧
        "ok".utf8ByteSize ≤ signedLimit - 1 ∧
        (m'.perform 0 (.readText 0 (textAddress p ["ok"] 0) (signedLimit - 1))).1 =
          .error .outOfBounds := by
    obtain ⟨hload, hlive, hframe, howner, hhalt⟩ := hall
    obtain ⟨p, hp, hexit⟩ := isLive_iff.1 hlive
    rw [hp, Option.all_some, decide_eq_true_eq] at hhalt
    exact ⟨m, m', a, p, h, hm' ▸ perform_of_answer? hload, hp, hexit, not_allPinned hframe howner,
      by decide, hhalt⟩
  exact hrefused ((Orderly.boot hboot).addCpu 1) rfl (by decide_cbv)

end Machine

end DemandPaging
