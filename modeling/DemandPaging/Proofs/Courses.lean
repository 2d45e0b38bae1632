import DemandPaging.Proofs.Ranges

/-!
# What the processes of a simulation do

The operations of a simulation are drawn one after the other, and the processes make them in turn.
What each of them moves is known from those before: it is what it would move in a memory that the
process has to itself.  The plain memories beside the machine are such memories.

* `Memory.Same` — two memories hold the same bytes.
* `Simulation.memoryAfter` — the memory that a process has to itself.
* `Simulation.Course` — the operations that are drawn, and what they move.
* `Simulation.Run.Keeps` — the plain memories are these memories; `Simulation.Run.Keeps.compare` says
  that they stay so, and that no load is stale.
-/

namespace DemandPaging

/-! ## Memories with the same bytes -/

namespace Memory

variable {m n : Memory} {a c start count : Nat} {data : Bytes}

/-- Two memories of one size hold the same bytes. -/
structure Same (m n : Memory) : Prop where
  size : m.size = n.size
  byte : ∀ c, c < m.size → m.byte ⟨c⟩ = n.byte ⟨c⟩

theorem Same.read (h : m.Same n) (hin : a + count ≤ m.size) :
    m.read ⟨a⟩ count = n.read ⟨a⟩ count := by
  apply Array.ext_getElem?
  intro i
  rw [getElem?_read, getElem?_read]
  split
  · exact congrArg some (h.byte _ (by simp only; omega))
  · rfl

theorem Same.write (h : m.Same n) (hin : a + data.size ≤ m.size) :
    (m.write ⟨a⟩ data).Same (n.write ⟨a⟩ data) := by
  refine ⟨h.size, fun c hc => ?_⟩
  rw [byte_write _ _ _ _ hin, byte_write _ _ _ _ (h.size ▸ hin), h.byte c hc]

/-- Below the address of a write every byte is as before. -/
theorem byte_write_of_lt (h : c < a) : (m.write ⟨a⟩ data).byte ⟨c⟩ = m.byte ⟨c⟩ := by
  rw [byte, write, ByteRow.byte_write, dif_neg fun hle => absurd hle.1 (Nat.not_le_of_lt h)]
  rfl

/-- A memory into which another is copied from an address on is that other one, if they were the
same below. -/
theorem same_of_read (hsize : m.size = n.size) (hstart : start ≤ m.size)
    (hbelow : ∀ c, c < start → m.byte ⟨c⟩ = n.byte ⟨c⟩) :
    (m.write ⟨start⟩ (n.read ⟨start⟩ (m.size - start))).Same n := by
  refine ⟨hsize, fun c hc => ?_⟩
  rw [size_write] at hc
  rw [byte_write _ _ _ _ (by rw [size_read]; simp only; omega), getElem?_read]
  split
  · rename_i hle
    rw [if_pos (by simp only at *; omega), Option.getD_some, Nat.add_sub_cancel' hle]
  · rename_i hlt
    exact hbelow c (Nat.lt_of_not_le hlt)

end Memory

namespace Simulation

variable {F : Type} {i : ProcessNumber} {space : AddressSpace} {g g' : Random.ChaCha}
  {processes : Nat} {made : List Made}

/-! ## What is made -/

/-- A process of a simulation that was just loaded, alone. -/
def newcomer (space : AddressSpace) (i : ProcessNumber) : Solo where
  space := space
  registers := space.registers [s!"proc{i}"]
  memory := (space.newProcess [s!"proc{i}"]).startMemory [s!"proc{i}"]

/-- What a process has in its memory if it is alone there, after some operations, the last of which
comes first. -/
def memoryAfter (space : AddressSpace) (i : ProcessNumber) : List Made → Memory
  | [] => (newcomer space i).memory
  | x :: earlier =>
    let memory := memoryAfter space i earlier
    if x.process = i then x.operation.access.after memory x.operation.address.val x.moved
    else memory

/-- The bytes that an operation moves in a memory. -/
def Operation.movedIn (memory : Memory) (o : Operation) : Bytes :=
  match o.access with
  | .load => memory.read ⟨o.address.val⟩ o.size
  | .store data => data

@[simp] theorem Operation.movedIn_load (memory : Memory) (address : VirtAddr) (size : Nat) :
    (⟨address, size, .load⟩ : Operation).movedIn memory = memory.read ⟨address.val⟩ size := rfl

@[simp] theorem Operation.movedIn_store (memory : Memory) (address : VirtAddr) (size : Nat)
    (data : Bytes) : (⟨address, size, .store data⟩ : Operation).movedIn memory = data := rfl

/-- Some operations of processes that take turns, the last one first, and what is left of the
generator that they were drawn from.  Each lies in the address space and moves what it moves in a
memory that its process has to itself. -/
inductive Course (space : AddressSpace) (processes : Nat) (g : Random.ChaCha) :
    List Made → Random.ChaCha → Prop
  | start : Course space processes g [] g
  | next {made : List Made} {g₁ g₂ : Random.ChaCha} {i : ProcessNumber} {o : Operation}
    (h : Course space processes g made g₁) (hturn : i = made.length % processes)
    (hdraw : draw? space g₁ = some (o, g₂)) (hfits : o.Fits space) :
    Course space processes g (⟨i, o, o.movedIn (memoryAfter space i made)⟩ :: made) g₂

/-- The pid does not matter. -/
theorem memoryAfter_withPid (space : AddressSpace) (pid : Pid) (i : ProcessNumber)
    (made : List Made) : memoryAfter (space.withPid pid) i made = memoryAfter space i made := by
  induction made with
  | nil => rfl
  | cons x earlier ih => rw [memoryAfter, memoryAfter, ih]

theorem Course.withPid (h : Course space processes g made g') (pid : Pid) :
    Course (space.withPid pid) processes g made g' := by
  induction h with
  | start => exact .start
  | @next made g₁ g₂ i o _ hturn hdraw hfits ih =>
    rw [← memoryAfter_withPid space pid i made]
    exact .next ih hturn hdraw ⟨hfits.inside, hfits.behind, hfits.data⟩

/-! ## Plain memories -/

/-- A memory that a process has to itself is as large as its address space. -/
theorem size_memoryAfter (space : AddressSpace) (i : ProcessNumber) (made : List Made) :
    (memoryAfter space i made).size = space.pageCount * pageSize := by
  induction made with
  | nil =>
      rw [memoryAfter, Memory.size, ← space.frameCount_initialMemory]
      exact Memory.size_write _ _ _
  | cons x earlier ih =>
      rw [memoryAfter]
      split
      · rw [Memory.size, Access.frameCount_after]
        exact ih
      · exact ih

/-- The plain memories hold what the processes have in memories of their own. -/
def Run.Keeps (space : AddressSpace) (count : Nat) (made : List Made)
    (plain : Array Memory) : Prop :=
  ∀ {i}, i < count → ∃ memory, plain[i]? = some memory ∧ memory.Same (memoryAfter space i made)

/-- **A load is not stale, and a store is made in the plain memory too.** -/
theorem Run.Keeps.compare {r : Run F} {count : Nat} {o : Operation}
    (h : Run.Keeps space count made r.plain) (hi : i < count) (hfits : o.Fits space) (pid : Pid) :
    ∃ plain, r.compare i pid o (o.movedIn (memoryAfter space i made)) =
        (.ok (), { r with plain }) ∧
      Run.Keeps space count (⟨i, o, o.movedIn (memoryAfter space i made)⟩ :: made) plain := by
  obtain ⟨memory, hmemory, hsame⟩ := h hi
  have hinside : o.address.val + o.size ≤ memory.size := by
    rw [hsame.size, size_memoryAfter]
    exact hfits.inside
  obtain ⟨address, size, access⟩ := o
  dsimp only at hinside
  cases access with
  | load =>
      refine ⟨r.plain, ?_, fun {j} hj => ?_⟩
      · simp only [Run.compare, hmemory, if_neg (Nat.not_lt_of_le hinside), Operation.movedIn_load,
          hsame.read hinside, if_true]
      · simp only [memoryAfter, Access.after, ite_self]
        exact h hj
  | store data =>
      obtain rfl : size = data.size := hfits.data data rfl
      refine ⟨r.plain.modify i (·.write ⟨address.val⟩ data), ?_, fun {j} hj => ?_⟩
      · simp only [Run.compare, hmemory, if_neg (Nat.not_lt_of_le hinside)]
      by_cases hji : i = j
      · subst hji
        refine ⟨memory.write ⟨address.val⟩ data, ?_, ?_⟩
        · rw [Array.getElem?_modify, if_pos rfl, hmemory, Option.map_some]
        · rw [memoryAfter, if_pos rfl]
          exact hsame.write hinside
      · obtain ⟨other, hother, hsame'⟩ := h hj
        refine ⟨other, ?_, ?_⟩
        · rw [Array.getElem?_modify, if_neg hji, hother]
        · rw [memoryAfter, if_neg hji]
          exact hsame'

end Simulation

end DemandPaging
