import DemandPaging.Proofs.Solo
import DemandPaging.Simulation
import Mathlib.Data.Nat.Digits.Defs
import Mathlib.Data.String.Basic

/-!
# Ranges of addresses that a process has

A range that lies in the address space, and to be written behind the pages of the program, is read
and written as a whole.  Arguments are such a range, and so is whatever a simulation draws.

* `AddressSpace.reach_inside`, `Context.accesses_inside` — nothing stops an access to such a range.
* `AddressSpace.ofProgram_eq_ok` — arguments that fit one page are no reason not to load a program.
* `Simulation.exists_draw?` — the loads and stores of a simulation are such accesses.
-/

namespace DemandPaging

/-! ## Pieces of a range -/

/-- The pieces of a range lie in it. -/
theorem Pieces.between {a place stop : Nat} {qs : List Piece} (h : Pieces a place stop qs) :
    ∀ q ∈ qs, a + place ≤ q.address.val ∧ q.address.val + q.size ≤ a + stop := by
  induction h with
  | nil => nofun
  | cons haddress _ _ hrest ih =>
      intro q hq
      have hle := hrest.le
      rcases List.mem_cons.1 hq with rfl | hq
      · omega
      · have hbetween := ih q hq
        omega

namespace AddressSpace

variable {space : AddressSpace} {writing : Bool} {pid : Pid} {image : Image} {args : List String}
  {config : MachineConfig} {a : VirtAddr} {count : Nat}

/-- A range whose pages are all granted is reached as a whole. -/
theorem reach_of_all_granted {a place stop : Nat} {qs : List Piece} (h : Pieces a place stop qs)
    (hgranted : ∀ q ∈ qs, space.refusal writing q.address.page = none) :
    space.reach writing qs = (stop - place, none) := by
  induction h with
  | nil =>
      rw [Nat.sub_self]
      rfl
  | @cons place stop q qs _ _ _ hrest ih =>
      have hle := hrest.le
      rw [reach_of_granted (hgranted q List.mem_cons_self),
        ih fun q hq => hgranted q (List.mem_cons_of_mem _ hq)]
      refine Prod.ext ?_ rfl
      show q.size + (stop - (place + q.size)) = stop - place
      omega

/-- Pages behind the program are in no section. -/
theorem isSealed_of_le {p : PageNumber} (h : space.image.pageCount ≤ p.val) :
    space.isSealed p = false := by
  rw [isSealed, Image.backing_eq_none h]
  rfl

/-- **A range in the address space is reached as a whole**, unless it is to be written and does not
lie behind the program. -/
theorem reach_inside (hin : a.val + count ≤ space.pageCount * pageSize)
    (hbehind : writing = true → space.image.pageCount * pageSize ≤ a.val) :
    space.reach writing (pieces a count) = (count, none) := by
  have hqs := pieces_spec a count
  refine reach_of_all_granted hqs fun q hq => ?_
  obtain ⟨hfrom, hto⟩ := hqs.between q hq
  obtain ⟨hpos, -⟩ := piece_on_page hq
  have hpage : q.address.page.val = q.address.val / pageSize := rfl
  apply refusal_granted
  · rw [contains, decide_eq_true_eq, hpage]
    apply Nat.div_lt_of_lt_mul
    rw [Nat.mul_comm]
    omega
  · rintro ⟨hwriting, hsealed⟩
    have hle : space.image.pageCount ≤ q.address.page.val := by
      rw [hpage]
      apply (Nat.le_div_iff_mul_le (by decide)).2
      have := hbehind hwriting
      omega
    rw [isSealed_of_le hle] at hsealed
    cases hsealed

/-- **Such a range is read as a whole.** -/
theorem reads_inside {memory : Memory} (hin : a.val + count ≤ space.pageCount * pageSize) :
    Kernel.reads space memory a count = memory.read ⟨a.val⟩ count := by
  have hreach : space.reach false (pieces a count) = (count, none) :=
    reach_inside hin fun h => by cases h
  rw [Kernel.reads, hreach]

/-! ## Layouts -/

/-- The argument pages come after those of the program and the stack. -/
theorem argBase_eq (h : make pid image config = .ok space) :
    space.argBase.val = (space.imagePages + space.stackPages) * pageSize := by
  have hfits := make_fits h
  apply Nat.mod_eq_of_lt
  show (space.imagePages + space.stackPages) * pageSize < wordLimit
  have hle : (space.imagePages + space.stackPages) * pageSize ≤ space.pageCount * pageSize :=
    Nat.mul_le_mul_right _ (Nat.le_add_right _ _)
  simp only [maxUserAddr, wordLimit] at *
  omega

end AddressSpace

/-! ## Arguments -/

namespace Kernel

theorem length_littleEndian (width n : Nat) : (littleEndian width n).length = width := by
  induction width generalizing n with
  | zero => rfl
  | succ width ih => rw [littleEndian, List.length_cons, ih]

theorem length_argumentPointers (start : Nat) (args : List String) :
    (argumentPointers start args).length = args.length * userWordSize := by
  induction args generalizing start with
  | nil => rfl
  | cons a args ih =>
      rw [argumentPointers, List.length_append, length_littleEndian, ih, List.length_cons,
        Nat.succ_mul, Nat.add_comm]

/-- **The arguments take as many bytes as is reckoned for them.** -/
theorem size_argumentBlock (base : VirtAddr) (args : List String) :
    (argumentBlock base args).size = argumentsSize args := by
  have htexts : args.length * userWordSize + (argumentTexts args).length = argumentsSize args := by
    induction args with
    | nil => rfl
    | cons a args ih =>
        rw [argumentTexts, List.flatMap_cons, List.length_append, ← argumentTexts, argumentsSize,
          ← ih, List.length_append, List.length_cons, Nat.succ_mul]
        have hsize : a.toUTF8.data.toList.length = a.utf8ByteSize := rfl
        simp only [hsize, List.length_singleton]
        omega
  rw [argumentBlock, List.size_toArray, List.length_append, length_argumentPointers, htexts]

end Kernel

namespace AddressSpace

variable {space : AddressSpace} {pid : Pid} {image : Image} {args : List String}
  {config : MachineConfig}

/-- **A program with arguments that fit one page can be loaded if its pages have addresses.** -/
theorem ofProgram_eq_ok (hmake : make pid image config = .ok space) (hpages : 1 ≤ config.argPages)
    (hargs : Kernel.argumentsSize args ≤ pageSize) :
    ofProgram pid image args config = .ok space := by
  have hlayout := eq_of_make hmake
  have hbase := argBase_eq hmake
  have himage : space.imagePages = space.image.pageCount := by rw [hlayout]
  have hargPages : 1 ≤ space.argPages := by
    rw [hlayout]
    exact hpages
  have hnone : space.argumentsError args = none := by
    unfold argumentsError
    split
    · rfl
    · have hin : space.argBase.val + (Kernel.argumentBlock space.argBase args).size ≤
          space.pageCount * pageSize := by
        rw [Kernel.size_argumentBlock, hbase, pageCount, Nat.add_mul _ space.argPages]
        have hle : 1 * pageSize ≤ space.argPages * pageSize := Nat.mul_le_mul_right _ hargPages
        omega
      have hbehind : space.image.pageCount * pageSize ≤ space.argBase.val := by
        rw [hbase, himage]
        exact Nat.mul_le_mul_right _ (Nat.le_add_right _ _)
      dsimp only
      rw [reach_inside hin fun _ => hbehind]
      simp [stopError]
  rw [ofProgram, if_neg (Nat.not_lt_of_le hargs), hmake]
  dsimp only
  rw [hnone]

end AddressSpace

/-! ## Loads and stores -/

/-- **A load or store in such a range is made as a whole.** -/
theorem Context.accesses_inside {space : AddressSpace} {memory : Memory} {a : VirtAddr}
    {count : Nat} {access : Access} (hin : a.val + count ≤ space.pageCount * pageSize)
    (hbehind : access.writing = true → space.image.pageCount * pageSize ≤ a.val)
    (hdata : ∀ data, access = .store data → count = data.size) :
    Context.accesses space memory a count access =
      { moved := match access with
          | .load => memory.read ⟨a.val⟩ count
          | .store data => data
        cause := none } := by
  rw [Context.accesses, AddressSpace.reach_inside hin hbehind]
  cases access with
  | load => rfl
  | store data =>
      obtain rfl := hdata data rfl
      simp [Bytes.slice_eq_extract]

namespace Random

variable {G : Type} [Generator G]

/-- A range that is not empty has a number, and the number lies in it. -/
theorem exists_between? (g : G) {low stop : Nat} (h : low < stop) :
    ∃ n g', between? g low stop = some (n, g') ∧ low ≤ n ∧ n < stop := by
  have hlt := below_lt g (Nat.sub_pos_of_lt h)
  rw [between?, if_pos h]
  refine ⟨low + (below g (stop - low)).1, _, rfl, Nat.le_add_right _ _, ?_⟩
  omega

end Random

namespace Simulation

variable {space : AddressSpace}

/-- An operation lies in an address space; it stores as many bytes as it says, and behind the
program only. -/
structure Operation.Fits (space : AddressSpace) (o : Operation) : Prop where
  inside : o.address.val + o.size ≤ space.pageCount * pageSize
  behind : o.access.writing = true → space.imagePages * pageSize ≤ o.address.val
  data : ∀ data, o.access = .store data → o.size = data.size

/-- **An operation is drawn for every process that has an argument page**, and it lies in the
address space. -/
theorem exists_draw? (hargs : 1 ≤ space.argPages) (g : Random.ChaCha) :
    ∃ o g', draw? space g = some (o, g') ∧ o.Fits space := by
  have hroom : space.imagePages * pageSize + pageSize ≤ space.pageCount * pageSize := by
    rw [← Nat.succ_mul]
    apply Nat.mul_le_mul_right
    rw [AddressSpace.pageCount]
    omega
  obtain ⟨size, g₁, hdrawn, -, hsize⟩ :=
    Random.exists_between? g (show 1 < maxSize + 1 by decide)
  have hstop : space.imagePages * pageSize < space.pageCount * pageSize - size := by
    simp only [pageSize, maxSize] at hroom hsize ⊢
    omega
  simp only [draw?, hdrawn, Option.bind_eq_bind, Option.bind_some]
  cases hcoin : Random.coin g₁ with
  | mk writing g₂ =>
      cases writing with
      | true =>
          obtain ⟨address, g₃, haddress, hlow, hhigh⟩ := Random.exists_between? g₂ hstop
          rw [if_pos rfl, haddress]
          refine ⟨_, _, rfl, ?_, fun _ => hlow, fun data hd => ?_⟩
          · dsimp only
            omega
          · rw [← Access.store.inj hd, Array.size_replicate]
      | false =>
          obtain ⟨address, g₃, haddress, -, hhigh⟩ :=
            Random.exists_between? g₂ (Nat.lt_of_le_of_lt (Nat.zero_le _) hstop)
          rw [if_neg Bool.false_ne_true, haddress]
          refine ⟨_, _, rfl, ?_, nofun, nofun⟩
          dsimp only
          omega

/-- **The built-in program can always be loaded** if its pages have addresses. -/
theorem make_builtinImage {pid : Pid} {config : MachineConfig}
    (h : (3 + config.stackPages + config.argPages) * pageSize ≤ maxUserAddr) :
    AddressSpace.make pid builtinImage config =
      .ok ⟨pid, builtinImage, 3, config.stackPages, config.argPages⟩ := by
  have hsections : builtinImage.sections =
      [{ name := ".text", first := ⟨0⟩, pages := 2, readOnly := true },
        { name := ".data", first := ⟨2⟩, pages := 1, readOnly := false }] := rfl
  have hcheck : Section.check builtinImage.sections = .ok () := by
    rw [hsections]
    simp [Section.check, Section.disjoint, List.mergeSort, Section.bounds, Section.boundsLE,
      Section.stop, Section.apart]
  have hpages : builtinImage.pageCount = 3 := by
    rw [Image.pageCount, hsections]
    rfl
  unfold AddressSpace.make
  rw [hcheck, hpages]
  exact if_neg (Nat.not_lt_of_le h)

/-- A text of some characters takes at most four times as many bytes. -/
theorem utf8Len_le (cs : List Char) : String.utf8Len cs ≤ 4 * cs.length := by
  induction cs with
  | nil => exact Nat.le_refl _
  | cons c cs ih =>
      have hc := c.utf8Size_le_four
      simp only [String.utf8Len_cons, List.length_cons]
      omega

/-- The argument of every process fits one page. -/
theorem argumentsSize_proc {i : Nat} (h : i < wordLimit) :
    Kernel.argumentsSize [s!"proc{i}"] ≤ pageSize := by
  have hname : s!"proc{i}" = "proc" ++ i.repr := by simp [toString]
  have hdigits : i.repr.length ≤ 20 := by
    apply Nat.repr_length i 20 (by decide)
    simp only [wordLimit] at h
    omega
  have hbytes : i.repr.utf8ByteSize ≤ 4 * i.repr.length := by
    have hle := utf8Len_le i.repr.toList
    rwa [← String.utf8ByteSize_ofList, String.ofList_toList, String.length_toList] at hle
  have hproc : "proc".utf8ByteSize = 4 := by decide
  rw [hname, Kernel.argumentsSize, Kernel.argumentsSize, String.utf8ByteSize_append, hproc]
  simp only [userWordSize, pageSize]
  omega

end Simulation

end DemandPaging
