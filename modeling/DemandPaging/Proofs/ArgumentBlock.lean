import DemandPaging.Proofs.Ranges

/-!
# Arguments as bytes

The pointers to the arguments come first and the texts after them, so that every pointer goes
forward, as far as all pointers and the texts before its own are long.

* `Kernel.not_mem_toUTF8` — a text without zero characters has no zero bytes.
* `Kernel.textOffset` — where a text stands behind the first pointer.
* `Kernel.textOffset_before`, `Kernel.textOffset_lt` — the texts stand one after the other, and the
  last one ends where the arguments do.
* `Kernel.pointerAt_argumentBlock` — what is read back of every pointer.
* `Kernel.getElem?_argumentBlock` — the text with its zero byte stands where its pointer says.
-/

namespace DemandPaging

namespace Kernel

variable {args : List String} {a : String} {c : Char} {n l k start : Nat} {base : VirtAddr}

/-! ## Zero bytes -/

/-- No character but the zero character is encoded with a zero byte. -/
theorem not_mem_utf8EncodeChar (h : c.val ≠ 0) : 0 ∉ String.utf8EncodeChar c := by
  have hc : c.val.toNat ≠ 0 := fun h0 => h (UInt32.toNat_inj.1 h0)
  have hbyte : ∀ m, m % 256 ≠ 0 → ¬ 0 = UInt8.ofNat m := by
    intro m hm h0
    have hmod := congrArg UInt8.toNat h0
    rw [UInt8.toNat_ofNat'] at hmod
    exact hm hmod.symm
  unfold String.utf8EncodeChar
  dsimp only
  split_ifs <;> simp only [List.mem_cons, List.not_mem_nil, or_false, not_or] <;>
    and_intros <;> exact hbyte _ (by omega)

/-- **A text without zero characters has no zero bytes.** -/
theorem not_mem_toUTF8 (h : ∀ c ∈ a.toList, c.val ≠ 0) : 0 ∉ a.toUTF8.data.toList := by
  have hbytes : a.toUTF8.data.toList = a.toList.flatMap String.utf8EncodeChar := by
    conv_lhs => rw [← String.ofList_toList (s := a)]
    rw [String.toUTF8, String.toByteArray_ofList, List.utf8Encode, List.toList_data_toByteArray]
  rw [hbytes, List.mem_flatMap]
  rintro ⟨c, hc, hzero⟩
  exact not_mem_utf8EncodeChar (h c hc) hzero

/-! ## Where the texts stand -/

/-- The bytes of the first so many texts with their zero bytes. -/
def textsSize (args : List String) : Nat := (args.map fun a => a.utf8ByteSize + 1).sum

/-- Where a text stands behind the first pointer. -/
def textOffset (args : List String) (n : Nat) : Nat :=
  args.length * userWordSize + textsSize (args.take n)

@[simp] theorem textsSize_cons : textsSize (a :: args) = a.utf8ByteSize + 1 + textsSize args := by
  rw [textsSize, List.map_cons, List.sum_cons]
  rfl

theorem argumentsSize_eq (args : List String) :
    argumentsSize args = args.length * userWordSize + textsSize args := by
  induction args with
  | nil => rfl
  | cons a args ih =>
      rw [argumentsSize, ih, textsSize_cons, List.length_cons, Nat.succ_mul]
      omega

/-- **What arguments take** are four bytes, the text and a zero byte for each. -/
theorem argumentsSize_eq_sum (args : List String) :
    argumentsSize args = (args.map fun a => userWordSize + a.utf8ByteSize + 1).sum := by
  induction args with
  | nil => rfl
  | cons a args ih => rw [argumentsSize, ih, List.map_cons, List.sum_cons]

/-- The next text stands behind this one. -/
theorem textsSize_take_succ (h : args[n]? = some a) :
    textsSize (args.take (n + 1)) = textsSize (args.take n) + a.utf8ByteSize + 1 := by
  rw [List.take_add_one, h, textsSize, List.map_append, List.sum_append]
  rfl

theorem textsSize_take_mono (h : n ≤ l) : textsSize (args.take n) ≤ textsSize (args.take l) := by
  obtain ⟨d, rfl⟩ := Nat.exists_eq_add_of_le h
  rw [List.take_add, textsSize, textsSize, List.map_append, List.sum_append]
  exact Nat.le_add_right _ _

/-- **The texts stand one after the other**, each with a zero byte at its end. -/
theorem textOffset_before (h : args[n]? = some a) (hlt : n < l) :
    textOffset args n + a.utf8ByteSize + 1 ≤ textOffset args l := by
  have hnext : textsSize (args.take (n + 1)) ≤ textsSize (args.take l) := textsSize_take_mono hlt
  rw [textsSize_take_succ h] at hnext
  rw [textOffset, textOffset]
  omega

/-- **They end where the arguments do.** -/
theorem textOffset_lt (h : args[n]? = some a) :
    textOffset args n + a.utf8ByteSize < argumentsSize args := by
  have hlast := textOffset_before h (List.getElem?_eq_some_iff.1 h).1
  rw [textOffset, textOffset, List.take_length] at hlast
  rw [argumentsSize_eq, textOffset]
  omega

/-! ## Reading them back -/

/-- The pointer of a number among some bytes. -/
def pointerAt (bytes : Bytes) (n : Nat) : VirtAddr :=
  ⟨ofLittleEndian (Bytes.slice bytes (n * userWordSize) userWordSize).toList⟩

theorem getElem?_slice (bytes : Bytes) (start count k : Nat) :
    (Bytes.slice bytes start count)[k]? = if k < count then bytes[start + k]? else none := by
  rw [Bytes.slice_eq_extract, Array.getElem?_extract]
  split <;> split
  · rfl
  · omega
  · rw [Array.getElem?_eq_none (by omega)]
  · rfl

/-- A pointer depends on its own bytes only. -/
theorem pointerAt_congr {bytes bytes' : Bytes}
    (h : ∀ k < (n + 1) * userWordSize, bytes[k]? = bytes'[k]?) :
    pointerAt bytes n = pointerAt bytes' n := by
  have hslice : Bytes.slice bytes (n * userWordSize) userWordSize =
      Bytes.slice bytes' (n * userWordSize) userWordSize := by
    apply Array.ext_getElem?
    intro k
    rw [getElem?_slice, getElem?_slice]
    split
    · exact h _ (by rw [Nat.succ_mul]; omega)
    · rfl
  rw [pointerAt, hslice, pointerAt]

/-- The pointers point to the texts, if these stand one after the other from `start` on. -/
theorem slice_argumentPointers (h : n < args.length) :
    ((argumentPointers start args).drop (n * userWordSize)).take userWordSize =
      littleEndian userWordSize (start + textsSize (args.take n)) := by
  induction args generalizing start n with
  | nil => cases h
  | cons a args ih =>
      rw [argumentPointers]
      cases n with
      | zero =>
          rw [Nat.zero_mul, List.drop_zero, List.take_left' (length_littleEndian _ _)]
          rfl
      | succ n =>
          have hskip : (n + 1) * userWordSize =
              (littleEndian userWordSize start).length + n * userWordSize := by
            rw [length_littleEndian, Nat.succ_mul, Nat.add_comm]
          rw [hskip, List.drop_length_add_append, ih (Nat.lt_of_succ_lt_succ h), List.take_succ_cons,
            textsSize_cons]
          congr 1
          omega

/-- The texts stand one after the other. -/
theorem getElem?_argumentTexts (h : args[n]? = some a) (hk : k ≤ a.utf8ByteSize) :
    (argumentTexts args)[textsSize (args.take n) + k]? = (a.toUTF8.data.toList ++ [0])[k]? := by
  induction args generalizing n with
  | nil => cases h
  | cons b args ih =>
      have hsize : ∀ s : String, (s.toUTF8.data.toList ++ [0]).length = s.utf8ByteSize + 1 :=
        fun s => List.length_append
      rw [argumentTexts, List.flatMap_cons, ← argumentTexts]
      cases n with
      | zero =>
          obtain rfl : b = a := Option.some.inj h
          rw [List.take_zero, List.getElem?_append_left]
          · exact congrArg _ (Nat.zero_add k)
          · rw [hsize]
            exact Nat.lt_succ_of_le ((Nat.zero_add k).le.trans hk)
      | succ n =>
          rw [List.take_succ_cons, textsSize_cons, List.getElem?_append_right (by rw [hsize]; omega),
            hsize, ← ih h]
          congr 1
          omega

/-- **Every pointer is read back as the place of its text**, if that place fits four bytes. -/
theorem pointerAt_argumentBlock (h : n < args.length)
    (hfits : base.val + textOffset args n < 1 <<< (8 * userWordSize)) :
    pointerAt (argumentBlock base args) n = base.advance (textOffset args n) := by
  have hinside : n * userWordSize + userWordSize ≤
      (argumentPointers (base.val + args.length * userWordSize) args).length := by
    rw [length_argumentPointers, ← Nat.succ_mul]
    exact Nat.mul_le_mul_right _ h
  rw [pointerAt, Bytes.slice_eq_extract, argumentBlock, List.extract_toArray, List.toList_toArray,
    List.extract_eq_take_drop, Nat.add_sub_cancel_left, List.drop_append_of_le_length (by omega),
    List.take_append_of_le_length (by rw [List.length_drop]; omega), slice_argumentPointers h,
    Nat.add_assoc, ← textOffset, ofLittleEndian_littleEndian _ _ hfits]
  rfl

/-- **Every text stands at its place**, and so does its zero byte. -/
theorem getElem?_argumentBlock (h : args[n]? = some a) (hk : k ≤ a.utf8ByteSize) :
    (argumentBlock base args)[textOffset args n + k]? = (a.toUTF8.data.toList ++ [0])[k]? := by
  rw [argumentBlock, List.getElem?_toArray, List.getElem?_append_right, length_argumentPointers,
    textOffset, ← getElem?_argumentTexts h hk]
  · congr 1
    omega
  · rw [length_argumentPointers, textOffset]
    omega

end Kernel

end DemandPaging
