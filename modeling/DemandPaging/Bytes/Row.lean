import Std.Data.ExtTreeMap
import DemandPaging.Bytes

/-!
# Endless rows of bytes

A row of bytes without an end, of which only the pages are kept that something was
written to; all else is zeros.

* `ByteRow.page`, `ByteRow.setPage` — the row by the page.
* `ByteRow.byte`, `ByteRow.write` — the row by the byte; `ByteRow.byte_write` says
  what a write changes.
* `ByteRow.window` — the bytes of a range; `ByteRow.getElem?_window` says which.
-/

namespace DemandPaging

/-- A row of bytes without an end. -/
structure ByteRow where
  pages : Std.ExtTreeMap Nat Page := ∅

namespace ByteRow

/-- A page of the row. -/
def page (r : ByteRow) (k : Nat) : Page := r.pages[k]?.getD zeroPage

/-- The row with a page replaced. -/
def setPage (r : ByteRow) (k : Nat) (p : Page) : ByteRow := ⟨r.pages.insert k p⟩

/-- A replaced page holds what it was replaced by, and every other what it held. -/
theorem page_setPage (r : ByteRow) (k j : Nat) (p : Page) :
    (r.setPage k p).page j = if k = j then p else r.page j := by
  simp only [page, setPage, Std.ExtTreeMap.getElem?_insert, Nat.compare_eq_eq]
  split <;> rfl

/-- The byte at a place. -/
def byte (r : ByteRow) (i : Nat) : UInt8 :=
  (r.page (i / pageSize)).get ⟨i % pageSize, Nat.mod_lt _ (by decide)⟩

theorem byte_eq_getElem (r : ByteRow) (i : Nat) (h : i % pageSize < pageSize) :
    r.byte i = (r.page (i / pageSize))[i % pageSize] := rfl

/-! ## Writing -/

/-- A page of the row with those of some bytes put in that lie on it. -/
def patched (r : ByteRow) (start : Nat) (data : Bytes) (k : Nat) : Page :=
  let skipped := k * pageSize - start
  splice (r.page k) (start - k * pageSize) (Bytes.slice data skipped pageSize)

/-- The pages on which the `count` places from `start` on lie. -/
def touched (start count : Nat) : List Nat :=
  List.range' (start / pageSize) ((start + count + (pageSize - 1)) / pageSize - start / pageSize)

/-- The row with bytes put in from a place on. -/
def write (r : ByteRow) (start : Nat) (data : Bytes) : ByteRow :=
  ⟨(touched start data.size).foldl (fun m k => m.insert k (r.patched start data k)) r.pages⟩

theorem getElem?_foldl_insert {α : Type} (m : Std.ExtTreeMap Nat α) (f : Nat → α) (ks : List Nat)
    (k : Nat) :
    (ks.foldl (fun m k => m.insert k (f k)) m)[k]? = if k ∈ ks then some (f k) else m[k]? := by
  induction ks generalizing m with
  | nil => simp
  | cons j ks ih =>
    rw [List.foldl_cons, ih]
    by_cases hk : k ∈ ks
    · simp [hk]
    · by_cases hj : j = k
      · subst hj
        simp [hk]
      · simp [hk, hj, Ne.symm hj, Std.ExtTreeMap.getElem?_insert]

/-- A patched page holds the bytes that lie on it, and is otherwise as before. -/
theorem getElem_patched (r : ByteRow) (start : Nat) (data : Bytes) (k i : Nat)
    (hi : i < pageSize) :
    (r.patched start data k)[i] =
      if h : start ≤ k * pageSize + i ∧ k * pageSize + i - start < data.size then
        data[k * pageSize + i - start]
      else (r.page k)[i] := by
  simp only [patched, getElem_splice, Bytes.slice_eq_extract, Array.size_extract, Array.getElem_extract]
  by_cases h : start ≤ k * pageSize + i ∧ k * pageSize + i - start < data.size
  · have h' : start - k * pageSize ≤ i ∧ i - (start - k * pageSize) <
        min (k * pageSize - start + pageSize) data.size - (k * pageSize - start) := by
      omega
    rw [dif_pos h, dif_pos h']
    congr 1
    omega
  · have h' : ¬ (start - k * pageSize ≤ i ∧ i - (start - k * pageSize) <
        min (k * pageSize - start + pageSize) data.size - (k * pageSize - start)) := by
      omega
    rw [dif_neg h, dif_neg h']

/-- After a write the bytes stand where they were put in, and all else as before. -/
theorem byte_write (r : ByteRow) (start : Nat) (data : Bytes) (i : Nat) :
    (r.write start data).byte i =
      if h : start ≤ i ∧ i - start < data.size then data[i - start] else r.byte i := by
  have hi : i / pageSize * pageSize + i % pageSize = i := by
    rw [Nat.mul_comm]
    exact Nat.div_add_mod i pageSize
  have hpage : (r.write start data).page (i / pageSize) =
      if i / pageSize ∈ touched start data.size then r.patched start data (i / pageSize)
      else r.page (i / pageSize) := by
    simp only [page, write, getElem?_foldl_insert]
    split <;> rfl
  simp only [byte_eq_getElem _ _ (Nat.mod_lt i (by decide : 0 < pageSize)), hpage]
  by_cases ht : i / pageSize ∈ touched start data.size
  · simp only [if_pos ht, getElem_patched, hi]
  · have hout : ¬ (start ≤ i ∧ i - start < data.size) := by
      intro ⟨h₁, h₂⟩
      refine ht (List.mem_range'_1.2 ?_)
      simp only [pageSize]
      omega
    simp only [if_neg ht, dif_neg hout]

/-! ## Reading -/

/-- Some pages of the row one after the other. -/
def gather (r : ByteRow) (first : Nat) : Nat → Bytes
  | 0 => #[]
  | count + 1 => r.gather first count ++ (r.page (first + count)).toArray

/-- The bytes at `count` places from `start` on, taken from the pages they lie on. -/
def window (r : ByteRow) (start count : Nat) : Bytes :=
  let here := start % pageSize
  if here + count ≤ pageSize then (r.page (start / pageSize)).slice here count
  else
    Bytes.slice (r.gather (start / pageSize) ((here + count + (pageSize - 1)) / pageSize)) here
      count

@[simp] theorem size_gather (r : ByteRow) (first count : Nat) :
    (r.gather first count).size = count * pageSize := by
  induction count with
  | zero => simp [gather]
  | succ count ih => simp [gather, ih, Nat.succ_mul]

theorem getElem_gather (r : ByteRow) (first count i : Nat)
    (h : i < (r.gather first count).size) :
    (r.gather first count)[i] = r.byte (first * pageSize + i) := by
  induction count with
  | zero => simp [gather] at h
  | succ count ih =>
    simp only [gather, Array.getElem_append, size_gather]
    split
    · exact ih _
    · rename_i hc
      simp only [size_gather, pageSize] at h hc
      have h₁ : (first * pageSize + i) / pageSize = first + count := by
        simp only [pageSize]
        omega
      have h₂ : (first * pageSize + i) % pageSize = i - count * pageSize := by
        simp only [pageSize]
        omega
      rw [byte_eq_getElem _ _ (Nat.mod_lt _ (by decide))]
      simp only [h₁, h₂, Vector.getElem_toArray]

/-- What is read is what stands there. -/
theorem getElem?_window (r : ByteRow) (start count i : Nat) :
    (r.window start count)[i]? = if i < count then some (r.byte (start + i)) else none := by
  have hd : start / pageSize * pageSize + start % pageSize = start := by
    rw [Nat.mul_comm]
    exact Nat.div_add_mod start pageSize
  have hmod : start % pageSize < pageSize := Nat.mod_lt _ (by decide)
  unfold window
  simp only
  split
  · rename_i hone
    simp only [Page.slice, Bytes.slice_eq_extract, Array.getElem?_extract, Vector.size_toArray,
      Nat.min_eq_left hone, Vector.getElem?_toArray]
    split
    · rename_i hi
      have h₁ : (start + i) / pageSize = start / pageSize := by
        simp only [pageSize] at *
        omega
      have h₂ : (start + i) % pageSize = start % pageSize + i := by
        simp only [pageSize] at *
        omega
      rw [if_pos (by omega), byte_eq_getElem _ _ (Nat.mod_lt _ (by decide))]
      simp only [h₁, h₂]
      rw [Vector.getElem?_eq_getElem (by omega)]
    · rw [if_neg (by omega)]
  · have hle : start % pageSize + count ≤
        (start % pageSize + count + (pageSize - 1)) / pageSize * pageSize := by
      simp only [pageSize]
      omega
    simp only [Bytes.slice_eq_extract, Array.getElem?_extract, size_gather, Nat.min_eq_left hle]
    split
    · rw [if_pos (by omega), Array.getElem?_eq_getElem (by rw [size_gather]; omega), getElem_gather]
      congr 2
      omega
    · rw [if_neg (by omega)]

@[simp] theorem size_window (r : ByteRow) (start count : Nat) :
    (r.window start count).size = count := by
  have h₁ := r.getElem?_window start count count
  have h₂ := fun i => r.getElem?_window start count i
  rw [if_neg (by omega), Array.getElem?_eq_none_iff] at h₁
  rcases Nat.eq_or_lt_of_le h₁ with h | h
  · exact h
  · have := h₂ (r.window start count).size
    rw [if_pos h] at this
    simp at this

end ByteRow

end DemandPaging
