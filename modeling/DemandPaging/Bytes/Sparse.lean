import DemandPaging.Bytes.Row

/-!
# Byte strings with holes

A byte string of any length that is kept as a row of pages, so that a long string of
which little was written takes little room.

* `SparseBytes.byte` — the byte at a place.
* `SparseBytes.byte_write`, `SparseBytes.size_write` — what a write changes.
* `SparseBytes.getElem?_slice` — what is read.
-/

namespace DemandPaging

/-- A byte string with holes. -/
structure SparseBytes where
  size : Nat := 0
  row : ByteRow := {}

namespace SparseBytes

/-- The byte at a place; past the end of the string there are zeros. -/
def byte (s : SparseBytes) (i : Nat) : UInt8 := s.row.byte i

/-- The string with bytes put in from a place on; it grows as needed. -/
def write (s : SparseBytes) (start : Nat) (data : Bytes) : SparseBytes where
  size := max s.size (start + data.size)
  row := s.row.write start data

/-- The bytes from a place on, `count` of them if the string is long enough. -/
def slice (s : SparseBytes) (start count : Nat) : Bytes :=
  s.row.window start (min count (s.size - start))

/-! ## What is written and read -/

theorem size_write (s : SparseBytes) (start : Nat) (data : Bytes) :
    (s.write start data).size = max s.size (start + data.size) := rfl

/-- After a write the bytes stand where they were put in, and all else as before. -/
theorem byte_write (s : SparseBytes) (start : Nat) (data : Bytes) (i : Nat) :
    (s.write start data).byte i =
      if start ≤ i then data[i - start]?.getD (s.byte i) else s.byte i := by
  rw [byte, write, ByteRow.byte_write]
  by_cases hle : start ≤ i
  · by_cases hlt : i - start < data.size <;> simp [byte, hle, hlt]
  · simp [byte, hle]

/-- A write changes no byte outside its range. -/
theorem byte_write_outside (s : SparseBytes) {start : Nat} {data : Bytes} {i : Nat}
    (h : i < start ∨ start + data.size ≤ i) : (s.write start data).byte i = s.byte i := by
  rw [byte_write]
  split
  · rw [Array.getElem?_eq_none (by omega)]
    rfl
  · rfl

/-- What is read is what stands there, up to the end of the string. -/
theorem getElem?_slice (s : SparseBytes) (start count i : Nat) :
    (s.slice start count)[i]? =
      if i < count ∧ start + i < s.size then some (s.byte (start + i)) else none := by
  rw [slice, ByteRow.getElem?_window, byte]
  split
  · rw [if_pos (by omega)]
  · rw [if_neg (by omega)]

end SparseBytes

end DemandPaging
