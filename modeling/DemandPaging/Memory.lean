import DemandPaging.Bytes.Row

/-!
# Main memory

Main memory is a row of frames.  A frame is replaced as a whole by whoever fills
it; accesses of the CPU go to single bytes by their physical address, and may
run from one frame into the next.

* `Memory.frame_setFrame` — what a frame holds after one was replaced.
* `Memory.byte` — memory as a row of bytes.
* `Memory.read`, `Memory.write` — strings of bytes at an address.
* `Memory.byte_write`, `Memory.getElem?_read` — what the bytes are after a write,
  and what is read.
-/

namespace DemandPaging

/-- The contents of all frames.  Frames that nothing was written to hold zeros. -/
structure Memory where
  frameCount : Nat
  row : ByteRow := {}

namespace Memory

/-- Memory of `n` frames of zeros. -/
def blank (n : Nat) : Memory := { frameCount := n }

/-- Can there be memory of `n` frames? -/
def fits (n : Nat) : Bool := n * pageSize < signedLimit

/-- Bytes of memory. -/
def size (m : Memory) : Nat := m.frameCount * pageSize

/-- The contents of a frame; nothing is ever put into one that memory lacks. -/
def frame (m : Memory) (f : FrameNumber) : Page := m.row.page f.val

/-- The contents of a frame that memory has. -/
def frame? (m : Memory) (f : FrameNumber) : Option Page :=
  if f.val < m.frameCount then some (m.frame f) else none

/-- The contents of the frames, in order. -/
def frames (m : Memory) : List Page := (List.range m.frameCount).map fun k => m.frame ⟨k⟩

/-- Memory with a frame replaced that it has. -/
def setFrame (m : Memory) (f : FrameNumber) (p : Page) : Memory :=
  if f.val < m.frameCount then { m with row := m.row.setPage f.val p } else m

@[simp] theorem frameCount_setFrame (m : Memory) (f : FrameNumber) (p : Page) :
    (m.setFrame f p).frameCount = m.frameCount := by
  unfold setFrame
  split <;> rfl

/-- A replaced frame holds what it was replaced by, and every other what it held. -/
theorem frame_setFrame (m : Memory) (f g : FrameNumber) (p : Page) (h : f.val < m.frameCount) :
    (m.setFrame f p).frame g = if f = g then p else m.frame g := by
  cases f
  cases g
  simp only [frame, setFrame, h, if_true, ByteRow.page_setPage, FrameNumber.mk.injEq] at *

theorem frame?_setFrame (m : Memory) (f g : FrameNumber) (p : Page) :
    (m.setFrame f p).frame? g = if f = g ∧ f.val < m.frameCount then some p else m.frame? g := by
  by_cases h : f.val < m.frameCount
  · simp only [frame?, frameCount_setFrame, frame_setFrame _ _ _ _ h, h, and_true]
    by_cases hfg : f = g
    · subst hfg
      simp [h]
    · simp [hfg]
  · simp [setFrame, h]

/-! ## Memory by the byte -/

/-- The byte at an address. -/
def byte (m : Memory) (a : PhysAddr) : UInt8 := m.row.byte a.val

/-- A byte lies in the frame of its address, at the offset of its address. -/
theorem byte_eq_get (m : Memory) (a : PhysAddr) :
    m.byte a = (m.frame a.frame).get ⟨a.offset, a.offset_lt⟩ := rfl

/-- Does memory have the bytes at `count` addresses from `a` on? -/
def covers (m : Memory) (a : PhysAddr) (count : Nat) : Bool := a.val + count ≤ m.size

/-- The bytes at `count` addresses from `a` on. -/
def read (m : Memory) (a : PhysAddr) (count : Nat) : Bytes := m.row.window a.val count

/-- Memory with a string of bytes written at an address; what would lie past its end
is dropped. -/
def write (m : Memory) (a : PhysAddr) (data : Bytes) : Memory :=
  { m with row := m.row.write a.val (Bytes.slice data 0 (m.size - a.val)) }

@[simp] theorem size_write (m : Memory) (a : PhysAddr) (data : Bytes) :
    (m.write a data).size = m.size := rfl

/-- After a write the string stands at its address, and every other byte is as
before. -/
theorem byte_write (m : Memory) (a c : PhysAddr) (data : Bytes)
    (h : a.val + data.size ≤ m.size) :
    (m.write a data).byte c =
      if a.val ≤ c.val then data[c.val - a.val]?.getD (m.byte c) else m.byte c := by
  have hall : Bytes.slice data 0 (m.size - a.val) = data :=
    by rw [Bytes.slice_eq_extract, Array.extract_eq_self_of_le (by omega)]
  simp only [byte, write, hall, ByteRow.byte_write]
  by_cases h₁ : a.val ≤ c.val
  · by_cases h₂ : c.val - a.val < data.size
    · simp [h₁, h₂]
    · simp [h₁, h₂]
  · simp [h₁]

/-- What is read is what stands there. -/
theorem getElem?_read (m : Memory) (a : PhysAddr) (count i : Nat) :
    (m.read a count)[i]? = if i < count then some (m.byte ⟨a.val + i⟩) else none :=
  m.row.getElem?_window a.val count i

end Memory

end DemandPaging
