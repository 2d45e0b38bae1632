/-!
# Addresses, pages and frames

The machine has pages and frames of 1024 bytes.  A process names bytes by
*virtual addresses* and pages by *page numbers*; main memory names bytes by
*physical addresses* and frames by *frame numbers*.  The four kinds of number
are four types, so that none is taken for another.

* `VirtAddr.page`, `VirtAddr.offset` — the page an address lies on, and the
  place of the byte within it.
* `PageNumber.base`, `FrameNumber.byte` — the way back, on a machine whose
  addresses have 64 bits: bits above the 64th are dropped.
* `VirtAddr.page_base_add_offset` — the two parts determine the address.
* `render` on each type — how the numbers are written in reports.
-/

namespace DemandPaging

/-! ## Dimensions of the machine -/

/-- Bytes of a page, and of a frame. -/
abbrev pageSize : Nat := 1024

/-- Bits of an address that say where on its page a byte lies. -/
abbrev pageBits : Nat := 10

/-- One more than the largest number a machine word holds. -/
abbrev wordLimit : Nat := 0x1_0000_0000_0000_0000

/-- One more than the largest signed number a machine word holds.  No table or buffer
of the kernel is longer, in bytes. -/
abbrev signedLimit : Nat := 0x8000_0000_0000_0000

/-- The highest address a user program may touch; the user machine has 32-bit
signed addresses, and anything above is negative to it. -/
abbrev maxUserAddr : Nat := 0x7fff_ffff

/-- The longest text the kernel reads out of user memory unless told otherwise. -/
def maxStringLength : Nat := 256

/-- Bytes of a pointer in user memory. -/
abbrev userWordSize : Nat := 4

/-- A number in lower-case hexadecimal, after `0x`. -/
def hexText (n : Nat) : String :=
  "0x" ++ String.ofList (Nat.toDigits 16 n)

/-- Names a process. -/
abbrev Pid := Nat

/-! ## The four kinds of number -/

/-- The number of a page of a process. -/
structure PageNumber where
  val : Nat
  deriving DecidableEq, Repr, Inhabited

/-- The number of a frame of main memory. -/
structure FrameNumber where
  val : Nat
  deriving DecidableEq, Repr, Inhabited

/-- The address of a byte, as a process sees it. -/
structure VirtAddr where
  val : Nat
  deriving DecidableEq, Repr, Inhabited

/-- The address of a byte of main memory. -/
structure PhysAddr where
  val : Nat
  deriving DecidableEq, Repr, Inhabited

namespace PageNumber

/-- The address of the first byte of a page. -/
def base (p : PageNumber) : VirtAddr := ⟨p.val * pageSize % wordLimit⟩

/-- The page after this one. -/
def next (p : PageNumber) : PageNumber := ⟨p.val + 1⟩

def render (p : PageNumber) : String := "VPN:" ++ hexText p.val

end PageNumber

namespace FrameNumber

/-- The address of the first byte of a frame. -/
def base (f : FrameNumber) : PhysAddr := ⟨f.val * pageSize % wordLimit⟩

/-- The address of the byte at `offset` of a frame. -/
def byte (f : FrameNumber) (offset : Nat) : PhysAddr := ⟨f.base.val + offset⟩

def render (f : FrameNumber) : String := "PPN:" ++ hexText f.val

end FrameNumber

namespace VirtAddr

/-- The page an address lies on. -/
def page (a : VirtAddr) : PageNumber := ⟨a.val / pageSize⟩

/-- The first page that starts at the address or after it. -/
def pageAfter (a : VirtAddr) : PageNumber := ⟨(a.val + pageSize - 1) / pageSize⟩

/-- Where on its page the addressed byte lies. -/
def offset (a : VirtAddr) : Nat := a.val % pageSize

/-- Does a page start at the address? -/
def aligned (a : VirtAddr) : Bool := a.offset == 0

/-- The address `n` bytes further on. -/
def advance (a : VirtAddr) (n : Nat) : VirtAddr := ⟨a.val + n⟩

def render (a : VirtAddr) : String := "VA:" ++ hexText a.val

end VirtAddr

namespace PhysAddr

/-- The frame an address lies in. -/
def frame (a : PhysAddr) : FrameNumber := ⟨a.val / pageSize⟩

/-- Where in its frame the addressed byte lies. -/
def offset (a : PhysAddr) : Nat := a.val % pageSize

def render (a : PhysAddr) : String := "PA:" ++ hexText a.val

end PhysAddr

/-! ## Taking an address apart and putting it together -/

theorem VirtAddr.offset_lt (a : VirtAddr) : a.offset < pageSize :=
  Nat.mod_lt _ (by decide)

theorem PhysAddr.offset_lt (a : PhysAddr) : a.offset < pageSize :=
  Nat.mod_lt _ (by decide)

/-- A page and a place on it make up the address they were taken from. -/
theorem VirtAddr.page_base_add_offset (a : VirtAddr) (h : a.val < wordLimit) :
    a.page.base.advance a.offset = a := by
  cases a with
  | mk v =>
    simp only [VirtAddr.page, PageNumber.base, VirtAddr.offset, VirtAddr.advance, pageSize,
      wordLimit] at *
    congr 1
    omega

/-- The byte at an offset of a frame lies in that frame, at that offset. -/
theorem FrameNumber.frame_byte (f : FrameNumber) {offset : Nat} (ho : offset < pageSize)
    (hf : f.val * pageSize < wordLimit) :
    (f.byte offset).frame = f ∧ (f.byte offset).offset = offset := by
  cases f with
  | mk v =>
    simp only [FrameNumber.byte, FrameNumber.base, PhysAddr.frame, PhysAddr.offset, pageSize,
      wordLimit, FrameNumber.mk.injEq] at *
    omega

end DemandPaging
