import DemandPaging.Bytes
import DemandPaging.Image.Section

/-!
# Programs in ELF files

The loadable segments of an ELF file as sections of a program.  Files of both
word sizes are read, with the least byte of a number first whatever the header
says about it.

* `ElfImage.parse` — the program in a file, or why there is none.
* `Segment.page` — a page of a segment: the bytes that the file has for it, and
  zeros around them.
-/

namespace DemandPaging

/-! ## The layout of the file -/

/-- The word size of a file. -/
inductive ElfClass where
  | bits32
  | bits64
  deriving DecidableEq, Repr, Inhabited

/-- Where a number stands in a record, and how many bytes it has. -/
structure ElfField where
  place : Nat
  width : Nat
  deriving DecidableEq, Repr

/-- The layout of the file header and of a program header. -/
structure ElfLayout where
  headerSize : Nat
  entry : ElfField
  tableOffset : ElfField
  entrySize : ElfField
  entryCount : ElfField
  /-- the least size of a program header, and what its place is a multiple of -/
  minEntrySize : Nat
  alignment : Nat
  kind : ElfField
  flags : ElfField
  offset : ElfField
  address : ElfField
  fileSize : ElfField
  memorySize : ElfField

def ElfClass.layout : ElfClass → ElfLayout
  | .bits32 =>
    { headerSize := 52, entry := ⟨24, 4⟩, tableOffset := ⟨28, 4⟩, entrySize := ⟨42, 2⟩
      entryCount := ⟨44, 2⟩, minEntrySize := 32, alignment := 4, kind := ⟨0, 4⟩
      flags := ⟨24, 4⟩, offset := ⟨4, 4⟩, address := ⟨8, 4⟩, fileSize := ⟨16, 4⟩
      memorySize := ⟨20, 4⟩ }
  | .bits64 =>
    { headerSize := 64, entry := ⟨24, 8⟩, tableOffset := ⟨32, 8⟩, entrySize := ⟨54, 2⟩
      entryCount := ⟨56, 2⟩, minEntrySize := 56, alignment := 8, kind := ⟨0, 4⟩
      flags := ⟨4, 4⟩, offset := ⟨8, 8⟩, address := ⟨16, 8⟩, fileSize := ⟨32, 8⟩
      memorySize := ⟨40, 8⟩ }

/-- The number in a field of the record that starts at `base`. -/
def ElfField.read (f : ElfField) (data : Bytes) (base : Nat) : Nat :=
  ofLittleEndian (Bytes.slice data (base + f.place) f.width).toList

/-! ## Headers -/

/-- A program header: a part of the file and where it goes. -/
structure ProgramHeader where
  kind : Nat
  writable : Bool
  offset : Nat
  address : Nat
  fileSize : Nat
  memorySize : Nat
  deriving DecidableEq, Repr

namespace ProgramHeader

/-- The kind of a header that is to be loaded. -/
def loadKind : Nat := 1

/-- Kinds with a meaning: the eight general ones, and those reserved to systems
and processors. -/
def knownKind (kind : Nat) : Bool :=
  kind ≤ 7 || (0x60000000 ≤ kind && kind ≤ 0x7fffffff)

/-- Is the header one of a segment that has bytes in memory? -/
def loadable (h : ProgramHeader) : Bool := h.kind == loadKind && h.memorySize != 0

end ProgramHeader

/-- The header part that says what the rest is like. -/
def elfClass (data : Bytes) : Except Failure ElfClass :=
  if data.size < 16 then
    .error (.error (.badImage "File is shorter than the first ELF header part"))
  else if Bytes.slice data 0 4 ≠ #[0x7f, 0x45, 0x4c, 0x46] then
    .error (.error (.badImage "Did not find ELF magic number"))
  else
    match (data[4]?.getD 0).toNat with
    | 1 => .ok .bits32
    | 2 => .ok .bits64
    | _ => .error (.error (.badImage "Invalid ELF class"))

/-- The program header number `i`. -/
def programHeader (data : Bytes) (l : ElfLayout) (i : Nat) : Except Failure ProgramHeader :=
  let table := l.tableOffset.read data 0
  let size := l.entrySize.read data 0
  let base := table + i * size
  if table = 0 ∨ size = 0 then
    .error (.error (.badImage "There are no program headers in this file"))
  else if data.size < base + size ∨ size < l.minEntrySize ∨ base % l.alignment ≠ 0 then
    .error (.halt .outOfBounds)
  else
    let kind := l.kind.read data base
    if ProgramHeader.knownKind kind then
      .ok
        { kind
          writable := (l.flags.read data base).testBit 1
          offset := l.offset.read data base
          address := l.address.read data base
          fileSize := l.fileSize.read data base
          memorySize := l.memorySize.read data base }
    else .error (.error (.badImage "Invalid type"))

/-! ## Segments -/

/-- A section with the part of the file that its first bytes come from. -/
structure Segment extends Section where
  /-- the address of the first byte -/
  address : Nat
  /-- where in the file the first byte stands -/
  offset : Nat
  /-- the number of bytes in the file -/
  fileSize : Nat
  deriving DecidableEq, Repr

namespace Segment

/-- The segment of a header that is to be loaded, the header being number `i`. -/
def ofHeader (data : Bytes) (i : Nat) (h : ProgramHeader) : Except PagingError Segment :=
  let stop := h.address + h.memorySize
  if h.memorySize < h.fileSize ∨ data.size < h.offset + h.fileSize then
    .error (.badImage "segment outside the file")
  else if maxUserAddr + 1 < stop then
    .error (.badImage "segment outside the address space")
  else
    .ok
      { name := s!"segment{i}"
        first := (VirtAddr.mk h.address).page
        pages := (VirtAddr.mk stop).pageAfter.val - (VirtAddr.mk h.address).page.val
        readOnly := !h.writable
        address := h.address
        offset := h.offset
        fileSize := h.fileSize }

/-- Page number `i` of a segment: the bytes that the file has for it, and zeros. -/
def page (s : Segment) (data : Bytes) (i : Nat) : Page :=
  let start := (PageNumber.mk (s.first.val + i)).base.val
  let low := max start s.address
  let high := min (start + pageSize) (s.address + s.fileSize)
  if low < high then
    splice zeroPage (low - start)
      (Bytes.slice data (s.offset + (low - s.address)) (high - low))
  else zeroPage

end Segment

/-! ## Files -/

/-- A program in an ELF file. -/
structure ElfImage where
  data : Bytes
  segments : List Segment
  /-- the address of the first instruction -/
  entry : Nat
  deriving Repr

namespace ElfImage

/-- The segments that `count` headers from number `i` on give rise to. -/
def readSegments (data : Bytes) (l : ElfLayout) :
    (count i : Nat) → Except Failure (List Segment)
  | 0, _ => .ok []
  | count + 1, i =>
    match programHeader data l i with
    | .error e => .error e
    | .ok h =>
      if h.loadable then
        match Segment.ofHeader data i h with
        | .error e => .error (.error e)
        | .ok s => (readSegments data l count (i + 1)).map (s :: ·)
      else readSegments data l count (i + 1)

/-- The program in a file. -/
def parse (data : Bytes) : Except Failure ElfImage :=
  match elfClass data with
  | .error e => .error e
  | .ok c =>
    let l := c.layout
    if data.size < l.headerSize then .error (.halt .outOfBounds)
    else
      match readSegments data l (l.entryCount.read data 0) 0 with
      | .error e => .error e
      | .ok segments =>
        match Section.check (segments.map (·.toSection)) with
        | .error e => .error (.error e)
        | .ok () => .ok { data, segments, entry := l.entry.read data 0 }

end ElfImage

end DemandPaging
