import DemandPaging.Proofs.Sections
import Mathlib

/-!
# Programs from files

Whatever the headers of a file say, a program that is made of it has its bytes where the headers
want them, and loading a page of it never leaves the file or the frame.

* `ElfImage.HasSegment` — a program header of a file that is one of a segment to be loaded.
* `ElfImage.loadPage` — loading a page into a frame, with every index checked.
* `ElfImage.loadPage_eq` — no index is out of bounds, and the frame holds the page afterwards.
* `ElfImage.Loads` — what is loaded where, in terms of the headers alone.
* `ElfImage.loads_of_parse` — it is, for every file that a program is made of.
-/

namespace DemandPaging

/-! ## Headers -/

namespace ProgramHeader

/-- The segment has a byte on the page. -/
def Touches (h : ProgramHeader) (p : PageNumber) : Prop :=
  ∃ a, h.address ≤ a ∧ a < h.address + h.memorySize ∧ (VirtAddr.mk a).page = p

/-- The part of the file is one, and so is the part of the address space. -/
structure Fits (h : ProgramHeader) (data : Bytes) : Prop where
  /-- No more bytes come from the file than there are in memory. -/
  filled : h.fileSize ≤ h.memorySize
  /-- They are all in the file. -/
  inFile : h.offset + h.fileSize ≤ data.size
  /-- A user program can touch all bytes. -/
  inSpace : h.address + h.memorySize ≤ maxUserAddr + 1

end ProgramHeader

/-- Number `i` of the program headers of a file is `h`, the header of a segment that has bytes in
memory. -/
def ElfImage.HasSegment (data : Bytes) (i : Nat) (h : ProgramHeader) : Prop :=
  ∃ c, elfClass data = .ok c ∧ i < c.layout.entryCount.read data 0 ∧
    programHeader data c.layout i = .ok h ∧ h.loadable = true

/-! ## Segments -/

namespace Segment

/-- The segment is the one of a header that fits. -/
structure IsOf (s : Segment) (data : Bytes) (h : ProgramHeader) : Prop where
  fits : h.Fits data
  first : s.first.val = h.address / pageSize
  stop : s.stop = (h.address + h.memorySize + pageSize - 1) / pageSize
  readOnly : s.readOnly = !h.writable
  address : s.address = h.address
  offset : s.offset = h.offset
  fileSize : s.fileSize = h.fileSize

theorem isOf_of_ofHeader {data : Bytes} {i : Nat} {h : ProgramHeader} {s : Segment}
    (hs : ofHeader data i h = .ok s) : s.IsOf data h := by
  unfold ofHeader at hs
  dsimp only at hs
  split at hs
  · cases hs
  · rename_i hfile
    split at hs
    · cases hs
    · rename_i hspace
      obtain rfl := Except.ok.inj hs
      refine ⟨⟨by omega, by omega, by omega⟩, rfl, ?_, rfl, rfl, rfl, rfl⟩
      simp only [Section.stop, VirtAddr.page, VirtAddr.pageAfter, pageSize]
      omega

variable {s : Segment} {data : Bytes} {h : ProgramHeader}

/-- The pages of a segment are those that it has bytes on. -/
theorem IsOf.contains_iff (hs : s.IsOf data h) (hsize : 0 < h.memorySize) {p : PageNumber} :
    s.contains p = true ↔ h.Touches p := by
  rw [Section.contains_iff, hs.first, hs.stop]
  constructor
  · rintro ⟨hlow, hhigh⟩
    -- the first byte of the page, unless the segment starts behind it
    refine ⟨max h.address (p.val * pageSize), Nat.le_max_left _ _, ?_,
      congrArg PageNumber.mk ?_⟩ <;>
      simp only [pageSize] at * <;> omega
  · rintro ⟨a, hlow, hhigh, rfl⟩
    simp only [VirtAddr.page, pageSize]
    omega

/-- Pages of a segment start at addresses that a machine word holds. -/
theorem IsOf.base_eq (hs : s.IsOf data h) {p : PageNumber} (hp : s.contains p = true) :
    (PageNumber.mk (s.first.val + (p.val - s.first.val))).base.val = p.val * pageSize := by
  obtain ⟨hlow, hhigh⟩ := Section.contains_iff.1 hp
  have hspace := hs.fits.inSpace
  rw [hs.stop] at hhigh
  rw [Nat.add_sub_cancel' hlow]
  simp only [PageNumber.base, pageSize, wordLimit, maxUserAddr] at *
  omega

/-- What stands on a page of a segment: for every address, the byte that the file has for it, or
else 0. -/
theorem getElem_page (s : Segment) (data : Bytes) (i : Nat) {start : Nat}
    (hstart : (PageNumber.mk (s.first.val + i)).base.val = start) {o : Nat} (ho : o < pageSize) :
    (s.page data i)[o] =
      if s.address ≤ start + o ∧ start + o < s.address + s.fileSize then
        data[s.offset + (start + o - s.address)]?.getD 0
      else 0 := by
  have hzero : zeroPage[o] = 0 := Vector.getElem_replicate _
  subst hstart
  unfold page
  dsimp only
  split
  · rename_i hlow
    rw [getElem_splice, Bytes.slice_eq_extract]
    split
    · rename_i hin
      rw [Array.size_extract] at hin
      rw [if_pos (by omega), Array.getElem_extract, Array.getElem?_eq_getElem (by omega),
        Option.getD_some]
      congr 1
      omega
    · rename_i hout
      rw [Array.size_extract] at hout
      rw [hzero]
      split
      · rw [Array.getElem?_eq_none (by omega), Option.getD_none]
      · rfl
  · rw [hzero, if_neg (by omega)]

end Segment

/-! ## Loading a page -/

/-- The frame with bytes of a string copied to the places from `low` up to `high`.  Neither range
may be longer than what it is a range of, or than the other one. -/
def Page.copyFrom (frame : Page) (low high : Nat) (data : Bytes) (start stop : Nat) :
    Except Halt Page :=
  if low ≤ high ∧ high ≤ pageSize ∧ start ≤ stop ∧ stop ≤ data.size ∧ high - low = stop - start then
    .ok (splice frame low (Bytes.slice data start (stop - start)))
  else .error .outOfBounds

namespace ElfImage

/-- Loads page number `i` of segment number `n` into a frame, which is cleared first. -/
def loadPage (image : ElfImage) (n i : Nat) (frame : Page) : Except Halt Page :=
  match image.segments[n]? with
  | none => .error .outOfBounds
  | some s =>
    let frame := frame.map fun _ => 0
    let start := (PageNumber.mk (s.first.val + i)).base.val
    let low := max start s.address
    let high := min (start + pageSize) (s.address + s.fileSize)
    if low < high then
      let source := s.offset + (low - s.address)
      Page.copyFrom frame (low - start) (high - start) image.data source (source + (high - low))
    else .ok frame

/-- **Loading a page stays within the bounds** of the table of segments, of the file and of the
frame, and leaves nothing of what the frame held. -/
theorem loadPage_eq {image : ElfImage} {n i : Nat} {s : Segment} {h : ProgramHeader}
    (hn : image.segments[n]? = some s) (hs : s.IsOf image.data h) (frame : Page) :
    image.loadPage n i frame = .ok (s.page image.data i) := by
  have hclear : frame.map (fun _ => (0 : UInt8)) = zeroPage := by
    ext o ho
    simp [zeroPage]
  have hfile : s.offset + s.fileSize ≤ image.data.size := by
    rw [hs.offset, hs.fileSize]
    exact hs.fits.inFile
  rw [loadPage, hn]
  dsimp only
  rw [hclear, Segment.page]
  split
  · rw [Page.copyFrom, if_pos (by omega), Nat.add_sub_cancel_left]
  · rfl

/-! ## Reading the headers -/

/-- Those of the `count` headers from number `i` on that are to be loaded, with their numbers. -/
def loadableFrom (data : Bytes) (l : ElfLayout) (count i : Nat) : List (Nat × ProgramHeader) :=
  (List.range' i count).filterMap fun j =>
    match programHeader data l j with
    | .ok h => if h.loadable then some (j, h) else none
    | .error _ => none

theorem mem_loadableFrom {data : Bytes} {l : ElfLayout} {count i j : Nat} {h : ProgramHeader} :
    (j, h) ∈ loadableFrom data l count i ↔
      (i ≤ j ∧ j < i + count) ∧ programHeader data l j = .ok h ∧ h.loadable = true := by
  rw [loadableFrom, List.mem_filterMap]
  constructor
  · rintro ⟨k, hk, hsome⟩
    split at hsome
    · rename_i g hg
      split at hsome
      · rename_i hload
        obtain ⟨rfl, rfl⟩ := Prod.mk.inj (Option.some.inj hsome)
        exact ⟨List.mem_range'_1.1 hk, hg, hload⟩
      · cases hsome
    · cases hsome
  · rintro ⟨hj, hh, hload⟩
    exact ⟨j, List.mem_range'_1.2 hj, by simp only [hh, hload, if_true]⟩

/-- The segments are those of the headers that are to be loaded, in their order. -/
theorem readSegments_spec {data : Bytes} {l : ElfLayout} {count i : Nat} {segments : List Segment}
    (hread : readSegments data l count i = .ok segments) :
    List.Forall₂ (fun e s => Segment.IsOf s data e.2) (loadableFrom data l count i) segments := by
  induction count generalizing i segments with
  | zero =>
    obtain rfl := Except.ok.inj hread
    exact .nil
  | succ count ih =>
    rw [readSegments] at hread
    cases hi : programHeader data l i with
    | error e => simp [hi] at hread
    | ok h =>
      rw [hi] at hread
      dsimp only at hread
      split at hread
      · rename_i hload
        have hfrom : loadableFrom data l (count + 1) i =
            (i, h) :: loadableFrom data l count (i + 1) := by
          simp [loadableFrom, List.range'_succ, hi, hload]
        rw [hfrom]
        cases hs : Segment.ofHeader data i h with
        | error e => simp [hs] at hread
        | ok s =>
          cases hrest : readSegments data l count (i + 1) with
          | error e => simp [hs, hrest, Except.map] at hread
          | ok rest =>
            simp only [hs, hrest, Except.map, Except.ok.injEq] at hread
            subst hread
            exact .cons (Segment.isOf_of_ofHeader hs) (ih hrest)
      · rename_i hload
        have hfrom : loadableFrom data l (count + 1) i = loadableFrom data l count (i + 1) := by
          simp [loadableFrom, List.range'_succ, hi, hload]
        rw [hfrom]
        exact ih hread

/-- A program of a file, with the headers that its segments come from. -/
structure Lists (image : ElfImage) (source : Bytes) (headers : List (Nat × ProgramHeader)) :
    Prop where
  data : image.data = source
  check : Section.check (Image.elf image).sections = .ok ()
  mem : ∀ {i : Nat} {h : ProgramHeader}, (i, h) ∈ headers ↔ HasSegment source i h
  segments : List.Forall₂ (fun e s => Segment.IsOf s source e.2) headers image.segments

theorem lists_of_parse {data : Bytes} {image : ElfImage} (hparse : parse data = .ok image) :
    ∃ headers, image.Lists data headers := by
  unfold parse at hparse
  cases hc : elfClass data with
  | error e => simp [hc] at hparse
  | ok c =>
    simp only [hc] at hparse
    split at hparse
    · cases hparse
    · split at hparse
      · cases hparse
      · rename_i segments hread
        split at hparse
        · cases hparse
        · rename_i hcheck
          obtain rfl := Except.ok.inj hparse
          refine ⟨_, rfl, hcheck, fun {i h} => mem_loadableFrom.trans ?_, readSegments_spec hread⟩
          simp only [HasSegment, hc, Except.ok.injEq, exists_eq_left', Nat.zero_le, true_and,
            Nat.zero_add]

/-! ## What is loaded -/

namespace Lists

variable {image : ElfImage} {data : Bytes} {headers : List (Nat × ProgramHeader)} {i n : Nat}
  {h : ProgramHeader} {s : Segment} {p : PageNumber}

theorem segment_of_header (hl : image.Lists data headers) (hi : HasSegment data i h) :
    ∃ (n : Nat) (s : Segment), headers[n]? = some (i, h) ∧ image.segments[n]? = some s ∧
      s.IsOf data h := by
  obtain ⟨n, hn⟩ := List.mem_iff_getElem?.1 (hl.mem.2 hi)
  obtain ⟨hlt, heq⟩ := List.getElem?_eq_some_iff.1 hn
  have hlt' : n < image.segments.length := hl.segments.length_eq ▸ hlt
  have hs := hl.segments.get hlt hlt'
  simp only [List.get_eq_getElem, heq] at hs
  exact ⟨n, _, hn, List.getElem?_eq_getElem hlt', hs⟩

theorem header_of_segment (hl : image.Lists data headers) (hn : image.segments[n]? = some s) :
    ∃ i h, HasSegment data i h ∧ Segment.IsOf s data h := by
  obtain ⟨hlt, rfl⟩ := List.getElem?_eq_some_iff.1 hn
  have hlt' : n < headers.length := hl.segments.length_eq ▸ hlt
  exact ⟨_, _, hl.mem.1 (List.getElem_mem hlt'), hl.segments.get hlt' hlt⟩

/-- A page that a segment has a byte on is one of the segment's. -/
theorem contains_of_touches (hi : HasSegment data i h) (hs : s.IsOf data h) :
    s.contains p = true ↔ h.Touches p := by
  obtain ⟨-, -, -, -, hload⟩ := hi
  rw [ProgramHeader.loadable, Bool.and_eq_true, bne_iff_ne] at hload
  exact hs.contains_iff (Nat.pos_of_ne_zero hload.2)

/-- The segment that has a byte on a page is the one that is found for the page. -/
theorem sectionOf_of_touches (hl : image.Lists data headers) (hi : HasSegment data i h)
    (hp : h.Touches p) :
    ∃ (n : Nat) (s : Segment), headers[n]? = some (i, h) ∧ image.segments[n]? = some s ∧
      s.IsOf data h ∧ s.contains p = true ∧
        (Image.elf image).sectionOf p = some (n, s.toSection) := by
  obtain ⟨n, s, hhead, hn, hs⟩ := hl.segment_of_header hi
  have hcontains := (contains_of_touches hi hs).2 hp
  refine ⟨n, s, hhead, hn, hs, hcontains, Image.sectionOf_eq_some hl.check ?_ hcontains⟩
  rw [Image.sections, List.getElem?_map, hn, Option.map_some]

theorem apart (hl : image.Lists data headers) {j : Nat} {g : ProgramHeader}
    (hi : HasSegment data i g) (hj : HasSegment data j h) (hg : g.Touches p) (hh : h.Touches p) :
    i = j := by
  obtain ⟨n, s, hn, -, -, -, hfound⟩ := hl.sectionOf_of_touches hi hg
  obtain ⟨m, t, hm, -, -, -, hfound'⟩ := hl.sectionOf_of_touches hj hh
  obtain rfl := (Prod.mk.inj (Option.some.inj (hfound.symm.trans hfound'))).1
  exact (Prod.mk.inj (Option.some.inj (hn.symm.trans hm))).1

theorem found (hl : image.Lists data headers) :
    ((Image.elf image).sectionOf p).isSome ↔ ∃ i h, HasSegment data i h ∧ h.Touches p := by
  rw [Option.isSome_iff_exists]
  constructor
  · rintro ⟨⟨n, s⟩, hfound⟩
    obtain ⟨hn, hp⟩ := Image.contains_of_sectionOf hfound
    rw [Image.sections, List.getElem?_map, Option.map_eq_some_iff] at hn
    obtain ⟨t, hn, rfl⟩ := hn
    obtain ⟨i, h, hi, ht⟩ := hl.header_of_segment hn
    exact ⟨i, h, hi, (contains_of_touches hi ht).1 hp⟩
  · rintro ⟨i, h, hi, hp⟩
    obtain ⟨n, s, -, -, -, -, hfound⟩ := hl.sectionOf_of_touches hi hp
    exact ⟨_, hfound⟩

theorem pages (hl : image.Lists data headers) :
    (Image.elf image).pageCount * pageSize ≤ maxUserAddr + 1 := by
  rw [← Nat.le_div_iff_mul_le (by decide), Image.pageCount_le_iff]
  intro s hs
  obtain ⟨t, ht, rfl⟩ := List.mem_map.1 hs
  obtain ⟨n, hn⟩ := List.mem_iff_getElem?.1 ht
  obtain ⟨i, h, -, ht⟩ := hl.header_of_segment hn
  have hspace := ht.fits.inSpace
  rw [ht.stop]
  simp only [pageSize, maxUserAddr] at *
  omega

end Lists

/-- How a page of a program stands in main memory, if a segment with the header has bytes on it:
`page` is the page, and number `n` that of its section `s`. -/
structure PageOf (data : Bytes) (image : ElfImage) (h : ProgramHeader) (p : PageNumber) (n : Nat)
    (s : Section) (page : Page) : Prop where
  readOnly : s.readOnly = true ↔ h.writable = false
  backing : (Image.elf image).page? n (p.val - s.first.val) = some page
  /-- Loading it halts at no index, and leaves nothing of what the frame held. -/
  loads : ∀ frame : Page, image.loadPage n (p.val - s.first.val) frame = .ok page
  /-- The bytes of the file are where the header wants them. -/
  filled : ∀ {a o : Nat} (ho : o < pageSize), p.val * pageSize + o = a → h.address ≤ a →
    a < h.address + h.fileSize → data[h.offset + (a - h.address)]? = some page[o]
  /-- All other bytes are 0. -/
  zeros : ∀ {a o : Nat} (ho : o < pageSize), p.val * pageSize + o = a →
    ¬ (h.address ≤ a ∧ a < h.address + h.fileSize) → page[o] = 0

theorem Lists.pageOf {image : ElfImage} {data : Bytes} {headers : List (Nat × ProgramHeader)}
    (hl : image.Lists data headers) {p : PageNumber} {n : Nat} {s : Section}
    (hfound : (Image.elf image).sectionOf p = some (n, s)) :
    ∃ i h page, HasSegment data i h ∧ h.Touches p ∧ PageOf data image h p n s page := by
  obtain ⟨i, h, hi, hp⟩ := hl.found.1 (Option.isSome_iff_exists.2 ⟨_, hfound⟩)
  obtain ⟨m, t, -, hm, ht, hcontains, hfound'⟩ := hl.sectionOf_of_touches hi hp
  obtain ⟨rfl, rfl⟩ := Prod.mk.inj (Option.some.inj (hfound.symm.trans hfound'))
  have hbyte := fun o (ho : o < pageSize) =>
    t.getElem_page data (p.val - t.first.val) (ht.base_eq hcontains) ho
  simp only [ht.address, ht.offset, ht.fileSize] at hbyte
  have hfile := ht.fits.inFile
  refine ⟨i, h, t.page data (p.val - t.first.val), hi, hp, ?_, ?_, fun frame => ?_, ?_, ?_⟩
  · rw [ht.readOnly, Bool.not_eq_true']
  · rw [Image.page?, hm, hl.data, Option.map_some]
  · rw [loadPage_eq hm (hl.data ▸ ht), hl.data]
  · rintro a o ho rfl hlow hhigh
    rw [hbyte o ho, if_pos ⟨hlow, hhigh⟩, Array.getElem?_eq_getElem (by omega), Option.getD_some]
  · rintro a o ho rfl hout
    rw [hbyte o ho, if_neg hout]

/-- What a program is that was made of a file, in terms of the program headers of the file. -/
structure Loads (data : Bytes) (image : ElfImage) : Prop where
  /-- Every segment lies in the file and in the part of the address space that programs have. -/
  fits : ∀ {i : Nat} {h : ProgramHeader}, HasSegment data i h → h.Fits data
  /-- No page has bytes of two segments. -/
  apart : ∀ {i j : Nat} {g h : ProgramHeader} {p : PageNumber}, HasSegment data i g →
    HasSegment data j h → g.Touches p → h.Touches p → i = j
  /-- The pages of the program are those that a segment has a byte on. -/
  found : ∀ {p : PageNumber}, ((Image.elf image).sectionOf p).isSome ↔
    ∃ i h, HasSegment data i h ∧ h.Touches p
  /-- Such a page can be loaded, and then is as that segment wants it. -/
  loaded : ∀ {p : PageNumber} {n : Nat} {s : Section}, (Image.elf image).sectionOf p = some (n, s) →
    ∃ i h page, HasSegment data i h ∧ h.Touches p ∧ PageOf data image h p n s page
  /-- No page lies outside the part of the address space that programs have. -/
  pages : (Image.elf image).pageCount * pageSize ≤ maxUserAddr + 1

/-- **A program has the bytes of its file, where the headers of the file want them.**  No file is
made a program that has a segment outside the file or outside the part of the address space that
programs have, or two that share a page. -/
theorem loads_of_parse {data : Bytes} {image : ElfImage} (hparse : parse data = .ok image) :
    Loads data image := by
  obtain ⟨headers, hl⟩ := lists_of_parse hparse
  refine ⟨fun hi => ?_, hl.apart, hl.found, hl.pageOf, hl.pages⟩
  obtain ⟨n, s, -, -, hs⟩ := hl.segment_of_header hi
  exact hs.fits

/-- A file with one segment: two bytes for the end of page 0, two for the start of page 1, and
zeros up to the end of page 1. -/
def straddlingFile : Bytes :=
  ([0x7f, 0x45, 0x4c, 0x46, 1] ++ List.replicate 23 0 ++ littleEndian 4 52 ++ List.replicate 10 0 ++
    littleEndian 2 32 ++ littleEndian 2 1 ++ List.replicate 6 0 ++
    -- the program header: kind, offset, two addresses, two sizes, flags and alignment
    littleEndian 4 1 ++ littleEndian 4 84 ++ littleEndian 4 1022 ++ littleEndian 4 1022 ++
    littleEndian 4 4 ++ littleEndian 4 1026 ++ littleEndian 4 5 ++ littleEndian 4 1 ++
    [1, 2, 3, 4]).toArray

theorem loads_straddlingFile :
    ∃ image, parse straddlingFile = .ok image ∧ image.segments.length = 1 ∧
      Loads straddlingFile image := by
  refine (?_ : ∃ image : ElfImage, parse straddlingFile = .ok image ∧ image.segments.length = 1).imp
    fun image h => ⟨h.1, h.2, loads_of_parse h.1⟩
  exact ⟨_, by cbv, rfl⟩

end ElfImage

end DemandPaging
