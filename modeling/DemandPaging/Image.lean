import DemandPaging.Image.Elf

/-!
# Program images

What a program's pages hold when they are touched for the first time.  An image
is assembled from sections in memory, or it is the program in an ELF file.

* `Image.sectionOf` — the section that a page lies in.
* `Image.page?` — a page of a section.
* `Image.backing` — the two together: what a page of the program starts with.
* `Image.pageCount` — the pages up to the end of the last section.
-/

namespace DemandPaging

/-! ## Sections in memory -/

/-- A section with its bytes, of which no more are kept than it has room for. -/
structure FilledSection extends Section where
  data : Bytes
  deriving DecidableEq, Repr

namespace FilledSection

/-- A section and the bytes that fit into it. -/
def make (s : Section) (data : Bytes) : FilledSection :=
  { s with data := Bytes.slice data 0 (s.pages * pageSize) }

/-- Page number `i` of a section: its bytes, and zeros after their end. -/
def page (s : FilledSection) (i : Nat) : Page :=
  .ofBytes (Bytes.slice s.data (i * pageSize) pageSize)

end FilledSection

/-- A program assembled in memory. -/
structure SectionImage where
  /-- the address of the first instruction -/
  entry : Nat
  sections : List FilledSection := []
  deriving Repr

/-- The program with one more section. -/
def SectionImage.withSection (i : SectionImage) (s : Section) (data : Bytes) : SectionImage :=
  { i with sections := i.sections ++ [.make s data] }

/-! ## Images -/

/-- A program. -/
inductive Image where
  | assembled (image : SectionImage)
  | elf (image : ElfImage)
  deriving Repr

namespace Image

/-- The sections, in no particular order. -/
def sections : Image → List Section
  | .assembled i => i.sections.map (·.toSection)
  | .elf i => i.segments.map (·.toSection)

/-- The address of the first instruction. -/
def entry : Image → Nat
  | .assembled i => i.entry
  | .elf i => i.entry

/-- Page number `i` of section number `s`, if there is such a section. -/
def page? (image : Image) (s i : Nat) : Option Page :=
  match image with
  | .assembled m => m.sections[s]?.map (·.page i)
  | .elf m => m.segments[s]?.map (·.page m.data i)

/-- The number of the first section that a page lies in, and the section. -/
def sectionOf (image : Image) (p : PageNumber) : Option (Nat × Section) :=
  match image.sections.findIdx? (·.contains p) with
  | some i => image.sections[i]?.map (i, ·)
  | none => none

/-- What a page that lies in a section starts with, and whether the process may
not write it. -/
def backing (image : Image) (p : PageNumber) : Option (Page × Bool) :=
  match image.sectionOf p with
  | some (i, s) => (image.page? i (p.val - s.first.val)).map (·, s.readOnly)
  | none => none

/-- The pages from 0 up to the end of the last section. -/
def pageCount (image : Image) : Nat := (image.sections.map (·.stop)).foldl max 0

private theorem foldl_max_le_iff (l : List Nat) (start n : Nat) :
    l.foldl max start ≤ n ↔ start ≤ n ∧ ∀ k ∈ l, k ≤ n := by
  induction l generalizing start with
  | nil => simp
  | cons a l ih => rw [List.foldl_cons, ih, Nat.max_le, List.forall_mem_cons, and_assoc]

/-- The page count is the least bound of the ends of all sections. -/
theorem pageCount_le_iff {image : Image} {n : Nat} :
    image.pageCount ≤ n ↔ ∀ s ∈ image.sections, s.stop ≤ n := by
  simp [pageCount, foldl_max_le_iff]

/-- No page behind the end of the last section lies in a section. -/
theorem sectionOf_eq_none {image : Image} {p : PageNumber} (h : image.pageCount ≤ p.val) :
    image.sectionOf p = none := by
  have hnone : image.sections.findIdx? (·.contains p) = none := by
    rw [List.findIdx?_eq_none_iff]
    intro s hs
    have := pageCount_le_iff.1 h s hs
    simp only [Section.contains, Bool.and_eq_false_iff, decide_eq_false_iff_not]
    omega
  simp [sectionOf, hnone]

theorem backing_eq_none {image : Image} {p : PageNumber} (h : image.pageCount ≤ p.val) :
    image.backing p = none := by
  simp [backing, sectionOf_eq_none h]

end Image

end DemandPaging
