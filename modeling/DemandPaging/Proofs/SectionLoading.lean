import DemandPaging.Proofs.ElfLoading

/-!
# Programs from memory

A program that is assembled in memory has the bytes of its sections on its pages: as many as a
section has room for, and zeros after them.

* `SectionImage.assemble` — a program of some sections and their bytes.
* `SectionImage.loadPage` — loading a page into a frame, with every index checked.
* `SectionImage.loadPage_eq` — no index is out of bounds, and the frame holds the page afterwards.
* `FilledSection.flatMap_page` — the pages of a section, one after the other, are its bytes.
* `SectionImage.PagesOut` — what is loaded, in terms of the bytes alone.
* `SectionImage.pagesOut_of_assemble` — it is, of every program that is assembled.
-/

namespace DemandPaging

/-! ## Cutting off and filling up -/

section

variable {α : Type}

theorem getElem?_takeD (l : List α) (n i : Nat) (a : α) :
    (l.takeD n a)[i]? = if i < n then some (l[i]?.getD a) else none := by
  induction n generalizing l i with
  | zero => simp
  | succ n ih =>
    cases i with
    | zero => cases l <;> simp
    | succ i =>
      rw [List.takeD_succ, List.getElem?_cons_succ, ih]
      cases l <;> simp

/-- The first `m + n` are the first `m` and then the next `n`. -/
theorem takeD_add (l : List α) (m n : Nat) (a : α) :
    l.takeD (m + n) a = l.takeD m a ++ (l.drop m).takeD n a := by
  induction m generalizing l with
  | zero => simp
  | succ m ih =>
    rw [Nat.succ_add, List.takeD_succ, List.takeD_succ, List.cons_append, ih, List.drop_tail]

theorem takeD_take (l : List α) (n : Nat) (a : α) : (l.take n).takeD n a = l.takeD n a := by
  refine List.ext_getElem? fun i => ?_
  rw [getElem?_takeD, getElem?_takeD, List.getElem?_take]
  split <;> rfl

end

/-- Nothing is left out of a slice if both its ends are drawn back to the end of the bytes. -/
theorem Bytes.slice_min (data : Bytes) (start count : Nat) :
    Bytes.slice data (min start data.size)
      (min (min start data.size + count) data.size - min start data.size) =
        Bytes.slice data start count := by
  refine Array.ext_getElem? fun i => ?_
  rw [Bytes.slice_eq_extract, Bytes.slice_eq_extract, Array.getElem?_extract,
    Array.getElem?_extract]
  rcases Nat.le_total start data.size with h | h
  · rw [Nat.min_eq_left h, Nat.add_sub_cancel' (by omega), Nat.min_assoc, Nat.min_self]
  · rw [if_neg (by omega), if_neg (by omega)]

/-! ## Pages of a section -/

namespace FilledSection

/-- What stands on a page of a section: the bytes of the section from the start of the page on, and
zeros behind their end. -/
theorem getElem_page (s : FilledSection) (i : Nat) {o : Nat} (ho : o < pageSize) :
    (s.page i)[o] = s.data[i * pageSize + o]?.getD 0 := by
  have hzero : zeroPage[o] = 0 := Vector.getElem_replicate _
  rw [page, Page.ofBytes, getElem_splice, Bytes.slice_eq_extract]
  split
  · rename_i hin
    rw [Array.size_extract] at hin
    rw [Array.getElem_extract, Array.getElem?_eq_getElem (by omega), Option.getD_some]
    congr 1
  · rename_i hout
    rw [Array.size_extract] at hout
    rw [hzero, Array.getElem?_eq_none (by omega), Option.getD_none]

/-- A page behind the end of the bytes holds zeros. -/
theorem page_eq_zeroPage {s : FilledSection} {i : Nat} (h : s.data.size ≤ i * pageSize) :
    s.page i = zeroPage := by
  refine Vector.ext fun o ho => ?_
  rw [getElem_page s i ho, Array.getElem?_eq_none (Nat.le_add_right_of_le h), Option.getD_none]
  exact (Vector.getElem_replicate _).symm

/-- A page holds the next bytes, filled up with zeros. -/
theorem toList_page (s : FilledSection) (i : Nat) :
    (s.page i).toList = (s.data.toList.drop (i * pageSize)).takeD pageSize 0 := by
  refine List.ext_getElem? fun o => ?_
  rw [getElem?_takeD, Vector.getElem?_toList, List.getElem?_drop, Array.getElem?_toList]
  split
  · next ho => rw [Vector.getElem?_eq_getElem ho, getElem_page s i ho]
  · next ho => exact Vector.getElem?_eq_none (Nat.le_of_not_lt ho)

/-- **The first pages of a section hold its first bytes**, filled up with zeros. -/
theorem flatMap_page (s : FilledSection) (count : Nat) :
    (List.range count).flatMap (fun i => (s.page i).toList) =
      s.data.toList.takeD (count * pageSize) 0 := by
  induction count with
  | zero => simp
  | succ count ih =>
    rw [List.range_succ, List.flatMap_append, ih, Nat.succ_mul, takeD_add, List.flatMap_singleton,
      toList_page]

/-- A section keeps the bytes that it has room for. -/
theorem toList_data_make (s : Section) (data : Bytes) :
    (make s data).data.toList = data.toList.take (s.pages * pageSize) := by
  rw [make, Bytes.slice_eq_extract, Array.toList_extract, List.extract_eq_take_drop]
  simp

theorem size_data_make (s : Section) (data : Bytes) :
    (make s data).data.size = min data.size (s.pages * pageSize) := by
  rw [← Array.length_toList, toList_data_make, List.length_take, Array.length_toList, Nat.min_comm]

end FilledSection

/-! ## Loading a page -/

/-- The frame with zeros from a place on, which may not lie behind its end. -/
def Page.clearFrom (frame : Page) (low : Nat) : Except Halt Page :=
  if low ≤ pageSize then .ok (splice frame low (Array.replicate (pageSize - low) 0))
  else .error .outOfBounds

namespace SectionImage

/-- A program of some sections, each with its bytes. -/
def assemble (entry : Nat) (parts : List (Section × Bytes)) : SectionImage :=
  parts.foldl (fun image part => image.withSection part.1 part.2) { entry }

/-- Loads page number `i` of section number `n` into a frame: what there is of the page comes first,
and the rest of the frame is cleared. -/
def loadPage (image : SectionImage) (n i : Nat) (frame : Page) : Except Halt Page :=
  match image.sections[n]? with
  | none => .error .outOfBounds
  | some s => do
    let start := min (i * pageSize) s.data.size
    let stop := min (start + pageSize) s.data.size
    let frame ← frame.copyFrom 0 (stop - start) s.data start stop
    frame.clearFrom (stop - start)

/-- Bytes at the start of a frame and zeros behind them make up the whole frame. -/
theorem splice_splice_replicate (frame : Page) {data : Bytes} (h : data.size ≤ pageSize) :
    splice (splice frame 0 data) data.size (Array.replicate (pageSize - data.size) 0) =
      Page.ofBytes data := by
  refine Vector.ext fun o ho => ?_
  have hzero : zeroPage[o] = 0 := Vector.getElem_replicate _
  have hsize : (Array.replicate (pageSize - data.size) (0 : UInt8)).size = pageSize - data.size :=
    Array.size_replicate
  rw [Page.ofBytes, getElem_splice, getElem_splice, getElem_splice, hzero]
  by_cases hin : o < data.size
  · rw [dif_neg (by omega), dif_pos ⟨Nat.zero_le _, hin⟩, dif_pos ⟨Nat.zero_le _, hin⟩]
  · rw [dif_pos ⟨Nat.le_of_not_lt hin, by omega⟩, Array.getElem_replicate,
      dif_neg fun hboth => hin hboth.2]

/-- **Loading a page stays within the bounds** of the table of sections, of the bytes and of the
frame, and leaves nothing of what the frame held. -/
theorem loadPage_eq {image : SectionImage} {n : Nat} {s : FilledSection}
    (hn : image.sections[n]? = some s) (i : Nat) (frame : Page) :
    image.loadPage n i frame = .ok (s.page i) := by
  have hfits : (Bytes.slice s.data (i * pageSize) pageSize).size ≤ pageSize := by
    rw [Bytes.slice_eq_extract, Array.size_extract]
    omega
  have hcount : min (min (i * pageSize) s.data.size + pageSize) s.data.size -
      min (i * pageSize) s.data.size = (Bytes.slice s.data (i * pageSize) pageSize).size := by
    rw [Bytes.slice_eq_extract, Array.size_extract]
    omega
  rw [loadPage, hn]
  dsimp only
  rw [Page.copyFrom, if_pos (by omega), Bytes.slice_min, hcount]
  show Page.clearFrom _ _ = _
  rw [Page.clearFrom, if_pos hfits, splice_splice_replicate frame hfits, FilledSection.page]

/-! ## Assembling -/

theorem sections_assemble (entry : Nat) (parts : List (Section × Bytes)) :
    (assemble entry parts).sections = parts.map fun part => .make part.1 part.2 := by
  suffices h : ∀ image : SectionImage,
      (parts.foldl (fun image part => image.withSection part.1 part.2) image).sections =
        image.sections ++ parts.map fun part => .make part.1 part.2 from h { entry }
  induction parts with
  | nil => exact fun image => (List.append_nil _).symm
  | cons part parts ih =>
    intro image
    rw [List.foldl_cons, ih, withSection, List.append_assoc, List.map_cons, List.singleton_append]

/-! ## What is loaded -/

/-- How section number `n` of a program stands in main memory, if it was given these bytes. -/
structure PagesOut (image : SectionImage) (n : Nat) (s : Section) (data : Bytes) : Prop where
  /-- Its pages, loaded into frames that hold anything, are the bytes one after the other: cut off
  at the end of the section, or filled up with zeros. -/
  whole : ∀ frames : Nat → Page, ∃ pages : List Page,
    (List.range s.pages).mapM (fun i => image.loadPage n i (frames i)) = .ok pages ∧
      pages.flatMap (·.toList) = data.toList.takeD (s.pages * pageSize) 0
  /-- Loading halts at no page number, also behind the end of the section, and leaves nothing of
  what the frame held. -/
  loads : ∀ i, ∃ page, (Image.assembled image).page? n i = some page ∧
    ∀ frame, image.loadPage n i frame = .ok page
  /-- Behind the end of the bytes there are only zeros. -/
  behind : ∀ {i}, min data.size (s.pages * pageSize) ≤ i * pageSize →
    ∀ frame, image.loadPage n i frame = .ok zeroPage

theorem pagesOut_of_make {image : SectionImage} {n : Nat} {s : Section} {data : Bytes}
    (hn : image.sections[n]? = some (.make s data)) : image.PagesOut n s data where
  whole frames := by
    refine ⟨(List.range s.pages).map (FilledSection.make s data).page, ?_, ?_⟩
    · simp only [loadPage_eq hn]
      exact List.mapM_pure
    · rw [List.flatMap_map, FilledSection.flatMap_page, FilledSection.toList_data_make, takeD_take]
  loads i := by
    refine ⟨(FilledSection.make s data).page i, ?_, loadPage_eq hn i⟩
    rw [Image.page?, hn, Option.map_some]
  behind h frame := by
    rw [loadPage_eq hn, FilledSection.page_eq_zeroPage (FilledSection.size_data_make s data ▸ h)]

/-- **A program that is assembled has exactly the bytes that it was given**, section by section: no
byte that a section has room for is lost, none is left over from a frame, and all else is zeros. -/
theorem pagesOut_of_assemble (entry : Nat) (parts : List (Section × Bytes)) :
    (Image.assembled (assemble entry parts)).sections = parts.map Prod.fst ∧
      ∀ {n : Nat} {s : Section} {data : Bytes}, parts[n]? = some (s, data) →
        (assemble entry parts).PagesOut n s data := by
  refine ⟨?_, fun {n s data} hn => pagesOut_of_make ?_⟩
  · rw [Image.sections, sections_assemble, List.map_map]
    rfl
  · rw [sections_assemble, List.getElem?_map, hn, Option.map_some]

/-- A section of two pages whose bytes end one byte behind the first, and one of a single page that
is given more bytes than it has room for. -/
def unevenParts : List (Section × Bytes) :=
  [({ name := ".data", first := ⟨0⟩, pages := 2, readOnly := false }, .replicate 1025 7),
    ({ name := ".text", first := ⟨2⟩, pages := 1, readOnly := true }, .replicate 1500 9)]

theorem pagesOut_unevenParts :
    ∃ data text : Section, unevenParts[0]? = some (data, .replicate 1025 7) ∧
      unevenParts[1]? = some (text, .replicate 1500 9) ∧
      (assemble 0 unevenParts).PagesOut 0 data (.replicate 1025 7) ∧
      (assemble 0 unevenParts).PagesOut 1 text (.replicate 1500 9) :=
  ⟨_, _, rfl, rfl, (pagesOut_of_assemble 0 unevenParts).2 rfl,
    (pagesOut_of_assemble 0 unevenParts).2 rfl⟩

end SectionImage

end DemandPaging
