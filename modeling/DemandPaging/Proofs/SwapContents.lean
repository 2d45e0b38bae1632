import DemandPaging.Proofs.SwapSlots
import DemandPaging.Swap.HostFile

/-!
# What the swap file holds

A swap file may fail at any transfer, in any way but one: it does not say that it moved a whole
page when it did not.

* `FileView` — the bytes of a file, and what transfers do to them.
* `MemoryFile.view`, `FaultyFile.view`, `HostFile.view` — files that there are.
* `FileView.slotPage` — the page in a slot of the swap store, with what writing a page out and
  reading one back do to it.
-/

namespace DemandPaging

/-- What is seen of files that keep their word.  A transfer that is said to be of a whole page
is one; a write that is not may leave anything in the place that it was for, but it leaves all
other places alone; reads change nothing. -/
structure FileView (F : Type) [BackingFile F] where
  /-- the files that keep their word -/
  good : F → Prop
  /-- the byte at a place -/
  byte : F → Nat → UInt8
  writeAt : ∀ {f g : F} {offset n : Nat} {page : Page}, good f →
    BackingFile.writeAt f offset page.toArray = (n, g) →
      good g ∧ (∀ i, i < offset ∨ offset + pageSize ≤ i → byte g i = byte f i) ∧
        (n = pageSize → ∀ i, (h : i < pageSize) → byte g (offset + i) = page[i])
  readAt : ∀ {f g : F} {offset n : Nat} {buffer page : Page}, good f →
    BackingFile.readAt f offset buffer = (n, page, g) →
      good g ∧ (∀ i, byte g i = byte f i) ∧
        (n = pageSize → ∀ i, (h : i < pageSize) → page[i] = byte f (offset + i))

/-! ## Files that there are -/

namespace SparseBytes

/-- A page that is written is found there, and all else as before. -/
theorem byte_write_page (b : SparseBytes) (offset : Nat) (page : Page) :
    (∀ i, i < offset ∨ offset + pageSize ≤ i → (b.write offset page.toArray).byte i = b.byte i) ∧
      ∀ i, (h : i < pageSize) → (b.write offset page.toArray).byte (offset + i) = page[i] := by
  refine ⟨fun i hi => ?_, fun i hi => ?_⟩
  · exact byte_write_outside _ (by rw [Vector.size_toArray]; exact hi)
  · rw [byte_write, if_pos (Nat.le_add_right _ _), Nat.add_sub_cancel_left]
    simp [hi]

/-- A slice that goes into a buffer fills it, as far as there are bytes. -/
theorem getElem_splice_slice (b : SparseBytes) {n : Nat} (buffer : Vector UInt8 n)
    {offset start count i : Nat} (hsize : offset + start + count ≤ b.size)
    (hi : i < n) :
    (splice buffer start (b.slice (offset + start) count))[i] =
      if start ≤ i ∧ i < start + count then b.byte (offset + i) else buffer[i] := by
  have hcount : (b.slice (offset + start) count).size = count := by
    rw [slice, ByteRow.size_window]
    omega
  rw [getElem_splice]
  simp only [hcount]
  by_cases h : start ≤ i ∧ i < start + count
  · rw [dif_pos ⟨h.1, by omega⟩, if_pos h]
    apply Option.some.inj
    rw [← Array.getElem?_eq_getElem, getElem?_slice, if_pos (by omega)]
    congr 2
    omega
  · rw [dif_neg (by omega), if_neg h]

end SparseBytes

/-- A file in memory keeps its word. -/
def MemoryFile.view : FileView MemoryFile where
  good _ := True
  byte f i := f.bytes.byte i
  writeAt {f g offset n page} _ h := by
    obtain ⟨-, rfl⟩ := Prod.mk.inj h
    obtain ⟨hout, hin⟩ := f.bytes.byte_write_page offset page
    exact ⟨trivial, hout, fun _ => hin⟩
  readAt {f g offset n buffer page} _ h := by
    simp only [BackingFile.readAt, MemoryFile.readAt, Prod.mk.injEq] at h
    obtain ⟨hn, rfl, rfl⟩ := h
    refine ⟨trivial, fun _ => rfl, fun hfull i hi => ?_⟩
    have hsize : offset + 0 + pageSize ≤ f.bytes.size := by
      rw [hfull, MemoryFile.size] at hn
      omega
    have h := f.bytes.getElem_splice_slice buffer hsize hi
    rwa [if_pos ⟨Nat.zero_le i, by omega⟩] at h

/-- So does one whose calls fail, in any pattern, unless the failing ones claim to have moved a
page. -/
def FaultyFile.view : FileView FaultyFile where
  good f := f.plan.claimed ≠ pageSize
  byte f i := f.content.bytes.byte i
  writeAt {f g offset n page} hf h := by
    simp only [BackingFile.writeAt] at h
    split at h
    · obtain ⟨rfl, rfl⟩ := Prod.mk.inj h
      exact ⟨hf, fun _ _ => rfl, fun hfull => absurd hfull hf⟩
    · obtain ⟨-, rfl⟩ := Prod.mk.inj h
      obtain ⟨hout, hin⟩ := f.content.bytes.byte_write_page offset page
      exact ⟨hf, hout, fun _ => hin⟩
  readAt {f g offset n buffer page} hf h := by
    simp only [BackingFile.readAt] at h
    split at h
    · simp only [Prod.mk.injEq] at h
      obtain ⟨rfl, -, rfl⟩ := h
      exact ⟨hf, fun _ => rfl, fun hfull => absurd hfull hf⟩
    · simp only [Prod.mk.injEq] at h
      obtain ⟨rfl, rfl, rfl⟩ := h
      exact ⟨hf, fun _ => rfl, (MemoryFile.view.readAt (f := f.content) trivial rfl).2.2⟩

namespace HostFile

/-- A host delivers the bytes of the file, however many at a time. -/
theorem fill_spec {n offset attempts done moved : Nat} {f g : HostFile}
    {buffer page : Vector UInt8 n} (h : fill offset attempts f done buffer = (moved, page, g)) :
    g.bytes = f.bytes ∧ done ≤ moved ∧ ∀ i, (hi : i < n) →
      page[i] = if done ≤ i ∧ i < moved then f.bytes.byte (offset + i) else buffer[i] := by
  induction attempts generalizing f done buffer with
  | zero =>
    simp only [fill, Prod.mk.injEq] at h
    obtain ⟨rfl, rfl, rfl⟩ := h
    exact ⟨rfl, Nat.le_refl _, fun i hi => by rw [if_neg (by omega)]⟩
  | succ attempts ih =>
    unfold fill at h
    dsimp only at h
    split at h
    · simp only [Prod.mk.injEq] at h
      obtain ⟨rfl, rfl, rfl⟩ := h
      exact ⟨rfl, Nat.le_refl _, fun i hi => by rw [if_neg (by omega)]⟩
    · rename_i hleft
      obtain ⟨hbytes, hle, hpage⟩ := ih h
      refine ⟨hbytes, by omega, fun i hi => ?_⟩
      rw [hpage i hi, f.bytes.getElem_splice_slice _ (by omega) hi]
      by_cases h₁ : done ≤ i ∧ i < moved
      · rw [if_pos h₁]
        split
        · rfl
        · rw [if_pos (by omega)]
      · rw [if_neg h₁, if_neg (by omega), if_neg (by omega)]

/-- **A read gets all bytes that there are**, up to the end of the buffer, however many the host
delivers at a time. -/
theorem moved_fill {n offset attempts done : Nat} {f : HostFile} {buffer : Vector UInt8 n}
    (h : n - done ≤ attempts) : (fill offset attempts f done buffer).1 =
      done + min (n - done) (f.bytes.size - (offset + done)) := by
  induction attempts generalizing f done buffer with
  | zero =>
    show done = _
    omega
  | succ attempts ih =>
    unfold fill
    dsimp only
    split
    · show done = _
      omega
    -- the host delivers a byte at least, so that it need not be asked more often than there is room
    · rw [ih (by omega)]
      dsimp only
      omega

/-- How far a file can grow is for the host to say. -/
theorem limit_fill {n : Nat} (offset attempts : Nat) (f : HostFile) (done : Nat)
    (buffer : Vector UInt8 n) : (fill offset attempts f done buffer).2.2.limit = f.limit := by
  induction attempts generalizing f done buffer with
  | zero => rfl
  | succ attempts ih =>
    unfold fill
    dsimp only
    split
    · rfl
    · rw [ih]

theorem put_page (f : HostFile) (offset : Nat) (page : Page) :
    f.put offset page.toArray = { f with bytes := f.bytes.write offset page.toArray } :=
  if_neg (by simp [Array.isEmpty])

/-- A page that the file has room for is written whole. -/
theorem writeAt_room {f : HostFile} {offset : Nat} {page : Page}
    (hroom : ∀ limit, f.limit = some limit → offset + pageSize ≤ limit) :
    BackingFile.writeAt f offset page.toArray =
      (pageSize, { f with bytes := f.bytes.write offset page.toArray }) := by
  have hsize : page.toArray.size = pageSize := Vector.size_toArray page
  simp only [BackingFile.writeAt, put_page, hsize]
  split
  · rfl
  · rename_i limit hlimit
    rw [if_pos (hroom limit hlimit)]

/-- Of a page that runs over the end of the file the part before it is written. -/
theorem writeAt_over {f : HostFile} {offset limit : Nat} {page : Page} (hlimit : f.limit = some limit)
    (hover : ¬ offset + pageSize ≤ limit) :
    BackingFile.writeAt f offset page.toArray =
      (0, f.put offset (page.toArray.extract 0 (limit - offset))) := by
  have hsize : page.toArray.size = pageSize := Vector.size_toArray page
  simp only [BackingFile.writeAt, hlimit, hsize, if_neg hover]

/-- A file of a host keeps its word, also if its end is reached. -/
def view : FileView HostFile where
  good _ := True
  byte f i := f.bytes.byte i
  writeAt {f g offset n page} _ h := by
    by_cases hroom : ∀ limit, f.limit = some limit → offset + pageSize ≤ limit
    · rw [writeAt_room hroom] at h
      obtain ⟨-, rfl⟩ := Prod.mk.inj h
      obtain ⟨hout, hin⟩ := f.bytes.byte_write_page offset page
      exact ⟨trivial, hout, fun _ => hin⟩
    · obtain ⟨limit, hnot⟩ := Classical.not_forall.1 hroom
      obtain ⟨hlimit, hover⟩ := Classical.not_imp.1 hnot
      rw [writeAt_over hlimit hover] at h
      obtain ⟨rfl, rfl⟩ := Prod.mk.inj h
      refine ⟨trivial, fun i hi => ?_, fun hfull => by cases hfull⟩
      unfold put
      split
      · rfl
      · dsimp only
        refine SparseBytes.byte_write_outside _ ?_
        rw [Array.size_extract, Vector.size_toArray]
        omega
  readAt {f g offset n buffer page} _ h := by
    obtain ⟨hbytes, -, hpage⟩ := fill_spec h
    refine ⟨trivial, fun i => by rw [hbytes], fun hfull i hi => ?_⟩
    rw [hpage i hi, hfull, if_pos ⟨Nat.zero_le i, hi⟩]

end HostFile

/-! ## Slots of the swap store -/

namespace FileView

variable {F : Type} [BackingFile F] (w : FileView F)

/-- The page in a slot. -/
def slotPage (f : F) (a : SwapSlot) : Page := Vector.ofFn fun i => w.byte f (a.offset + i.val)

theorem slotPage_eq {f : F} {a : SwapSlot} {page : Page}
    (h : ∀ i, (hi : i < pageSize) → page[i] = w.byte f (a.offset + i)) : w.slotPage f a = page := by
  apply Vector.ext
  intro i hi
  rw [slotPage, Vector.getElem_ofFn, h i hi]

/-- **A page that was written out is in its slot**, and no other slot has changed, whether or not
the transfer was complete. -/
theorem slotPage_of_wroteOut {s t : SwapStore F} {key : PageKey} {page : Page} {a : SwapSlot}
    {n : Nat} (hgood : w.good s.file) (h : SwapStore.WroteOut s t key page a n) :
    w.good t.file ∧ (∀ b, b ≠ a → w.slotPage t.file b = w.slotPage s.file b) ∧
      (n = pageSize → w.slotPage t.file a = page) := by
  obtain ⟨ht, hout, hin⟩ := w.writeAt hgood h.file
  refine ⟨ht, fun b hb => ?_, fun hfull => ?_⟩
  · refine w.slotPage_eq fun i hi => ?_
    have hne : b.index ≠ a.index := by
      intro heq
      cases a
      cases b
      exact hb (congrArg SwapSlot.mk heq)
    rw [slotPage, Vector.getElem_ofFn, hout]
    simp only [SwapSlot.offset, pageSize] at *
    omega
  · exact w.slotPage_eq fun i hi => (hin hfull i hi).symm

/-- **A page that was read back is the one in its slot**, and no slot has changed. -/
theorem slotPage_of_readFrom {s t : SwapStore F} {a : SwapSlot} {n : Nat} {page : Page}
    (hgood : w.good s.file) (h : SwapStore.ReadFrom s t a n page) :
    w.good t.file ∧ (∀ b, w.slotPage t.file b = w.slotPage s.file b) ∧
      (n = pageSize → w.slotPage s.file a = page) := by
  obtain ⟨buffer, hread⟩ := h.file
  obtain ⟨ht, hsame, hin⟩ := w.readAt hgood hread
  refine ⟨ht, fun b => ?_, fun hfull => w.slotPage_eq (hin hfull)⟩
  rw [slotPage, slotPage]
  simp only [hsame]

end FileView

end DemandPaging
