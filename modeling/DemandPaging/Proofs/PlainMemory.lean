import DemandPaging.Memory
import DemandPaging.Piece

/-!
# Memory by the string and by the page

A string that is read or written piece by piece, each piece lying on one page, is read or
written as a whole.

* `Memory.frame_write_append` — the last piece of a written string is spliced into its page.
* `Memory.read_append`, `Memory.read_page` — a string is read piece by piece, each from its page.
* `Pieces`, `pieces_spec` — how the pieces of a range follow each other.
* `Access.after`, `Access.Moved` — what an access makes of a plain memory, and what it yields;
  `Access.Moved.append` takes both one piece further.
-/

namespace DemandPaging

/-! ## Strings -/

theorem Bytes.slice_append (data : Bytes) (n k : Nat) :
    Bytes.slice data 0 n ++ Bytes.slice data n k = Bytes.slice data 0 (n + k) := by
  simp only [Bytes.slice_eq_extract, Nat.zero_add]
  rw [Array.extract_append_extract, Nat.min_eq_left (Nat.zero_le n), Nat.max_eq_right (by omega)]

theorem Bytes.size_slice {data : Bytes} {n k : Nat} (h : n + k ≤ data.size) :
    (Bytes.slice data n k).size = k := by
  rw [Bytes.slice_eq_extract, Array.size_extract]
  omega

/-- What was spliced into a page is found there again. -/
theorem slice_splice (page : Page) {o : Nat} {x : Bytes} (h : o + x.size ≤ pageSize) :
    Page.slice (splice page o x) o x.size = x := by
  rw [Page.slice, Bytes.slice_eq_extract]
  apply Array.ext
  · rw [Array.size_extract, Vector.size_toArray]
    omega
  · intro i hi hi'
    rw [Array.getElem_extract, Vector.getElem_toArray, getElem_splice, dif_pos (by omega)]
    congr 1
    omega

theorem VirtAddr.page_mul_add_offset (a : VirtAddr) : a.page.val * pageSize + a.offset = a.val := by
  rw [Nat.mul_comm]
  exact Nat.div_add_mod a.val pageSize

namespace Memory

/-! ## Bytes of frames -/

/-- A frame is the bytes at its addresses. -/
theorem getElem_frame (m : Memory) (q i : Nat) (hi : i < pageSize) :
    (m.frame ⟨q⟩)[i] = m.byte ⟨q * pageSize + i⟩ := by
  have hdiv : (q * pageSize + i) / pageSize = q := by
    simp only [pageSize] at *
    omega
  have hmod : (q * pageSize + i) % pageSize = i := by
    simp only [pageSize] at *
    omega
  rw [byte_eq_get]
  simp only [PhysAddr.frame, PhysAddr.offset, hdiv, hmod]
  rfl

/-- What is written after another string ends up on the page where that string ends. -/
theorem frame_write_append (m : Memory) {a p o : Nat} {x y : Bytes}
    (ha : a + x.size = p * pageSize + o) (ho : o + y.size ≤ pageSize)
    (hfit : a + x.size + y.size ≤ m.size) (q : Nat) :
    (m.write ⟨a⟩ (x ++ y)).frame ⟨q⟩ =
      if q = p then splice ((m.write ⟨a⟩ x).frame ⟨p⟩) o y else (m.write ⟨a⟩ x).frame ⟨q⟩ := by
  have hbyte : ∀ c, (m.write ⟨a⟩ (x ++ y)).byte ⟨c⟩ =
      if a + x.size ≤ c then y[c - (a + x.size)]?.getD ((m.write ⟨a⟩ x).byte ⟨c⟩)
      else (m.write ⟨a⟩ x).byte ⟨c⟩ := by
    intro c
    rw [byte_write _ _ _ _ (by rw [Array.size_append]; simp only; omega),
      byte_write _ _ _ _ (by simp only; omega)]
    simp only [Array.getElem?_append]
    by_cases hc : a + x.size ≤ c
    · have hx : x[c - a]? = none := Array.getElem?_eq_none (by omega)
      rw [if_pos (by omega), if_neg (by omega), if_pos hc, if_pos (by omega), hx, Option.getD_none,
        Nat.sub_sub]
    · by_cases hac : a ≤ c
      · rw [if_pos hac, if_pos (by omega), if_neg hc, if_pos hac]
      · rw [if_neg hac, if_neg hc, if_neg hac]
  apply Vector.ext
  intro i hi
  rw [getElem_frame, hbyte, ha]
  by_cases hq : q = p
  · subst hq
    rw [if_pos rfl, getElem_splice, getElem_frame]
    by_cases hi' : o ≤ i ∧ i - o < y.size
    · rw [dif_pos hi', if_pos (by omega), show q * pageSize + i - (q * pageSize + o) = i - o by omega,
        Array.getElem?_eq_getElem hi'.2, Option.getD_some]
    · rw [dif_neg hi']
      split
      · rw [Array.getElem?_eq_none (by omega), Option.getD_none]
      · rfl
  · rw [if_neg hq, getElem_frame]
    split
    · rename_i hle
      rw [Array.getElem?_eq_none, Option.getD_none]
      simp only [pageSize] at *
      omega
    · rfl

/-- Writing nothing leaves every frame as it is. -/
theorem frame_write_empty (m : Memory) (a : PhysAddr) (q : Nat) :
    (m.write a #[]).frame ⟨q⟩ = m.frame ⟨q⟩ := by
  apply Vector.ext
  intro i hi
  have hslice : Bytes.slice #[] 0 (m.size - a.val) = #[] := by simp [Bytes.slice]
  rw [getElem_frame, getElem_frame, byte, byte, write, hslice, ByteRow.byte_write, dif_neg (by simp)]

/-- A string written on one page is spliced into it. -/
theorem frame_write (m : Memory) {p o : Nat} {y : Bytes} (ho : o + y.size ≤ pageSize)
    (hfit : p * pageSize + o + y.size ≤ m.size) (q : Nat) :
    (m.write ⟨p * pageSize + o⟩ y).frame ⟨q⟩ =
      if q = p then splice (m.frame ⟨p⟩) o y else m.frame ⟨q⟩ := by
  have hend : p * pageSize + o + (#[] : Bytes).size = p * pageSize + o := by
    rw [Array.size_empty, Nat.add_zero]
  have h := m.frame_write_append (x := #[]) hend ho (by rw [hend]; exact hfit) q
  rwa [Array.empty_append, frame_write_empty, frame_write_empty] at h

/-! ## Reading -/

@[simp] theorem size_read (m : Memory) (a : PhysAddr) (n : Nat) : (m.read a n).size = n :=
  ByteRow.size_window _ _ _

/-- What is read on one page is a part of it. -/
theorem read_page (m : Memory) {p o n : Nat} (h : o + n ≤ pageSize) (ho : o < pageSize) :
    m.read ⟨p * pageSize + o⟩ n = (m.frame ⟨p⟩).slice o n := by
  have hdiv : (p * pageSize + o) / pageSize = p := by
    simp only [pageSize] at *
    omega
  have hmod : (p * pageSize + o) % pageSize = o := by
    simp only [pageSize] at *
    omega
  unfold read ByteRow.window
  simp only [hdiv, hmod, if_pos h]
  rfl

/-- Two strings that follow each other are read as one. -/
theorem read_append (m : Memory) (a n k : Nat) :
    m.read ⟨a⟩ n ++ m.read ⟨a + n⟩ k = m.read ⟨a⟩ (n + k) := by
  apply Array.ext_getElem?
  intro i
  rw [Array.getElem?_append, size_read, getElem?_read, getElem?_read, getElem?_read]
  by_cases hi : i < n
  · rw [if_pos hi, if_pos hi, if_pos (by omega)]
  · rw [if_neg hi]
    by_cases hk : i < n + k
    · rw [if_pos (by omega), if_pos hk, show a + n + (i - n) = a + i by omega]
    · rw [if_neg (by omega), if_neg hk]

end Memory

/-! ## Pieces of a range -/

/-- Pieces of a range from `a` on, `place` bytes of it having come before them, that reach up to
`stop`: each goes on where the one before it ended, and lies on one page. -/
inductive Pieces (a : Nat) : (place stop : Nat) → List Piece → Prop
  | nil {place : Nat} : Pieces a place place []
  | cons {place stop : Nat} {q : Piece} {qs : List Piece} (haddress : q.address.val = a + place)
    (hplace : q.place = place) (hpage : q.address.offset + q.size ≤ pageSize)
    (hrest : Pieces a (place + q.size) stop qs) : Pieces a place stop (q :: qs)

theorem Pieces.le {a place stop : Nat} {qs : List Piece} (h : Pieces a place stop qs) :
    place ≤ stop := by
  induction h with
  | nil => exact Nat.le_refl _
  | cons _ _ _ _ ih => omega

/-- The next piece lies on one page, and within what is to be stored. -/
theorem Pieces.fits {a place stop : Nat} {q : Piece} {qs : List Piece} {access : Access}
    (h : Pieces a place stop (q :: qs)) (hdata : ∀ data, access = .store data → stop ≤ data.size) :
    q.address.offset + q.size ≤ pageSize ∧
      ∀ data, access = .store data → q.place + q.size ≤ data.size := by
  cases h with
  | cons haddress hplace hpage hrest =>
    refine ⟨hpage, fun data hd => ?_⟩
    have hle := hrest.le
    have hstop := hdata data hd
    omega

/-- **The pieces of a range make it up**, one after the other. -/
theorem pieces_spec (a : VirtAddr) (count : Nat) : Pieces a.val 0 count (pieces a count) := by
  have hfrom : ∀ (count place : Nat) (b : VirtAddr), b.val = a.val + place →
      Pieces a.val place (place + count) (piecesFrom b place count) := by
    intro count
    induction count using Nat.strongRecOn with
    | ind count ih =>
      intro place b hb
      rw [piecesFrom]
      split
      · rename_i hzero
        subst hzero
        exact .nil
      · have hoffset := b.offset_lt
        dsimp only
        refine .cons hb rfl ?_ ?_
        · dsimp only
          omega
        · have hnext := ih (count - min (pageSize - b.offset) count) (by omega)
            (place + min (pageSize - b.offset) count) (b.advance (min (pageSize - b.offset) count))
            (by simp only [VirtAddr.advance]; omega)
          rwa [show place + min (pageSize - b.offset) count + (count - min (pageSize - b.offset) count)
            = place + count by omega] at hnext
  have h := hfrom count 0 a (Nat.add_zero _).symm
  rwa [Nat.zero_add] at h

/-! ## Accesses to a plain memory -/

namespace Access

/-- A plain memory after an access from address `a` on has moved some bytes. -/
def after (access : Access) (memory : Memory) (a : Nat) (moved : Bytes) : Memory :=
  match access with
  | .load => memory
  | .store _ => memory.write ⟨a⟩ moved

@[simp] theorem frameCount_after (access : Access) (memory : Memory) (a : Nat) (moved : Bytes) :
    (access.after memory a moved).frameCount = memory.frameCount := by
  cases access <;> rfl

theorem frame_after_empty (access : Access) (memory : Memory) (a n : Nat) :
    (access.after memory a #[]).frame ⟨n⟩ = memory.frame ⟨n⟩ := by
  cases access with
  | load => rfl
  | store data => exact memory.frame_write_empty ⟨a⟩ n

theorem change_of_not_writing {access : Access} (h : access.writing = false) (q : Piece)
    (page : Page) : access.change q page = page := by
  cases access with
  | load => rfl
  | store data => cases h

/-- The bytes are the first that an access from address `a` on moves: those that stand there, as
far as that is `known`, or those that are to be stored there. -/
structure Moved (known : Prop) (access : Access) (memory : Memory) (a : Nat) (moved : Bytes) :
    Prop where
  fits : 0 < moved.size → a + moved.size ≤ memory.size
  load : known → access = .load → moved = memory.read ⟨a⟩ moved.size
  store : ∀ {data}, access = .store data → moved = Bytes.slice data 0 moved.size

theorem moved_empty (known : Prop) (access : Access) (memory : Memory) (a : Nat) :
    access.Moved known memory a #[] := by
  refine ⟨fun h => absurd h (Nat.lt_irrefl 0), fun _ _ => ?_, fun {data} _ => ?_⟩
  · apply Array.ext_getElem?
    intro i
    rw [Memory.getElem?_read, if_neg (by simp)]
    rfl
  · rw [Bytes.slice_eq_extract]
    simp

/-- **An access goes on by one piece.**  The bytes are taken from the page that the piece lies on,
after it was changed, and the plain memory changes like that page. -/
theorem Moved.append {known : Prop} {access : Access} {memory : Memory} {a : Nat}
    {moved bytes : Bytes} {q : Piece} {old : Page} (h : access.Moved known memory a moved)
    (haddress : q.address.val = a + moved.size) (hplace : q.place = moved.size)
    (hpage : q.address.offset + q.size ≤ pageSize)
    (hin : q.address.page.val < memory.frameCount)
    (hdata : ∀ data, access = .store data → q.place + q.size ≤ data.size)
    (hold : known → old = (access.after memory a moved).frame ⟨q.address.page.val⟩)
    (hbytes : bytes = (access.change q old).slice q.address.offset q.size) :
    access.Moved known memory a (moved ++ bytes) ∧
      ∀ n, (access.after memory a (moved ++ bytes)).frame ⟨n⟩ =
        if n = q.address.page.val then
          access.change q ((access.after memory a moved).frame ⟨q.address.page.val⟩)
        else (access.after memory a moved).frame ⟨n⟩ := by
  have hsplit := q.address.page_mul_add_offset
  have hoffset := q.address.offset_lt
  have hsize : bytes.size = q.size := by
    rw [hbytes, Page.slice, Bytes.size_slice]
    rw [Vector.size_toArray]
    exact hpage
  have hfits : a + (moved ++ bytes).size ≤ memory.size := by
    have hle : (q.address.page.val + 1) * pageSize ≤ memory.frameCount * pageSize :=
      Nat.mul_le_mul_right _ hin
    rw [Array.size_append, hsize, Memory.size]
    simp only [pageSize] at *
    omega
  cases access with
  | load =>
    refine ⟨⟨fun _ => hfits, fun hk _ => ?_, fun hs => (by cases hs)⟩, fun n => ?_⟩
    · have hnext : bytes = memory.read ⟨a + moved.size⟩ q.size := by
        rw [hbytes, hold hk, ← haddress, ← hsplit]
        exact (memory.read_page hpage hoffset).symm
      rw [Array.size_append, hsize, ← memory.read_append, ← hnext, ← h.load hk rfl]
    · split
      · rename_i hn
        rw [hn]
        rfl
      · rfl
  | store data =>
    have hpiece : (Bytes.slice data q.place q.size).size = q.size :=
      Bytes.size_slice (hdata data rfl)
    have hbytes : bytes = Bytes.slice data q.place q.size := by
      have hback := slice_splice old (o := q.address.offset) (x := Bytes.slice data q.place q.size)
        (by rw [hpiece]; exact hpage)
      rw [hpiece] at hback
      exact hbytes.trans hback
    refine ⟨⟨fun _ => hfits, fun _ hl => (by cases hl), fun {d} hd => ?_⟩, fun n => ?_⟩
    · obtain rfl := Access.store.inj hd
      rw [Array.size_append, hsize, ← Bytes.slice_append, ← h.store rfl, hbytes, hplace]
    · have hend : a + moved.size = q.address.page.val * pageSize + q.address.offset := by
        rw [hsplit, haddress]
      have hwrite := memory.frame_write_append (y := bytes) hend (by rw [hsize]; exact hpage)
        (by rw [Array.size_append] at hfits; omega) n
      rw [hbytes] at hwrite ⊢
      exact hwrite

end Access

end DemandPaging
