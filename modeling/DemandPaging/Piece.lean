import DemandPaging.Bytes

/-!
# Ranges of addresses, page by page

A range of addresses is cut at the ends of pages; each piece lies on one page.

* `pieces` — the pieces of a range, in order.
* `sum_size_pieces`, `piece_on_page` — they make up the range, each on one page.
* `Access` — what is done with the bytes of a range.
-/

namespace DemandPaging

/-- A part of a range that lies on one page. -/
structure Piece where
  address : VirtAddr
  /-- how many bytes of the range come before it -/
  place : Nat
  size : Nat
  deriving DecidableEq, Repr, Inhabited

/-- The pieces of the range of `count` addresses from `a` on, `place` bytes having
come before. -/
def piecesFrom (a : VirtAddr) (place count : Nat) : List Piece :=
  if _h : count = 0 then []
  else
    let size := min (pageSize - a.offset) count
    ⟨a, place, size⟩ :: piecesFrom (a.advance size) (place + size) (count - size)
termination_by count
decreasing_by
  have := a.offset_lt
  omega

/-- The pieces of the range of `count` addresses from `a` on. -/
def pieces (a : VirtAddr) (count : Nat) : List Piece := piecesFrom a 0 count

/-- The pieces make up the whole range. -/
theorem sum_size_pieces (a : VirtAddr) (count : Nat) :
    (pieces a count).foldr (·.size + ·) 0 = count := by
  suffices h : ∀ place, (piecesFrom a place count).foldr (·.size + ·) 0 = count from h 0
  induction count using Nat.strongRecOn generalizing a with
  | ind count ih =>
    intro place
    rw [piecesFrom]
    split
    · rename_i h
      simp [h]
    · rename_i h
      have := a.offset_lt
      simp only [List.foldr_cons]
      rw [ih _ (by omega)]
      omega

/-- No piece is empty, and each lies on one page. -/
theorem piece_on_page {a : VirtAddr} {count : Nat} {q : Piece} (hq : q ∈ pieces a count) :
    0 < q.size ∧ q.address.offset + q.size ≤ pageSize := by
  suffices h : ∀ place, q ∈ piecesFrom a place count →
      0 < q.size ∧ q.address.offset + q.size ≤ pageSize from h 0 hq
  clear hq
  induction count using Nat.strongRecOn generalizing a with
  | ind count ih =>
    intro place hq
    rw [piecesFrom] at hq
    split at hq
    · simp at hq
    · rename_i h
      have := a.offset_lt
      rcases List.mem_cons.1 hq with rfl | hq
      · exact ⟨by simp only; omega, by simp only; omega⟩
      · exact ih _ (by omega) _ hq

/-- What is done with the bytes of a range: they are read, or replaced. -/
inductive Access where
  | load
  | store (data : Bytes)
  deriving DecidableEq, Repr, Inhabited

namespace Access

/-- Are the bytes replaced? -/
def writing : Access → Bool
  | .load => false
  | .store _ => true

/-- What the access makes of the page that a piece lies on. -/
def change (a : Access) (q : Piece) (page : Page) : Page :=
  match a with
  | .load => page
  | .store data => splice page q.address.offset (Bytes.slice data q.place q.size)

end Access

end DemandPaging
