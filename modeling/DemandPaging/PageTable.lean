import DemandPaging.Entry

/-!
# The inverted page table

One table for all processes, with an entry for each resident page and for no
other.  It is the authority on translations; copies of its entries stand in
TLBs.

* `PageTable.foldCopy` — takes over the bits of a copy, unless the copy is
  stale: of another page or another frame than the entry.
-/

namespace DemandPaging

/-- The entries of all resident pages. -/
abbrev PageTable := PageMap Translation

namespace PageTable

/-- Is the copy one of the entry? -/
def current (e copy : Translation) : Bool := e.frame == copy.frame && e.page == copy.page

/-- The table with the bits of a copy folded into the entry of a page, and
whether there was an entry that the copy is of. -/
def foldCopy (t : PageTable) (key : PageKey) (copy : Translation) : Bool × PageTable :=
  match t[key]? with
  | some e => if current e copy then (true, t.insert key (e.fold copy)) else (false, t)
  | none => (false, t)

/-- The table with the entry of a page changed in place. -/
def update (t : PageTable) (key : PageKey) (change : Translation → Translation) : PageTable :=
  match t[key]? with
  | some e => t.insert key (change e)
  | none => t

theorem getElem?_update (t : PageTable) (key k : PageKey) (change : Translation → Translation) :
    (t.update key change)[k]? = if key = k then t[k]?.map change else t[k]? := by
  unfold update
  by_cases h : key = k
  · subst h
    cases he : t[key]? <;> simp [he]
  · cases he : t[key]? <;> simp [h, Std.ExtTreeMap.getElem?_insert]

theorem getElem?_foldCopy (t : PageTable) (key k : PageKey) (copy : Translation) :
    (t.foldCopy key copy).2[k]? =
      if key = k then t[k]?.map fun e => if current e copy then e.fold copy else e
      else t[k]? := by
  unfold foldCopy
  by_cases h : key = k
  · subst h
    cases he : t[key]? with
    | none => simp [he]
    | some e => by_cases hc : current e copy <;> simp [hc, he]
  · cases he : t[key]? with
    | none => simp [h]
    | some e => by_cases hc : current e copy <;> simp [hc, h, Std.ExtTreeMap.getElem?_insert]

end PageTable

end DemandPaging
