import DemandPaging.Fault

/-!
# Sections of a program

A section is a run of pages of a program, which the process may or may not
write.

* `Section.check` — no two sections of a list may share a page.
* `Section.stop` — one past the last page.
-/

namespace DemandPaging

/-- A run of pages of a program. -/
structure Section where
  name : String
  /-- the first page -/
  first : PageNumber
  /-- the number of pages -/
  pages : Nat
  /-- the process may not write the pages -/
  readOnly : Bool
  deriving DecidableEq, Repr, Inhabited

namespace Section

/-- One past the last page. -/
def stop (s : Section) : Nat := s.first.val + s.pages

/-- Does the page lie in the section? -/
def contains (s : Section) (p : PageNumber) : Bool := s.first.val ≤ p.val && p.val < s.stop

/-- The ends of a section. -/
def bounds (s : Section) : Nat × Nat := (s.first.val, s.stop)

/-- By start, then by end. -/
def boundsLE (a b : Nat × Nat) : Bool := a.1 < b.1 || (a.1 == b.1 && a.2 ≤ b.2)

/-- Does each run end before the next one starts? -/
def apart : List (Nat × Nat) → Bool
  | a :: b :: rest => a.2 ≤ b.1 && apart (b :: rest)
  | _ => true

/-- Do no two of the sections share a page?  The sections that have pages are put
in order, and then each has to end before the next one starts. -/
def disjoint (sections : List Section) : Bool :=
  apart (((sections.filter (0 < ·.pages)).map bounds).mergeSort boundsLE)

/-- Refuses sections that share a page. -/
def check (sections : List Section) : Except PagingError Unit :=
  if disjoint sections then .ok () else .error .overlappingSections

end Section

end DemandPaging
