import DemandPaging.Fault

/-!
# Ranges of pages

A range of pages from a start up to, and without, a stop that does not lie
before it.

* `PageRange.make` — a range of two given ends; the machine halts on ends in
  the wrong order.
* `PageRange.mem_pages` — the pages enumerated are those contained.
-/

namespace DemandPaging

/-- The pages from `start` up to, and without, `stop`. -/
structure PageRange where
  start : PageNumber
  stop : PageNumber
  start_le_stop : start.val ≤ stop.val := by omega
  deriving Repr

namespace PageRange

/-- The range of two given ends. -/
def make (start stop : PageNumber) : Except Halt PageRange :=
  if h : start.val ≤ stop.val then .ok ⟨start, stop, h⟩ else .error (.reversedRange start stop)

/-- Does the page lie in the range? -/
def contains (r : PageRange) (p : PageNumber) : Bool :=
  r.start.val ≤ p.val && p.val < r.stop.val

/-- The first `count` pages of the range, or all of them if there are fewer. -/
def take (r : PageRange) (count : Nat) : List PageNumber :=
  (List.range (min count (r.stop.val - r.start.val))).map fun i => ⟨r.start.val + i⟩

/-- All pages of the range. -/
def pages (r : PageRange) : List PageNumber := r.take (r.stop.val - r.start.val)

/-- The pages enumerated are those contained. -/
theorem mem_pages {r : PageRange} {p : PageNumber} : p ∈ r.pages ↔ r.contains p = true := by
  have hr := r.start_le_stop
  simp only [pages, take, Nat.min_self, List.mem_map, List.mem_range, contains, Bool.and_eq_true,
    decide_eq_true_eq]
  constructor
  · rintro ⟨i, hi, rfl⟩
    exact ⟨Nat.le_add_right _ _, by simp only; omega⟩
  · rintro ⟨h₁, h₂⟩
    exact ⟨p.val - r.start.val, by omega, by cases p; simp only [PageNumber.mk.injEq] at *; omega⟩

end PageRange

end DemandPaging
