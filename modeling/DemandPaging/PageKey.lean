import Std.Data.ExtTreeMap
import DemandPaging.Address

/-!
# Page keys

The identity of one page of one process.  Keys are ordered by process first
and by page within it, and the tables of the kernel are maps from keys in that
order.

* `PageMap` — a map from keys; two maps with the same entries are equal.
* `PageMap.keysOf` — the keys of one process, in order.
-/

namespace DemandPaging

/-- One page of one process. -/
structure PageKey where
  pid : Pid
  page : PageNumber
  deriving DecidableEq, Repr, Inhabited

namespace PageKey

def render (k : PageKey) : String := s!"{k.pid},{k.page.val}"

/-- By process, then by page. -/
def order (a b : PageKey) : Ordering :=
  (compare a.pid b.pid).then (compare a.page.val b.page.val)

instance : Ord PageKey := ⟨order⟩

theorem order_eq : (compare : PageKey → PageKey → Ordering) =
    compareLex (compareOn PageKey.pid) (compareOn fun k => k.page.val) := rfl

instance : Std.TransOrd PageKey := by
  unfold Std.TransOrd
  rw [order_eq]
  infer_instance

instance : Std.LawfulEqOrd PageKey where
  eq_of_compare {a b} h := by
    rw [show compare a b = order a b from rfl, order, Ordering.then_eq_eq] at h
    obtain ⟨h₁, h₂⟩ := h
    cases a
    cases b
    simp only [PageKey.mk.injEq]
    refine ⟨Std.LawfulEqCmp.eq_of_compare h₁, ?_⟩
    rename_i p _ q
    cases p
    cases q
    exact congrArg _ (Std.LawfulEqCmp.eq_of_compare h₂)

end PageKey

/-- A map from page keys. -/
abbrev PageMap (α : Type) := Std.ExtTreeMap PageKey α

/-- A map from processes. -/
abbrev PidMap (α : Type) := Std.ExtTreeMap Pid α

namespace PageMap

variable {α : Type}

/-- The keys of one process, by page. -/
def keysOf (m : PageMap α) (pid : Pid) : List PageKey := m.keys.filter (·.pid == pid)

theorem mem_keysOf {m : PageMap α} {pid : Pid} {k : PageKey} :
    k ∈ keysOf m pid ↔ k ∈ m ∧ k.pid = pid := by
  simp [keysOf]

end PageMap

end DemandPaging
