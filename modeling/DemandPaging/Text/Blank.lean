/-!
# Blank characters

The 25 characters that Unicode gives the property `White_Space`, and the
trimming of a text at both ends.

* `isBlank_of_isWhitespace` — the ASCII class of the core library lies inside.
* `trim_eq_nil_iff` — exactly the texts of blanks trim to nothing.
-/

namespace DemandPaging.Text

/-- Has the character the property `White_Space`? -/
def isBlank (c : Char) : Bool :=
  let n := c.toNat
  (0x9 ≤ n && n ≤ 0xD) || n == 0x20 || n == 0x85 || n == 0xA0 || n == 0x1680 ||
    (0x2000 ≤ n && n ≤ 0x200A) || n == 0x2028 || n == 0x2029 || n == 0x202F || n == 0x205F ||
    n == 0x3000

/-- A text without the blanks it starts with. -/
def trimStart (cs : List Char) : List Char := cs.dropWhile isBlank

/-- A text without the blanks at its two ends. -/
def trim (cs : List Char) : List Char := (trimStart (trimStart cs).reverse).reverse

theorem isBlank_of_isWhitespace {c : Char} (h : c.isWhitespace = true) : isBlank c = true := by
  simp only [Char.isWhitespace, Bool.or_eq_true, decide_eq_true_eq] at h
  rcases h with ((rfl | rfl) | rfl) | rfl <;> rfl

theorem trimStart_eq_nil_iff {cs : List Char} :
    trimStart cs = [] ↔ ∀ c ∈ cs, isBlank c = true := by
  induction cs with
  | nil => simp [trimStart]
  | cons c cs ih =>
    simp only [trimStart] at ih
    by_cases h : isBlank c <;> simp [trimStart, h, ih]

/-- Exactly the texts of blanks trim to nothing. -/
theorem trim_eq_nil_iff {cs : List Char} : trim cs = [] ↔ ∀ c ∈ cs, isBlank c = true := by
  constructor
  · intro h
    by_cases hs : trimStart cs = []
    · exact trimStart_eq_nil_iff.1 hs
    · exfalso
      have hall := trimStart_eq_nil_iff.1 (List.reverse_eq_nil_iff.1 h)
      have hhead : isBlank ((trimStart cs).head hs) = false := List.head_dropWhile_not isBlank hs
      have := hall _ (List.mem_reverse.2 (List.head_mem hs))
      simp [hhead] at this
  · intro h
    rw [trim, trimStart_eq_nil_iff.2 h]
    rfl

end DemandPaging.Text
