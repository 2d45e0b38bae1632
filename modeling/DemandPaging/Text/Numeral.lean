/-!
# Decimal numerals

A numeral is one or more ASCII digits, which a plus sign may precede.  It is
read as a number below a limit; a larger value is no numeral, and neither is a
negative one.  Reading ends where the value reaches the limit, however many digits
follow, because they could only make it larger.

* `numeral?_lt` — what is read lies below the limit.
* `digitsValue?_append` — digits are read one after the other.
-/

namespace DemandPaging.Text

/-- The value of a row of digits that follows the value `high`, as long as it lies
below `limit`. -/
def digitsValue? (limit high : Nat) : List Char → Option Nat
  | [] => some high
  | c :: cs =>
    let value := high * 10 + (c.toNat - '0'.toNat)
    if c.isDigit && value < limit then digitsValue? limit value cs else none

/-- The digits of a numeral: all of it, or all but the plus sign it starts with. -/
def unsigned : List Char → List Char
  | '+' :: cs => cs
  | cs => cs

/-- The number a numeral stands for, if it lies below `limit`. -/
def numeral? (limit : Nat) (cs : List Char) : Option Nat :=
  match unsigned cs with
  | [] => none
  | digits => digitsValue? limit 0 digits

/-- Digits are read one after the other. -/
theorem digitsValue?_append (limit high : Nat) (cs ds : List Char) :
    digitsValue? limit high (cs ++ ds) =
      (digitsValue? limit high cs).bind fun value => digitsValue? limit value ds := by
  induction cs generalizing high with
  | nil => rfl
  | cons c cs ih =>
    simp only [List.cons_append, digitsValue?]
    split
    · exact ih _
    · rfl

/-- The value of some digits lies below the limit. -/
theorem digitsValue?_lt {limit high n : Nat} {cs : List Char} (hcs : cs ≠ [])
    (h : digitsValue? limit high cs = some n) : n < limit := by
  induction cs generalizing high with
  | nil => exact absurd rfl hcs
  | cons c cs ih =>
    simp only [digitsValue?] at h
    split at h
    · rename_i hc
      rcases cs with _ | ⟨d, ds⟩
      · simp only [digitsValue?, Option.some.injEq] at h
        simp only [Bool.and_eq_true, decide_eq_true_eq] at hc
        omega
      · exact ih (by simp) h
    · simp at h

/-- What is read lies below the limit. -/
theorem numeral?_lt {limit n : Nat} {cs : List Char} (h : numeral? limit cs = some n) :
    n < limit := by
  unfold numeral? at h
  split at h
  · simp at h
  · rename_i hne
    exact digitsValue?_lt hne h

end DemandPaging.Text
