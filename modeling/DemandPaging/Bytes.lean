import DemandPaging.Address

/-!
# Byte strings and pages

Byte strings of any length, and pages, which have one fixed length.  Both are
changed by *splicing*: a string put in at a place, what would lie past the end
being dropped.

* `getElem_splice` — what a buffer holds after a splice.
* `littleEndian` — the bytes of a number, least first; `ofLittleEndian_littleEndian`
  reads them back.
-/

namespace DemandPaging

/-- A string of bytes. -/
abbrev Bytes := Array UInt8

/-- The contents of a page or a frame. -/
abbrev Page := Vector UInt8 pageSize

/-- A page of zeros. -/
def zeroPage : Page := Vector.replicate pageSize 0

/-! ## Splicing -/

/-- An array with bytes put in from place `start` on. -/
def putBytes (a : Bytes) (start : Nat) : List UInt8 → Bytes
  | [] => a
  | b :: bs => putBytes (a.setIfInBounds start b) (start + 1) bs

@[simp] theorem size_putBytes (a : Bytes) (start : Nat) (bs : List UInt8) :
    (putBytes a start bs).size = a.size := by
  induction bs generalizing a start with
  | nil => rfl
  | cons b bs ih => simp [putBytes, ih]

theorem getElem?_putBytes (a : Bytes) (start : Nat) (bs : List UInt8) (i : Nat) :
    (putBytes a start bs)[i]? =
      if start ≤ i ∧ i - start < bs.length ∧ i < a.size then bs[i - start]? else a[i]? := by
  induction bs generalizing a start with
  | nil => simp [putBytes]
  | cons b bs ih =>
    simp only [putBytes, ih, List.length_cons, Array.size_setIfInBounds,
      Array.getElem?_setIfInBounds]
    by_cases h : i = start
    · subst h
      have h₁ : ¬ i + 1 ≤ i := by omega
      by_cases hi : i < a.size <;> simp [h₁, hi]
    · by_cases h₁ : start ≤ i
      · have h₂ : i - start = i - (start + 1) + 1 := by omega
        have h₃ : start + 1 ≤ i := by omega
        simp [h₁, h₂, h₃, Ne.symm h]
      · have h₃ : ¬ start + 1 ≤ i := by omega
        simp [h₁, h₃, Ne.symm h]

/-- A buffer with a byte string put in from place `start` on.  A string that is as long
as the buffer replaces it. -/
def splice {n : Nat} (v : Vector UInt8 n) (start : Nat) (data : Bytes) : Vector UInt8 n :=
  if h : start = 0 ∧ data.size = n then ⟨data, h.2⟩
  else ⟨putBytes v.toArray start data.toList, by simp⟩

/-- After a splice the string stands where it was put in, and all else as before. -/
theorem getElem_splice {n : Nat} (v : Vector UInt8 n) (start : Nat) (data : Bytes) (i : Nat)
    (h : i < n) :
    (splice v start data)[i] =
      if hi : start ≤ i ∧ i - start < data.size then data[i - start] else v[i] := by
  apply Option.some.inj
  rw [← Vector.getElem?_eq_getElem h]
  unfold splice
  split
  · rename_i hall
    obtain ⟨rfl, rfl⟩ := hall
    simp [h]
  · simp only [Vector.getElem?_mk, getElem?_putBytes, Array.length_toList, Vector.size_toArray, h,
      and_true]
    split
    · rename_i hi
      simp [hi]
    · simp [h]

/-- The bytes of a string from place `start` on, `count` of them if it is long enough. -/
def Bytes.slice (a : Bytes) (start count : Nat) : Bytes :=
  if start = 0 ∧ a.size ≤ count then a else a.extract start (start + count)

theorem Bytes.slice_eq_extract (a : Bytes) (start count : Nat) :
    Bytes.slice a start count = a.extract start (start + count) := by
  unfold Bytes.slice
  split
  · rename_i h
    rw [h.1, Array.extract_eq_self_of_le (by omega)]
  · rfl

/-- The bytes of a page from place `start` on, `count` of them if the page is long enough. -/
def Page.slice (p : Page) (start count : Nat) : Bytes := Bytes.slice p.toArray start count

/-- A page made of a byte string of any length: cut off at the end of the page,
or filled up with zeros. -/
def Page.ofBytes (data : Bytes) : Page := splice zeroPage 0 data

/-! ## Numbers as bytes -/

/-- The low `width` bytes of a number, least first. -/
def littleEndian : (width n : Nat) → List UInt8
  | 0, _ => []
  | w + 1, n => UInt8.ofNat n :: littleEndian w (n / 256)

/-- The number whose bytes are given, least first. -/
def ofLittleEndian : List UInt8 → Nat
  | [] => 0
  | b :: bs => b.toNat + 256 * ofLittleEndian bs

/-- A number that fits its width is read back from its bytes. -/
theorem ofLittleEndian_littleEndian (w n : Nat) (h : n < 1 <<< (8 * w)) :
    ofLittleEndian (littleEndian w n) = n := by
  induction w generalizing n with
  | zero =>
    obtain rfl : n = 0 := Nat.lt_one_iff.1 h
    rfl
  | succ w ih =>
    have hwider : 1 <<< (8 * (w + 1)) = 256 * (1 <<< (8 * w)) := by
      rw [Nat.mul_succ, Nat.shiftLeft_add, Nat.shiftLeft_eq _ 8, Nat.mul_comm]
    have : n / 256 < 1 <<< (8 * w) := Nat.div_lt_of_lt_mul (hwider ▸ h)
    simp only [littleEndian, ofLittleEndian, ih _ this]
    simp only [UInt8.toNat_ofNat']
    omega

end DemandPaging
