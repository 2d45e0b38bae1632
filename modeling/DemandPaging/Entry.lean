import DemandPaging.PageKey

/-!
# Translation entries

An entry says which frame holds a page, and carries four status bits.  The
page table holds the entries that count; TLB slots hold copies whose referenced
and dirty bits the hardware sets, and which are folded back.

* `EntryFlags.ofBits_bits` — flags are found again from their bits.
* `Translation.fold` — takes over the referenced and dirty bits of a copy, and
  nothing else.
* `Translation.valid` — usable: marked so, and with a frame.
-/

namespace DemandPaging

/-! ## Status bits -/

/-- The status bits of an entry. -/
structure EntryFlags where
  /-- the translation may be used -/
  valid : Bool := false
  /-- writes raise an exception -/
  readOnly : Bool := false
  /-- accessed since the page became resident -/
  referenced : Bool := false
  /-- written since the page became resident -/
  dirty : Bool := false
  deriving DecidableEq, Repr, Inhabited

namespace EntryFlags

/-- Flags of a page that may be used and was not touched. -/
def fresh (readOnly : Bool) : EntryFlags := { valid := true, readOnly }

/-- The flags as a number, one bit each. -/
def bits (f : EntryFlags) : Nat :=
  f.valid.toNat + 2 * f.readOnly.toNat + 4 * f.referenced.toNat + 8 * f.dirty.toNat

/-- The flags a number stands for; bits above the fourth say nothing. -/
def ofBits (n : Nat) : EntryFlags :=
  ⟨n.testBit 0, n.testBit 1, n.testBit 2, n.testBit 3⟩

/-- All flags of either. -/
def union (f g : EntryFlags) : EntryFlags :=
  ⟨f.valid || g.valid, f.readOnly || g.readOnly, f.referenced || g.referenced,
    f.dirty || g.dirty⟩

/-- The flags of the first that the second lacks. -/
def diff (f g : EntryFlags) : EntryFlags :=
  ⟨f.valid && !g.valid, f.readOnly && !g.readOnly, f.referenced && !g.referenced,
    f.dirty && !g.dirty⟩

/-- The short names of the flags that are set. -/
def names (f : EntryFlags) : List String :=
  [(f.valid, "V"), (f.readOnly, "RO"), (f.referenced, "A"), (f.dirty, "D")].filterMap
    fun (set, name) => if set then some name else none

def render (f : EntryFlags) : String :=
  match f.names with
  | [] => "(empty)"
  | names => " | ".intercalate names

/-- Flags are found again from their bits. -/
theorem ofBits_bits (f : EntryFlags) : ofBits f.bits = f := by
  rcases f with ⟨_ | _, _ | _, _ | _, _ | _⟩ <;> rfl

end EntryFlags

/-! ## Entries -/

/-- Where a page is, and what happened to it there. -/
structure Translation where
  page : PageNumber := ⟨0⟩
  frame : Option FrameNumber := none
  flags : EntryFlags := {}
  deriving DecidableEq, Repr, Inhabited

namespace Translation

/-- The entry may be used: it says so, and it has a frame. -/
def valid (e : Translation) : Bool := e.flags.valid && e.frame.isSome

/-- The frame of an entry that may be used. -/
def frame? (e : Translation) : Option FrameNumber := if e.flags.valid then e.frame else none

/-- Must the frame be written out before another page may have it? -/
def needsWriteback (e : Translation) : Bool := e.flags.dirty && !e.flags.readOnly

/-- Does the entry map the frame? -/
def maps (e : Translation) (f : FrameNumber) : Bool := e.valid && e.frame == some f

/-- The entry after an access. -/
def touch (e : Translation) (writing : Bool) : Translation :=
  { e with flags := { e.flags with referenced := true, dirty := e.flags.dirty || writing } }

/-- The entry with the referenced and dirty bits of a copy. -/
def fold (e copy : Translation) : Translation :=
  { e with
    flags := { e.flags with
      referenced := e.flags.referenced || copy.flags.referenced
      dirty := e.flags.dirty || copy.flags.dirty } }

/-- The entry without its frame, and of no more use. -/
def invalidate (e : Translation) : Translation :=
  { e with frame := none, flags := { e.flags with valid := false } }

/-- An entry that has no frame and is not marked usable stays as it is. -/
theorem invalidate_eq_self {e : Translation} (h : (e.flags.valid || e.frame.isSome) = false) :
    e.invalidate = e := by
  obtain ⟨p, f, v, r, a, d⟩ := e
  simp only [Bool.or_eq_false_iff, Option.isSome_eq_false_iff, Option.isNone_iff_eq_none] at h
  obtain ⟨rfl, rfl⟩ := h
  rfl

@[simp] theorem valid_invalidate (e : Translation) : e.invalidate.valid = false := rfl

theorem frame?_eq_some_iff {e : Translation} {f : FrameNumber} :
    e.frame? = some f ↔ e.maps f = true := by
  cases e with
  | mk p fr fl => cases fr <;> cases h : fl.valid <;> simp [frame?, maps, valid, h]

end Translation

end DemandPaging
