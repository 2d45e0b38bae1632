import DemandPaging.Bytes.Sparse

/-!
# Files under the swap store

A file moves bytes between a buffer and a place in it, and says how many it
moved.  It may move fewer than it was asked to, or say so of bytes that it did
not move.

* `BackingFile` — what the swap store asks of a file.
* `MemoryFile` — a file that never fails: writes beyond its end fill the gap with
  zeros, reads end where it ends.
* `FaultyFile` — a file in memory some of whose calls move nothing.
-/

namespace DemandPaging

/-- What is asked of a file. -/
class BackingFile (F : Type) where
  /-- Reads into a buffer from a place on; answers how many bytes it says it moved. -/
  readAt {n : Nat} : F → Nat → Vector UInt8 n → Nat × Vector UInt8 n × F
  /-- Writes a string at a place; answers how many bytes it says it moved. -/
  writeAt : F → Nat → Bytes → Nat × F
  /-- Flushes and releases the file. -/
  close : F → F

/-! ## A file in memory -/

/-- A file that is kept in memory. -/
structure MemoryFile where
  bytes : SparseBytes := {}

namespace MemoryFile

/-- The length in bytes. -/
def size (f : MemoryFile) : Nat := f.bytes.size

/-- Fills a buffer from a place of the file on, as far as the file goes. -/
def readAt {n : Nat} (f : MemoryFile) (offset : Nat) (buffer : Vector UInt8 n) :
    Nat × Vector UInt8 n :=
  (min n (f.size - offset), splice buffer 0 (f.bytes.slice offset n))

/-- Writes a string at a place of the file, which grows as needed, for no bytes too. -/
def writeAt (f : MemoryFile) (offset : Nat) (data : Bytes) : MemoryFile :=
  ⟨f.bytes.write offset data⟩

instance : BackingFile MemoryFile where
  readAt f offset buffer :=
    let (moved, buffer) := f.readAt offset buffer
    (moved, buffer, f)
  writeAt f offset data := (data.size, f.writeAt offset data)
  close f := f

end MemoryFile

/-! ## A file that fails -/

/-- Which calls fail, counted from 0, and what a failing call says it moved. -/
structure FaultPlan where
  badReads : List Nat := []
  badReadsFrom : Option Nat := none
  badWrites : List Nat := []
  badWritesFrom : Option Nat := none
  claimed : Nat := 0
  deriving DecidableEq, Repr, Inhabited

/-- Is the call of this number listed, or one of those from some number on? -/
def FaultPlan.hits (listed : List Nat) (start : Option Nat) (call : Nat) : Bool :=
  listed.contains call ||
    match start with
    | some s => s ≤ call
    | none => false

/-- A file in memory with calls that fail, and the calls made so far. -/
structure FaultyFile where
  plan : FaultPlan := {}
  content : MemoryFile := {}
  reads : Nat := 0
  writes : Nat := 0
  closes : Nat := 0

namespace FaultyFile

instance : BackingFile FaultyFile where
  readAt f offset buffer :=
    let after := { f with reads := f.reads + 1 }
    if FaultPlan.hits f.plan.badReads f.plan.badReadsFrom f.reads then
      (f.plan.claimed, buffer, after)
    else
      let (moved, buffer) := f.content.readAt offset buffer
      (moved, buffer, after)
  writeAt f offset data :=
    let after := { f with writes := f.writes + 1 }
    if FaultPlan.hits f.plan.badWrites f.plan.badWritesFrom f.writes then (f.plan.claimed, after)
    else (data.size, { after with content := f.content.writeAt offset data })
  close f := { f with closes := f.closes + 1 }

end FaultyFile

end DemandPaging
