import DemandPaging.Bytes.Sparse
import DemandPaging.Swap.File

/-!
# Files of a host

A host reads as many bytes at a time as it likes, but at least one unless the
file ends, so that a read is repeated until the buffer is full or the file ends.
A file may have holes, and a host may put an end to its growth: of a string that runs
over that end the part before it is written, but none of it is said to be.
-/

namespace DemandPaging

/-- A file of a host.  `portion k` is how many bytes the host would deliver at
most when it is asked for the `k`-th time. -/
structure HostFile where
  bytes : SparseBytes := {}
  requests : Nat := 0
  portion : Nat → Nat := fun _ => wordLimit
  /-- the length that the file cannot outgrow, if there is one -/
  limit : Option Nat := none

namespace HostFile

/-- The longest file of a common host, in bytes: one block of 4 KiB less than 16 TiB. -/
def longest : Nat := (1 <<< 44) - (1 <<< 12)

/-- Asks the host for the rest of a buffer, of which the first `done` bytes are
filled, at most `attempts` times. -/
def fill {n : Nat} (offset : Nat) :
    (attempts : Nat) → HostFile → (done : Nat) → Vector UInt8 n → Nat × Vector UInt8 n × HostFile
  | 0, f, done, buffer => (done, buffer, f)
  | attempts + 1, f, done, buffer =>
    let left := min (n - done) (f.bytes.size - (offset + done))
    if left = 0 then (done, buffer, f)
    else
      let got := max 1 (min (f.portion f.requests) left)
      fill offset attempts { f with requests := f.requests + 1 } (done + got)
        (splice buffer done (f.bytes.slice (offset + done) got))

/-- The file with a string written at a place; no bytes leave it as it is. -/
def put (f : HostFile) (offset : Nat) (data : Bytes) : HostFile :=
  if data.isEmpty then f else { f with bytes := f.bytes.write offset data }

instance : BackingFile HostFile where
  readAt {n} f offset buffer := fill offset n f 0 buffer
  writeAt f offset data :=
    match f.limit with
    | none => (data.size, f.put offset data)
    | some limit =>
      if offset + data.size ≤ limit then (data.size, f.put offset data)
      else (0, f.put offset (data.extract 0 (limit - offset)))
  close f := f

end HostFile

end DemandPaging
