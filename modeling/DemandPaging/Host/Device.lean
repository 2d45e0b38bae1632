import DemandPaging.Host
import DemandPaging.Swap.HostFile

/-!
# Devices of a host

Some names of a host lead to devices, which have no contents of their own.  Every
place of a device can be reached.

* `Device.ofName` — the devices that hosts have.
* `HostNode` — a file or a device.
-/

namespace DemandPaging

/-- A device. -/
inductive Device where
  /-- takes everything and gives nothing -/
  | null
  /-- takes everything and gives zeros -/
  | zero
  /-- takes nothing and gives zeros -/
  | full
  /-- takes everything; zeros stand for what it gives, which nobody can foretell -/
  | random
  /-- the terminal of the program, which has none -/
  | terminal
  deriving DecidableEq, Repr, Inhabited

namespace Device

/-- The device of a name. -/
def ofName : String → Option Device
  | "null" => some .null
  | "zero" => some .zero
  | "full" => some .full
  | "random" => some .random
  | "urandom" => some .random
  | "tty" => some .terminal
  | _ => none

/-- Can the device be opened? -/
def opens (d : Device) : Bool := d ≠ .terminal

/-- All that the device gives, if that comes to an end. -/
def contents : Device → Except FileError Bytes
  | .null => .ok #[]
  | .terminal => .error (.other "No such device or address (os error 6)")
  | _ => .error (.other "out of memory")

instance : BackingFile Device where
  readAt {n} d _ buffer :=
    match d with
    | .null | .terminal => (0, buffer, d)
    | _ => (n, Vector.replicate n 0, d)
  writeAt d _ data := (if d = .full then 0 else data.size, d)
  close d := d

end Device

/-- A file or a device of a host. -/
inductive HostNode where
  | file (f : HostFile)
  | device (d : Device)

namespace HostNode

/-- An opened device. -/
def ofDevice (d : Device) : Option HostNode := if d.opens then some (.device d) else none

instance : BackingFile HostNode where
  readAt node offset buffer :=
    match node with
    | .file f =>
      let (moved, buffer, f) := BackingFile.readAt f offset buffer
      (moved, buffer, .file f)
    | .device d =>
      let (moved, buffer, d) := BackingFile.readAt d offset buffer
      (moved, buffer, .device d)
  writeAt node offset data :=
    match node with
    | .file f => (BackingFile.writeAt f offset data).map id .file
    | .device d => (BackingFile.writeAt d offset data).map id .device
  close node :=
    match node with
    | .file f => .file (BackingFile.close f)
    | .device d => .device (BackingFile.close d)

end HostNode

end DemandPaging
