import DemandPaging.Host.Path

/-!
# Volumes

Named files.  A name leads to the number of a file, under which whoever opened
the file goes on using it after the name is gone.  Volumes in memory take any
name, and creating a file that exists makes a new one beside it; in a directory of
a host names are paths, and creating a file that exists empties it.

* `Volume.openFile`, `Volume.remove`, `Volume.contains` — by name.
* `Volume.read`, `Volume.write`, `Volume.close` — by number.
-/

namespace DemandPaging

/-- Where the files of a volume are. -/
inductive VolumeKind where
  | memory
  /-- a directory of a host, whose own path has so many bytes -/
  | directory (length : Nat)
  deriving DecidableEq, Repr, Inhabited

/-- The number of a file. -/
abbrev FileId := Nat

/-- Named files. -/
structure Volume (F : Type) where
  kind : VolumeKind
  /-- what a new file is -/
  blank : F
  /-- what a device is that can be opened -/
  device : Device → Option F := fun _ => none
  names : List (String × FileId) := []
  files : Array F := #[]

namespace Volume

variable {F : Type}

/-- The volume with a file that has no name. -/
def addFile (v : Volume F) (content : F) : FileId × Volume F :=
  (v.files.size, { v with files := v.files.push content })

/-- The volume with a new file under a name. -/
def addNamed (v : Volume F) (name : String) : FileId × Volume F :=
  let (id, v) := v.addFile v.blank
  (id, { v with names := (name, id) :: v.names.filter (·.1 ≠ name) })

/-- Where a name leads in the volume. -/
def place (v : Volume F) (name : String) : Place :=
  match v.kind with
  | .memory => .file name
  | .directory length => .inDirectory length name

/-- Does the name lead anywhere? -/
def contains (v : Volume F) (name : String) : Bool :=
  match v.place name with
  | .file path => (v.names.lookup path).isSome
  | .directory _ | .device _ => true
  | .behind _ | .nowhere _ => false

/-- Opens a file, creating it empty if that is asked for. -/
def openFile (v : Volume F) (name : String) (create : Bool) : Option FileId × Volume F :=
  match v.place name with
  | .file path =>
    match create, v.kind, v.names.lookup path with
    | false, _, found => (found, v)
    | true, .directory _, some id =>
      (some id, { v with files := v.files.setIfInBounds id v.blank })
    | true, _, _ => (v.addNamed path).map some id
  | .device d =>
    match v.device d with
    | some content => (v.addFile content).map some id
    | none => (none, v)
  | _ => (none, v)

/-- Removes a name, and answers whether there was a file of it. -/
def remove (v : Volume F) (name : String) : Bool × Volume F :=
  match v.place name with
  | .file path =>
    ((v.names.lookup path).isSome, { v with names := v.names.filter (·.1 ≠ path) })
  | _ => (false, v)

/-- Reads from the file of a number. -/
def read [BackingFile F] {n : Nat} (v : Volume F) (id : FileId) (offset : Nat)
    (buffer : Vector UInt8 n) : Nat × Vector UInt8 n × Volume F :=
  match v.files[id]? with
  | none => (0, buffer, v)
  | some f =>
    let (moved, buffer, f) := BackingFile.readAt f offset buffer
    (moved, buffer, { v with files := v.files.setIfInBounds id f })

/-- Writes to the file of a number. -/
def write [BackingFile F] (v : Volume F) (id : FileId) (offset : Nat) (data : Bytes) :
    Nat × Volume F :=
  match v.files[id]? with
  | none => (0, v)
  | some f =>
    let (moved, f) := BackingFile.writeAt f offset data
    (moved, { v with files := v.files.setIfInBounds id f })

/-- Closes the file of a number. -/
def close [BackingFile F] (v : Volume F) (id : FileId) : Volume F :=
  { v with files := v.files.modify id BackingFile.close }

end Volume

/-- An empty volume in memory. -/
def Volume.inMemory : Volume MemoryFile := { kind := .memory, blank := {} }

/-- An empty directory of a host, known by a path of so many bytes. -/
def Volume.onHost (length : Nat) : Volume HostNode :=
  { kind := .directory length, blank := .file { limit := some HostFile.longest }
    device := HostNode.ofDevice }

end DemandPaging
