import DemandPaging.Host.Path

/-!
# A directory as a host

The working directory of a command with its files, as a host of its own: what a
command does to it can be computed.

* `Directory.read` — reading by path.
* `Directory.create`, `Directory.remove` — the one file that a command makes.
* `Directory.names` — the names left, in order.
-/

namespace DemandPaging

/-- Files by path. -/
structure Directory where
  files : List (String × Bytes) := []
  deriving DecidableEq, Repr, Inhabited

namespace Directory

/-- The contents of the file at a path. -/
def find? (d : Directory) (path : String) : Option Bytes := d.files.lookup path

/-- The contents of the file that a path leads to. -/
def read (d : Directory) (path : String) : Except FileError Bytes :=
  match Place.ofPath path with
  | .directory _ => .error .isDirectory
  | .nowhere why => .error why
  | .behind path => .error (if (d.find? path).isSome then .notDirectory else .notFound)
  | .file path => ((d.find? path).map .ok).getD (.error .notFound)
  | .device device => device.contents

/-- The directory without the file at a path. -/
def erase (d : Directory) (path : String) : Directory :=
  ⟨d.files.filter (·.1 ≠ path)⟩

/-- Creates an empty file, if the path leads to a place for one. -/
def create (d : Directory) (path : String) : Option HostFile × Directory :=
  match Place.ofPath path with
  | .file path => (some { limit := some HostFile.longest }, ⟨(path, #[]) :: (d.erase path).files⟩)
  | .device device => (if device.opens then some {} else none, d)
  | _ => (none, d)

/-- Removes a file, if the path leads to one. -/
def remove (d : Directory) (path : String) : Directory :=
  match Place.ofPath path with
  | .file path => d.erase path
  | _ => d

/-- The names of the files in the working directory itself, in order. -/
def names (d : Directory) : List String :=
  ((d.files.map (·.1)).filter (!·.contains '/')).mergeSort fun a b => a ≤ b

instance : Host (StateM Directory) where
  readFile path := do
    let d ← get
    return d.read path
  createFile path := modifyGet fun d => d.create path
  removeFile path := modify fun d => d.remove path

/-- A file that was removed is gone. -/
theorem find?_erase (d : Directory) (path : String) : (d.erase path).find? path = none := by
  simp only [find?, erase, List.lookup_eq_none_iff]
  intro p hp
  have := (List.mem_filter.1 hp).2
  simp only [ne_eq, decide_eq_true_eq] at this
  exact bne_iff_ne.2 (Ne.symm this)

end Directory

end DemandPaging
