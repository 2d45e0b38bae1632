import DemandPaging.Swap.HostFile

/-!
# What a command finds around it

A command reads files and keeps one of its own, the swap file.  The rest of the
world is left out: a `Host` is anything that can read, create and remove files.

* `FileError` — why a file cannot be read.
* `joinPath` — the path of a name in a directory.
-/

namespace DemandPaging

/-- Why a file cannot be read. -/
inductive FileError where
  | notFound
  | notDirectory
  | isDirectory
  | nameTooLong
  /-- for another reason, in the host's own words -/
  | other (why : String)
  deriving DecidableEq, Repr, Inhabited

/-- The reason in words, with the number that a host gives it. -/
def FileError.message : FileError → String
  | .notFound => "No such file or directory (os error 2)"
  | .notDirectory => "Not a directory (os error 20)"
  | .isDirectory => "Is a directory (os error 21)"
  | .nameTooLong => "File name too long (os error 36)"
  | .other why => why

/-- Reads, creates and removes files. -/
class Host (m : Type → Type) where
  /-- The contents of a file. -/
  readFile : (path : String) → m (Except FileError Bytes)
  /-- Creates an empty file, or empties one; answers the file, if it is there. -/
  createFile : (path : String) → m (Option HostFile)
  /-- Removes a file. -/
  removeFile : (path : String) → m Unit

/-- The path of a name in a directory. -/
def joinPath (directory name : String) : String :=
  if name.startsWith "/" || directory.isEmpty then name
  else if directory.endsWith "/" then directory ++ name
  else directory ++ "/" ++ name

end DemandPaging
