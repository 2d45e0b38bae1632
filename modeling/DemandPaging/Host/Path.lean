import DemandPaging.Host.Device

/-!
# Paths on a host

A path is followed from the working directory of a command, or from the root.  The
working directory lies somewhere below the root and has no directories in it; the
ones above it are there, but nothing is known of what else they hold.

* `Place.ofPath`, `Place.inDirectory` — what a path leads to.
* `Place.walk_append` — a path that leads to a directory goes on from there.
* `Place.walk_through_file` — nothing lies behind a file.
-/

namespace DemandPaging

/-- A directory of a host. -/
inductive HostDirectory where
  /-- the working directory, or the one that lies so many levels above it -/
  | above (levels : Nat)
  /-- the directory that some steps lead to from the root -/
  | standing (steps : List String)
  deriving DecidableEq, Repr, Inhabited

namespace HostDirectory

/-- The working directory. -/
def working : HostDirectory := .above 0

def root : HostDirectory := .standing []

/-- The directories that hosts have below the root. -/
def standingSteps : List (List String) :=
  [["bin"], ["boot"], ["dev"], ["dev", "pts"], ["dev", "shm"], ["etc"], ["home"], ["lib"],
    ["lib64"], ["media"], ["mnt"], ["opt"], ["proc"], ["root"], ["run"], ["sbin"], ["srv"], ["sys"], ["tmp"],
    ["usr"], ["usr", "bin"], ["usr", "lib"], ["usr", "local"], ["usr", "sbin"], ["usr", "share"],
    ["var"], ["var", "cache"], ["var", "lib"], ["var", "log"], ["var", "tmp"]]

/-- The directory that holds the directory; the root holds itself. -/
def parent : HostDirectory → HostDirectory
  | .above levels => .above (levels + 1)
  | .standing steps => .standing steps.dropLast

/-- The directory of a name in the directory. -/
def child? (d : HostDirectory) (name : String) : Option HostDirectory :=
  match d with
  | .above _ => none
  | .standing steps =>
    if steps ++ [name] ∈ standingSteps then some (.standing (steps ++ [name])) else none

/-- The device of a name in the directory. -/
def device? (d : HostDirectory) (name : String) : Option Device :=
  if d = .standing ["dev"] then Device.ofName name else none

/-- The one path to a name in the directory by which a file is known. -/
def pathTo (d : HostDirectory) (name : String) : String :=
  match d with
  | .above levels => String.join (List.replicate levels "../") ++ name
  | .standing steps => "/" ++ String.join (steps.map (· ++ "/")) ++ name

end HostDirectory

/-- What a path leads to. -/
inductive Place where
  /-- a directory -/
  | directory (d : HostDirectory)
  /-- a file, whether it exists or not -/
  | file (path : String)
  | device (d : Device)
  /-- something behind a file, as if that were a directory -/
  | behind (path : String)
  /-- nothing at all -/
  | nowhere (why : FileError)
  deriving DecidableEq, Repr, Inhabited

namespace Place

/-- The longest name of a file, in bytes. -/
def longestName : Nat := 255

/-- The longest path, in bytes. -/
def longestPath : Nat := 4095

/-- Where some steps lead to from a directory. -/
def walk : HostDirectory → List String → Place
  | d, [] => .directory d
  | d, step :: rest =>
    if step = "" ∨ step = "." then walk d rest
    else if step = ".." then walk d.parent rest
    else
      match d.child? step with
      | some below => walk below rest
      | none =>
        match d.device? step with
        | some found => if rest = [] then .device found else .nowhere .notDirectory
        | none =>
          if longestName < step.utf8ByteSize then .nowhere .nameTooLong
          else if rest = [] then .file (d.pathTo step)
          else .behind (d.pathTo step)

/-- Where a path leads to from a directory. -/
def follow (d : HostDirectory) (path : String) : Place :=
  if path.contains '\x00' then .nowhere (.other "file name contained an unexpected NUL byte")
  else if longestPath < path.utf8ByteSize then .nowhere .nameTooLong
  else walk (if path.startsWith "/" then .root else d) (path.splitOn "/")

/-- What a path leads to. -/
def ofPath (path : String) : Place :=
  if path.isEmpty then .nowhere .notFound else follow .working path

/-- What a name leads to in the working directory, when that is itself known by a path of
so many bytes. -/
def inDirectory (length : Nat) (name : String) : Place :=
  if name.startsWith "/" then ofPath name
  else if longestPath < length + 1 + name.utf8ByteSize then .nowhere .nameTooLong
  else follow .working name

/-- A path that leads to a directory goes on from there. -/
theorem walk_append {d e : HostDirectory} {steps : List String}
    (h : walk d steps = .directory e) (rest : List String) :
    walk d (steps ++ rest) = walk e rest := by
  fun_induction walk d steps with
  | case1 d =>
    cases h
    rfl
  | case2 d step steps hs ih => simpa [walk, hs] using ih h
  | case3 d steps _ ih => simpa [walk] using ih h
  | case4 d step steps hs hd below hb ih => simpa [walk, hs, hd, hb] using ih h
  | case5 => cases h
  | case6 => cases h
  | case7 => cases h
  | case8 => cases h
  | case9 => cases h

/-- Nothing lies behind a file. -/
theorem walk_through_file {d : HostDirectory} {steps : List String} {path : String}
    (h : walk d steps = .file path) {rest : List String} (hrest : rest ≠ []) :
    walk d (steps ++ rest) = .behind path := by
  fun_induction walk d steps with
  | case1 => cases h
  | case2 d step steps hs ih => simpa [walk, hs] using ih h
  | case3 d steps _ ih => simpa [walk] using ih h
  | case4 d step steps hs hd below hb ih => simpa [walk, hs, hd, hb] using ih h
  | case5 => cases h
  | case6 => cases h
  | case7 => cases h
  | case8 d step hs hd hc hv hl =>
    cases h
    simp [walk, hs, hd, hc, hv, hl, hrest]
  | case9 => cases h

end Place

end DemandPaging
