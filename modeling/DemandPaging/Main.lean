import DemandPaging.CommandLine

/-!
# The program

The command on the files of a real host.  The swap file is created there and
removed at the end, and its contents are kept in memory.
-/

namespace DemandPaging

/-- Why a real host did not read a file. -/
def FileError.ofHost : IO.Error → FileError
  | .noFileOrDirectory _ _ _ => .notFound
  | .noSuchThing _ _ _ => .notFound
  | .inappropriateType _ code _ => if code = 20 then .notDirectory else .isDirectory
  | e => .other (toString e)

instance : Host IO where
  readFile path := do
    try
      let data ← IO.FS.readBinFile path
      return .ok data.data
    catch e => return .error (FileError.ofHost e)
  createFile path := do
    try
      IO.FS.writeBinFile path ByteArray.empty
      return some {}
    catch _ => return none
  removeFile path := do
    try IO.FS.removeFile path
    catch _ => return ()

end DemandPaging

/-- Runs the command with the arguments of the program. -/
def main (args : List String) : IO UInt32 := do
  let outcome ← DemandPaging.CommandLine.run args
  IO.print outcome.stdout
  IO.eprint outcome.stderr
  return outcome.code.toUInt32
