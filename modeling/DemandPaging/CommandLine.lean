import DemandPaging.CommandLine.Options

/-!
# The command

Runs a simulation as the options ask for, and reports the counters or what came out
wrong.  The command needs a host for three things only: the settings, the program,
and the place of the swap file.

* `CommandLine.run` — the command.
* `CommandLine.report` — the counters as they are printed.
-/

namespace DemandPaging.CommandLine

/-- What a command leaves behind. -/
structure Outcome where
  code : Nat := 0
  stdout : String := ""
  stderr : String := ""
  deriving DecidableEq, Repr, Inhabited

/-- The counters, one on a line. -/
def report (c : Counters) : String :=
  let line := fun (field : String × Nat) => "    " ++ field.1 ++ ": " ++ toString field.2 ++ ",\n"
  "VmStats \x7b\n" ++ String.join (c.fields.map line) ++ "\x7d\n"

/-- What the command is called. -/
def commandName : String := "vm-sim"

/-- A command that did not do what it was asked for. -/
def failure (stdout why : String) : Outcome :=
  { code := 1, stdout, stderr := commandName ++ ": " ++ why ++ "\n" }

/-- A command whose machine came to its end. -/
def halted (stdout : String) (why : Halt) : Outcome :=
  { code := 101, stdout, stderr := (why.message.map (· ++ "\n")).getD "" }

/-- The lines of a journal that the console shows. -/
def shown (j : Journal) : String := String.join ((j.linesAt .error).map (·.render))

/-- Why there is no program to run. -/
inductive NoProgram where
  | refused (why : String)
  | halt (why : Halt)
  deriving DecidableEq, Repr, Inhabited

variable {m : Type → Type} [Monad m] [Host m]

/-- The machine that a file of settings describes, or the default machine. -/
def settings (o : Options) : m (Except String MachineConfig) := do
  match o.value? .conf with
  | none => return .ok {}
  | some path =>
    match ← Host.readFile path with
    | .error e => return .error (path ++ ": " ++ e.message)
    | .ok data =>
      match Kernel.decodeText data with
      | none => return .error (path ++ ": stream did not contain valid UTF-8")
      | some text =>
        return (MachineConfig.parse text).mapError fun e => path ++ ": " ++ e.message

/-- The program that the processes run: the one in a file, or the built-in one. -/
def program (o : Options) : m (Except NoProgram Image) := do
  match o.value? .program with
  | none => return .ok Simulation.builtinImage
  | some path =>
    match ← Host.readFile path with
    | .error e => return .error (.refused (path ++ ": " ++ e.message))
    | .ok data =>
      match ElfImage.parse data with
      | .ok image => return .ok (.elf image)
      | .error (.error e) => return .error (.refused (path ++ ": " ++ e.message))
      | .error (.halt h) => return .error (.halt h)

/-- Shuts a machine down that ran nothing, and removes the swap file. -/
def shutDown (path : String) (k : Kernel HostFile) : m String := do
  Host.removeFile path
  return shown k.shutdown.journal

/-- Runs a simulation of a program on a machine, whose swap file is then removed. -/
def simulate (path : String) (s : Simulation) (k : Kernel HostFile) (image : Image) :
    m Outcome := do
  let (r, k) := s.run image s.generator k
  match r with
  | .error (.halt h) => return halted (shown k.journal) h
  | .error (.complaint c) =>
    Host.removeFile path
    return failure (shown k.journal) c.message
  | .ok record =>
    Host.removeFile path
    return { stdout := shown k.journal ++ report record.counters }

/-- Runs the simulation that the options ask for on a machine that is to be started. -/
def start (o : Options) (s : Simulation) : m Outcome := do
  let path := o.swapPath s.config
  let file ← Host.createFile path
  match Kernel.boot s.config [] file with
  | (.error e, journal) => return failure (shown journal) e.message
  | (.ok k, _) =>
    match ← program o with
    | .error (.halt h) => return halted (shown k.journal) h
    | .error (.refused why) => return failure (← shutDown path k) why
    | .ok image => simulate path s k image

/-- Runs the command with some options. -/
def runWith (o : Options) : m Outcome := do
  match ← settings o with
  | .error why => return failure "" why
  | .ok config =>
    match (o.configure config).bind o.simulation with
    | .error why => return failure "" why
    | .ok s => start o s

/-- Runs the command. -/
def run (args : List String) : m Outcome := do
  match Options.parse args with
  | .error .version => return { stdout := commandName ++ " \n" }
  | .error .senseless => return failure "" "arguments that make no sense"
  | .ok o => runWith o

end DemandPaging.CommandLine
