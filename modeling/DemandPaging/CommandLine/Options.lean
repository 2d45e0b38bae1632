import DemandPaging.Host
import DemandPaging.Simulation

/-!
# Options of the command

What stands on the command line: options with a value, some of which have a short
name, and one flag.

* `Word.ofArgument` — what one argument says.
* `Options.parse` — the options that some arguments give.
* `Options.configure` — the machine that the options ask for.
* `Options.simulation` — the simulation that the options ask for.
-/

namespace DemandPaging.CommandLine

/-- The options that take a value. -/
inductive OptionName where
  | conf
  | frames
  | tlb
  | procs
  | pages
  | ops
  | seed
  | swapDir
  | program
  deriving DecidableEq, Repr, Inhabited

namespace OptionName

def all : List OptionName := [.conf, .frames, .tlb, .procs, .pages, .ops, .seed, .swapDir, .program]

/-- The name after two dashes. -/
def long : OptionName → String
  | .conf => "conf"
  | .frames => "frames"
  | .tlb => "tlb"
  | .procs => "procs"
  | .pages => "pages"
  | .ops => "ops"
  | .seed => "seed"
  | .swapDir => "swap-dir"
  | .program => "elf"

/-- The letter after one dash. -/
def short : OptionName → Option Char
  | .frames => some 'f'
  | .tlb => some 't'
  | .procs => some 'p'
  | .ops => some 'n'
  | .seed => some 's'
  | _ => none

/-- The option of a long name. -/
def ofLong (name : List Char) : Option OptionName := all.find? fun o => o.long.toList == name

/-- The option of a letter. -/
def ofShort (letter : Char) : Option OptionName := all.find? fun o => o.short == some letter

end OptionName

/-- The options given. -/
structure Options where
  values : List (OptionName × String) := []
  eager : Bool := false
  deriving DecidableEq, Repr, Inhabited

/-! ## Words -/

/-- What one argument says. -/
inductive Word where
  /-- the flag -/
  | eager
  /-- what the command is called is asked for -/
  | version
  /-- an option whose value is the next argument -/
  | option (name : OptionName)
  /-- an option with its value -/
  | valued (name : OptionName) (value : String)
  /-- no more options -/
  | stop
  /-- nothing that is known -/
  | unknown
  deriving DecidableEq, Repr, Inhabited

namespace Word

/-- The value in the same argument as its option, without the equals signs before it. -/
def attached (text : List Char) : String := String.ofList (text.dropWhile (· = '='))

/-- What is said by a long name, with whatever follows it.  After the flag an equals sign
and a value are idle. -/
def ofLong (text : List Char) : Word :=
  let long := text.takeWhile (· ≠ '=')
  match OptionName.ofLong long, text.dropWhile (· ≠ '=') with
  | some name, [] => .option name
  | some name, value => .valued name (attached value)
  | none, _ =>
    if long = "eager".toList then .eager
    else if long = "version".toList then .version
    else .unknown

/-- What is said by a letter, with whatever follows it. -/
def ofShort (letter : Char) (rest : List Char) : Word :=
  match OptionName.ofShort letter, rest with
  | some name, [] => .option name
  | some name, value => .valued name (attached value)
  | none, _ => if letter = 'V' then .version else .unknown

/-- What one argument says.  A long name has two dashes before it, or more. -/
def ofArgument (argument : String) : Word :=
  match argument.toList with
  | ['-', '-'] => .stop
  | '-' :: '-' :: text => ofLong (text.dropWhile (· = '-'))
  | '-' :: letter :: rest => ofShort letter rest
  | _ => .unknown

/-- Can the argument be the value of an option before it?  What begins with a dash is an
option itself, but for a dash alone. -/
def isValue (argument : String) : Bool := argument = "-" || !argument.startsWith "-"

end Word

/-! ## Reading arguments -/

/-- Why there are no options. -/
inductive Refusal where
  /-- the arguments make no sense -/
  | senseless
  /-- what the command is called is asked for -/
  | version
  deriving DecidableEq, Repr, Inhabited

/-- One thing that is given, an option perhaps without the value that it needs. -/
inductive Given where
  | eager
  | option (name : OptionName) (value : Option String)
  deriving DecidableEq, Repr, Inhabited

/-- What some arguments say one after the other. -/
def Given.read : List String → Except Refusal (List Given)
  | [] => .ok []
  | argument :: rest =>
    match Word.ofArgument argument, rest with
    | .eager, rest => (read rest).map (.eager :: ·)
    | .valued name value, rest => (read rest).map (.option name (some value) :: ·)
    | .option name, [] => .ok [.option name none]
    | .option name, value :: rest =>
      if Word.isValue value then (read rest).map (.option name (some value) :: ·)
      else (read (value :: rest)).map (.option name none :: ·)
    | .version, _ => .error .version
    | .stop, [] => .ok []
    | .stop, _ :: _ => .error .senseless
    | .unknown, _ => .error .senseless

namespace Options

/-- The options with one more thing, which was not given before. -/
def add (o : Options) : Given → Option Options
  | .eager => if o.eager then none else some { o with eager := true }
  | .option _ none => none
  | .option name (some value) =>
    if (o.values.lookup name).isSome then none
    else some { o with values := (name, value) :: o.values }

/-- The options that some arguments give. -/
def parse (arguments : List String) : Except Refusal Options :=
  match Given.read arguments with
  | .error why => .error why
  | .ok given => ((given.foldlM add {}).map .ok).getD (.error .senseless)

/-! ## What the options ask for -/

/-- The value given to an option. -/
def value? (o : Options) (name : OptionName) : Option String := o.values.lookup name

/-- The number given to an option, or else a default. -/
def number (o : Options) (name : OptionName) (default : Nat) : Except String Nat :=
  match o.value? name with
  | none => .ok default
  | some value =>
    match Text.numeral? wordLimit value.toList with
    | some n => .ok n
    | none => .error ("--" ++ name.long ++ ": not a number: " ++ value)

/-- The machine that the options ask for, on top of another. -/
def configure (o : Options) (c : MachineConfig) : Except String MachineConfig :=
  match o.number .frames c.frames with
  | .error e => .error e
  | .ok frames =>
    match o.number .tlb c.tlbSlots with
    | .error e => .error e
    | .ok tlbSlots =>
      match o.number .pages c.stackPages with
      | .error e => .error e
      | .ok stackPages =>
        match o.number .seed c.seed with
        | .error e => .error e
        | .ok seed =>
          let c := { c with frames, tlbSlots, stackPages, seed }
          match c.check with
          | .error e => .error e.message
          | .ok () => .ok c

/-- How the pages of the processes become resident. -/
def strategy (o : Options) : Strategy := if o.eager then .eager else .demand

/-- The simulation that the options ask for, on a machine. -/
def simulation (o : Options) (config : MachineConfig) : Except String Simulation :=
  match o.number .procs 3 with
  | .error e => .error e
  | .ok processes =>
    match o.number .ops 1000 with
    | .error e => .error e
    | .ok operations =>
      .ok { config, processes, operations, seed := config.seed, strategy := o.strategy }

/-- Where the swap file is. -/
def swapPath (o : Options) (config : MachineConfig) : String :=
  joinPath ((o.value? .swapDir).getD ".") config.swapFile

end Options

end DemandPaging.CommandLine
