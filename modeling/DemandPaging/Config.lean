import DemandPaging.Fault
import DemandPaging.Text.Blank
import DemandPaging.Text.Lines
import DemandPaging.Text.Numeral

/-!
# Settings of the machine

The parameters of the simulated machine and of its paging policy, and the text
that sets them: one `key = value` on a line, a `#` starting a comment.  Keys
that do not concern paging are passed over.

* `MachineConfig.set` — one key.
* `MachineConfig.check` — the machines that paging can run on.
* `MachineConfig.parse` — a whole text, on top of the default machine.
* `MachineConfig.applyLines_append` — a text is read line by line, each on top
  of what the lines before it set.
-/

namespace DemandPaging

/-- Parameters of the machine and of its paging policy. -/
structure MachineConfig where
  /-- frames of main memory -/
  frames : Nat := 32
  /-- slots of each TLB -/
  tlbSlots : Nat := 4
  /-- stack pages of each process -/
  stackPages : Nat := 8
  /-- argument pages of each process -/
  argPages : Nat := 1
  /-- random victims tried before one that the TLB maps is taken -/
  victimRetries : Nat := 4
  /-- seed of the choice of victims and TLB slots -/
  seed : Nat := 0x5eed
  /-- name of the swap file -/
  swapFile : String := ".swap"
  deriving DecidableEq, Repr, Inhabited

namespace MachineConfig

/-- The default machine with other numbers of frames and TLB slots. -/
def withFrames (frames tlbSlots : Nat) : MachineConfig := { frames, tlbSlots }

/-! ## Single settings -/

/-- The number a value stands for. -/
def number (value : List Char) : Except PagingError Nat :=
  match Text.numeral? wordLimit value with
  | some n => .ok n
  | none => .error .badConfig

/-- The settings with one key given a value. -/
def set (c : MachineConfig) (key value : List Char) : Except PagingError MachineConfig :=
  match String.ofList key with
  | "Processor.numPhysPages" => (number value).map fun n => { c with frames := n }
  | "Processor.numTLBEntries" => (number value).map fun n => { c with tlbSlots := n }
  | "Processor.numStackPages" => (number value).map fun n => { c with stackPages := n }
  | "Processor.numArgPages" => (number value).map fun n => { c with argPages := n }
  | "VM.victimRetries" => (number value).map fun n => { c with victimRetries := n }
  | "Machine.randomSeed" => (number value).map fun n => { c with seed := n }
  | "VM.swapFile" => .ok { c with swapFile := String.ofList value }
  | _ => .ok c

/-- The machines that paging can run on: there are frames and TLB slots, the
swap file has a name, and all of memory has 32-bit addresses. -/
def usable (c : MachineConfig) : Bool :=
  0 < c.frames && 0 < c.tlbSlots && !c.swapFile.isEmpty && c.frames * pageSize < 0x1_0000_0000

/-- Refuses machines that paging cannot run on. -/
def check (c : MachineConfig) : Except PagingError Unit :=
  if c.usable then .ok () else .error .badConfig

/-! ## Texts -/

/-- A line without its comment and without blanks at its ends. -/
def content (line : List Char) : List Char :=
  Text.trim (line.takeWhile (· ≠ '#'))

/-- The key and the value of a line, split at the first equals sign. -/
def assignment? (line : List Char) : Option (List Char × List Char) :=
  match line.dropWhile (· ≠ '=') with
  | [] => none
  | _ :: value => some (Text.trim (line.takeWhile (· ≠ '=')), Text.trim value)

/-- The settings after one line. -/
def applyLine (c : MachineConfig) (line : List Char) : Except PagingError MachineConfig :=
  match content line with
  | [] => .ok c
  | text =>
    match assignment? text with
    | none => .error .badConfig
    | some (key, value) => c.set key value

/-- The settings after some lines, the first that makes no sense being the end. -/
def applyLines : MachineConfig → List (List Char) → Except PagingError MachineConfig
  | c, [] => .ok c
  | c, line :: rest =>
    match c.applyLine line with
    | .ok c => applyLines c rest
    | .error e => .error e

/-- The machine a text describes. -/
def parse (text : String) : Except PagingError MachineConfig :=
  match applyLines {} (Text.lines text.toList) with
  | .error e => .error e
  | .ok c =>
    match c.check with
    | .error e => .error e
    | .ok () => .ok c

/-- Lines are read one after the other, each on top of what went before. -/
theorem applyLines_append (c : MachineConfig) (xs ys : List (List Char)) :
    applyLines c (xs ++ ys) = (applyLines c xs).bind (applyLines · ys) := by
  induction xs generalizing c with
  | nil => rfl
  | cons x xs ih =>
    simp only [List.cons_append, applyLines]
    split
    · exact ih _
    · rfl

end MachineConfig

end DemandPaging
