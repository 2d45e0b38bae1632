import DemandPaging.Entry
import DemandPaging.Fault
import DemandPaging.Swap.Store
import DemandPaging.Tlb.Bank

/-!
# Events

What the kernel notes in its journal, one constructor for each kind of note.
`Event.level` says how much an event matters, `Event.message` puts it in words.
-/

namespace DemandPaging

/-! ## Levels -/

/-- How much an event matters, from most to least. -/
inductive Level where
  | error
  | warn
  | info
  | debug
  | trace
  deriving DecidableEq, Repr, Inhabited

namespace Level

def name : Level → String
  | .error => "ERROR"
  | .warn => "WARN"
  | .info => "INFO"
  | .debug => "DEBUG"
  | .trace => "TRACE"

/-- The place of a level, the one that matters most first. -/
def rank : Level → Nat
  | .error => 1
  | .warn => 2
  | .info => 3
  | .debug => 4
  | .trace => 5

/-- Is an event of the first level shown where the second one is asked for? -/
def shownAt (l limit : Level) : Bool := l.rank ≤ limit.rank

/-- The level that a name asks for; errors alone, if it names none. -/
def ofName : Option String → Level
  | some "WARN" => .warn
  | some "INFO" => .info
  | some "DEBUG" => .debug
  | some "TRACE" => .trace
  | _ => .error

end Level

/-! ## How a process gets its pages -/

/-- How the pages of a process become resident. -/
inductive Strategy where
  /-- all of them when it is loaded, into frames that stay with it -/
  | eager
  /-- each when it is first touched -/
  | demand
  deriving DecidableEq, Repr, Inhabited

def Strategy.name : Strategy → String
  | .eager => "Eager"
  | .demand => "Demand"

/-! ## Events -/

/-- Something the kernel notes. -/
inductive Event where
  | frameClaimed (frame : FrameNumber) (key : PageKey)
  | freeFrameReleased (frame : FrameNumber)
  | tlbAttached (place : Nat)
  | frameWithoutTranslation (frame : FrameNumber) (pid : Pid)
  | pageResolved (key : PageKey) (frame : FrameNumber)
  | preloadFailed (pid : Pid) (dropped : Nat)
  | pageEvicted (key : PageKey) (frame : FrameNumber) (dirty : Bool)
  | tlbSaved (slots : Nat) (pid : Pid)
  | pageLeft (key : PageKey)
  | shortWrite (key : PageKey) (transfer : ShortTransfer)
  | writtenOut (key : PageKey) (slot : SwapSlot)
  | shortRead (key : PageKey) (transfer : ShortTransfer)
  | readIn (key : PageKey) (slot : SwapSlot)
  | spaceCreated (pid : Pid) (pages : Nat)
  | spaceDestroyed (pid : Pid) (frames slots : Nat)
  | translationInstalled (address : VirtAddr) (pid : Pid) (slot : Nat)
  | swapFileRefused (name : String)
  | started (frames tlbSlots : Nat) (swapFile : String)
  | swapFileGone (name : String)
  | stopped (writes reads : Nat)
  | tooLargeToPreload (pid : Pid) (needed available : Nat)
  | preloaded (pid : Pid) (pages : Nat)
  | processLoaded (pid : Pid) (pages : Nat) (strategy : Strategy)
  | copyStopped (pid : Pid) (moved : Nat) (error : PagingError)
  | processExited (pid : Pid) (status : Int)
  | pidDropped (pid : Pid)
  | switchedFromOther (pid : Pid) (running : Option Pid)
  | switched (previous : Option Pid) (next : Pid) (restored : Nat)
  | killedByError (error : PagingError) (address : VirtAddr)
  | killedByCause (cause : ExceptionCause) (address : VirtAddr)
  | exitFailed (pid : Pid) (error : PagingError)
  | neverTranslated (address : VirtAddr) (pid : Pid)
  | pageTableDump
  | pageTableEntry (key : PageKey) (entry : Translation)
  | tlbDump
  | tlbSlot (slot : Nat) (entry : Translation)
  deriving DecidableEq, Repr, Inhabited

/-- Something that may be missing, in words. -/
def optionText : Option String → String
  | some text => s!"Some({text})"
  | none => "None"

/-- A process that may be missing, in words. -/
def pidText (pid : Option Pid) : String := optionText (pid.map toString)

/-- A frame that may be missing, in words. -/
def frameText (frame : Option FrameNumber) : String := optionText (frame.map (·.render))

def boolText (b : Bool) : String := if b then "true" else "false"

/-- The status bits that a dump shows. -/
def Translation.statusText (e : Translation) : String :=
  s!"readOnly={boolText e.flags.readOnly}, dirty={boolText e.flags.dirty}, used={boolText e.flags.referenced}"

namespace Event

/-- How much the event matters. -/
def level : Event → Level
  | .shortWrite .. => .error
  | .shortRead .. => .error
  | .swapFileRefused .. => .error
  | .killedByError .. => .error
  | .killedByCause .. => .error
  | .neverTranslated .. => .error
  | .frameWithoutTranslation .. => .warn
  | .preloadFailed .. => .warn
  | .swapFileGone .. => .warn
  | .tooLargeToPreload .. => .warn
  | .switchedFromOther .. => .warn
  | .exitFailed .. => .warn
  | .started .. => .info
  | .stopped .. => .info
  | .preloaded .. => .info
  | .processLoaded .. => .info
  | .processExited .. => .info
  | .freeFrameReleased .. => .debug
  | .tlbAttached .. => .debug
  | .pageEvicted .. => .debug
  | .writtenOut .. => .debug
  | .readIn .. => .debug
  | .spaceCreated .. => .debug
  | .spaceDestroyed .. => .debug
  | .copyStopped .. => .debug
  | .frameClaimed .. => .trace
  | .pageResolved .. => .trace
  | .tlbSaved .. => .trace
  | .pageLeft .. => .trace
  | .translationInstalled .. => .trace
  | .pidDropped .. => .trace
  | .switched .. => .trace
  | .pageTableDump => .trace
  | .pageTableEntry .. => .trace
  | .tlbDump => .trace
  | .tlbSlot .. => .trace

/-- The event in words. -/
def message : Event → String
  | .frameClaimed frame key => s!"frame table: {frame.render} -> {key.render}"
  | .freeFrameReleased frame => s!"frame table: {frame.render} freed while already free"
  | .tlbAttached place => "core map: TLB #" ++ toString place ++ " attached"
  | .frameWithoutTranslation frame pid =>
    s!"core map: {frame.render} of pid {pid} had no translation"
  | .pageResolved key frame => s!"pager: {key.render} -> {frame.render}"
  | .preloadFailed pid dropped => s!"pager: preload of pid {pid} failed, dropped {dropped} pages"
  | .pageEvicted key frame dirty =>
    s!"pager: evicted {key.render} from {frame.render}, dirty={boolText dirty}"
  | .tlbSaved slots pid => s!"tlb: saved {slots} slots of pid {pid}"
  | .pageLeft key => s!"tlb: {key.render} left since the switch"
  | .shortWrite key t =>
    s!"swap: short write of {key.render} at {t.slot.render}: {t.moved} of {pageSize} bytes"
  | .writtenOut key slot => s!"swap: {key.render} written out to {slot.render}"
  | .shortRead key t =>
    s!"swap: short read of {key.render} at {t.slot.render}: {t.moved} of {pageSize} bytes"
  | .readIn key slot => s!"swap: {key.render} read in from {slot.render}"
  | .spaceCreated pid pages => s!"vm: address space of pid {pid} with {pages} pages"
  | .spaceDestroyed pid frames slots =>
    s!"vm: pid {pid} torn down, {frames} frames and {slots} slots released"
  | .translationInstalled address pid slot =>
    s!"vm: {hexText address.val} of pid {pid} in TLB slot {slot}"
  | .swapFileRefused name => "vm: cannot create swap file " ++ name
  | .started frames tlbSlots swapFile =>
    s!"vm: {frames} frames of {pageSize} bytes, {tlbSlots} TLB slots, swap in {swapFile}"
  | .swapFileGone name => s!"vm: swap file {name} already gone"
  | .stopped writes reads =>
    s!"vm: shut down after {writes} swap writes and {reads} swap reads"
  | .tooLargeToPreload pid needed available =>
    s!"eager: pid {pid} needs {needed} pages, machine has {available}"
  | .preloaded pid pages => s!"eager: pid {pid} loaded {pages} pages"
  | .processLoaded pid pages strategy =>
    s!"[kernel] pid {pid} loaded, {pages} pages, {strategy.name}"
  | .copyStopped pid moved error =>
    s!"[kernel] pid {pid}: copy stopped after {moved} bytes: {error.message}"
  | .processExited pid status => s!"[kernel] pid {pid} exited with code {status}"
  | .pidDropped pid => s!"drop pid {pid}"
  | .switchedFromOther pid running =>
    s!"switch: pid {pid} is not running, cpu has {pidText running}"
  | .switched previous next restored =>
    s!"switch: {pidText previous} -> {next}, {restored} TLB slots restored"
  | .killedByError error address =>
    s!"[kernel] trap_handler: {error.message} in application, bad addr = {hexText address.val}, kernel killed it."
  | .killedByCause cause address =>
    s!"[kernel] trap_handler: {cause.name} in application, bad addr = {hexText address.val}, kernel killed it."
  | .exitFailed pid error => s!"[kernel] pid {pid} exit: {error.message}"
  | .neverTranslated address pid =>
    s!"[kernel] {hexText address.val} of pid {pid} never translated"
  | .pageTableDump => "-----------page table dump---------"
  | .pageTableEntry key entry =>
    s!"{key.render}: {frameText entry.frame}, {entry.statusText}"
  | .tlbDump => "-----------TLB dump---------"
  | .tlbSlot slot entry =>
    s!"{slot}: valid={boolText entry.valid}, vpn={entry.page.render}, ppn={frameText entry.frame}, {entry.statusText}"

end Event

end DemandPaging
