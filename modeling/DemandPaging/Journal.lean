import DemandPaging.Event

/-!
# The journal

The events noted so far, each with the process that was switched to last when
it was noted.

* `Journal.note` — adds an event.
* `Journal.lines_note` — as the last line.
* `Line.render` — how a console shows a line, in the colour of its level.
-/

namespace DemandPaging

/-- An event and the process that ran when it was noted. -/
structure Line where
  current : Option Pid
  event : Event
  deriving DecidableEq, Repr, Inhabited

/-- The process switched to last, and the events noted so far. -/
structure Journal where
  current : Option Pid := none
  /-- the lines, the last one first -/
  newestFirst : List Line := []
  deriving DecidableEq, Repr, Inhabited

namespace Journal

/-- The lines in the order in which they were noted. -/
def lines (j : Journal) : List Line := j.newestFirst.reverse

/-- Adds an event. -/
def note (j : Journal) (e : Event) : Journal :=
  { j with newestFirst := ⟨j.current, e⟩ :: j.newestFirst }

/-- Adds some events, one after the other. -/
def noteAll (j : Journal) (events : List Event) : Journal := events.foldl note j

@[simp] theorem current_note (j : Journal) (e : Event) : (j.note e).current = j.current := rfl

@[simp] theorem lines_note (j : Journal) (e : Event) :
    (j.note e).lines = j.lines ++ [⟨j.current, e⟩] := by
  simp [lines, note]

/-- The lines that matter at least as much as a level. -/
def linesAt (j : Journal) (limit : Level) : List Line :=
  j.lines.filter fun l => l.event.level.shownAt limit

end Journal

/-! ## On the console -/

/-- A text between the escape sequences that give it a colour and take it away. -/
def coloured (text : String) (code : Nat) : String :=
  "\x1b[" ++ toString code ++ "m" ++ text ++ "\x1b[0m"

/-- The colour of a level: red, yellow, blue, green and grey. -/
def Level.colour : Level → Nat
  | .error => 31
  | .warn => 93
  | .info => 34
  | .debug => 32
  | .trace => 90

/-- A text with blanks before it, so that it is at least `width` characters long. -/
def alignRight (width : Nat) (text : String) : String :=
  String.ofList (List.replicate (width - text.length) ' ') ++ text

/-- The number that stands for a process that ran: -1 if none did. -/
def pidNumber : Option Pid → Int
  | some p => p
  | none => -1

/-- A message on the console: its level, the place it comes from, the process that
ran, and the text, all in the colour of the level. -/
def consoleLine (level : Level) (file : Option String) (line : Option Nat) (pid : Option Pid)
    (text : String) : String :=
  coloured
    ("[" ++ alignRight 5 level.name ++ "][" ++ file.getD "?" ++ ":" ++ toString (line.getD 0) ++
      "][" ++ toString (pidNumber pid) ++ "] " ++ text ++ "\n")
    level.colour

/-- A line of the journal on the console. -/
def Line.render (l : Line) : String :=
  consoleLine l.event.level none none l.current l.event.message

end DemandPaging
