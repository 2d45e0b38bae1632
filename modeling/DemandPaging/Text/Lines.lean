/-!
# Lines of a text

A line ends at a line feed, and a carriage return before the feed belongs to
the end of the line.  What stands after the last feed is a line of its own
unless it is empty.

* `lines_append_feed` — a text without a feed, then a feed, is a line before
  the lines of the rest.
-/

namespace DemandPaging.Text

/-- The line whose characters are given last first, without the carriage return
that may close it. -/
def closeLine : List Char → List Char
  | '\r' :: cs => cs.reverse
  | cs => cs.reverse

/-- The lines of a text, `seen` being what the first of them starts with, last
character first. -/
def linesAfter (seen : List Char) : List Char → List (List Char)
  | [] => if seen.isEmpty then [] else [seen.reverse]
  | c :: cs => if c = '\n' then closeLine seen :: linesAfter [] cs else linesAfter (c :: seen) cs

/-- The lines of a text. -/
def lines (cs : List Char) : List (List Char) := linesAfter [] cs

theorem linesAfter_append_feed {line : List Char} (h : '\n' ∉ line) (seen rest : List Char) :
    linesAfter seen (line ++ '\n' :: rest) =
      closeLine (line.reverse ++ seen) :: linesAfter [] rest := by
  induction line generalizing seen with
  | nil => simp [linesAfter]
  | cons c cs ih =>
    simp only [List.mem_cons, not_or] at h
    simp [linesAfter, Ne.symm h.1, ih h.2]

/-- A text without a feed, then a feed, is one line before the lines of the rest. -/
theorem lines_append_feed {line : List Char} (h : '\n' ∉ line) (rest : List Char) :
    lines (line ++ '\n' :: rest) = closeLine line.reverse :: lines rest := by
  simpa [lines] using linesAfter_append_feed h [] rest

end DemandPaging.Text
