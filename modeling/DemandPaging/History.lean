import DemandPaging.PageKey

/-!
# What happened to pages

The status bits of a page are copied to several places and folded back, so what
they should say is said apart from them: by the accesses that were made to the page
since it last got a frame.  The paging state keeps what happened to pages as a list,
to reason about; no operation reads it.

* `PageEvent` — a page gets a frame, is accessed, or is about to lose its frame.
* `Usage` — the two things a status bit may be about.
* `History.shows` — whether a page was used since it last got a frame.
-/

namespace DemandPaging

/-- Something that happens to a page. -/
inductive PageEvent where
  /-- it gets a frame -/
  | resident (key : PageKey)
  /-- it is read or written -/
  | accessed (key : PageKey) (writing : Bool)
  /-- its frame is to be taken, its contents being handed to the swap store first or not -/
  | victim (key : PageKey) (handedOver : Bool)
  deriving DecidableEq, Repr, Inhabited

/-- How a page may have been used. -/
inductive Usage where
  /-- it was read or written -/
  | referenced
  /-- it was written -/
  | written
  deriving DecidableEq, Repr, Inhabited

/-- Is an access a use of this kind? -/
def Usage.counts : Usage → (writing : Bool) → Bool
  | .referenced, _ => true
  | .written, writing => writing

/-- What happened to pages, the last first. -/
abbrev History := List PageEvent

/-- Was the page used in this way since it last got a frame? -/
def History.shows : History → Usage → PageKey → Bool
  | [], _, _ => false
  | .resident k :: rest, u, key => if k = key then false else History.shows rest u key
  | .accessed k writing :: rest, u, key =>
    (k = key && u.counts writing) || History.shows rest u key
  | .victim .. :: rest, u, key => History.shows rest u key

end DemandPaging
