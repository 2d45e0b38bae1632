import DemandPaging.Config
import DemandPaging.Image
import DemandPaging.Memory
import DemandPaging.PageKey

/-!
# Address spaces

The pages of a process: those of its program from 0 on, then the stack, then the
arguments.  The stack grows down from the first argument page.

* `AddressSpace.make` — the layout of a program for a process, unless its
  sections share a page or it is too large for user addresses.
* `AddressSpace.make_fits` — all addresses of a space are user addresses.
* `AddressSpace.overflows` — the layouts that machine words are too small for.
* `AddressSpace.initialMemory` — what the pages hold before anything is written.
-/

namespace DemandPaging

/-- The pages of a process and the program behind them. -/
structure AddressSpace where
  pid : Pid
  image : Image
  imagePages : Nat
  stackPages : Nat
  argPages : Nat
  deriving Repr

namespace AddressSpace

/-- All pages: program, stack and arguments. -/
def pageCount (s : AddressSpace) : Nat := s.imagePages + s.stackPages + s.argPages

/-- The first argument page. -/
def argPage (s : AddressSpace) : PageNumber := ⟨s.imagePages + s.stackPages⟩

/-- Where the stack starts, and grows down from. -/
def initialStack (s : AddressSpace) : Nat := (s.imagePages + s.stackPages) * pageSize

/-- The address of the argument pointers. -/
def argBase (s : AddressSpace) : VirtAddr := s.argPage.base

/-- Does the page belong to the space? -/
def contains (s : AddressSpace) (p : PageNumber) : Bool := p.val < s.pageCount

/-- The key of a page of the space. -/
def key (s : AddressSpace) (p : PageNumber) : PageKey := ⟨s.pid, p⟩

/-- What a page of the space starts with. -/
def initialPage (s : AddressSpace) (p : PageNumber) : Page :=
  match s.image.backing p with
  | some (page, _) => page
  | none => zeroPage

/-- What all pages of the space start with, one after the other.  Pages behind the
program start with zeros. -/
def initialMemory (s : AddressSpace) : Memory :=
  (List.range s.image.pageCount).foldl (fun m k => m.setFrame ⟨k⟩ (s.initialPage ⟨k⟩))
    (.blank s.pageCount)

private theorem setFrames (s : AddressSpace) (ks : List Nat) (m : Memory) (p : PageNumber)
    (hp : p.val < m.frameCount) :
    (ks.foldl (fun m k => m.setFrame ⟨k⟩ (s.initialPage ⟨k⟩)) m).frame ⟨p.val⟩ =
      if p.val ∈ ks then s.initialPage p else m.frame ⟨p.val⟩ := by
  induction ks generalizing m with
  | nil => simp
  | cons k ks ih =>
    rw [List.foldl_cons, ih _ (by simpa using hp)]
    by_cases hks : p.val ∈ ks
    · simp [hks]
    · by_cases hk : k = p.val
      · subst hk
        simp [hks, Memory.frame_setFrame, hp]
      · by_cases hlt : k < m.frameCount
        · simp [hks, Ne.symm hk, Memory.frame_setFrame, hlt, hk]
        · simp [hks, Ne.symm hk, Memory.setFrame, hlt]

/-- Each frame of the initial memory holds what the page of its number starts with. -/
theorem frame_initialMemory (s : AddressSpace) (p : PageNumber) (hp : p.val < s.pageCount) :
    s.initialMemory.frame ⟨p.val⟩ = s.initialPage p := by
  rw [initialMemory, setFrames _ _ _ _ hp]
  simp only [List.mem_range]
  split
  · rfl
  · rename_i hle
    simp [initialPage, Image.backing_eq_none (Nat.le_of_not_lt hle), Memory.blank, Memory.frame,
      ByteRow.page]

/-- The layout of a program for a process, with the stack and argument pages that
the machine gives to each, in numbers of any size. -/
def make (pid : Pid) (image : Image) (config : MachineConfig) :
    Except PagingError AddressSpace :=
  match Section.check image.sections with
  | .error e => .error e
  | .ok () =>
    let s : AddressSpace :=
      { pid, image, imagePages := image.pageCount
        stackPages := config.stackPages, argPages := config.argPages }
    if maxUserAddr < s.pageCount * pageSize then .error (.badImage "address space too large")
    else .ok s

/-- All addresses of a space are user addresses. -/
theorem make_fits {pid : Pid} {image : Image} {config : MachineConfig} {s : AddressSpace}
    (h : make pid image config = .ok s) : s.pageCount * pageSize ≤ maxUserAddr := by
  unfold make at h
  split at h
  · simp at h
  · dsimp only at h
    split at h
    · simp at h
    · rename_i hle
      cases h
      exact Nat.le_of_not_lt hle

/-! ## Machine words -/

/-- Does the layout of a program take a number that is no machine word?  The ends of its sections
are computed first, and then, if no two of them share a page, the address where all pages end. -/
def overflows (image : Image) (config : MachineConfig) : Bool :=
  wordLimit ≤ image.pageCount || (Section.disjoint image.sections &&
    wordLimit ≤ (image.pageCount + config.stackPages + config.argPages) * pageSize)

/-- **A program that fits user addresses is laid out in machine words.** -/
theorem overflows_of_make {pid : Pid} {image : Image} {config : MachineConfig} {s : AddressSpace}
    (h : make pid image config = .ok s) : overflows image config = false := by
  have hfits := make_fits h
  have hs : s.pageCount = image.pageCount + config.stackPages + config.argPages := by
    unfold make at h
    split at h
    · cases h
    · dsimp only at h
      split at h
      · cases h
      · obtain rfl := Except.ok.inj h
        rfl
  rw [hs] at hfits
  simp only [overflows, pageSize, maxUserAddr, wordLimit, Bool.or_eq_false_iff,
    Bool.and_eq_false_imp, decide_eq_false_iff_not] at hfits ⊢
  omega

end AddressSpace

end DemandPaging
