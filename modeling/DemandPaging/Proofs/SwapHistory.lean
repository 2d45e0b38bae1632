import DemandPaging.Proofs.SwapContents
import Mathlib

/-!
# What the swap store remembers

The store is used in any order, over a file that may fail at any transfer.  Slots change hands:
a slot whose process is gone, or whose first transfer failed, is the next one to be given out.

* `SwapUse` — writing a page out, reading one back, taking back the slots of a process.
* `SwapEvent.lastWritten`, `SwapEvent.intact` — the page that should be found under a key after a
  history, and whether a failed transfer may have spoiled it.
* `SwapStore.Remembers` — what a read answers, in terms of the history alone.
* `SwapStore.remembers_after` — it does, after every history; and what is done with other pages
  changes nothing of it.
-/

namespace DemandPaging

/-- What the store is asked to do. -/
inductive SwapUse
  | write (key : PageKey) (page : Page)
  | read (key : PageKey) (buffer : Page)
  | release (pid : Pid)

/-- May the request change what is kept under a key? -/
def SwapUse.concerns (key : PageKey) : SwapUse → Prop
  | write k _ => k = key
  | read _ _ => False
  | release pid => key.pid = pid

/-- What came of it. -/
inductive SwapEvent
  | wrote (key : PageKey) (page : Page) (complete : Bool)
  | read (key : PageKey)
  | released (pid : Pid)

namespace SwapEvent

/-- The page of the last complete write under a key since the slots of its process were taken
back, in a history with the newest event first. -/
def lastWritten (key : PageKey) : List SwapEvent → Option Page
  | [] => none
  | wrote k page complete :: past =>
    if k = key ∧ complete = true then some page else lastWritten key past
  | read _ :: past => lastWritten key past
  | released pid :: past => if key.pid = pid then none else lastWritten key past

/-- Was no write under the key cut short after that one? -/
def intact (key : PageKey) : List SwapEvent → Bool
  | [] => true
  | wrote k _ complete :: past => if k = key then complete else intact key past
  | read _ :: past => intact key past
  | released pid :: past => if key.pid = pid then true else intact key past

end SwapEvent

namespace SwapStore

variable {F : Type} [BackingFile F]

/-- One use of the store. -/
def use (s : SwapStore F) : SwapUse → SwapEvent × SwapStore F
  | .write key page =>
    let (r, s) := s.writeOut key page
    (.wrote key page r.isOk, s)
  | .read key buffer =>
    let (_, _, s) := s.readIn key buffer
    (.read key, s)
  | .release pid =>
    let (_, s) := s.releaseAll pid
    (.released pid, s)

/-- The store after some uses, the last one first. -/
def after (s : SwapStore F) : List SwapUse → SwapStore F
  | [] => s
  | u :: earlier => ((s.after earlier).use u).2

/-- What came of them, the last one first. -/
def events (s : SwapStore F) : List SwapUse → List SwapEvent
  | [] => []
  | u :: earlier => ((s.after earlier).use u).1 :: s.events earlier

/-! ## One use -/

variable {w : FileView F}

/-- The store is sound and its file keeps its word. -/
structure Trusted (w : FileView F) (s : SwapStore F) : Prop where
  sound : s.Sound
  good : w.good s.file

/-- What is kept under a key is the same in two stores: the slot, and the page in it. -/
structure Preserved (w : FileView F) (s t : SwapStore F) (key : PageKey) : Prop where
  slot : t.slots[key]? = s.slots[key]?
  page : ∀ {a : SwapSlot}, s.slots[key]? = some a → w.slotPage t.file a = w.slotPage s.file a

theorem Preserved.refl (s : SwapStore F) (key : PageKey) : Preserved w s s key := ⟨rfl, fun _ => rfl⟩

theorem Preserved.trans {s t u : SwapStore F} {key : PageKey} (h : Preserved w s t key)
    (h' : Preserved w t u key) : Preserved w s u key where
  slot := h'.slot.trans h.slot
  page ha := (h'.page (h.slot.trans ha)).trans (h.page ha)

namespace Trusted

variable {s : SwapStore F}

/-- A write leaves a sound store and all that is kept under other keys, also where it takes a slot
that another page had before, and where it fails. -/
theorem write (hs : Trusted w s) (k : PageKey) (page : Page) :
    Trusted w (s.writeOut k page).2 ∧
      ∀ key, k ≠ key → Preserved w s (s.writeOut k page).2 key := by
  obtain ⟨a, n, hwrote, -⟩ := writeOut_spec hs.sound (Prod.eta (s.writeOut k page)).symm
  obtain ⟨hgood, hothers, -⟩ := w.slotPage_of_wroteOut hs.good hwrote
  refine ⟨⟨hwrote.sound, hgood⟩, fun key hkey => ⟨?_, fun {b} hb => hothers b ?_⟩⟩
  · rw [hwrote.slots, if_neg fun h => hkey h.1]
  · rintro rfl
    exact hkey (hwrote.place.unique hs.sound hb).symm

/-- A read changes nothing that is kept. -/
theorem read (hs : Trusted w s) (k : PageKey) (buffer : Page) :
    Trusted w (s.readIn k buffer).2.2 ∧ ∀ key, Preserved w s (s.readIn k buffer).2.2 key := by
  rcases readIn_spec (t := (s.readIn k buffer).2.2) (r := (s.readIn k buffer).1) rfl with
    ⟨-, -, -, ht⟩ | ⟨a, n, -, hread, -⟩
  · rw [ht]
    exact ⟨hs, fun key => .refl s key⟩
  · obtain ⟨hgood, hall, -⟩ := w.slotPage_of_readFrom hs.good hread
    exact ⟨⟨hread.sound hs.sound, hgood⟩, fun key => ⟨by rw [hread.slots], fun _ => hall _⟩⟩

/-- Taking slots back changes nothing that is kept for other processes. -/
theorem release (hs : Trusted w s) (pid : Pid) :
    Trusted w (s.releaseAll pid).2 ∧
      ∀ key : PageKey, key.pid ≠ pid → Preserved w s (s.releaseAll pid).2 key := by
  have h := releaseAll_spec hs.sound pid
  exact ⟨⟨h.sound, by rw [h.file]; exact hs.good⟩,
    fun key hkey => ⟨by rw [h.slots, if_neg hkey], fun _ => by rw [h.file]⟩⟩

theorem use (hs : Trusted w s) (u : SwapUse) :
    Trusted w (s.use u).2 ∧ ∀ key, ¬ u.concerns key → Preserved w s (s.use u).2 key := by
  cases u with
  | write k page => exact hs.write k page
  | read k buffer => exact ⟨(hs.read k buffer).1, fun key _ => (hs.read k buffer).2 key⟩
  | release pid => exact hs.release pid

theorem after (hs : Trusted w s) (uses : List SwapUse) : Trusted w (s.after uses) := by
  induction uses with
  | nil => exact hs
  | cons u earlier ih => exact (ih.use u).1

/-- **What is done with other pages changes nothing**, in whatever order, and whether or not the
transfers are complete. -/
theorem preserved_after (hs : Trusted w s) {uses : List SwapUse} {key : PageKey}
    (hothers : ∀ u ∈ uses, ¬ u.concerns key) : Preserved w s (s.after uses) key := by
  induction uses with
  | nil => exact .refl s key
  | cons u earlier ih =>
    have hearlier := ih fun v hv => hothers v (List.mem_cons_of_mem u hv)
    exact hearlier.trans (((hs.after earlier).use u).2 key (hothers u List.mem_cons_self))

end Trusted

/-! ## Histories -/

/-- What is kept under a key is what a history says. -/
structure Tracks (w : FileView F) (s : SwapStore F) (past : List SwapEvent) (key : PageKey) :
    Prop where
  slot : s.slots[key]? = none ↔ SwapEvent.lastWritten key past = none
  page : ∀ {a : SwapSlot} {last : Page}, s.slots[key]? = some a →
    SwapEvent.lastWritten key past = some last → SwapEvent.intact key past →
      w.slotPage s.file a = last

namespace Tracks

variable {s t : SwapStore F} {past : List SwapEvent} {key : PageKey}

/-- Nothing happened that the key has to do with. -/
theorem preserved (h : Tracks w s past key) (ht : Preserved w s t key) {e : SwapEvent}
    (hlast : SwapEvent.lastWritten key (e :: past) = SwapEvent.lastWritten key past)
    (hintact : SwapEvent.intact key (e :: past) → SwapEvent.intact key past) :
    Tracks w t (e :: past) key where
  slot := by rw [ht.slot, hlast, h.slot]
  page ha hp hi := by
    rw [ht.slot] at ha
    rw [hlast] at hp
    exact (ht.page ha).trans (h.page ha hp (hintact hi))

/-- The page itself is written: if the transfer is complete it is there, and if not, what was
there may be lost, but the page has a slot only if it had one. -/
theorem written (h : Tracks w s past key) (hs : Trusted w s) (page : Page) :
    Tracks w (s.writeOut key page).2 (.wrote key page (s.writeOut key page).1.isOk :: past) key := by
  obtain ⟨a, n, hwrote, hr⟩ := writeOut_spec hs.sound (Prod.eta (s.writeOut key page)).symm
  obtain ⟨-, -, hpage⟩ := w.slotPage_of_wroteOut hs.good hwrote
  have hslot := hwrote.slots key
  rcases hr with ⟨hn, hr⟩ | ⟨hn, hr⟩ <;> rw [hr]
  · rw [if_pos ⟨rfl, hn⟩] at hslot
    refine ⟨by simp [hslot, SwapEvent.lastWritten, Except.isOk, Except.toBool], ?_⟩
    intro b last hb hlast _
    obtain rfl : a = b := Option.some.inj (hslot.symm.trans hb)
    obtain rfl : page = last := by simpa [SwapEvent.lastWritten, Except.isOk, Except.toBool] using hlast
    exact hpage hn
  · rw [if_neg fun h => hn h.2] at hslot
    refine ⟨by rw [hslot, h.slot]; simp [SwapEvent.lastWritten, Except.isOk, Except.toBool], ?_⟩
    intro b last _ _ hi
    simp [SwapEvent.intact, Except.isOk, Except.toBool] at hi

/-- Without its slot the page counts as never written. -/
theorem released (hs : Trusted w s) (key : PageKey) :
    Tracks w (s.releaseAll key.pid).2 (.released key.pid :: past) key := by
  have hslot := (releaseAll_spec hs.sound key.pid).slots key
  rw [if_pos rfl] at hslot
  refine ⟨by simp [hslot, SwapEvent.lastWritten], fun ha => ?_⟩
  rw [hslot] at ha
  cases ha

theorem use (h : Tracks w s past key) (hs : Trusted w s) (u : SwapUse) :
    Tracks w (s.use u).2 ((s.use u).1 :: past) key := by
  have hothers := (hs.use u).2 key
  cases u with
  | write k page =>
    by_cases hk : k = key
    · subst hk
      exact h.written hs page
    · exact h.preserved (hothers hk) (by simp [SwapStore.use, SwapEvent.lastWritten, hk])
        (by simp [SwapStore.use, SwapEvent.intact, hk])
  | read k buffer => exact h.preserved (hothers not_false) rfl id
  | release pid =>
    by_cases hpid : key.pid = pid
    · subst hpid
      exact released hs key
    · exact h.preserved (hothers hpid) (by simp [SwapStore.use, SwapEvent.lastWritten, hpid])
        (by simp [SwapStore.use, SwapEvent.intact, hpid])

theorem blank (f : F) (key : PageKey) : Tracks w ({ file := f } : SwapStore F) [] key where
  slot := by simp [SwapEvent.lastWritten]
  page ha := by simp at ha

end Tracks

/-- **The store follows its history**, under every key. -/
theorem tracks_after {f : F} (hf : w.good f) (uses : List SwapUse) (key : PageKey) :
    Trusted w (({ file := f } : SwapStore F).after uses) ∧
      Tracks w (({ file := f } : SwapStore F).after uses) (({ file := f } : SwapStore F).events uses)
        key := by
  have hblank : Trusted w ({ file := f } : SwapStore F) := ⟨sound_blank f, hf⟩
  refine ⟨hblank.after uses, ?_⟩
  induction uses with
  | nil => exact .blank f key
  | cons u earlier ih => exact ih.use (hblank.after earlier) u

/-! ## Reading back -/

/-- What a read of a page answers (`r`, with the buffer `page` and the store `t` after it), in
terms of the history of the store alone. -/
structure Remembers (s : SwapStore F) (past : List SwapEvent) (key : PageKey) (buffer : Page)
    (r : Except ShortTransfer (Option SwapSlot)) (page : Page) (t : SwapStore F) : Prop where
  /-- The answer is that there is no such page exactly if none was written since the slots of its
  process were taken back. -/
  blank : r = .ok none ↔ SwapEvent.lastWritten key past = none
  /-- Then nothing has changed. -/
  untouched : r = .ok none → page = buffer ∧ t = s
  /-- Otherwise one transfer is asked for.  If it is complete, so is the read, and it delivers the
  page that was written last, unless a later write of it was cut short. -/
  delivered : ∀ {last : Page}, SwapEvent.lastWritten key past = some last →
    ∃ a n, s.slots[key]? = some a ∧
      BackingFile.readAt s.file a.offset buffer = (n, page, t.file) ∧
      r = (if n = pageSize then .ok (some a) else .error ⟨a, n⟩) ∧
      (n = pageSize → SwapEvent.intact key past → page = last)
  /-- A short transfer leaves slots, free slots and counters as they were. -/
  short : ∀ {e : ShortTransfer}, r = .error e → t = { s with file := t.file }

/-- A read (`r'`, `page'`) answers as one before it did (`r`, `page`), as far as the file lets it. -/
structure AnswersAs (r : Except ShortTransfer (Option SwapSlot)) (page : Page)
    (r' : Except ShortTransfer (Option SwapSlot)) (page' : Page) : Prop where
  blank : r' = .ok none ↔ r = .ok none
  delivered : ∀ {a b : SwapSlot}, r = .ok (some a) → r' = .ok (some b) → b = a ∧ page' = page

/-- A page with a slot is read by one transfer from there. -/
theorem readIn_of_slot {s : SwapStore F} {key : PageKey} {a : SwapSlot} (ha : s.slots[key]? = some a)
    (buffer : Page) :
    ∃ n page f, BackingFile.readAt s.file a.offset buffer = (n, page, f) ∧
      s.readIn key buffer = if n = pageSize
        then (.ok (some a), page, { s with file := f, reads := s.reads + 1 })
        else (.error ⟨a, n⟩, page, { s with file := f }) := by
  refine ⟨_, _, _, rfl, ?_⟩
  rw [readIn, ha]
  rfl

/-- A page is reported as missing exactly if it has no slot. -/
theorem readIn_eq_none_iff (s : SwapStore F) (key : PageKey) (buffer : Page) :
    (s.readIn key buffer).1 = .ok none ↔ s.slots[key]? = none := by
  cases ha : s.slots[key]? with
  | none => simp [readIn, ha]
  | some a =>
    obtain ⟨n, page, f, -, hread⟩ := s.readIn_of_slot ha buffer
    rw [hread]
    split <;> exact iff_of_false nofun nofun

/-- A page that is delivered is the one in its slot. -/
theorem Trusted.page_of_readIn {s : SwapStore F} (hs : Trusted w s) {key : PageKey} {buffer : Page}
    {a : SwapSlot} (h : (s.readIn key buffer).1 = .ok (some a)) :
    s.slots[key]? = some a ∧ (s.readIn key buffer).2.1 = w.slotPage s.file a := by
  obtain ⟨r, page, t, hread⟩ : ∃ r page t, s.readIn key buffer = (r, page, t) := ⟨_, _, _, rfl⟩
  rw [hread] at h ⊢
  obtain rfl : r = .ok (some a) := h
  rcases readIn_spec hread with ⟨-, hr, -, -⟩ | ⟨b, n, hb, hread, ⟨hn, hr⟩ | ⟨-, hr⟩⟩
  · cases hr
  · obtain rfl : a = b := Option.some.inj (Except.ok.inj hr)
    exact ⟨hb, ((w.slotPage_of_readFrom hs.good hread).2.2 hn).symm⟩
  · cases hr

theorem Tracks.remembers {s : SwapStore F} {past : List SwapEvent} {key : PageKey}
    (h : Tracks w s past key) (hs : Trusted w s) (buffer : Page) :
    s.Remembers past key buffer (s.readIn key buffer).1 (s.readIn key buffer).2.1
      (s.readIn key buffer).2.2 where
  blank := (s.readIn_eq_none_iff key buffer).trans h.slot
  untouched hr := by
    have ha := (s.readIn_eq_none_iff key buffer).1 hr
    simp only [readIn, ha, and_self]
  delivered {last} hlast := by
    have hslot : s.slots[key]? ≠ none := fun ha => by simp [h.slot.1 ha] at hlast
    obtain ⟨a, ha⟩ := Option.ne_none_iff_exists'.1 hslot
    obtain ⟨n, page, f, htransfer, hread⟩ := s.readIn_of_slot ha buffer
    refine ⟨a, n, ha, ?_⟩
    by_cases hn : n = pageSize
    · rw [if_pos hn] at hread
      have hpage := (hs.page_of_readIn (congrArg Prod.fst hread)).2
      rw [hread] at hpage ⊢
      exact ⟨htransfer, (if_pos hn).symm, fun _ hi => hpage.trans (h.page ha hlast hi)⟩
    · rw [hread, if_neg hn]
      exact ⟨htransfer, (if_neg hn).symm, fun h => absurd h hn⟩
  short {e} hr := by
    cases ha : s.slots[key]? with
    | none => simp [readIn, ha] at hr
    | some a =>
      obtain ⟨n, page, f, -, hread⟩ := s.readIn_of_slot ha buffer
      rw [hread] at hr ⊢
      split at hr
      · cases hr
      · rename_i hn
        rw [if_neg hn]

/-- Where the same is kept, reads answer the same. -/
theorem Preserved.answersAs {s t : SwapStore F} {key : PageKey} (h : Preserved w s t key)
    (hs : Trusted w s) (ht : Trusted w t) (buffer buffer' : Page) :
    AnswersAs (s.readIn key buffer).1 (s.readIn key buffer).2.1
      (t.readIn key buffer').1 (t.readIn key buffer').2.1 where
  blank := by rw [readIn_eq_none_iff, readIn_eq_none_iff, h.slot]
  delivered {a b} ha hb := by
    obtain ⟨hslot, hpage⟩ := hs.page_of_readIn ha
    obtain ⟨hslot', hpage'⟩ := ht.page_of_readIn hb
    obtain rfl : b = a := Option.some.inj (hslot'.symm.trans (h.slot.trans hslot))
    exact ⟨rfl, by rw [hpage', h.page hslot, hpage]⟩

/-- **The swap store remembers what was written**, over a file that may fail at any time.  After
any uses of a store that was empty, a read of a page answers what the history of that page says;
and after any further uses that have to do with other pages only, it answers the same. -/
theorem remembers_after (w : FileView F) {f : F} (hf : w.good f) (uses : List SwapUse)
    {key : PageKey} {buffer page : Page} {r : Except ShortTransfer (Option SwapSlot)}
    {t : SwapStore F} (hr : (after { file := f } uses).readIn key buffer = (r, page, t)) :
    (after { file := f } uses).Remembers (events { file := f } uses) key buffer r page t ∧
      ∀ others : List SwapUse, (∀ u ∈ others, ¬ u.concerns key) →
        ∀ (buffer' page' : Page) (r' : Except ShortTransfer (Option SwapSlot)) (t' : SwapStore F),
          ((after { file := f } uses).after others).readIn key buffer' = (r', page', t') →
            AnswersAs r page r' page' := by
  obtain ⟨hs, htracks⟩ := tracks_after hf uses key
  refine ⟨?_, fun others hothers buffer' page' r' t' hr' => ?_⟩
  · have h := htracks.remembers hs buffer
    rwa [hr] at h
  · have h := (hs.preserved_after hothers).answersAs hs (hs.after others) buffer buffer'
    rwa [hr, hr'] at h

/-- A slot that changes hands twice: the first write to it fails, and then the process that has it
ends.  The last use comes first. -/
def slotPassedOn : List SwapUse :=
  [.write ⟨3, ⟨0⟩⟩ (.replicate pageSize 3), .release 2,
    .write ⟨1, ⟨5⟩⟩ (.replicate pageSize 1), .write ⟨2, ⟨0⟩⟩ (.replicate pageSize 2),
    .write ⟨1, ⟨5⟩⟩ (.replicate pageSize 9)]

set_option maxRecDepth 100000 in
/-- The page whose first write failed is read back as it was written later, when its first slot was
another's. -/
theorem remembers_after_recycling :
    ∃ (file : FaultyFile) (t : SwapStore FaultyFile),
      file = { plan := { badWrites := [0], claimed := 7 } } ∧ FaultyFile.view.good file ∧
      (after { file } slotPassedOn).readIn ⟨1, ⟨5⟩⟩ zeroPage =
        (.ok (some ⟨1⟩), .replicate pageSize 1, t) := by
  obtain ⟨file, hfile⟩ : ∃ file : FaultyFile, file = { plan := { badWrites := [0], claimed := 7 } } :=
    ⟨_, rfl⟩
  have hgood : FaultyFile.view.good file := hfile ▸ show (7 : Nat) ≠ 1024 by decide
  have hread : ((after { file } slotPassedOn).readIn ⟨1, ⟨5⟩⟩ zeroPage).1 = .ok (some ⟨1⟩) := by
    subst hfile
    cbv
  have hlast : SwapEvent.lastWritten ⟨1, ⟨5⟩⟩ (events { file } slotPassedOn) =
      some (.replicate pageSize 1) := by
    subst hfile
    cbv
  have hintact : SwapEvent.intact ⟨1, ⟨5⟩⟩ (events { file } slotPassedOn) = true := by
    subst hfile
    cbv
  rcases hx : (after { file } slotPassedOn).readIn ⟨1, ⟨5⟩⟩ zeroPage with ⟨r, page, t⟩
  obtain rfl : r = .ok (some ⟨1⟩) := by rwa [hx] at hread
  obtain ⟨a, n, -, -, hr, hpage⟩ :=
    (remembers_after FaultyFile.view hgood slotPassedOn hx).1.delivered hlast
  refine ⟨file, t, hfile, hgood, ?_⟩
  by_cases hn : n = pageSize
  · rw [hx, hpage hn hintact]
  · rw [if_neg hn] at hr
    cases hr

end SwapStore

end DemandPaging
