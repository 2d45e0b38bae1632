import DemandPaging.Proofs.SwapPartition
import DemandPaging.Volume

/-!
# Swap files in memory and on a host

A file of a host is read in as many portions as the host likes, and grows when it is written; one in
memory moves everything at once.  The swap store cannot tell which of them it is over.

* `HostNode.contents` — the file in memory with the same contents.
* `SwapStore.answers` — what the store says to each use, with the pages that it reads.
* `SwapStore.inMemory_after` — over a file of a host it goes on as over the file in memory.
* `SwapStore.all_written_of_room` — its writes are complete as long as the file may grow.
* `SwapStore.answers_interchangeable` — over a new file in memory and over a new one of a host it
  answers the same.
-/

namespace DemandPaging

/-! ## Single transfers -/

namespace HostNode

/-- A file, not a device. -/
def Regular (node : HostNode) : Prop := ∃ f, node = .file f

/-- A file in memory with the contents of a file of a host. -/
def contents : HostNode → MemoryFile
  | .file f => ⟨f.bytes⟩
  | .device _ => {}

/-- The length that a file of a host cannot outgrow, if there is one. -/
def limit : HostNode → Option Nat
  | .file f => f.limit
  | .device _ => none

/-- The file may be so long. -/
def Admits (node : HostNode) (length : Nat) : Prop := ∀ limit, node.limit = some limit → length ≤ limit

variable {node : HostNode} {offset : Nat} {page : Page}

/-- **A read** moves as many bytes as one of the file in memory does, and the same ones. -/
theorem readAt_contents (h : node.Regular) (offset : Nat) (buffer : Page) :
    BackingFile.readAt node.contents offset buffer =
      (BackingFile.readAt node offset buffer).map id (·.map id contents) := by
  obtain ⟨f, rfl⟩ := h
  rcases hfill : HostFile.fill offset pageSize f 0 buffer with ⟨moved, page, g⟩
  have hread : BackingFile.readAt (HostNode.file f) offset buffer = (moved, page, .file g) := by
    simp only [BackingFile.readAt, hfill]
  have hmoved : moved = min pageSize (f.bytes.size - offset) := by
    have h : (HostFile.fill offset pageSize f 0 buffer).1 = _ :=
      HostFile.moved_fill (Nat.sub_le pageSize 0)
    rwa [hfill, Nat.zero_add, Nat.sub_zero, Nat.add_zero] at h
  obtain ⟨hbytes, -, hpage⟩ := HostFile.fill_spec hfill
  have hsplice : splice buffer 0 (f.bytes.slice offset pageSize) = page := by
    refine Vector.ext fun i hi => ?_
    have hslice := f.bytes.getElem?_slice offset pageSize i
    rw [getElem_splice, hpage i hi]
    by_cases hin : i < moved
    · have hbyte : (f.bytes.slice offset pageSize)[i]? = some (f.bytes.byte (offset + i)) := by
        rw [hslice, if_pos (by omega)]
      obtain ⟨hsize, hget⟩ := Array.getElem?_eq_some_iff.1 hbyte
      rw [dif_pos ⟨Nat.zero_le i, hsize⟩, if_pos ⟨Nat.zero_le i, hin⟩]
      exact hget
    · rw [if_neg (by omega), Array.getElem?_eq_none_iff] at hslice
      rw [dif_neg (by omega), if_neg (by omega)]
  rw [hread]
  show (_, _, _) = (_, _, _)
  rw [show (contents (.file g)) = ⟨f.bytes⟩ by rw [← hbytes]; rfl]
  show (min pageSize (f.bytes.size - offset),
    splice buffer 0 (f.bytes.slice offset pageSize), _) = _
  rw [hmoved, hsplice]
  rfl

/-- **A write that is complete** leaves the contents that it leaves in memory. -/
theorem writeAt_contents (h : node.Regular)
    (hmoved : (BackingFile.writeAt node offset page.toArray).1 = pageSize) :
    BackingFile.writeAt node.contents offset page.toArray =
      (BackingFile.writeAt node offset page.toArray).map id contents := by
  obtain ⟨f, rfl⟩ := h
  have hwrite : BackingFile.writeAt (HostNode.file f) offset page.toArray =
      (BackingFile.writeAt f offset page.toArray).map id .file := rfl
  rw [hwrite] at hmoved ⊢
  by_cases hroom : ∀ limit, f.limit = some limit → offset + pageSize ≤ limit
  · rw [HostFile.writeAt_room hroom]
    exact Prod.ext (Vector.size_toArray page) rfl
  · obtain ⟨limit, hnot⟩ := not_forall.1 hroom
    obtain ⟨hlimit, hover⟩ := Classical.not_imp.1 hnot
    rw [HostFile.writeAt_over hlimit hover] at hmoved
    cases hmoved

/-- A transfer leaves a file a file, which can grow as far as before. -/
theorem regular_writeAt (h : node.Regular) (offset : Nat) (page : Page) :
    (BackingFile.writeAt node offset page.toArray).2.Regular ∧
      (BackingFile.writeAt node offset page.toArray).2.limit = node.limit := by
  obtain ⟨f, rfl⟩ := h
  refine ⟨⟨_, rfl⟩, ?_⟩
  show (BackingFile.writeAt f offset page.toArray).2.limit = f.limit
  by_cases hroom : ∀ limit, f.limit = some limit → offset + pageSize ≤ limit
  · rw [HostFile.writeAt_room hroom]
  · obtain ⟨limit, hnot⟩ := not_forall.1 hroom
    obtain ⟨hlimit, hover⟩ := Classical.not_imp.1 hnot
    rw [HostFile.writeAt_over hlimit hover]
    unfold HostFile.put
    split <;> rfl

theorem regular_readAt (h : node.Regular) (offset : Nat) (buffer : Page) :
    (BackingFile.readAt node offset buffer).2.2.Regular ∧
      (BackingFile.readAt node offset buffer).2.2.limit = node.limit := by
  obtain ⟨f, rfl⟩ := h
  exact ⟨⟨_, rfl⟩, HostFile.limit_fill offset pageSize f 0 buffer⟩

/-- A write is complete if the file may grow so far. -/
theorem moved_writeAt (h : node.Regular) (hroom : node.Admits (offset + pageSize)) :
    (BackingFile.writeAt node offset page.toArray).1 = pageSize := by
  obtain ⟨f, rfl⟩ := h
  have hwrite : BackingFile.writeAt (HostNode.file f) offset page.toArray =
      (BackingFile.writeAt f offset page.toArray).map id .file := rfl
  rw [hwrite, HostFile.writeAt_room hroom]
  rfl

end HostNode

/-! ## Uses of the store -/

/-- What the store says to a use. -/
inductive SwapAnswer
  | wrote (r : Except ShortTransfer SwapSlot)
  | read (r : Except ShortTransfer (Option SwapSlot)) (page : Page)
  | released (count : Nat)

namespace SwapStore

section

variable {F : Type} [BackingFile F]

/-- The answer to one use. -/
def answer (s : SwapStore F) : SwapUse → SwapAnswer
  | .write key page => .wrote (s.writeOut key page).1
  | .read key buffer => .read (s.readIn key buffer).1 (s.readIn key buffer).2.1
  | .release pid => .released (s.releaseAll pid).1

/-- The answers to some uses, the last one first. -/
def answers (s : SwapStore F) : List SwapUse → List SwapAnswer
  | [] => []
  | u :: earlier => (s.after earlier).answer u :: s.answers earlier

/-- Were all pages written that should have been? -/
def AllWritten (s : SwapStore F) (uses : List SwapUse) : Prop :=
  ∀ r, .wrote r ∈ s.answers uses → r.isOk = true

/-- One use makes the file one slot longer at most. -/
theorem capacity_use_le (s : SwapStore F) (u : SwapUse) :
    s.capacity ≤ (s.use u).2.capacity ∧ (s.use u).2.capacity ≤ s.capacity + 1 := by
  cases u with
  | write key page =>
    have htaken := taken_of_writeOut (Prod.eta (s.writeOut key page)).symm
    show s.capacity ≤ (s.writeOut key page).2.capacity ∧ (s.writeOut key page).2.capacity ≤ _
    cases htaken <;> omega
  | read key buffer =>
    have hcapacity : (s.use (.read key buffer)).2.capacity = s.capacity :=
      (s.readIn_keeps key buffer).2.2
    omega
  | release pid =>
    have hcapacity : (s.use (.release pid)).2.capacity = s.capacity := by
      show ((PageMap.keysOf s.slots pid).foldl release s).capacity = _
      induction PageMap.keysOf s.slots pid generalizing s with
      | nil => rfl
      | cons key keys ih => rw [List.foldl_cons, ih, (s.release_rest key).2.1]
    omega

theorem capacity_after_le (s : SwapStore F) (uses : List SwapUse) :
    (s.after uses).capacity ≤ s.capacity + uses.length := by
  induction uses with
  | nil => exact Nat.le_refl _
  | cons u earlier ih =>
    have hstep := ((s.after earlier).capacity_use_le u).2
    show ((s.after earlier).use u).2.capacity ≤ _
    rw [List.length_cons]
    omega

variable {s : SwapStore F} {key : PageKey} {page : Page}

/-- A page is written if the transfer to its slot is complete. -/
theorem isOk_writeOut : (s.writeOut key page).1.isOk = true ↔
    (BackingFile.writeAt s.file (destination (s.writeOut key page).1).offset page.toArray).1 =
      pageSize := by
  rw [destination_writeOut]
  unfold writeOut
  cases s.slots[key]? with
  | some a =>
    obtain ⟨n, f, hf, ⟨hn, ht⟩ | ⟨hn, ht⟩⟩ := s.transferOut_spec a page
    · simp only [ht, Option.getD_some, hf, hn]
      simp [Except.isOk, Except.toBool]
    · simp only [ht, Option.getD_some, hf, hn]
      simp [Except.isOk, Except.toBool]
  | none =>
    have hfile : s.allocate.2.file = s.file := by
      unfold allocate
      split <;> rfl
    obtain ⟨n, f, hf, ⟨hn, ht⟩ | ⟨hn, ht⟩⟩ := s.allocate.2.transferOut_spec s.allocate.1 page
    · simp only [ht, Option.getD_none, hfile ▸ hf, hn]
      simp [Except.isOk, Except.toBool]
    · simp only [ht, Option.getD_none, hfile ▸ hf, hn]
      simp [Except.isOk, Except.toBool]

/-- What transfers of pages keep of a file, all uses of the store keep of it. -/
theorem file_use {P : F → Prop}
    (hwrite : ∀ f offset (page : Page), P f → P (BackingFile.writeAt f offset page.toArray).2)
    (hread : ∀ f offset (buffer : Page), P f → P (BackingFile.readAt f offset buffer).2.2)
    (hs : P s.file) (u : SwapUse) : P (s.use u).2.file := by
  have htransfer {t : SwapStore F} (ht : P t.file) (a : SwapSlot) (page : Page) :
      P (t.transferOut a page).2.file := by
    have hfile := hwrite t.file a.offset page ht
    obtain ⟨n, f, hf, ⟨-, htransfer⟩ | ⟨-, htransfer⟩⟩ := t.transferOut_spec a page <;>
      rw [hf] at hfile <;> rwa [htransfer]
  cases u with
  | write key page =>
    show P (s.writeOut key page).2.file
    unfold writeOut
    split
    · rename_i a _
      have h := htransfer hs a page
      split <;> rename_i ht <;> rwa [ht] at h
    · have hfile : s.allocate.2.file = s.file := by
        unfold allocate
        split <;> rfl
      have h := htransfer (t := s.allocate.2) (hfile ▸ hs) s.allocate.1 page
      dsimp only
      split <;> rename_i ht <;> rwa [ht] at h
  | read key buffer =>
    show P (s.readIn key buffer).2.2.file
    unfold readIn
    split
    · exact hs
    · dsimp only
      split <;> exact hread _ _ _ hs
  | release pid =>
    show P ((PageMap.keysOf s.slots pid).foldl release s).file
    induction PageMap.keysOf s.slots pid generalizing s with
    | nil => exact hs
    | cons key keys ih => exact ih ((s.release_rest key).1 ▸ hs)

end

/-! ## Over both files -/

/-- The store over the file in memory with the same contents. -/
abbrev inMemory (s : SwapStore HostNode) : SwapStore MemoryFile := s.mapFile HostNode.contents

variable {s : SwapStore HostNode} {key : PageKey} {page : Page} {uses : List SwapUse}

theorem regular_use (hs : s.file.Regular) (u : SwapUse) :
    (s.use u).2.file.Regular ∧ (s.use u).2.file.limit = s.file.limit := by
  refine file_use (P := fun f : HostNode => f.Regular ∧ f.limit = s.file.limit)
    (fun f offset page hf => ?_) (fun f offset buffer hf => ?_) ⟨hs, rfl⟩ u
  · exact (HostNode.regular_writeAt hf.1 offset page).imp_right (·.trans hf.2)
  · exact (HostNode.regular_readAt hf.1 offset buffer).imp_right (·.trans hf.2)

/-- **One use** of the store over a file of a host has the answer and the outcome that it has over
the file in memory, if it is not a write that is cut short. -/
theorem inMemory_use (hs : s.file.Regular) {u : SwapUse}
    (hwritten : ∀ r, s.answer u = .wrote r → r.isOk = true) :
    s.inMemory.answer u = s.answer u ∧ (s.inMemory.use u).2 = (s.use u).2.inMemory := by
  cases u with
  | write key page =>
    have hmoved := isOk_writeOut.1 (hwritten _ rfl)
    have h : s.inMemory.writeOut key page = (s.writeOut key page).map id inMemory :=
      mapFile_writeOut fun a ha => HostNode.writeAt_contents hs (ha ▸ hmoved)
    exact ⟨congrArg SwapAnswer.wrote (congrArg Prod.fst h), congrArg Prod.snd h⟩
  | read key buffer =>
    have h : s.inMemory.readIn key buffer = (s.readIn key buffer).map id (·.map id inMemory) :=
      mapFile_readIn fun a _ => HostNode.readAt_contents hs a.offset buffer
    exact ⟨congrArg₂ SwapAnswer.read (congrArg Prod.fst h) (congrArg (·.2.1) h),
      congrArg (·.2.2) h⟩
  | release pid =>
    have h := mapFile_releaseAll (g := HostNode.contents) s pid
    exact ⟨congrArg SwapAnswer.released (congrArg Prod.fst h), congrArg Prod.snd h⟩

/-- **Any uses** of it have. -/
theorem inMemory_after (hs : s.file.Regular) (hwritten : s.AllWritten uses) :
    s.inMemory.answers uses = s.answers uses ∧ s.inMemory.after uses = (s.after uses).inMemory ∧
      (s.after uses).file.Regular := by
  induction uses with
  | nil => exact ⟨rfl, rfl, hs⟩
  | cons u earlier ih =>
    obtain ⟨hanswers, hafter, hregular⟩ := ih fun r hr => hwritten r (List.mem_cons_of_mem _ hr)
    obtain ⟨hanswer, huse⟩ := inMemory_use hregular (u := u) fun r hr =>
      hwritten r (hr ▸ List.mem_cons_self)
    refine ⟨?_, ?_, (regular_use hregular u).1⟩
    · rw [answers, answers, hafter, hanswer, hanswers]
    · rw [after, after, hafter, huse]

theorem regular_after (hs : s.file.Regular) (uses : List SwapUse) :
    (s.after uses).file.Regular ∧ (s.after uses).file.limit = s.file.limit := by
  induction uses with
  | nil => exact ⟨hs, rfl⟩
  | cons u earlier ih => exact (regular_use ih.1 u).imp_right (·.trans ih.2)

/-- **All pages are written as long as the file may grow**: it does not have to be longer than the
host lets it be. -/
theorem all_written_of_room (hs : s.file.Regular) (hsound : s.Partitioned)
    (hroom : s.file.Admits ((s.after uses).capacity * pageSize)) : s.AllWritten uses := by
  induction uses with
  | nil =>
    intro r hr
    cases hr
  | cons u earlier ih =>
    have hle := ((s.after earlier).capacity_use_le u).1
    have hearlier := ih fun limit hlimit => (Nat.mul_le_mul_right _ hle).trans (hroom limit hlimit)
    intro r hr
    rcases List.mem_cons.1 hr with hr | hr
    · cases u with
      | write key page =>
        obtain rfl := SwapAnswer.wrote.inj hr
        have htaken := taken_of_writeOut (Prod.eta ((s.after earlier).writeOut key page)).symm
        have hbelow := htaken.below (hsound.after earlier).toSound
        obtain ⟨hregular, hsame⟩ := regular_after hs earlier
        refine isOk_writeOut.2 (HostNode.moved_writeAt hregular fun limit hlimit => ?_)
        calc SwapSlot.offset _ + pageSize
            = ((destination ((s.after earlier).writeOut key page).1).index + 1) * pageSize :=
              (Nat.succ_mul _ _).symm
          _ ≤ (s.after (.write key page :: earlier)).capacity * pageSize :=
              Nat.mul_le_mul_right _ hbelow
          _ ≤ limit := hroom limit (hsame ▸ hlimit)
      | read key buffer => cases hr
      | release pid => cases hr
    · exact hearlier r hr

end SwapStore

/-! ## New files -/

/-- A search for a slash that finds none to the end takes the whole text. -/
theorem Place.splitOnAux_slash {before after : List Char} (h : '/' ∉ after) :
    String.splitOnAux (.ofList (before ++ after)) "/" 0 ⟨String.utf8Len before⟩ 0 [] =
      [.ofList (before ++ after)] := by
  have hslash : String.Pos.Raw.get "/" 0 = '/' := by decide
  induction after generalizing before with
  | nil =>
    have hwhole := String.extract_zero_rawEndPos (.ofList before)
    rw [String.rawEndPos_ofList] at hwhole
    rw [String.splitOnAux, if_pos ((String.atEnd_of_valid before []).2 rfl), List.append_nil,
      hwhole]
    rfl
  | cons c after ih =>
    have hhere : String.Pos.Raw.get (.ofList (before ++ c :: after)) ⟨String.utf8Len before⟩ = c :=
      String.get_of_valid before (c :: after)
    have hnext : String.Pos.Raw.next (.ofList (before ++ c :: after))
        (String.Pos.Raw.unoffsetBy ⟨String.utf8Len before⟩ 0) =
          ⟨String.utf8Len (before ++ [c])⟩ := by
      rw [String.utf8Len_append, String.utf8Len_cons, String.utf8Len_nil, Nat.zero_add]
      exact String.next_of_valid before c after
    have hc : ¬ (c == '/') = true := fun heq => h (beq_iff_eq.1 heq ▸ List.mem_cons_self)
    rw [String.splitOnAux,
      if_neg fun hend => List.cons_ne_nil _ _ ((String.atEnd_of_valid _ _).1 hend), hhere, hslash,
      if_neg hc, hnext, List.append_cons, ih fun hmem => h (List.mem_cons_of_mem _ hmem)]

/-- A name without a slash is a path of one step. -/
theorem Place.splitOn_slash {name : String} (h : '/' ∉ name.toList) :
    name.splitOn "/" = [name] := by
  have haux : String.splitOnAux (.ofList ([] ++ name.toList)) "/" 0 0 0 [] =
      [.ofList ([] ++ name.toList)] := splitOnAux_slash h
  rw [List.nil_append, String.ofList_toList] at haux
  rw [String.splitOn, if_neg (by decide)]
  exact haux

/-- A file was just created in a volume under a name that is not a device's. -/
structure Volume.Created {F : Type} (v : Volume F) (name : String) (f : F) : Prop where
  path : ∃ path, v.place name = .file path
  opened : ∃ id w, v.openFile name true = (some id, w) ∧ w.files[id]? = some f

theorem Volume.getElem?_addNamed {F : Type} (v : Volume F) (path : String) :
    (v.addNamed path).2.files[(v.addNamed path).1]? = some v.blank :=
  Array.getElem?_push_size

/-- There is a new file if there was none of that name. -/
theorem Volume.created_blank {F : Type} {v : Volume F} {name path : String}
    (hpath : v.place name = .file path) (hnone : v.names.lookup path = none) :
    v.Created name v.blank := by
  refine ⟨⟨path, hpath⟩, (v.addNamed path).1, (v.addNamed path).2, ?_, v.getElem?_addNamed path⟩
  unfold openFile
  rw [hpath]
  dsimp only
  rw [hnone]
  cases v.kind <;> rfl

/-- A new file is empty, whether or not there was one of that name. -/
theorem Volume.Created.eq_blank {F : Type} {v : Volume F} {name : String} {f : F}
    (h : v.Created name f) : f = v.blank := by
  obtain ⟨path, hpath⟩ := h.path
  obtain ⟨id, w, hopen, hf⟩ := h.opened
  unfold openFile at hopen
  rw [hpath] at hopen
  dsimp only at hopen
  split at hopen
  · rename_i hfalse
    cases hfalse
  · obtain ⟨hid, rfl⟩ := Prod.mk.inj hopen
    obtain rfl := Option.some.inj hid
    rw [Array.getElem?_setIfInBounds_self] at hf
    split at hf
    · exact (Option.some.inj hf).symm
    · cases hf
  · obtain ⟨hid, rfl⟩ := Prod.mk.inj hopen
    obtain rfl := Option.some.inj hid
    exact (Option.some.inj ((v.getElem?_addNamed _).symm.trans hf)).symm

namespace SwapStore

/-- Two stores have the same slots and counters, over files of any two kinds. -/
structure Alike {F G : Type} (s : SwapStore F) (t : SwapStore G) : Prop where
  slots : s.slots = t.slots
  free : s.free = t.free
  capacity : s.capacity = t.capacity
  writes : s.writes = t.writes
  reads : s.reads = t.reads

/-- **The swap store cannot tell a file of a host from one in memory.**  Over files that were just
created it answers the same to any uses, with the same pages read, and has the same slots and
counters afterwards, however few bytes the host delivers at a time, as long as the host writes what
it is asked to. -/
theorem answers_interchangeable {v : Volume MemoryFile} {w : Volume HostNode}
    {name name' : String} {f : MemoryFile} {node : HostNode} {portion : Nat → Nat}
    {limit : Option Nat} (hv : v.blank = {}) (hf : v.Created name f)
    (hw : w.blank = .file { portion, limit }) (hnode : w.Created name' node)
    {uses : List SwapUse} (hwritten : AllWritten { file := node } uses) :
    answers { file := f } uses = answers { file := node } uses ∧
      Alike (after { file := f } uses) (after { file := node } uses) := by
  obtain rfl : f = {} := hf.eq_blank.trans hv
  obtain rfl : node = .file { portion, limit } := hnode.eq_blank.trans hw
  obtain ⟨hanswers, hafter, -⟩ := inMemory_after ⟨_, rfl⟩ hwritten
  refine ⟨hanswers, ?_⟩
  have hsame : after { file := {} } uses = inMemory (after { file := .file { portion, limit } } uses) :=
    hafter
  rw [hsame]
  exact ⟨rfl, rfl, rfl, rfl, rfl⟩

/-- A directory of a host that delivers a few bytes at a time, and never as many twice. -/
def haltingHost : Volume HostNode :=
  { Volume.onHost 20 with
    blank := .file { portion := fun request => request % 700, limit := some HostFile.longest } }

/-- A slot that is taken back and used for another page, and pages read before and after.  The last
use comes first. -/
def slotReused : List SwapUse :=
  [.read ⟨1, ⟨7⟩⟩ zeroPage, .read ⟨3, ⟨0⟩⟩ zeroPage, .write ⟨3, ⟨0⟩⟩ (.replicate pageSize 3),
    .release 2, .write ⟨1, ⟨7⟩⟩ (.replicate pageSize 1), .read ⟨2, ⟨0⟩⟩ zeroPage,
    .write ⟨2, ⟨0⟩⟩ (.replicate pageSize 2), .read ⟨1, ⟨7⟩⟩ zeroPage]

theorem answers_interchangeable_in_portions :
    ∃ (f : MemoryFile) (node : HostNode), Volume.inMemory.Created ".swap" f ∧
      haltingHost.Created ".swap" node ∧ AllWritten { file := node } slotReused ∧
        answers { file := f } slotReused = answers { file := node } slotReused := by
  have hf : Volume.inMemory.Created ".swap" Volume.inMemory.blank := Volume.created_blank rfl rfl
  have hplace : haltingHost.place ".swap" = .file ".swap" := by
    show Place.inDirectory 20 ".swap" = _
    rw [Place.inDirectory, Place.follow, Place.splitOn_slash (by decide)]
    cbv
  have hnode := Volume.created_blank hplace rfl
  have hroom := capacity_after_le { file := haltingHost.blank } slotReused
  have hwritten : AllWritten { file := haltingHost.blank } slotReused :=
    all_written_of_room ⟨_, rfl⟩ (partitioned_blank _) fun limit hlimit => by
      obtain rfl : HostFile.longest = limit := Option.some.inj hlimit
      exact (Nat.mul_le_mul_right _ hroom).trans (by decide)
  exact ⟨_, _, hf, hnode, hwritten, (answers_interchangeable rfl hf rfl hnode hwritten).1⟩

end SwapStore

end DemandPaging
