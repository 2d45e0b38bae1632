import DemandPaging.Proofs.Copies

/-!
# Texts of a process

The kernel finds a text of a process exactly if its zero byte lies in the address space and not too
far off.  It does not take a byte for the end of a text that it has not read, nor miss one that it
has.

* `Kernel.textBeforeZero_eq_some` — which text is found in a string.
* `Paging.TextAt` — a text stands at an address of a process.
* `Machine.Reads.text_eq_some` — it is found if the string that was read goes far enough.
* `Machine.readsText_of_orderly` — reading finds the text that stands there, and no other.
* `Machine.longest_limit_refused` — except that there is no buffer for the longest limits.
-/

namespace DemandPaging

open Paging Kernel

variable {F : Type}

/-! ## Texts in strings -/

namespace Kernel

theorem decodeText_eq_some {bytes : Bytes} {text : String} :
    decodeText bytes = some text ↔ text.toUTF8.data = bytes := by
  unfold decodeText String.fromUTF8?
  constructor
  · intro h
    split at h
    · obtain rfl := Option.some.inj h
      rfl
    · cases h
  · rintro rfl
    exact dif_pos text.isValidUTF8

/-- **The text in a string** is what its bytes before the first zero byte encode. -/
theorem textBeforeZero_eq_some {bytes : Bytes} {text : String} :
    textBeforeZero bytes = some text ↔
      ∃ k, bytes[k]? = some 0 ∧ (∀ l < k, bytes[l]? ≠ some 0) ∧
        text.toUTF8.data = Bytes.slice bytes 0 k := by
  unfold textBeforeZero
  rw [Option.bind_eq_some_iff]
  refine exists_congr fun k => ?_
  rw [decodeText_eq_some, ← and_assoc, and_congr_left_iff]
  intro _
  rw [Array.findIdx?_eq_some_iff_getElem]
  constructor
  · rintro ⟨hk, hzero, hbefore⟩
    refine ⟨by rw [Array.getElem?_eq_getElem hk, eq_of_beq hzero], fun l hl hl0 => ?_⟩
    rw [Array.getElem?_eq_getElem (Nat.lt_trans hl hk)] at hl0
    exact hbefore l hl (beq_iff_eq.2 (Option.some.inj hl0))
  · rintro ⟨hzero, hbefore⟩
    obtain ⟨hk, hbyte⟩ := Array.getElem?_eq_some_iff.1 hzero
    refine ⟨hk, beq_iff_eq.2 hbyte, fun l hl hl0 => hbefore l hl ?_⟩
    rw [Array.getElem?_eq_getElem (Nat.lt_trans hl hk), eq_of_beq hl0]

end Kernel

/-! ## Texts in address spaces -/

variable [BackingFile F]

/-- A text of at most `limit` bytes stands at an address of a process: a zero byte ends it that lies
in the address space, there is none before, and its bytes are those up to there. -/
def Paging.TextAt (w : FileView F) (s : Paging F) (space : AddressSpace) (a : VirtAddr) (limit : Nat)
    (text : String) : Prop :=
  ∃ k ≤ limit, (a.advance k).val < space.pageCount * pageSize ∧
    s.byteAt w space (a.advance k) = 0 ∧ (∀ l < k, s.byteAt w space (a.advance l) ≠ 0) ∧
      text.toUTF8.data.toList = (List.range k).map fun l => s.byteAt w space (a.advance l)

namespace Paging

variable {s : Paging F} {w : FileView F} {space : AddressSpace} {a : VirtAddr} {limit : Nat}
  {text : String}

/-- A text stands where its bytes do, if there is a zero byte after them and none among them. -/
theorem textAt_of_bytes (hlimit : text.utf8ByteSize ≤ limit)
    (hinside : (a.advance text.utf8ByteSize).val < space.pageCount * pageSize)
    (hbytes : ∀ k ≤ text.utf8ByteSize,
      (text.toUTF8.data.toList ++ [0])[k]? = some (s.byteAt w space (a.advance k)))
    (hclean : 0 ∉ text.toUTF8.data.toList) : s.TextAt w space a limit text := by
  have hlength : text.toUTF8.data.toList.length = text.utf8ByteSize := Array.length_toList
  have hbefore : ∀ k < text.utf8ByteSize,
      text.toUTF8.data.toList[k]? = some (s.byteAt w space (a.advance k)) := by
    intro k hk
    rw [← hbytes k (Nat.le_of_lt hk), List.getElem?_append_left (hlength ▸ hk)]
  refine ⟨text.utf8ByteSize, hlimit, hinside, ?_, fun k hk hzero => hclean ?_, ?_⟩
  · have hlast := hbytes text.utf8ByteSize (Nat.le_refl _)
    rw [← hlength, List.getElem?_concat_length, hlength] at hlast
    exact (Option.some.inj hlast).symm
  · rw [← hzero]
    exact List.mem_of_getElem? (hbefore k hk)
  · apply List.ext_getElem?
    intro k
    by_cases hk : k < text.utf8ByteSize
    · rw [hbefore k hk, List.getElem?_map, List.getElem?_range hk]
      rfl
    · rw [List.getElem?_eq_none (by omega),
        List.getElem?_eq_none (by rw [List.length_map, List.length_range]; omega)]

end Paging

namespace Machine

variable {m m' : Machine F} {a : Account} {file : F} {w : FileView F} {cpu : CpuNumber}
  {c : Processor} {i : ProcessNumber} {p : Process} {address : VirtAddr} {count limit : Nat}
  {bytes : Bytes} {text : String}

/-- A text is looked for in what is read. -/
theorem perform_readText (hc : m.cpu? cpu = some c) (hp : m.process? i = some p)
    (hlimit : limit + 1 < signedLimit) :
    m.perform cpu (.readText i address limit) =
      ((m.perform cpu (.read i address (limit + 1))).1.map (·.map textBeforeZero),
        (m.perform cpu (.read i address (limit + 1))).2) := by
  rw [perform_read hc hp, perform, within_eq hc hp]
  unfold readText
  rw [if_neg (Nat.not_le_of_lt hlimit)]
  dsimp only
  rw [setContext_same hc hp]
  cases (m.kernel.readMemory c.tlb p address (limit + 1)).1 with
  | error why => rfl
  | ok bytes => rfl

namespace Reads

theorem getElem?_eq (h : Reads w m m' p address count bytes) (k : Nat) :
    bytes[k]? =
      if k < bytes.size then some (m.kernel.byteAt w p.space (address.advance k)) else none := by
  split
  · rename_i hk
    rw [Array.getElem?_eq_getElem hk, h.contents k hk]
  · rename_i hk
    exact Array.getElem?_eq_none (Nat.le_of_not_lt hk)

/-- What was read before some place are the bytes up to there. -/
theorem slice_eq (h : Reads w m m' p address count bytes) {k : Nat} (hk : k ≤ bytes.size) :
    (Bytes.slice bytes 0 k).toList =
      (List.range k).map fun l => m.kernel.byteAt w p.space (address.advance l) := by
  apply List.ext_getElem?
  intro l
  rw [Array.getElem?_toList, Bytes.slice_eq_extract, Array.getElem?_extract, List.getElem?_map]
  by_cases hl : l < k
  · rw [if_pos (by omega), List.getElem?_range hl, Nat.zero_add, h.getElem?_eq, if_pos (by omega)]
    rfl
  · rw [if_neg (by omega), List.getElem?_eq_none (by rw [List.length_range]; omega)]
    rfl

/-- **A text is found in what was read** exactly if the string goes as far as its zero byte. -/
theorem text_eq_some (h : Reads w m m' p address count bytes) :
    textBeforeZero bytes = some text ↔
      ∃ k < bytes.size, m.kernel.byteAt w p.space (address.advance k) = 0 ∧
        (∀ l < k, m.kernel.byteAt w p.space (address.advance l) ≠ 0) ∧
        text.toUTF8.data.toList =
          (List.range k).map fun l => m.kernel.byteAt w p.space (address.advance l) := by
  rw [textBeforeZero_eq_some]
  refine exists_congr fun k => ?_
  by_cases hk : k < bytes.size
  · have hbefore : (∀ l < k, bytes[l]? ≠ some 0) ↔
        ∀ l < k, m.kernel.byteAt w p.space (address.advance l) ≠ 0 := by
      refine forall₂_congr fun l hl => ?_
      rw [h.getElem?_eq, if_pos (Nat.lt_trans hl hk), Ne, Option.some.injEq]
    rw [h.getElem?_eq, if_pos hk, Option.some.injEq, hbefore, ← h.slice_eq (Nat.le_of_lt hk),
      Array.toList_inj]
    simp [hk]
  · rw [h.getElem?_eq, if_neg hk]
    simp [hk]

/-- If all pages can be had, it is found exactly if it stands there. -/
theorem text_iff (h : Reads w m m' p address (limit + 1) bytes)
    (hall : ∀ k ≤ limit, p.space.contains (address.advance k).page = true →
      m.kernel.Obtainable (p.space.key (address.advance k).page)) :
    textBeforeZero bytes = some text ↔ m.kernel.TextAt w p.space address limit text := by
  have hsize := h.whole fun k hk => hall k (Nat.le_of_lt_succ hk)
  rw [h.text_eq_some, TextAt]
  refine exists_congr fun k => ?_
  have hplace : k < bytes.size ↔
      k ≤ limit ∧ (address.advance k).val < p.space.pageCount * pageSize := by
    simp only [VirtAddr.advance]
    omega
  rw [hplace, and_assoc]

/-- A read gets past all pages that are granted. -/
theorem lt_size (h : Reads w m m' p address count bytes) {k : Nat} (hk : k < count)
    (hgranted : ∀ l ≤ k, m.kernel.obstacle p.space false (address.advance l).page = none) :
    k < bytes.size := by
  by_contra hnot
  obtain ⟨cause, hstops⟩ := h.stops
  obtain ⟨hne, hrefused⟩ := hstops.refused_of_lt (by omega)
  exact hne (hrefused.symm.trans (hgranted bytes.size (Nat.le_of_not_lt hnot)))

/-- A text that stands there is found if its own pages can be had. -/
theorem text_of_textAt (h : Reads w m m' p address (limit + 1) bytes)
    (hat : m.kernel.TextAt w p.space address limit text)
    (hgranted : ∀ l ≤ text.utf8ByteSize,
      m.kernel.obstacle p.space false (address.advance l).page = none) :
    textBeforeZero bytes = some text := by
  obtain ⟨k, hk, -, hzero, hbefore, htext⟩ := hat
  obtain rfl : text.utf8ByteSize = k := by
    have hlength := congrArg List.length htext
    rwa [List.length_map, List.length_range] at hlength
  exact h.text_eq_some.2 ⟨_, h.lt_size (Nat.lt_succ_of_le hk) hgranted, hzero, hbefore, htext⟩

end Reads

/-- **A text is found exactly if it stands there.**  Its zero byte may be the last byte of the address
space, and it may be as long as the limit, but not longer.  Nothing else is found, unless a transfer
of the swap file comes up short. -/
theorem readsText_of_orderly (hgood : w.good file) (h : Orderly file m a)
    (hc : m.cpu? cpu = some c) (hp : m.process? i = some p) (hlive : p.exitCode = none)
    (hlimit : limit + 1 < signedLimit)
    (hall : ∀ k ≤ limit, p.space.contains (address.advance k).page = true →
      m.kernel.Obtainable (p.space.key (address.advance k).page))
    {r : Except Halt (Option (Option String))}
    (hstep : m.perform cpu (.readText i address limit) = (r, m')) :
    (m'.kernel.shortfalls = m.kernel.shortfalls → ∃ found, r = .ok (some found) ∧
        ∀ text, found = some text ↔ m.kernel.TextAt w p.space address limit text) ∧
      ∀ v : ReliableView F, v.Keeps m.kernel.swap → m'.kernel.shortfalls = m.kernel.shortfalls := by
  rw [perform_readText hc hp hlimit] at hstep
  cases hread : m.perform cpu (.read i address (limit + 1)) with
  | mk x n =>
      rw [hread] at hstep
      obtain ⟨rfl, rfl⟩ := Prod.mk.inj hstep
      have hserved := read_served hgood h hc hp hlive hread
      refine ⟨fun hnone => ?_, fun v hv => Shorts.none_noted hserved hv⟩
      obtain ⟨bytes, rfl, hreads⟩ := Shorts.served hserved hnone
      exact ⟨_, rfl, fun text => hreads.text_iff hall⟩

set_option maxRecDepth 100000 in
/-- The zero byte of a text is the last byte of the address space.  The text is found if the limit is
its length, and nothing is found if the limit is less. -/
theorem readsText_at_the_end :
    ∃ (m : Machine MemoryFile) (p : Process), p.space.pageCount * pageSize = 9216 ∧
      m.kernel.TextAt MemoryFile.view p.space ⟨9213⟩ 2 "ab" ∧
      (m.perform 0 (.readText 0 ⟨9213⟩ 2)).1 = .ok (some (some "ab")) ∧
      (m.perform 0 (.readText 0 ⟨9213⟩ 1)).1 = .ok (some none) := by
  have hboot : Kernel.boot (.withFrames 1 1) [] (some ({} : MemoryFile)) = (.ok _, _) := rfl
  obtain ⟨m, -, ⟨a, h, -⟩, hall⟩ := ((Orderly.boot hboot).addCpu 1).withLast.serve
    [⟨0, _, .load (.assembled { entry := 0 }) [] .demand⟩,
      ⟨0, _, .write 0 ⟨9213⟩ #[97, 98, 0]⟩]
    (fun m => (m.cpu? 0).isSome ∧ m.isLive 0 = true ∧
      (m.process? 0).all (fun p => p.space.pageCount * pageSize = 9216 ∧
        m.kernel.byteAt MemoryFile.view p.space ⟨9213⟩ = 97 ∧
        m.kernel.byteAt MemoryFile.view p.space ⟨9214⟩ = 98 ∧
        m.kernel.byteAt MemoryFile.view p.space ⟨9215⟩ = 0) = true ∧
      0 < m.kernel.core.frames.size ∧
      (m.kernel.core.frames.owner ⟨0⟩).all (fun o => !o.pinned) = true ∧
      (m.perform 0 (.read 0 ⟨9213⟩ 3)).2.kernel.shortfalls = m.kernel.shortfalls ∧
      (m.perform 0 (.read 0 ⟨9213⟩ 2)).2.kernel.shortfalls = m.kernel.shortfalls)
    (by decide_cbv)
  obtain ⟨hcpu, hlive, hbytes, hframe, howner, hlong, hshort⟩ := of_decide_eq_true hall
  obtain ⟨c, hc⟩ := Option.isSome_iff_exists.1 hcpu
  obtain ⟨p, hp, hexit⟩ := isLive_iff.1 hlive
  rw [hp, Option.all_some, decide_eq_true_eq] at hbytes
  obtain ⟨hend, hfirst, hsecond, hzero⟩ := hbytes
  have hread := fun limit hlimit => readsText_of_orderly (w := MemoryFile.view) trivial h hc hp
    hexit hlimit (fun _ _ _ => Or.inr (not_allPinned hframe howner))
    (Prod.eta (m.perform 0 (.readText 0 ⟨9213⟩ limit))).symm
  have hat : m.kernel.TextAt MemoryFile.view p.space ⟨9213⟩ 2 "ab" := by
    refine textAt_of_bytes (by decide) (by rw [hend]; decide) (fun k hk => ?_) (by decide)
    replace hk : k ≤ 2 := hk
    obtain rfl | rfl | rfl : k = 0 ∨ k = 1 ∨ k = 2 := by omega
    · exact congrArg some hfirst.symm
    · exact congrArg some hsecond.symm
    · exact congrArg some hzero.symm
  refine ⟨m, p, hend, hat, ?_, ?_⟩
  · obtain ⟨found, hr, htext⟩ := (hread 2 (by decide)).1
      (by rw [perform_readText hc hp (by decide)]; exact hlong)
    rw [hr, (htext "ab").2 hat]
  · obtain ⟨found, hr, htext⟩ := (hread 1 (by decide)).1
      (by rw [perform_readText hc hp (by decide)]; exact hshort)
    rw [hr]
    cases found with
    | none => rfl
    | some text =>
        obtain ⟨k, hk, -, hzero', -⟩ := (htext text).1 rfl
        obtain rfl | rfl : k = 0 ∨ k = 1 := by omega
        · cases hfirst.symm.trans hzero'
        · cases hsecond.symm.trans hzero'

set_option maxRecDepth 100000 in
/-- **There is no buffer for the longest limits.**  A text that stands in the address space is not
read then. -/
theorem longest_limit_refused :
    ∃ (m : Machine MemoryFile) (a : Account) (p : Process), Orderly {} m a ∧
      m.process? 0 = some p ∧ p.exitCode = none ∧ ¬ m.kernel.AllPinned ∧
      m.kernel.TextAt MemoryFile.view p.space ⟨8196⟩ (signedLimit - 1) "hi" ∧
      (m.perform 0 (.readText 0 ⟨8196⟩ (signedLimit - 1))).1 = .error .outOfBounds := by
  have hboot : Kernel.boot (.withFrames 1 1) [] (some ({} : MemoryFile)) = (.ok _, _) := rfl
  obtain ⟨m, -, ⟨a, h, -⟩, hall⟩ := ((Orderly.boot hboot).addCpu 1).withLast.serve
    [⟨0, _, .load (.assembled { entry := 0 }) ["hi"] .demand⟩]
    (fun m => m.isLive 0 = true ∧
      (m.process? 0).all (fun p => 8198 < p.space.pageCount * pageSize ∧
        m.kernel.byteAt MemoryFile.view p.space ⟨8196⟩ = 104 ∧
        m.kernel.byteAt MemoryFile.view p.space ⟨8197⟩ = 105 ∧
        m.kernel.byteAt MemoryFile.view p.space ⟨8198⟩ = 0) = true ∧
      0 < m.kernel.core.frames.size ∧
      (m.kernel.core.frames.owner ⟨0⟩).all (fun o => !o.pinned) = true ∧
      (m.perform 0 (.readText 0 ⟨8196⟩ (signedLimit - 1))).1 = .error .outOfBounds)
    (by decide_cbv)
  obtain ⟨hlive, hbytes, hframe, howner, hhalt⟩ := of_decide_eq_true hall
  obtain ⟨p, hp, hexit⟩ := isLive_iff.1 hlive
  rw [hp, Option.all_some, decide_eq_true_eq] at hbytes
  obtain ⟨hend, hfirst, hsecond, hzero⟩ := hbytes
  refine ⟨m, a, p, h, hp, hexit, not_allPinned hframe howner,
    textAt_of_bytes (by decide) hend (fun k hk => ?_) (by decide), hhalt⟩
  replace hk : k ≤ 2 := hk
  obtain rfl | rfl | rfl : k = 0 ∨ k = 1 ∨ k = 2 := by omega
  · exact congrArg some hfirst.symm
  · exact congrArg some hsecond.symm
  · exact congrArg some hzero.symm

end Machine

end DemandPaging
