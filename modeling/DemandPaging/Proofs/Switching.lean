import DemandPaging.Proofs.LoadUndone
import DemandPaging.Proofs.Processes
import Mathlib

/-!
# Leaving a processor and coming back

A process that leaves a processor takes along which pages it had in the TLB, and nothing else about
them.  When it comes back, what they say is looked up in a page table that has changed since.

* `Paging.restoreTlb_count` — how many slots are said to be restored, and how many are valid.
* `Paging.Serves`, `Paging.Harvested` — a TLB works for a process, and its usage bits are in the
  page table.
* `Machine.Away` — what may happen while a process does not run.
* `Machine.Returned` — a TLB holds what a process had there, as far as it is still resident.
* `Machine.returned_of_away` — so it is when the process comes back.
-/

namespace DemandPaging

open Paging

/-! ## Counting valid slots -/

namespace Tlb

/-- The number of valid slots. -/
def validCount (t : Tlb) : Nat := t.slots.countP (·.valid)

theorem validCount_write {t : Tlb} {i : Nat} {e : Translation} (hi : i < t.size)
    (hold : (t.slot i).valid = false) (he : e.valid = true) :
    (t.write i e).validCount = t.validCount + 1 := by
  have hi : i < t.slots.size := hi
  rw [slot_eq_getElem hi] at hold
  rw [validCount, write, Array.setIfInBounds, dif_pos hi, Array.countP_set, hold, he, validCount]
  simp

theorem validCount_eq_zero {t : Tlb} (h : ∀ i, (t.slot i).valid = false) : t.validCount = 0 := by
  rw [validCount, Array.countP_eq_zero]
  intro e he
  obtain ⟨i, hi, rfl⟩ := Array.getElem_of_mem he
  rw [← slot_eq_getElem hi, h]
  exact Bool.false_ne_true

end Tlb

namespace Paging

variable {F : Type}

/-- Every page that comes back fills a slot that was not valid. -/
theorem restoreSlots_count (id : TlbId) (pid : Pid) (i : Nat) (pages : List (Option PageNumber))
    (s : Paging F) (hroom : i + pages.length ≤ (s.core.tlbs.tlb id).size)
    (hblank : ∀ n, i ≤ n → (s.slot id n).valid = false) :
    ((restoreSlots id pid i pages s).2.core.tlbs.tlb id).validCount =
      (s.core.tlbs.tlb id).validCount + (restoreSlots id pid i pages s).1 := by
  induction pages generalizing i s with
  | nil => rfl
  | cons p pages ih =>
    rw [List.length_cons] at hroom
    have hlater : ∀ n, i + 1 ≤ n → (s.slot id n).valid = false := fun n hn => hblank n (by omega)
    cases p with
    | none => exact ih _ s (by omega) hlater
    | some p =>
      unfold restoreSlots
      cases he : s.core.table[(⟨pid, p⟩ : PageKey)]?.filter (·.valid) with
      | none =>
        have hroom : i + 1 + pages.length ≤
            ((s.note (.pageLeft ⟨pid, p⟩)).core.tlbs.tlb id).size := by
          show _ ≤ (s.core.tlbs.tlb id).size
          omega
        exact ih _ _ hroom hlater
      | some e =>
        obtain ⟨-, hvalid⟩ := Option.filter_eq_some_iff.1 he
        have hi : i < (s.core.tlbs.tlb id).size := by omega
        have htlb : (s.setTlb id ((s.core.tlbs.tlb id).write i e)).core.tlbs.tlb id =
            (s.core.tlbs.tlb id).write i e :=
          (TlbBank.tlb_setTlb _ _ _ _ (TlbBank.live_of_size_pos (by omega))).trans (if_pos rfl)
        have hcount := ih (i + 1) (s.setTlb id ((s.core.tlbs.tlb id).write i e))
          (by rw [htlb, Tlb.size_write]; omega) fun n hn => by
            rw [slot, TlbBank.slot, htlb, Tlb.slot_write, if_neg (by omega)]
            exact hlater n hn
        rw [htlb, Tlb.validCount_write hi (hblank i (Nat.le_refl i)) hvalid] at hcount
        exact hcount.trans (Nat.add_right_comm _ _ _)

/-- **The number of slots that are said to be restored is the number of valid slots.** -/
theorem restoreTlb_count (s : Paging F) (id : TlbId) (pid : Pid) (snapshot : TlbSnapshot) :
    ((s.restoreTlb id pid snapshot).2.core.tlbs.tlb id).validCount =
      (s.restoreTlb id pid snapshot).1 := by
  have hsize : ((s.setTlb id (s.core.tlbs.tlb id).invalidateAll).core.tlbs.tlb id).size =
      (s.core.tlbs.tlb id).size := TlbBank.size_tlb_setTlb (Tlb.size_invalidateAll _) id
  have hslot : ∀ n, (s.setTlb id (s.core.tlbs.tlb id).invalidateAll).slot id n =
      (s.slot id n).invalidate := fun n =>
    (TlbBank.slot_setTlb_of_slot (Tlb.slot_invalidateAll _) rfl id n).trans (if_pos rfl)
  have hzero := Tlb.validCount_eq_zero fun n => congrArg Translation.valid (hslot n)
  have hcount := restoreSlots_count id pid 0
    (snapshot.pages.take (s.core.tlbs.tlb id).invalidateAll.size)
    (s.setTlb id (s.core.tlbs.tlb id).invalidateAll)
    (by rw [hsize, Tlb.size_invalidateAll, List.length_take]; omega)
    fun n _ => by rw [hslot, Translation.valid_invalidate]
  rw [hzero, Nat.zero_add] at hcount
  exact hcount

/-! ## Handing the bits over -/

variable {t : Tlb} {pid : Pid} {id : TlbId}

/-- What the slots `t` of a TLB knew of the usage of pages of a process is in the page table. -/
def Harvested (t : Tlb) (pid : Pid) (s : Paging F) : Prop :=
  ∀ {n : Nat}, (t.slot n).valid = true → ∃ e, s.entry ⟨pid, (t.slot n).page⟩ = some e ∧
    ((t.slot n).flags.referenced = true → e.flags.referenced = true) ∧
      ((t.slot n).flags.dirty = true → e.flags.dirty = true)

theorem Harvested.congr {s u : Paging F} (h : Harvested t pid s)
    (hentry : ∀ k, u.entry k = s.entry k) : Harvested t pid u := by
  intro n hn
  rw [hentry]
  exact h hn

/-- Every valid slot of a TLB is of a page of the process. -/
def Serves (s : Paging F) (id : TlbId) (pid : Pid) : Prop :=
  ∀ {n : Nat} {f : FrameNumber}, (s.slot id n).maps f = true →
    s.holder f = some ⟨pid, (s.slot id n).page⟩

/-- The slots of a process are copies of its entries. -/
theorem Serves.entry {s : Paging F} (h : Serves s id pid) (hs : s.Agrees) {n : Nat}
    (hv : (s.slot id n).valid = true) :
    ∃ e, s.entry ⟨pid, (s.slot id n).page⟩ = some e ∧ PageTable.current e (s.slot id n) = true := by
  obtain ⟨f, hf⟩ := Translation.valid_iff.1 hv
  obtain ⟨e, he, hef⟩ := hs.owned (h hf)
  exact ⟨e, he, Translation.current_iff.2
    ⟨(Translation.maps_iff.1 hef).2.trans (Translation.maps_iff.1 hf).2.symm, (hs.entry he).1⟩⟩

/-- A TLB whose valid slots are copies of entries is harvested when it is saved. -/
theorem harvested_of_saved {s u : Paging F} (h : Saved s u id pid)
    (hcopy : ∀ {n}, (s.slot id n).valid = true → ∃ e,
      s.entry ⟨pid, (s.slot id n).page⟩ = some e ∧ PageTable.current e (s.slot id n) = true) :
    Harvested (s.core.tlbs.tlb id) pid u := by
  intro n hn
  obtain ⟨e, he, hcurrent⟩ := hcopy hn
  have hlt : n < (s.core.tlbs.tlb id).slots.size := Tlb.lt_size_of_valid hn
  have hmem : (s.core.tlbs.tlb id).slot n ∈
      holding (s.core.tlbs.tlb id).slots.toList ((s.core.tlbs.tlb id).slot n).page := by
    refine mem_holding.2 ⟨?_, hn, rfl⟩
    rw [Tlb.slot_eq_getElem hlt, Array.mem_toList_iff]
    exact Array.getElem_mem hlt
  refine ⟨_, (h.entry _).trans ((if_pos rfl).trans (congrArg _ he)), fun hr => ?_, fun hd => ?_⟩
  · exact (Translation.bit_absorb .referenced e _).2 (.inr ⟨_, hmem, hcurrent, hr⟩)
  · exact (Translation.bit_absorb .written e _).2 (.inr ⟨_, hmem, hcurrent, hd⟩)

end Paging

/-- The snapshot says which pages stood in which slots. -/
def TlbSnapshot.Records (snapshot : TlbSnapshot) (t : Tlb) : Prop :=
  ∀ n p, snapshot.pages[n]? = some (some p) ↔ (t.slot n).valid = true ∧ (t.slot n).page = p

namespace Machine

variable {F : Type} {m m' : Machine F} {cpu : CpuNumber} {c : Processor} {i next : ProcessNumber}
  {p q : Process} {previous : Option Pid} {t : Tlb} {pid : Pid} {id : TlbId}

/-! ## Leaving -/

/-- **A process that leaves a processor** leaves no valid slot behind, its usage bits go to the page
table, and it takes along which pages it had where. -/
theorem leave_records (hm : m.kernel.Agrees) (hserves : Serves m.kernel.toPaging c.tlb p.pid)
    (hp : m.process? i = some p) :
    (∀ n, ((m.leave c (some (i, p))).kernel.slot c.tlb n).valid = false) ∧
      Harvested (m.kernel.core.tlbs.tlb c.tlb) p.pid (m.leave c (some (i, p))).kernel.toPaging ∧
      ∃ snapshot : TlbSnapshot, snapshot.Records (m.kernel.core.tlbs.tlb c.tlb) ∧
        ∀ j, (m.leave c (some (i, p))).process? j =
          if j = i then some { p with snapshot } else m.process? j := by
  obtain ⟨-, -, -, s, snapshot, hquiet, hsaved, hpages, hset⟩ := m.leave_spec c (some (i, p))
  have hslot : ∀ n, s.slot c.tlb n = (m.kernel.core.tlbs.tlb c.tlb).slot n := hquiet.slot c.tlb
  have hharvested : Harvested (s.core.tlbs.tlb c.tlb) p.pid _ :=
    harvested_of_saved hsaved fun {n} hn => by
      rw [hquiet.slot] at hn ⊢
      rw [hquiet.entry]
      exact hserves.entry hm hn
  refine ⟨hsaved.slot, fun {n} hn => ?_, snapshot, fun n p => ?_, fun j => ?_⟩
  · rw [← hslot] at hn ⊢
    exact hharvested hn
  · rw [hpages, hslot]
  · rw [process?, hset, process?_set hp]

/-! ## Coming back -/

/-- A slot that is filled or else made invalid is valid only if it is filled. -/
theorem eq_some_of_valid_getD {x : Option Translation} {e : Translation}
    (h : (x.getD e.invalidate).valid = true) : x = some (x.getD e.invalidate) := by
  cases x with
  | none => cases h
  | some d => rfl

/-- What a processor is like when it was given to a process: slots hold what the page table says of
the pages that the process had in them, and the number of those is noted. -/
structure Entered (m m' : Machine F) (id : TlbId) (q : Process) : Prop where
  entry : ∀ k, m'.kernel.entry k = m.kernel.entry k
  found : ∀ {n p e}, n < (m.kernel.core.tlbs.tlb id).size → q.snapshot.pages[n]? = some (some p) →
    m'.kernel.entry ⟨q.pid, p⟩ = some e → m'.kernel.slot id n = e
  valid : ∀ {n}, (m'.kernel.slot id n).valid = true → ∃ p, q.snapshot.pages[n]? = some (some p) ∧
    m'.kernel.entry ⟨q.pid, p⟩ = some (m'.kernel.slot id n)
  count : ∃ previous, m'.kernel.journal.newestFirst.head? =
    some ⟨some q.pid, .switched previous q.pid (m'.kernel.core.tlbs.tlb id).validCount⟩

theorem journal_enter (m : Machine F) (cpu : CpuNumber) (c : Processor) (previous : Option Pid)
    (q : Process) :
    (m.enter cpu c previous q).kernel.journal.newestFirst.head? =
      some ⟨some q.pid, .switched previous q.pid
        ((m.enter cpu c previous q).kernel.core.tlbs.tlb c.tlb).validCount⟩ := by
  have hcount := restoreTlb_count (m.kernel.toPaging.attach c.tlb) c.tlb q.pid q.snapshot
  show some (Line.mk (some q.pid) (.switched previous q.pid
    ((m.kernel.toPaging.attach c.tlb).restoreTlb c.tlb q.pid q.snapshot).1)) = _
  rw [← hcount]
  rfl

theorem entered_of_enter (hm' : m' = m.enter cpu c previous q) (hagrees : m'.kernel.Agrees) :
    Entered m m' c.tlb q := by
  obtain ⟨-, -, -, -, s, u, hquiet, -, hrestored, hquiet'⟩ := m.enter_spec cpu c previous q
  rw [← hm'] at hquiet'
  have hentry : ∀ k, m'.kernel.entry k = s.entry k := fun k =>
    (hquiet'.entry k).trans (hrestored.entry k)
  have hresident : ∀ k, s.residentEntry k = m'.kernel.entry k := fun k => by
    rw [← hagrees.residentEntry_eq]
    exact congrArg (Option.filter (·.valid)) (hentry k).symm
  have hsize : (s.core.tlbs.tlb c.tlb).size = (m.kernel.core.tlbs.tlb c.tlb).size :=
    hquiet.size c.tlb
  have hslot : ∀ n, n < (m.kernel.core.tlbs.tlb c.tlb).size → m'.kernel.slot c.tlb n = _ :=
    fun n hn => (hquiet'.slot c.tlb n).trans (hrestored.slot n (hsize ▸ hn))
  simp only [hresident] at hslot
  refine ⟨fun k => (hentry k).trans (hquiet.entry k), fun {n p e} hn hp he => ?_, fun {n} hv => ?_,
    previous, hm' ▸ journal_enter m cpu c previous q⟩
  · rw [hslot n hn, hp, Option.join_some, Option.bind_some, he, Option.getD_some]
  · have hn : n < (m.kernel.core.tlbs.tlb c.tlb).size := by
      rw [← hsize, ← hrestored.size, ← hquiet'.size]
      exact Tlb.lt_size_of_valid hv
    have hfilled := eq_some_of_valid_getD (hslot n hn ▸ hv)
    rw [← hslot n hn] at hfilled
    obtain ⟨p, hp, he⟩ := Option.bind_eq_some_iff.1 hfilled
    exact ⟨p, Option.join_eq_some_iff.1 hp, he⟩

/-- A TLB holds of its old contents `t` what a process had there and is still resident. -/
structure Returned (t : Tlb) (i : ProcessNumber) (pid : Pid) (m : Machine F) (id : TlbId) :
    Prop where
  /-- The slots that are valid are those that were, unless their page has left. -/
  valid : ∀ {n}, (m.kernel.slot id n).valid = true ↔
    (t.slot n).valid = true ∧ (m.kernel.entry ⟨pid, (t.slot n).page⟩).isSome = true
  /-- They are as the page table has it now: the page, the frame and the flags. -/
  current : ∀ {n}, (m.kernel.slot id n).valid = true →
    m.kernel.entry ⟨pid, (t.slot n).page⟩ = some (m.kernel.slot id n)
  /-- No slot is of a page of another process. -/
  alone : ∀ {n f j q page}, (m.kernel.slot id n).maps f = true → m.process? j = some q → j ≠ i →
    m.kernel.holder f ≠ some ⟨q.pid, page⟩
  /-- How many slots were restored was noted, and that is how many are valid. -/
  count : ∃ previous, m.kernel.journal.newestFirst.head? =
    some ⟨some pid, .switched previous pid (m.kernel.core.tlbs.tlb id).validCount⟩

theorem Entered.returned (h : Entered m m' id q) (hagrees : m'.kernel.Agrees)
    (hothers : ∀ {j r}, m'.process? j = some r → j ≠ i → r.pid ≠ q.pid)
    (hrecords : q.snapshot.Records t) (hsize : (m.kernel.core.tlbs.tlb id).size = t.size) :
    Returned t i q.pid m' id := by
  have hcurrent : ∀ {n}, (m'.kernel.slot id n).valid = true → (t.slot n).valid = true ∧
      m'.kernel.entry ⟨q.pid, (t.slot n).page⟩ = some (m'.kernel.slot id n) := by
    intro n hv
    obtain ⟨p, hp, he⟩ := h.valid hv
    obtain ⟨htv, rfl⟩ := (hrecords n p).1 hp
    exact ⟨htv, he⟩
  refine ⟨fun {n} => ⟨fun hv => ?_, fun ⟨htv, hresident⟩ => ?_⟩, fun hv => (hcurrent hv).2,
    fun {n f j r page} hmaps hr hj hholder => ?_, h.count⟩
  · obtain ⟨htv, he⟩ := hcurrent hv
    rw [he]
    exact ⟨htv, rfl⟩
  · obtain ⟨e, he⟩ := Option.isSome_iff_exists.1 hresident
    rw [h.found (hsize ▸ Tlb.lt_size_of_valid htv) ((hrecords n _).2 ⟨htv, rfl⟩) he]
    obtain ⟨-, f, hf, -⟩ := hagrees.entry he
    exact Translation.valid_of_maps hf
  · have he := (hcurrent (Translation.valid_of_maps hmaps)).2
    have hkey := Option.some.inj ((hagrees.holder_of_maps he hmaps).symm.trans hholder)
    exact hothers hr hj (congrArg PageKey.pid hkey).symm

/-! ## Being away -/

end Machine

/-- May this be asked for while a process does not run?  Other processes are loaded, run and ended,
and the kernel may work for any process. -/
def Request.Elsewhere (i : ProcessNumber) {α : Type} : Request α → Prop
  | .exit j _ | .drop j | .access j .. | .trap j _ => j ≠ i
  | .switch previous next => previous ≠ some i ∧ next ≠ i
  | _ => True

namespace Machine

variable {F : Type} {m m' : Machine F} {cpu : CpuNumber} {c : Processor} {i : ProcessNumber}
  {p : Process}

/-- Something is done for another process, or it leaves the process as it is. -/
theorem process?_within {α : Type} {j : ProcessNumber}
    {act : Context F → Except Halt α × Context F} {r : Except Halt (Option α)}
    (h : m.within cpu j act = (r, m')) (hp : m.process? i = some p)
    (hact : j = i → ∀ x, (act x).2.process = x.process) : m'.process? i = some p := by
  rcases within_spec h with ⟨-, rfl⟩ | ⟨c, q, r', y, -, hq, hy, -, rfl⟩
  · exact hp
  · rw [process?_setContext hq]
    split
    · rename_i hi
      subst hi
      have hsame := hact rfl ⟨m.kernel, c, q⟩
      rw [hy] at hsame
      rw [← hp, hq]
      exact congrArg some hsame
    · exact hp

/-- A process that is not the one that leaves stays as it is. -/
theorem process?_switch_of_ne {previous : Option ProcessNumber} {next : ProcessNumber}
    (h : m.switch cpu previous next = some m') (hi : previous ≠ some i) :
    m'.process? i = m.process? i := by
  obtain ⟨c, q, who, -, hwho, -, rfl⟩ := switch_spec h
  obtain ⟨-, hentered, -⟩ := (m.leave c who).enter_spec cpu c (who.map (·.2.pid)) q
  obtain ⟨-, -, -, hleft⟩ := m.leave_spec c who
  rcases hwho with ⟨-, rfl⟩ | ⟨j, r, rfl, hr, rfl⟩
  · rw [process?, hentered, hleft.2, process?]
  · obtain ⟨-, snapshot, -, -, -, hset⟩ := hleft
    rw [process?, hentered, hset, process?_set hr, if_neg fun hij => hi (congrArg some hij.symm)]

variable [BackingFile F]

/-- **A process that does not run stays as it is**, with what it took along when it left. -/
theorem process?_of_elsewhere {α : Type} {request : Request α} {r : Except Halt (Option α)}
    (helse : request.Elsewhere i) (h : m.perform cpu request = (r, m'))
    (hp : m.process? i = some p) : m'.process? i = some p := by
  cases request with
  | load image args strategy =>
    simp only [perform] at h
    split at h
    · obtain ⟨-, rfl⟩ := Prod.mk.inj h
      exact hp
    · unfold load at h
      split at h <;> obtain ⟨-, rfl⟩ := Prod.mk.inj h
      · exact hp
      · rw [process?_push rfl, if_neg (Nat.ne_of_lt (lt_size_of_process? hp))]
        exact hp
  | exit j status =>
    simp only [perform] at h
    exact process?_within h hp fun hj => absurd hj helse
  | drop j =>
    simp only [perform] at h
    split at h
    · obtain ⟨-, rfl⟩ := Prod.mk.inj h
      exact hp
    · rename_i q hq
      obtain ⟨-, rfl⟩ := Prod.mk.inj h
      rw [process?, Machine.drop, process?_set hq, if_neg (Ne.symm helse)]
      exact hp
  | switch previous next =>
    simp only [perform] at h
    split at h <;> rename_i hs <;> obtain ⟨-, rfl⟩ := Prod.mk.inj h
    · exact hp
    · exact (process?_switch_of_ne hs helse.1).trans hp
  | access j address count access => exact process?_within h hp fun hj => absurd hj helse
  | trap j code => exact process?_within h hp fun hj => absurd hj helse
  | destroySpace pid =>
    obtain ⟨-, rfl⟩ := Prod.mk.inj h
    exact hp
  | read | write | readText | resolveMiss | accessPage =>
    simp only [perform] at h
    exact process?_within h hp fun _ _ => rfl

/-- A machine and what becomes of it while a process does not run, also by requests that fail. -/
inductive Away (i : ProcessNumber) : Machine F → Machine F → Prop
  | refl (m : Machine F) : Away i m m
  | perform {m n n' : Machine F} {cpu : CpuNumber} {α : Type} {request : Request α}
    {r : Except Halt (Option α)} (h : Away i m n) (helse : request.Elsewhere i)
    (hp : n.perform cpu request = (r, n')) : Away i m n'
  | addCpu {m n : Machine F} (h : Away i m n) (slots : Nat) : Away i m (n.addCpu slots)
  | dropCpu {m n : Machine F} (h : Away i m n) (cpu : CpuNumber) : Away i m (n.dropCpu cpu)

theorem Away.after {n : Machine F} (h : Away i m n) (cpu : CpuNumber) {α : Type}
    (request : Request α) (helse : request.Elsewhere i) : Away i m (n.perform cpu request).2 :=
  h.perform helse (Prod.eta (n.perform cpu request)).symm

theorem Away.reached (h : Away i m m') (hm : Reached m) : Reached m' := by
  induction h with
  | refl => exact hm
  | perform _ _ hp ih => exact ih.perform hp
  | addCpu _ slots ih => exact ih.addCpu slots
  | dropCpu _ cpu ih => exact ih.dropCpu cpu

theorem Away.process? (h : Away i m m') (hp : m.process? i = some p) : m'.process? i = some p := by
  induction h with
  | refl => exact hp
  | perform _ helse hperform ih => exact process?_of_elsewhere helse hperform ih
  | addCpu _ _ ih => exact ih
  | dropCpu _ cpu ih =>
    unfold Machine.dropCpu
    split <;> exact ih

/-! ## Leaving and coming back -/

omit [BackingFile F] in
theorem size_leave (m : Machine F) (c : Processor) (who : Option (ProcessNumber × Process))
    (id : TlbId) :
    ((m.leave c who).kernel.core.tlbs.tlb id).size = (m.kernel.core.tlbs.tlb id).size := by
  obtain ⟨-, -, -, hleft⟩ := m.leave_spec c who
  cases who with
  | none => exact hleft.1.size id
  | some ip =>
    obtain ⟨s, snapshot, hquiet, hsaved, -⟩ := hleft
    exact (hsaved.size id).trans (hquiet.size id)

theorem Reached.switch {previous : Option ProcessNumber} {next : ProcessNumber} (hm : Reached m)
    (hs : m.switch cpu previous next = some m') : Reached m' := by
  have hperform : m.perform cpu (.switch previous next) = (.ok (some ()), m') := by
    simp only [Machine.perform, hs]
  exact hm.perform hperform

/-- A process that comes to a processor as it left another. -/
theorem returned_of_switch {previous : Option ProcessNumber} {t : Tlb} (hm : Reached m)
    (hs : m.switch cpu previous i = some m') (hc : m.cpu? cpu = some c)
    (hp : m'.process? i = some p) (hrecords : p.snapshot.Records t)
    (hsize : (m.kernel.core.tlbs.tlb c.tlb).size = t.size) : Returned t i p.pid m' c.tlb := by
  have hm' := hm.switch hs
  obtain ⟨d, q, who, hd, -, hq, hm⟩ := switch_spec hs
  obtain rfl := Option.some.inj (hc.symm.trans hd)
  obtain ⟨-, hprocesses, -⟩ := (m.leave c who).enter_spec cpu c (who.map (·.2.pid)) q
  obtain rfl : q = p := by
    rw [process?, hm, hprocesses] at hp
    exact Option.some.inj (hq.symm.trans hp)
  have hagrees := hm'.consistent.toAgrees
  exact (entered_of_enter hm hagrees).returned hagrees
    (fun hr hj hpid => hj (hm'.named.distinct hr hp hpid)) hrecords
    ((size_leave m c who _).trans hsize)

/-- **The TLB of a processor serves the process that runs there.** -/
theorem Orderly.serves {file : F} {a : Account} (h : Orderly file m a)
    (hrunner : m.runner a cpu = some i) (hp : m.process? i = some p) (hc : m.cpu? cpu = some c) :
    Serves m.kernel.toPaging c.tlb p.pid := by
  intro n f hf
  have hnone : ∀ w : FileView F, none = some w → w.good file := nofun
  obtain ⟨tenants, seat, hm⟩ := h.inOrder hnone
  obtain ⟨hlast, hlive⟩ := runner_eq_some.1 hrunner
  obtain ⟨q, hq, hexit⟩ := isLive_iff.1 hlive
  obtain rfl := Option.some.inj (hp.symm.trans hq)
  obtain ⟨pid, e, hseat, he, hbare⟩ := hm.kernel.coherent.mirrors (Translation.valid_of_maps hf)
  obtain rfl : p.pid = pid :=
    Option.some.inj (((hm.works hc).2 ⟨i, p, hlast, hp, hexit, rfl⟩).symm.trans hseat)
  exact hm.kernel.holder_of_maps he ((Translation.maps_congr hbare f).trans hf)

/-- What is left of the slots `t` of a process when it has left a TLB that served it, which led to
the machine `m`, and when the next process has come, which led to `m₁`. -/
structure Departed (t : Tlb) (i : ProcessNumber) (pid : Pid) (id : TlbId) (next : ProcessNumber)
    (m m₁ : Machine F) : Prop where
  /-- No slot is valid when the process has left. -/
  blank : ∀ n, (m.kernel.slot id n).valid = false
  /-- The usage bits of its slots are in the page table. -/
  harvested : Harvested t pid m.kernel.toPaging
  /-- They still are when the next process has come. -/
  kept : Harvested t pid m₁.kernel.toPaging
  /-- If that is another one, no slot is of a page of the process that left. -/
  gone : next ≠ i → ∀ {n f page}, (m₁.kernel.slot id n).maps f = true →
    m₁.kernel.holder f ≠ some ⟨pid, page⟩

/-- **A process finds again what it had in a TLB, as far as it is still resident.**  The TLB of a
processor serves the process that runs there.  When a process leaves a TLB that serves it, no slot
stays valid, and no usage bit is lost.  Whatever is done while it does not run, when it comes to a
processor whose TLB has as many slots, those slots are valid that it had, unless their pages have
left memory, and they are as the page table has them now. -/
theorem returned_of_away :
    (∀ {file : F} {m : Machine F} {a : Account} {cpu : CpuNumber} {c : Processor}
      {i : ProcessNumber} {p : Process}, Orderly file m a → m.runner a cpu = some i → m.process? i = some p →
        m.cpu? cpu = some c → Serves m.kernel.toPaging c.tlb p.pid) ∧
    ∀ {m m₁ : Machine F} {cpu : CpuNumber} {c : Processor} {i next : ProcessNumber} {p : Process},
      Reached m → m.process? i = some p → m.cpu? cpu = some c →
        Serves m.kernel.toPaging c.tlb p.pid → m.switch cpu (some i) next = some m₁ →
      Departed (m.kernel.core.tlbs.tlb c.tlb) i p.pid c.tlb next (m.leave c (some (i, p))) m₁ ∧
        (next = i → Returned (m.kernel.core.tlbs.tlb c.tlb) i p.pid m₁ c.tlb) ∧
        (next ≠ i → ∀ {m₂ m₃ : Machine F} {cpu' : CpuNumber} {d : Processor}
          {previous : Option ProcessNumber}, Away i m₁ m₂ → m₂.cpu? cpu' = some d →
            (m₂.kernel.core.tlbs.tlb d.tlb).size = (m.kernel.core.tlbs.tlb c.tlb).size →
              previous ≠ some i → m₂.switch cpu' previous i = some m₃ →
                Returned (m.kernel.core.tlbs.tlb c.tlb) i p.pid m₃ d.tlb) := by
  refine ⟨Orderly.serves, fun {m m₁ cpu c i next p} hreached hp hc hserves hs => ?_⟩
  have hm₁ := hreached.switch hs
  obtain ⟨hblank, hharvested, snapshot, hrecords, hprocess⟩ :=
    leave_records hreached.consistent.toAgrees hserves hp
  -- the process keeps its record while the next one comes
  obtain ⟨d, q, who, hd, hwho, hq, hm⟩ := switch_spec hs
  obtain rfl := Option.some.inj (hc.symm.trans hd)
  obtain rfl : who = some (i, p) := by
    rcases hwho with ⟨hnone, -⟩ | ⟨j, r, hj, hr, rfl⟩
    · cases hnone
    · obtain rfl := Option.some.inj hj
      rw [Option.some.inj (hr.symm.trans hp)]
  obtain ⟨-, hprocesses, -⟩ := (m.leave c (some (i, p))).enter_spec cpu c (some p.pid) q
  have hsame : ∀ j, m₁.process? j = (m.leave c (some (i, p))).process? j := fun j => by
    rw [hm, process?, process?]
    exact congrArg (fun processes : Array (Option Process) => processes[j]?.join) hprocesses
  have hp₁ : m₁.process? i = some { p with snapshot } := by
    rw [hsame, hprocess, if_pos rfl]
  have hagrees := hm₁.consistent.toAgrees
  have hentered := entered_of_enter hm hagrees
  refine ⟨⟨hblank, hharvested, hharvested.congr hentered.entry,
    fun hne {n f page} hmaps hholder => ?_⟩, ?_, ?_⟩
  · obtain ⟨page', -, he⟩ := hentered.valid (Translation.valid_of_maps hmaps)
    have hkey := Option.some.inj ((hagrees.holder_of_maps he hmaps).symm.trans hholder)
    exact hne (hm₁.named.distinct ((hsame next).trans hq) hp₁ (congrArg PageKey.pid hkey))
  · rintro rfl
    exact returned_of_switch (p := { p with snapshot }) hreached hs hc hp₁ hrecords rfl
  · intro hne m₂ m₃ cpu' d previous haway hd hsize hprevious hback
    have hp₃ := (process?_switch_of_ne hback hprevious).trans (haway.process? hp₁)
    exact returned_of_switch (p := { p with snapshot }) (haway.reached hm₁) hback hd hp₃ hrecords
      hsize

set_option maxRecDepth 100000 in
/-- Another process has evicted one of two pages before the process that had them in the TLB comes
back.  The other page is all that it finds there. -/
theorem returned_after_eviction :
    ∃ m m₁ m₂ m₃ : Machine MemoryFile, m.switch 0 (some 0) 1 = some m₁ ∧ Away 0 m₁ m₂ ∧
      m₂.switch 0 (some 1) 0 = some m₃ ∧
        Returned (m.kernel.core.tlbs.tlb 0) 0 0 m₃ 0 ∧
          (m.kernel.core.tlbs.tlb 0).validCount = 2 ∧
            (m₃.kernel.core.tlbs.tlb 0).validCount = 1 := by
  have hboot : Kernel.boot (.withFrames 2 2) [] (some ({} : MemoryFile)) = (.ok _, _) := rfl
  obtain ⟨m, -, ⟨a, h, hlast⟩, hall⟩ := ((Orderly.boot hboot).addCpu 2).withLast.serve
    [⟨0, _, .load (.assembled { entry := 0 }) [] .demand⟩,
      ⟨0, _, .load (.assembled { entry := 0 }) [] .demand⟩, ⟨0, _, .switch none 0⟩,
      ⟨0, _, .access 0 ⟨1030⟩ 2 (.store #[7, 8])⟩, ⟨0, _, .access 0 ⟨2048⟩ 1 .load⟩]
    (fun m => m.isLive 0 && (m.process? 0).any (·.pid = 0) && (m.cpu? 0).any (·.tlb = 0) &&
      (m.kernel.core.tlbs.tlb 0).validCount == 2 &&
      (m.switch 0 (some 0) 1).any fun m₁ =>
        (some (m₁.perform 0 (.access 1 ⟨1030⟩ 1 .load)).2).any fun m₂ =>
          (m₂.cpu? 0).any (·.tlb = 0) &&
          (m₂.kernel.core.tlbs.tlb 0).size == (m.kernel.core.tlbs.tlb 0).size &&
          (m₂.switch 0 (some 1) 0).any fun m₃ =>
            (m₃.kernel.core.tlbs.tlb 0).validCount == 1) (by decide_cbv)
  simp only [Option.any_some, Option.any_eq_true, Bool.and_eq_true, beq_iff_eq,
    decide_eq_true_eq] at hall
  obtain ⟨⟨⟨⟨hlive, p, hp, hpid⟩, ⟨c, hc, hctlb⟩⟩, htwo⟩, m₁, hs, ⟨⟨d, hd, hdtlb⟩, hsize⟩, m₃,
    hback, hone⟩ := hall
  have hserves : Serves m.kernel.toPaging c.tlb p.pid := returned_of_away.1 h
    (runner_eq_some.2 ⟨congrFun hlast 0, hlive⟩) hp hc
  have haway := (Away.refl m₁).after 0 (.access 1 ⟨1030⟩ 1 .load) Nat.one_ne_zero
  have hreturned := (returned_of_away.2 h.reached hp hc hserves hs).2.2 (by decide) haway hd
    (by rw [hctlb, hdtlb, hsize]) (by decide) hback
  rw [hctlb, hdtlb, hpid] at hreturned
  exact ⟨m, m₁, _, m₃, hs, haway, hback, hreturned, htwo, hone⟩

end Machine

end DemandPaging
