import DemandPaging.Proofs.Changes
import DemandPaging.Proofs.KernelSteps

/-!
# Mirrors of one process at a time

A slot of a TLB does not say whose page it holds.  As long as every TLB works for one process at
a time, its valid slots are copies of entries of that process.

* `Paging.Coherent` — they are, and no page has two slots of one TLB.
* `Paging.Lost`, `Paging.Gone` — a process loses pages, or all that it has.
* `Paging.Moves.coherent`, `Paging.Installed.coherent`, `Paging.Restored.coherent` and the like —
  each step keeps that up.
-/

namespace DemandPaging

namespace Paging

variable {F : Type} {s t : Paging F} {seat seat' : TlbId → Option Pid} {pid : Pid} {id : TlbId}

/-! ## Losing pages -/

/-- Pages of a process lose their frames, and TLBs the copies of them. -/
structure Lost (s t : Paging F) (pid : Pid) : Prop extends SameShape s t where
  entry : ∀ k, t.entry k = s.entry k ∨ (k.pid = pid ∧ t.entry k = none)
  owner : ∀ g, t.owner g = s.owner g ∨
    (t.owner g = none ∧ ∃ o, s.owner g = some o ∧ o.key.pid = pid)
  slot : ∀ {id i}, (t.slot id i).valid = true → t.slot id i = s.slot id i
  kept : ∀ {id i}, (s.slot id i).valid = true → t.slot id i = s.slot id i ∨
    ∃ key e f, key.pid = pid ∧ s.entry key = some e ∧ e.maps f = true ∧
      (s.slot id i).maps f = true
  frame : ∀ g, t.frame g = s.frame g
  history : t.history = s.history

/-- A process loses its address space and all that it had in it. -/
structure Gone (s t : Paging F) (pid : Pid) : Prop extends Lost s t pid where
  absent : ∀ k, k.pid = pid → t.entry k = none
  swap : SwapStore.Released s.swap t.swap pid
  spaces : ∀ p : Pid, t.core.spaces[p]? = if p = pid then none else s.core.spaces[p]?

theorem Still.lost (h : Still s t) : Lost s t pid where
  toSameShape := h.toSameShape
  entry k := Or.inl (h.entry k)
  owner g := Or.inl (h.owner g)
  slot _ := h.slot _ _
  kept _ := Or.inl (h.slot _ _)
  frame := h.frame
  history := h.history

theorem Lost.entry_some (h : Lost s t pid) {k : PageKey} {e : Translation}
    (he : t.entry k = some e) : s.entry k = some e := by
  rcases h.entry k with hk | ⟨-, hk⟩
  · rwa [hk] at he
  · rw [hk] at he
    cases he

theorem Lost.trans {m : Paging F} (h : Lost s m pid) (h' : Lost m t pid) : Lost s t pid where
  toSameShape := h.toSameShape.trans h'.toSameShape
  entry k := by
    rcases h'.entry k with hk | hk
    · rw [hk]
      exact h.entry k
    · exact Or.inr hk
  owner g := by
    rcases h'.owner g with hg | ⟨hg, o, ho, hpid⟩
    · rw [hg]
      exact h.owner g
    · rcases h.owner g with hm | ⟨hm, -⟩
      · exact Or.inr ⟨hg, o, hm ▸ ho, hpid⟩
      · rw [hm] at ho
        cases ho
  slot hv := by
    have hm := h'.slot hv
    rw [hm] at hv ⊢
    exact h.slot hv
  kept {id i} hv := by
    rcases h.kept hv with hm | hgone
    · rw [← hm] at hv
      rcases h'.kept hv with ht | ⟨key, e, f, hkey, he, hef, hf⟩
      · exact Or.inl (ht.trans hm)
      · exact Or.inr ⟨key, e, f, hkey, h.entry_some he, hef, hm ▸ hf⟩
    · exact Or.inr hgone
  frame g := (h'.frame g).trans (h.frame g)
  history := h'.history.trans h.history

theorem Removed.lost {key : PageKey} {f : FrameNumber} (h : Removed s t key f) (hs : s.Agrees) :
    Lost s t key.pid where
  toSameShape := h.toSameShape
  entry k := by
    rw [h.toVacated.entry]
    split
    · rename_i hk
      exact Or.inr ⟨congrArg PageKey.pid hk, rfl⟩
    · exact Or.inl rfl
  owner g := by
    rw [h.toVacated.owner]
    split
    · rename_i hg
      obtain ⟨o, ho, rfl⟩ := holder_eq_some.1 h.held
      exact Or.inr ⟨rfl, o, hg ▸ ho, rfl⟩
    · exact Or.inl rfl
  slot {id i} hv := by
    have hslot := h.slot id i
    split at hslot
    · rw [hslot, Translation.valid_invalidate] at hv
      cases hv
    · exact hslot
  kept {id i} _ := by
    by_cases hm : (s.slot id i).maps f = true
    · obtain ⟨e, he, hef⟩ := hs.owned h.held
      exact Or.inr ⟨key, e, f, rfl, he, hef, hm⟩
    · exact Or.inl ((h.slot id i).trans (if_neg hm))
  frame := h.frame
  history := h.history

theorem Removals.lost (h : Removals pid s t) (hs : s.Agrees) : Lost s t pid := by
  induction h with
  | refl => exact (quiet_refl s).toStill.lost
  | tail hsteps hstep ih =>
      cases hstep with
      | quiet h => exact ih.trans h.toStill.lost
      | removed hkey h =>
          subst hkey
          exact ih.trans (h.lost (Removals.agrees hsteps hs))

theorem Destroyed.gone (h : Destroyed s t pid) (hs : s.Agrees) : Gone s t pid := by
  have hspaces := h.spaces
  obtain ⟨-, hunreg, hemptied, hfreed⟩ := h
  have hlost : Lost s t pid :=
    (hunreg.toStill.lost.trans (hemptied.steps.lost (hunreg.agrees hs))).trans hfreed.toStill.lost
  refine ⟨hlost, fun k hk => ?_, ?_, ?_⟩
  · rw [hfreed.entry]
    exact hemptied.entry k hk
  · rw [← hunreg.swap, ← hemptied.steps.rest.1]
    exact hfreed.swap
  · intro p
    rw [hspaces, Std.ExtTreeMap.getElem?_erase]
    simp only [Nat.compare_eq_eq, eq_comm (a := p)]

/-- A process that has no address space has nothing else. -/
theorem gone_of_not_mem (hs : s.Consistent) (hpid : pid ∉ s.core.spaces) : Gone s s pid := by
  have hnone : s.core.spaces[pid]? = none := Std.ExtTreeMap.getElem?_eq_none hpid
  have hnot : ∀ {k : PageKey}, s.InRange k → k.pid ≠ pid := by
    rintro k ⟨count, hcount, -⟩ rfl
    rw [hnone] at hcount
    cases hcount
  refine ⟨(quiet_refl s).toStill.lost, fun k hk => ?_,
    ⟨hs.swap, fun k => ?_, rfl, rfl, rfl, rfl⟩, fun p => ?_⟩
  · rw [Option.eq_none_iff_forall_not_mem]
    exact fun e he => hnot (hs.resident he) hk
  · split
    · rename_i hk
      rw [Option.eq_none_iff_forall_not_mem]
      exact fun a ha => hnot (hs.stored ha) hk
    · rfl
  · split
    · rename_i hp
      rw [hp, hnone]
    · rfl

/-- What is gone stays so while nothing is seen to change. -/
theorem Gone.quiet {m : Paging F} (h : Gone s m pid) (h' : Quiet m t) : Gone s t pid :=
  ⟨h.toLost.trans h'.toStill.lost, fun k hk => (h'.entry k).trans (h.absent k hk),
    h'.swap.symm ▸ h.swap, h'.spaces.symm ▸ h.spaces⟩

/-- What was lost before is gone with the rest. -/
theorem Lost.gone {m : Paging F} (h : Lost s m pid) (hswap : m.swap = s.swap)
    (hspaces : m.core.spaces = s.core.spaces) (h' : Gone m t pid) : Gone s t pid :=
  ⟨h.trans h'.toLost, h'.absent, hswap ▸ h'.swap, hspaces ▸ h'.spaces⟩

/-! ## Coherence -/

/-- Every valid slot of a TLB is a copy of an entry of the process that the TLB works for, and no
page has two slots of one TLB. -/
structure Coherent (seat : TlbId → Option Pid) (s : Paging F) : Prop where
  mirrors : ∀ {id i}, (s.slot id i).valid = true → ∃ pid e, seat id = some pid ∧
    s.entry ⟨pid, (s.slot id i).page⟩ = some e ∧ e.bare = (s.slot id i).bare
  single : ∀ {id i j}, (s.slot id i).valid = true → (s.slot id j).valid = true →
    (s.slot id i).page = (s.slot id j).page → i = j

/-- A TLB without a valid slot may work for anybody. -/
theorem Coherent.congr (hs : s.Coherent seat)
    (h : ∀ id, seat' id = seat id ∨ ∀ i, (s.slot id i).valid = false) : s.Coherent seat' := by
  refine ⟨fun {id i} hv => ?_, hs.single⟩
  rcases h id with hid | hid
  · rw [hid]
    exact hs.mirrors hv
  · rw [hid] at hv
    cases hv

/-- A step that changes usage bits, and makes slots invalid. -/
theorem Coherent.of_bare (hs : s.Coherent seat)
    (hentry : ∀ {k e}, s.entry k = some e → ∃ e', t.entry k = some e' ∧ e'.bare = e.bare)
    (hslot : ∀ {id i}, (t.slot id i).valid = true →
      (s.slot id i).valid = true ∧ (t.slot id i).bare = (s.slot id i).bare) :
    t.Coherent seat := by
  have hpage : ∀ {id i}, (t.slot id i).valid = true → (t.slot id i).page = (s.slot id i).page :=
    fun hv => (Translation.bare_eq_iff.1 (hslot hv).2).1
  refine ⟨fun {id i} hv => ?_, fun {id i j} hi hj hij => ?_⟩
  · obtain ⟨hold, hbare⟩ := hslot hv
    obtain ⟨pid, e, hid, he, heb⟩ := hs.mirrors hold
    obtain ⟨e', he', hb⟩ := hentry he
    exact ⟨pid, e', hid, by rw [hpage hv, he'], by rw [hb, heb, hbare]⟩
  · rw [hpage hi, hpage hj] at hij
    exact hs.single (hslot hi).1 (hslot hj).1 hij

/-- A step that takes entries away, and their copies with them. -/
theorem Coherent.of_agrees (hc : s.Coherent seat) (hs : s.Agrees) (ht : t.Agrees)
    (hentry : ∀ {k e}, t.entry k = some e → s.entry k = some e)
    (hslot : ∀ {id i}, (t.slot id i).valid = true → t.slot id i = s.slot id i) :
    t.Coherent seat := by
  refine ⟨fun {id i} hv => ?_, fun {id i j} hi hj hij => ?_⟩
  · have hsame := hslot hv
    obtain ⟨f, hf⟩ := Translation.valid_iff.1 hv
    obtain ⟨-, key, hkey, -⟩ := ht.mirror hf
    obtain ⟨d, hd, hdf⟩ := ht.owned hkey
    rw [hsame] at hv hf ⊢
    obtain ⟨pid, e, hid, he, hbare⟩ := hc.mirrors hv
    have hef : e.maps f = true := by rwa [Translation.maps_congr hbare]
    obtain rfl := hs.key_unique (hentry hd) he hdf hef
    obtain rfl := Option.some.inj ((hentry hd).symm.trans he)
    exact ⟨pid, d, hid, hd, hbare⟩
  · have hsi := hslot hi
    have hsj := hslot hj
    rw [hsi] at hi hij
    rw [hsj] at hj hij
    exact hc.single hi hj hij

theorem Still.coherent (h : Still s t) (hs : s.Coherent seat) : t.Coherent seat := by
  refine hs.of_bare (fun {k e} he => ⟨e, (h.entry k).trans he, rfl⟩) fun {id i} hv => ?_
  rw [h.slot] at hv ⊢
  exact ⟨hv, rfl⟩

theorem Lost.coherent (h : Lost s t pid) (hc : s.Coherent seat) (hs : s.Agrees) (ht : t.Agrees) :
    t.Coherent seat :=
  hc.of_agrees hs ht h.entry_some h.slot

/-- No slot is of a page of a process that is gone. -/
theorem Gone.not_valid (h : Gone s t pid) (hc : s.Coherent seat) (hs : s.Agrees) (ht : t.Agrees)
    (hid : seat id = some pid) (i : Nat) : (t.slot id i).valid = false := by
  by_contra hv
  rw [Bool.not_eq_false] at hv
  obtain ⟨p, e, hp, he, -⟩ := (h.toLost.coherent hc hs ht).mirrors hv
  obtain rfl := Option.some.inj (hid.symm.trans hp)
  rw [h.absent _ rfl] at he
  cases he

/-- A process that leaves its TLB and then its pages loses both. -/
theorem Cleared.lost (h : Cleared s t id) (hc : s.Coherent seat) (hs : s.Agrees)
    (hid : ∀ p, seat id = some p → p = pid) : Lost s t pid where
  toSameShape := h.toSameShape
  entry k := Or.inl (h.entry k)
  owner g := Or.inl (h.owner g)
  slot {j i} hv := by
    have hslot := h.slot j i
    split at hslot
    · rw [hslot, Translation.valid_invalidate] at hv
      cases hv
    · exact hslot
  kept {j i} hv := by
    by_cases hj : j = id
    · subst hj
      obtain ⟨p, e, hp, he, hbare⟩ := hc.mirrors hv
      obtain ⟨-, f, hf, -⟩ := hs.entry he
      exact Or.inr ⟨_, e, f, hid p hp, he, hf, by rwa [← Translation.maps_congr hbare]⟩
    · exact Or.inl ((h.slot j i).trans (if_neg hj))
  frame := h.frame
  history := h.history

/-! ## Steps on TLBs -/

theorem Used.coherent {key : PageKey} {i : Nat} {f : FrameNumber} {writing : Bool} {page : Page}
    (h : Used s t key id i f writing page) (hs : s.Coherent seat) : t.Coherent seat := by
  refine hs.of_bare (fun {k e} he => ⟨e, (h.entry k).trans he, rfl⟩) fun {j n} hv => ?_
  rw [h.slot] at hv ⊢
  split at hv
  · rename_i hjn
    rw [if_pos hjn]
    exact ⟨hv, rfl⟩
  · rename_i hjn
    rw [if_neg hjn]
    exact ⟨hv, rfl⟩

theorem Copied.coherent {key : PageKey} {f : FrameNumber} {writing : Bool} {page : Page}
    (h : Copied s t key f writing page) (hs : s.Coherent seat) : t.Coherent seat := by
  refine hs.of_bare (fun {k e} he => ?_) fun {j n} hv => ?_
  · rw [h.entry, he]
    split
    · exact ⟨_, rfl, rfl⟩
    · exact ⟨_, rfl, rfl⟩
  · rw [h.slot] at hv ⊢
    exact ⟨hv, rfl⟩

theorem exists_bare (h : ∀ k, (t.entry k).map (·.bare) = (s.entry k).map (·.bare)) {k : PageKey}
    {e : Translation} (he : s.entry k = some e) : ∃ e', t.entry k = some e' ∧ e'.bare = e.bare := by
  have hk := h k
  rwa [he, Option.map_some, Option.map_eq_some_iff] at hk

/-- **An entry that is put into a slot is of the process that the TLB works for**, and the TLB
did not hold its page. -/
theorem Installed.coherent {e : Translation} {i : Nat} (h : Installed s t id pid e i)
    (hs : s.Coherent seat) (hid : seat id = some pid) (he : s.entry ⟨pid, e.page⟩ = some e)
    (habsent : ∀ n, (s.slot id n).valid = true → (s.slot id n).page ≠ e.page) :
    t.Coherent seat := by
  have hentry := fun {k d} => exists_bare (k := k) (e := d) fun k => bare_of_absorb (h.entry k)
  refine ⟨fun {j n} hv => ?_, fun {j n m} hn hm hnm => ?_⟩
  · rw [h.slot] at hv ⊢
    split at hv
    · rename_i hjn
      rw [if_pos hjn, hjn.1]
      obtain ⟨e', he', hbare⟩ := hentry he
      exact ⟨pid, e', hid, he', hbare⟩
    · rename_i hjn
      rw [if_neg hjn]
      obtain ⟨p, d, hp, hd, hbare⟩ := hs.mirrors hv
      obtain ⟨d', hd', hbare'⟩ := hentry hd
      exact ⟨p, d', hp, hd', hbare'.trans hbare⟩
  · rw [h.slot] at hn hm hnm
    rw [h.slot] at hnm
    by_cases hjn : j = id ∧ n = i
    · by_cases hjm : j = id ∧ m = i
      · exact hjn.2.trans hjm.2.symm
      · rw [if_neg hjm] at hm hnm
        rw [if_pos hjn] at hnm
        rw [hjn.1] at hm hnm
        exact absurd hnm.symm (habsent m hm)
    · rw [if_neg hjn] at hn hnm
      by_cases hjm : j = id ∧ m = i
      · rw [if_pos hjm] at hnm
        rw [hjm.1] at hn hnm
        exact absurd hnm (habsent n hn)
      · rw [if_neg hjm] at hm hnm
        exact hs.single hn hm hnm

/-- A TLB that a process left may work for anybody. -/
theorem Saved.coherent (h : Saved s t id pid) (hs : s.Coherent seat)
    (hseat : ∀ j, j ≠ id → seat' j = seat j) : t.Coherent seat' := by
  have hfirst : t.Coherent seat := by
    refine hs.of_bare (exists_bare fun k => bare_of_absorb (h.entry k)) fun {j n} hv => ?_
    by_cases hj : j = id
    · subst hj
      rw [h.slot] at hv
      cases hv
    · rw [h.slot_ne j n hj] at hv ⊢
      exact ⟨hv, rfl⟩
  refine hfirst.congr fun j => ?_
  by_cases hj : j = id
  · exact Or.inr fun n => hj ▸ h.slot n
  · exact Or.inl (hseat j hj)

theorem Cleared.coherent (h : Cleared s t id) (hs : s.Coherent seat)
    (hseat : ∀ j, j ≠ id → seat' j = seat j) : t.Coherent seat' := by
  have hfirst : t.Coherent seat := by
    refine hs.of_bare (fun {k e} he => ⟨e, (h.entry k).trans he, rfl⟩) fun {j n} hv => ?_
    rw [h.slot] at hv ⊢
    split at hv
    · cases hv
    · rename_i hj
      rw [if_neg hj]
      exact ⟨hv, rfl⟩
  refine hfirst.congr fun j => ?_
  by_cases hj : j = id
  · refine Or.inr fun n => ?_
    rw [h.slot, if_pos hj]
    rfl
  · exact Or.inl (hseat j hj)

/-- No page stands twice in a snapshot. -/
def Unrepeated (pages : List (Option PageNumber)) : Prop :=
  ∀ {n m : Nat} {p : PageNumber}, pages[n]? = some (some p) → pages[m]? = some (some p) → n = m

/-- **A process finds its own pages in the TLB that it comes to.** -/
theorem Restored.coherent {pages : List (Option PageNumber)} (h : Restored s t id pid pages)
    (hc : s.Coherent seat) (hs : s.Agrees) (hpages : Unrepeated pages)
    (hseat : ∀ j, j ≠ id → seat' j = seat j) (hid : seat' id = some pid) : t.Coherent seat' := by
  have hpage : ∀ {n}, (t.slot id n).valid = true → pages[n]? = some (some (t.slot id n).page) ∧
      s.entry ⟨pid, (t.slot id n).page⟩ = some (t.slot id n) := by
    intro n hv
    obtain ⟨p, hp, he⟩ := h.slot_of_valid hs hv
    rw [(hs.entry he).1]
    exact ⟨hp, he⟩
  refine ⟨fun {j n} hv => ?_, fun {j n m} hn hm hnm => ?_⟩
  · by_cases hj : j = id
    · subst hj
      exact ⟨pid, _, hid, (h.entry _).trans (hpage hv).2, rfl⟩
    · rw [h.slot_ne j n hj] at hv ⊢
      obtain ⟨p, e, hp, he, hbare⟩ := hc.mirrors hv
      exact ⟨p, e, (hseat j hj).trans hp, (h.entry _).trans he, hbare⟩
  · by_cases hj : j = id
    · subst hj
      exact hpages (hpage hn).1 (hnm ▸ (hpage hm).1)
    · rw [h.slot_ne j n hj] at hn hnm
      rw [h.slot_ne j m hj] at hm hnm
      exact hc.single hn hm hnm

/-- What a coherent TLB holds makes a snapshot that names no page twice. -/
theorem Coherent.unrepeated (hs : s.Coherent seat) {pages : List (Option PageNumber)}
    (h : ∀ n p, pages[n]? = some (some p) ↔
      (s.slot id n).valid = true ∧ (s.slot id n).page = p) : Unrepeated pages := by
  intro n m p hn hm
  obtain ⟨hnv, hnp⟩ := (h n p).1 hn
  obtain ⟨hmv, hmp⟩ := (h m p).1 hm
  exact hs.single hnv hmv (hnp.trans hmp.symm)

/-! ## Steps of the pager -/

variable [BackingFile F] {space : AddressSpace} {pinned : Bool}

/-- The pager puts nothing into TLBs. -/
theorem Move.slot (h : Move space pinned s t) {i : Nat} (hv : (t.slot id i).valid = true) :
    t.slot id i = s.slot id i := by
  have hshot : ∀ {f : FrameNumber}, (t.slot id i = if (s.slot id i).maps f = true
      then (s.slot id i).invalidate else s.slot id i) → t.slot id i = s.slot id i := by
    intro f hslot
    split at hslot
    · rw [hslot, Translation.valid_invalidate] at hv
      cases hv
    · exact hslot
  cases h with
  | quiet h => exact h.slot id i
  | recalled h => exact hshot (h.slot id i)
  | evicted h => exact hshot (h.slot id i)
  | kept h => exact h.slot id i
  | filled h => exact h.slot id i
  | spoiled h => exact h.slot id i

theorem Moves.slot (h : Moves space pinned s t) {i : Nat} (hv : (t.slot id i).valid = true) :
    t.slot id i = s.slot id i := by
  induction h with
  | refl => rfl
  | tail _ hmove ih =>
      have hlast := hmove.slot hv
      rw [hlast] at hv ⊢
      exact ih hv

/-- A page that is resident is not the one that is filled in, and stays as it is. -/
theorem Filled.entry_of_entry {p : PageNumber} {f : FrameNumber} {readOnly : Bool} {page : Page}
    (h : Filled s t space p f pinned page readOnly) {k : PageKey} {e : Translation}
    (he : s.entry k = some e) : t.entry k = some e := by
  have hk : k ≠ space.key p := by
    rintro rfl
    rw [h.absent] at he
    cases he
  rw [h.entry, if_neg hk, he]

theorem Move.coherent (h : Move space pinned s t) (hc : s.Coherent seat) (hs : s.Agrees) :
    t.Coherent seat := by
  have ht := h.agrees hs
  have hslot := fun {id i} (hv : (t.slot id i).valid = true) => h.slot hv
  cases h with
  | quiet h => exact h.toStill.coherent hc
  | recalled h =>
      refine hc.of_bare (exists_bare (h.bare hs)) fun hv => ?_
      have hsame := hslot hv
      rw [hsame] at hv ⊢
      exact ⟨hv, rfl⟩
  | evicted h =>
      refine hc.of_agrees hs ht (fun {k e} he => ?_) hslot
      rw [h.entry] at he
      split at he
      · cases he
      · exact he
  | kept h =>
      refine hc.of_bare (fun {k e} he => ⟨e, (h.entry k).trans he, rfl⟩) fun {id i} hv => ?_
      rw [h.slot] at hv ⊢
      exact ⟨hv, rfl⟩
  | filled h =>
      refine hc.of_bare (fun {k e} he => ⟨e, h.entry_of_entry he, rfl⟩) fun {id i} hv => ?_
      · rw [h.slot] at hv ⊢
        exact ⟨hv, rfl⟩
  | spoiled h =>
      refine hc.of_bare (fun {k e} he => ⟨e, (h.entry k).trans he, rfl⟩) fun {id i} hv => ?_
      rw [h.slot] at hv ⊢
      exact ⟨hv, rfl⟩

end Paging

end DemandPaging
