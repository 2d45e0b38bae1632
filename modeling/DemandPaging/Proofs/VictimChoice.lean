import DemandPaging.Proofs.PagerSteps

/-!
# Which frame is taken

When no frame is free one is taken from a page, but never from one that has it for good.  Some
random frames are looked at first, so that it is not always the same pages that lose theirs.  A
frame that the processor has in its own TLB is taken only if no other is in sight.

* `CoreMap.randomFrames` — random frames, one after the other.
* `Paging.Takable` — a frame may be taken from the page that has it.
* `Paging.sampleVictim_draws` — what comes of the frames that are drawn.
* `Paging.firstVictim_eq_none`, `Paging.firstVictim_first` — what comes of the search that follows.
* `Paging.Sampled` — what has come of some samples, and what is chosen then.
* `Paging.Chooses`, `Paging.selectVictim_chooses` — which frame is chosen.
-/

namespace DemandPaging

/-! ## Random frames -/

namespace CoreMap

/-- Random frames, one after the other. -/
def randomFrames : (count : Nat) → CoreMap → List FrameNumber × CoreMap
  | 0, c => ([], c)
  | count + 1, c =>
    let (f, c) := c.randomFrame
    let (fs, c) := randomFrames count c
    (f :: fs, c)

theorem randomFrame_snd (c : CoreMap) : ∃ g, c.randomFrame.2 = { c with generator := g } :=
  c.randomBelow_snd c.frames.size

/-- A random frame is one that the machine has. -/
theorem randomFrame_lt {c : CoreMap} (h : 0 < c.frames.size) :
    c.randomFrame.1.val < c.frames.size := c.randomBelow_lt h

/-- Only the generator takes note of random choices. -/
theorem randomFrames_snd (count : Nat) (c : CoreMap) :
    ∃ g, (c.randomFrames count).2 = { c with generator := g } := by
  induction count generalizing c with
  | zero => exact ⟨_, rfl⟩
  | succ count ih =>
      obtain ⟨g, hg⟩ := c.randomFrame_snd
      obtain ⟨g', hg'⟩ := ih c.randomFrame.2
      exact ⟨g', hg'.trans (by rw [hg])⟩

/-- Random frames are frames that the machine has. -/
theorem randomFrames_lt {count : Nat} {c : CoreMap} (h : 0 < c.frames.size) {f : FrameNumber}
    (hf : f ∈ (c.randomFrames count).1) : f.val < c.frames.size := by
  induction count generalizing c with
  | zero => cases hf
  | succ count ih =>
      obtain ⟨g, hg⟩ := c.randomFrame_snd
      have hfirst : f = c.randomFrame.1 ∨ f ∈ (c.randomFrame.2.randomFrames count).1 :=
        List.mem_cons.1 hf
      rw [hg] at hfirst
      rcases hfirst with rfl | hlater
      · exact randomFrame_lt h
      · exact ih (c := { c with generator := g }) h hlater

end CoreMap

/-! ## Frames that may be taken -/

namespace FrameTable

/-- Frames that may be taken are looked at by number. -/
theorem candidates_ascending (t : FrameTable) :
    t.candidates.Pairwise fun f g => f.val < g.val := by
  have howned : t.allocated.Pairwise fun a b => a.1.val < b.1.val :=
    List.pairwise_map.2 (Std.ExtTreeMap.ordered_keys_toList.imp Nat.compare_eq_lt.1)
  exact List.pairwise_map.2 (howned.filter _)

end FrameTable

namespace Paging

variable {F : Type} {s t : Paging F} {tlb : TlbId} {f : FrameNumber}

/-- A page has the frame, but not for good. -/
def Takable (s : Paging F) (f : FrameNumber) : Prop := ∃ o, s.owner f = some o ∧ o.pinned = false

/-- A slot of the TLB maps the frame. -/
def MappedIn (s : Paging F) (tlb : TlbId) (f : FrameNumber) : Prop :=
  ∃ i, (s.slot tlb i).maps f = true

theorem takable_iff : s.Takable f ↔ s.core.frames.evictable f = true := by
  rw [FrameTable.evictable, Takable, owner]
  cases s.core.frames.owner f <;> simp

theorem mappedIn_iff : s.MappedIn tlb f ↔ (s.core.tlbs.tlb tlb).mapsFrame f = true := by
  rw [Tlb.mapsFrame, Array.any_eq_true]
  constructor
  · rintro ⟨i, hi⟩
    have hlt : i < (s.core.tlbs.tlb tlb).slots.size :=
      Tlb.lt_size_of_valid (Translation.valid_of_maps hi)
    refine ⟨i, hlt, ?_⟩
    rwa [← Tlb.slot_eq_getElem hlt]
  · rintro ⟨i, hlt, hi⟩
    refine ⟨i, ?_⟩
    rw [← Tlb.slot_eq_getElem hlt] at hi
    exact hi

/-! ## Samples -/

/-- **Of the frames that are drawn one is chosen that may be taken.**  No more are drawn as soon as
there is one that the local TLB does not map; otherwise it is the last one that may be taken. -/
theorem sampleVictim_draws {mapped takable : FrameNumber → Bool} {retries : Nat} {c c' : CoreMap}
    {best r : Option FrameNumber} (htakable : c.frames.evictable = takable)
    (h : sampleVictim mapped retries c best = (r, c')) :
    ∃ samples : List FrameNumber, samples.length ≤ retries ∧
      c.randomFrames samples.length = (samples, c') ∧
      ((∃ f ∈ samples, r = some f ∧ takable f = true ∧ mapped f = false) ∨
        ((∀ f ∈ samples, takable f = true → mapped f = true) ∧
          r = (samples.filter takable).getLast?.or best)) := by
  induction retries generalizing c best with
  | zero =>
      obtain ⟨rfl, rfl⟩ := Prod.mk.inj h
      exact ⟨[], Nat.le_refl _, rfl, Or.inr ⟨nofun, rfl⟩⟩
  | succ retries ih =>
      obtain ⟨g, hg⟩ := c.randomFrame_snd
      have hsame : c.randomFrame.2.frames.evictable = c.frames.evictable := by rw [hg]
      have hnext : c.randomFrame.2.frames.evictable = takable := hsame.trans htakable
      simp only [sampleVictim, hsame, htakable] at h
      split at h
      · -- The frame is free, or somebody has it for good.
        rename_i hnot
        obtain ⟨samples, hlen, hdraw, hr⟩ := ih hnext h
        refine ⟨c.randomFrame.1 :: samples, Nat.succ_le_succ hlen, ?_, ?_⟩
        · simp only [List.length_cons, CoreMap.randomFrames, hdraw]
        · rw [List.filter_cons_of_neg (by simpa using hnot)]
          rcases hr with ⟨f, hf, hchosen⟩ | ⟨hall, hr⟩
          · exact Or.inl ⟨f, List.mem_cons_of_mem _ hf, hchosen⟩
          · refine Or.inr ⟨fun f hf htake => ?_, hr⟩
            rcases List.mem_cons.1 hf with rfl | hf
            · simp [htake] at hnot
            · exact hall f hf htake
      · rename_i htake
        have htake : takable c.randomFrame.1 = true := by simpa using htake
        split at h
        · -- It may be taken, but the local TLB maps it.
          rename_i hmapped
          obtain ⟨samples, hlen, hdraw, hr⟩ := ih hnext h
          refine ⟨c.randomFrame.1 :: samples, Nat.succ_le_succ hlen, ?_, ?_⟩
          · simp only [List.length_cons, CoreMap.randomFrames, hdraw]
          · rcases hr with ⟨f, hf, hchosen⟩ | ⟨hall, hr⟩
            · exact Or.inl ⟨f, List.mem_cons_of_mem _ hf, hchosen⟩
            · refine Or.inr ⟨List.forall_mem_cons.2 ⟨fun _ => hmapped, hall⟩, ?_⟩
              rw [hr, List.filter_cons_of_pos htake, List.getLast?_cons]
              cases (samples.filter takable).getLast? <;> rfl
        · rename_i hmapped
          obtain ⟨rfl, rfl⟩ := Prod.mk.inj h
          exact ⟨[c.randomFrame.1], Nat.succ_le_succ (Nat.zero_le _), rfl,
            Or.inl ⟨_, List.mem_cons_self, rfl, htake, Bool.eq_false_iff.2 hmapped⟩⟩

/-! ## The search that follows -/

/-- The search fails only if no frame may be taken. -/
theorem firstVictim_eq_none {mapped : FrameNumber → Bool} {t : FrameTable} :
    firstVictim mapped t = none ↔ ∀ f, t.evictable f = false := by
  rw [firstVictim, Option.or_eq_none_iff, List.head?_eq_none_iff, List.find?_eq_none]
  simp only [← Bool.not_eq_true, ← FrameTable.mem_candidates]
  constructor
  · rintro ⟨-, hnil⟩ f
    rw [hnil]
    exact List.not_mem_nil
  · intro hnot
    exact ⟨fun f hf => absurd hf (hnot f), List.eq_nil_iff_forall_not_mem.2 hnot⟩

/-- **It finds a frame that the local TLB maps only if that maps all that may be taken**, and then
the first. -/
theorem firstVictim_first {mapped : FrameNumber → Bool} {t : FrameTable}
    (h : firstVictim mapped t = some f) :
    t.evictable f = true ∧
      (mapped f = true → ∀ g, t.evictable g = true → mapped g = true ∧ f.val ≤ g.val) := by
  simp only [← FrameTable.mem_candidates]
  rw [firstVictim, Option.or_eq_some_iff] at h
  rcases h with h | ⟨hall, h⟩
  · refine ⟨List.mem_of_find?_eq_some h, fun hmapped => ?_⟩
    have hnot := List.find?_some h
    simp [hmapped] at hnot
  · obtain ⟨rest, hrest⟩ := List.head?_eq_some_iff.1 h
    have hascending := t.candidates_ascending
    rw [hrest] at hascending hall ⊢
    refine ⟨List.mem_cons_self, fun _ g hg => ⟨?_, ?_⟩⟩
    · simpa using List.find?_eq_none.1 hall g hg
    · rcases List.mem_cons.1 hg with rfl | hg
      · exact Nat.le_refl _
      · exact Nat.le_of_lt ((List.pairwise_cons.1 hascending).1 g hg)

/-! ## The choice -/

/-- What the choice of a frame on a processor comes to. -/
structure Chooses (s : Paging F) (tlb : TlbId) (retries : Nat)
    (r : Except PagingError FrameNumber) (t : Paging F) : Prop where
  /-- None is found exactly if none may be taken. -/
  refused : r = .error .outOfFrames ↔ ∀ f, ¬ s.Takable f
  /-- Otherwise one is found that may be taken. -/
  found : (∃ f, s.Takable f) → ∃ f, r = .ok f ∧ s.Takable f
  /-- At most as many random frames are drawn as there may be, all of them frames that the machine
  has.  If a frame is chosen that the local TLB maps, then that maps all samples that may be taken,
  and it is the last of these; or no sample may be taken, the TLB maps all frames that may, and it
  is the first of these. -/
  drawn : ∃ samples : List FrameNumber, samples.length ≤ retries ∧
    s.core.randomFrames samples.length = (samples, t.core) ∧
    (0 < s.core.frames.size → ∀ f ∈ samples, f.val < s.core.frames.size) ∧
    ∀ f, r = .ok f → s.MappedIn tlb f →
      ((∃ before after, samples = before ++ f :: after ∧ ∀ g ∈ after, ¬ s.Takable g) ∧
        ∀ g ∈ samples, s.Takable g → s.MappedIn tlb g) ∨
      ((∀ g ∈ samples, ¬ s.Takable g) ∧
        ∀ g, s.Takable g → s.MappedIn tlb g ∧ f.val ≤ g.val)
  /-- Only the generator takes note. -/
  rest : ∃ g, t = { s with core := { s.core with generator := g } }

/-- The last sample that may be taken is followed by none that may. -/
theorem last_takable {samples : List FrameNumber} {p : FrameNumber → Bool}
    (h : (samples.filter p).getLast? = some f) :
    ∃ before after, samples = before ++ f :: after ∧ ∀ g ∈ after, p g = false := by
  obtain ⟨ys, hys⟩ := List.getLast?_eq_some_iff.1 h
  obtain ⟨before, rest, rfl, -, hrest⟩ := List.filter_eq_append_iff.1 hys
  obtain ⟨skipped, after, rfl, -, -, hafter⟩ := List.filter_eq_cons_iff.1 hrest
  refine ⟨before ++ skipped, after, (List.append_assoc ..).symm, fun g hg => ?_⟩
  simpa using List.filter_eq_nil_iff.1 hafter g hg

/-- What has come of some samples: one that may be taken and is not mapped, or else the last that may
be taken, all of these being mapped. -/
def Sampled (mapped takable : FrameNumber → Bool) (samples : List FrameNumber)
    (r : Option FrameNumber) : Prop :=
  (∃ f ∈ samples, r = some f ∧ takable f = true ∧ mapped f = false) ∨
    ((∀ f ∈ samples, takable f = true → mapped f = true) ∧ r = (samples.filter takable).getLast?)

namespace Sampled

variable {mapped : FrameNumber → Bool} {table : FrameTable} {samples : List FrameNumber}
  {sampled : Option FrameNumber}

/-- Whatever is chosen may be taken. -/
theorem evictable (h : Sampled mapped table.evictable samples sampled)
    (hf : sampled.or (firstVictim mapped table) = some f) : table.evictable f = true := by
  rcases Option.or_eq_some_iff.1 hf with hf | ⟨-, hf⟩
  · rcases h with ⟨g, -, hg, htake, -⟩ | ⟨-, hlast⟩
    · rwa [Option.some.inj (hf.symm.trans hg)]
    · rw [hf] at hlast
      exact (List.mem_filter.1 (List.mem_of_getLast? hlast.symm)).2
  · exact (firstVictim_first hf).1

/-- A frame that is mapped is chosen only if no sample was any better, or no frame is. -/
theorem of_mapped (h : Sampled mapped table.evictable samples sampled)
    (hf : sampled.or (firstVictim mapped table) = some f) (hmapped : mapped f = true) :
    ((∃ before after, samples = before ++ f :: after ∧ ∀ g ∈ after, table.evictable g = false) ∧
        ∀ g ∈ samples, table.evictable g = true → mapped g = true) ∨
      ((∀ g ∈ samples, ¬ table.evictable g = true) ∧
        ∀ g, table.evictable g = true → mapped g = true ∧ f.val ≤ g.val) := by
  rcases h with ⟨g, -, rfl, -, hunmapped⟩ | ⟨hall, hlast⟩
  · obtain rfl := Option.some.inj hf
    rw [hunmapped] at hmapped
    cases hmapped
  · rw [hlast] at hf
    cases hlast' : (samples.filter table.evictable).getLast? with
    | some l =>
        rw [hlast'] at hf
        obtain rfl := Option.some.inj hf
        exact Or.inl ⟨last_takable hlast', hall⟩
    | none =>
        rw [hlast'] at hf
        exact Or.inr ⟨List.filter_eq_nil_iff.1 (List.getLast?_eq_none_iff.1 hlast'),
          (firstVictim_first hf).2 hmapped⟩

end Sampled

/-- **A frame is chosen if any may be taken, and never one that may not**, whichever random frames
are drawn and however few. -/
theorem selectVictim_chooses (s : Paging F) (tlb : TlbId) (retries : Nat) :
    Chooses s tlb retries (s.selectVictim tlb retries).1 (s.selectVictim tlb retries).2 := by
  unfold selectVictim
  dsimp only
  cases hsampled : sampleVictim (s.core.tlbs.tlb tlb).mapsFrame retries s.core none with
  | mk sampled c =>
      obtain ⟨samples, hlen, hdraw, hsamples⟩ := sampleVictim_draws rfl hsampled
      rw [Option.or_none] at hsamples
      obtain ⟨g, rfl⟩ : ∃ g, c = { s.core with generator := g } := by
        obtain ⟨g, hg⟩ := s.core.randomFrames_snd samples.length
        exact ⟨g, (congrArg Prod.snd hdraw).symm.trans hg⟩
      have hbelow : 0 < s.core.frames.size → ∀ f ∈ samples, f.val < s.core.frames.size := by
        intro hpos f hf
        have hmem : f ∈ (s.core.randomFrames samples.length).1 := by rwa [hdraw]
        exact CoreMap.randomFrames_lt hpos hmem
      dsimp only
      cases hvictim : sampled.or (firstVictim (s.core.tlbs.tlb tlb).mapsFrame s.core.frames) with
      | none =>
          obtain ⟨-, hfirst⟩ := Option.or_eq_none_iff.1 hvictim
          have hnone : ∀ f, ¬ s.Takable f := fun f => by
            rw [takable_iff, firstVictim_eq_none.1 hfirst f]
            exact Bool.false_ne_true
          exact ⟨iff_of_true rfl hnone, fun ⟨f, hf⟩ => absurd hf (hnone f),
            ⟨samples, hlen, hdraw, hbelow, nofun⟩, g, rfl⟩
      | some f =>
          have htake : s.Takable f := takable_iff.2 (Sampled.evictable hsamples hvictim)
          refine ⟨iff_of_false nofun fun hnone => hnone f htake, fun _ => ⟨f, rfl, htake⟩,
            ⟨samples, hlen, hdraw, hbelow, fun f' hf' hmapped => ?_⟩, g, rfl⟩
          obtain rfl := Except.ok.inj hf'
          simp only [takable_iff, mappedIn_iff, Bool.not_eq_true] at hmapped ⊢
          simpa only [Bool.not_eq_true] using Sampled.of_mapped hsamples hvictim hmapped

end Paging

end DemandPaging
