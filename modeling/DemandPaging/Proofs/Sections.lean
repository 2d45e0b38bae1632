import DemandPaging.AddressSpace
import Mathlib

/-!
# Sections that share no page

The check of a program looks only at neighbours, in the order of where its sections start, and
leaves out the sections that have no pages.  That is enough to find every page that two sections
share, wherever these stand in the list.

* `Section.Unshared` — no page lies in two sections of a list.
* `Section.check_eq_ok_iff` — this is what the check decides.
* `AddressSpace.Sectioned` — what is known of the sections of an address space.
* `Section.check_decides` — both, with the check being blind to the order of the list.
-/

namespace DemandPaging

namespace Section

/-! ## Runs in order -/

/-- Runs that are put in order, each ending before the next one starts, all end before any later
one starts. -/
theorem pairwise_of_apart {l : List (Nat × Nat)} (hl : ∀ a ∈ l, a.1 < a.2)
    (h : apart l = true) : l.Pairwise fun a b => a.2 ≤ b.1 := by
  induction l with
  | nil => exact .nil
  | cons a l ih =>
      cases l with
      | nil => exact List.pairwise_singleton _ _
      | cons b rest =>
          rw [apart, Bool.and_eq_true, decide_eq_true_iff] at h
          have hrest := ih (fun c hc => hl c (List.mem_cons_of_mem _ hc)) h.2
          refine List.pairwise_cons.2 ⟨fun c hc => ?_, hrest⟩
          rcases List.mem_cons.1 hc with rfl | hc
          · exact h.1
          · have hb := hl b (List.mem_cons_of_mem _ List.mem_cons_self)
            have hbc := (List.pairwise_cons.1 hrest).1 c hc
            omega

theorem apart_of_pairwise {l : List (Nat × Nat)} (h : l.Pairwise fun a b => a.2 ≤ b.1) :
    apart l = true := by
  induction l with
  | nil => rfl
  | cons a l ih =>
      cases l with
      | nil => rfl
      | cons b rest =>
          obtain ⟨hhead, hrest⟩ := List.pairwise_cons.1 h
          rw [apart, Bool.and_eq_true, decide_eq_true_iff]
          exact ⟨hhead b List.mem_cons_self, ih hrest⟩

theorem boundsLE_iff {a b : Nat × Nat} :
    boundsLE a b = true ↔ a.1 < b.1 ∨ (a.1 = b.1 ∧ a.2 ≤ b.2) := by
  simp [boundsLE]

theorem pairwise_sorted (l : List (Nat × Nat)) :
    (l.mergeSort boundsLE).Pairwise fun a b => boundsLE a b = true := by
  refine List.pairwise_mergeSort (fun a b c hab hbc => ?_) (fun a b => ?_) l
  · rw [boundsLE_iff] at hab hbc ⊢
    omega
  · rw [Bool.or_eq_true, boundsLE_iff, boundsLE_iff]
    omega

/-- **Neighbours say it all**: if each of some runs in order ends before the next one starts, any
two of them are apart, and the other way round. -/
theorem apart_sorted_iff {l : List (Nat × Nat)} (hl : ∀ a ∈ l, a.1 < a.2) :
    apart (l.mergeSort boundsLE) = true ↔ l.Pairwise fun a b => a.2 ≤ b.1 ∨ b.2 ≤ a.1 := by
  have hmem : ∀ {a}, a ∈ l.mergeSort boundsLE → a.1 < a.2 := fun ha =>
    hl _ (List.mem_mergeSort.1 ha)
  rw [← (List.mergeSort_perm l boundsLE).pairwise_iff Or.symm]
  constructor
  · intro h
    exact (pairwise_of_apart (fun a => hmem) h).imp Or.inl
  · intro h
    refine apart_of_pairwise (((pairwise_sorted l).and h).imp_of_mem fun {a b} ha hb hab => ?_)
    -- a run that comes later does not end before this one starts, since it is not empty
    have hb := hmem hb
    have hle := boundsLE_iff.1 hab.1
    omega

/-! ## Pages that are shared -/

theorem contains_iff {s : Section} {p : PageNumber} :
    s.contains p = true ↔ s.first.val ≤ p.val ∧ p.val < s.stop := by
  rw [contains, Bool.and_eq_true, decide_eq_true_iff, decide_eq_true_iff]

/-- Two sections are apart if one of them ends before the other starts, or has no pages. -/
theorem not_shared_iff {a b : Section} :
    (0 < a.pages → 0 < b.pages → a.stop ≤ b.first.val ∨ b.stop ≤ a.first.val) ↔
      ∀ p, a.contains p = true → b.contains p = true → False := by
  simp only [contains_iff, stop]
  constructor
  · intro h p hap hbp
    have hab := h (by omega) (by omega)
    omega
  · intro h ha hb
    -- unless they are apart, the later one of the two starts is a page of both
    rcases Nat.lt_or_ge b.first.val (a.first.val + a.pages) with hab | hab
    · refine Or.inr (Nat.le_of_not_lt fun hba => h ⟨max a.first.val b.first.val⟩ ?_ ?_) <;>
        exact ⟨by dsimp only; omega, by dsimp only; omega⟩
    · exact Or.inl hab

/-- The sections that are not empty are looked at two by two. -/
theorem check_eq_ok_iff_pairwise {sections : List Section} :
    check sections = .ok () ↔ sections.Pairwise fun a b => 0 < a.pages → 0 < b.pages →
      a.stop ≤ b.first.val ∨ b.stop ≤ a.first.val := by
  have hpos : ∀ a ∈ (sections.filter (0 < ·.pages)).map bounds, a.1 < a.2 := by
    intro a ha
    obtain ⟨s, hs, rfl⟩ := List.mem_map.1 ha
    have hpages := of_decide_eq_true (List.mem_filter.1 hs).2
    show s.first.val < s.first.val + s.pages
    omega
  have hcheck : check sections = .ok () ↔ disjoint sections = true := by
    unfold check
    split <;> simp_all
  rw [hcheck, disjoint, apart_sorted_iff hpos, List.pairwise_map, List.pairwise_filter]
  simp only [decide_eq_true_eq]
  exact ⟨fun h => h.imp fun hab ha hb => hab ha hb, fun h => h.imp fun hab ha hb => hab ha hb⟩

/-- No page lies in two sections that stand at different places of the list. -/
def Unshared (sections : List Section) : Prop :=
  ∀ {i j : Nat} {a b : Section} {p : PageNumber}, sections[i]? = some a → sections[j]? = some b →
    a.contains p = true → b.contains p = true → i = j

theorem unshared_iff_pairwise {sections : List Section} :
    Unshared sections ↔ sections.Pairwise fun a b => ∀ p, a.contains p = true →
      b.contains p = true → False := by
  rw [List.pairwise_iff_getElem]
  constructor
  · intro h i j hi hj hij p ha hb
    have heq := h (List.getElem?_eq_getElem hi) (List.getElem?_eq_getElem hj) ha hb
    omega
  · intro h i j a b p ha hb hap hbp
    obtain ⟨hi, rfl⟩ := List.getElem?_eq_some_iff.1 ha
    obtain ⟨hj, rfl⟩ := List.getElem?_eq_some_iff.1 hb
    rcases Nat.lt_trichotomy i j with hlt | heq | hlt
    · exact (h i j hi hj hlt p hap hbp).elim
    · exact heq
    · exact (h j i hj hi hlt p hbp hap).elim

/-- **The check accepts exactly the lists in which no page is shared.** -/
theorem check_eq_ok_iff {sections : List Section} :
    check sections = .ok () ↔ Unshared sections := by
  rw [check_eq_ok_iff_pairwise, unshared_iff_pairwise]
  simp only [not_shared_iff]

/-- It refuses all others for the same reason. -/
theorem check_eq_error_iff {sections : List Section} :
    check sections = .error .overlappingSections ↔ ¬ Unshared sections := by
  rw [← check_eq_ok_iff]
  unfold check
  split <;> simp

theorem Unshared.of_perm {sections others : List Section} (h : Unshared sections)
    (hperm : others.Perm sections) : Unshared others := by
  rw [unshared_iff_pairwise] at h ⊢
  exact (hperm.pairwise_iff fun hab p hb ha => hab p ha hb).2 h

/-- **The order of the sections does not matter.** -/
theorem check_of_perm {sections others : List Section} (hperm : others.Perm sections) :
    check others = check sections := by
  by_cases h : Unshared sections
  · rw [check_eq_ok_iff.2 h, check_eq_ok_iff.2 (h.of_perm hperm)]
  · have hothers : ¬ Unshared others := fun ho => h (ho.of_perm hperm.symm)
    rw [check_eq_error_iff.2 h, check_eq_error_iff.2 hothers]

end Section

/-! ## The section of a page -/

namespace Image

/-- A section that is found for a page is one that the page lies in. -/
theorem contains_of_sectionOf {image : Image} {n : Nat} {s : Section} {p : PageNumber}
    (h : image.sectionOf p = some (n, s)) :
    image.sections[n]? = some s ∧ s.contains p = true := by
  unfold sectionOf at h
  split at h
  · rename_i i hfind
    obtain ⟨hi, hc, -⟩ := List.findIdx?_eq_some_iff_getElem.1 hfind
    rw [List.getElem?_eq_getElem hi, Option.map_some] at h
    obtain ⟨rfl, rfl⟩ := Prod.mk.inj (Option.some.inj h)
    exact ⟨List.getElem?_eq_getElem hi, hc⟩
  · cases h

/-- The section that a page lies in is the one that is found. -/
theorem sectionOf_eq_some {image : Image} (h : Section.check image.sections = .ok ()) {n : Nat}
    {s : Section} {p : PageNumber} (hs : image.sections[n]? = some s)
    (hp : s.contains p = true) : image.sectionOf p = some (n, s) := by
  unfold sectionOf
  cases hfind : image.sections.findIdx? (·.contains p) with
  | none =>
      have hnot := List.findIdx?_eq_none_iff.1 hfind s (List.mem_of_getElem? hs)
      rw [hp] at hnot
      cases hnot
  | some i =>
      obtain ⟨hi, hc, -⟩ := List.findIdx?_eq_some_iff_getElem.1 hfind
      obtain rfl := Section.check_eq_ok_iff.1 h (List.getElem?_eq_getElem hi) hs hc hp
      dsimp only
      rw [hs, Option.map_some]

end Image

namespace AddressSpace

variable {pid : Pid} {image : Image} {config : MachineConfig} {space : AddressSpace}

theorem check_of_make (h : make pid image config = .ok space) :
    Section.check space.image.sections = .ok () := by
  unfold make at h
  split at h
  · cases h
  · rename_i hcheck
    dsimp only at h
    split at h
    · cases h
    · obtain rfl := Except.ok.inj h
      exact hcheck

theorem imagePages_of_make (h : make pid image config = .ok space) :
    space.imagePages = space.image.pageCount := by
  unfold make at h
  split at h
  · cases h
  · dsimp only at h
    split at h
    · cases h
    · obtain rfl := Except.ok.inj h
      rfl

/-- Every page of the program is told which section it lies in. -/
structure Sectioned (space : AddressSpace) : Prop where
  /-- The section that is found for a page is the one that it lies in. -/
  found : ∀ {p : PageNumber} {n : Nat} {s : Section},
    space.image.sectionOf p = some (n, s) ↔
      space.image.sections[n]? = some s ∧ s.contains p = true
  /-- It lies in no other. -/
  only : ∀ {p : PageNumber} {n k : Nat} {s t : Section},
    space.image.sectionOf p = some (n, s) → space.image.sections[k]? = some t →
      t.contains p = true → k = n ∧ t = s
  /-- It is a page of the program. -/
  below : ∀ {p : PageNumber} {n : Nat} {s : Section},
    space.image.sectionOf p = some (n, s) → p.val < space.imagePages

theorem sectioned_of_make (h : make pid image config = .ok space) : space.Sectioned where
  found := ⟨Image.contains_of_sectionOf, fun hs =>
    Image.sectionOf_eq_some (check_of_make h) hs.1 hs.2⟩
  only {p n k s t} hs ht hp := by
    have hfound := Image.sectionOf_eq_some (check_of_make h) ht hp
    exact Prod.mk.inj (Option.some.inj (hfound.symm.trans hs))
  below {p n s} hs := by
    rw [imagePages_of_make h]
    refine Nat.lt_of_not_le fun hle => ?_
    rw [Image.sectionOf_eq_none hle] at hs
    cases hs

end AddressSpace

/-- **The check of a list of sections decides whether two of them share a page**, whatever their
order and however many of them are empty.  So in an address space every page lies in the section
that is found for it and in no other. -/
theorem Section.check_decides :
    (∀ sections : List Section,
      (check sections = .ok () ↔ Unshared sections) ∧
        (check sections = .error .overlappingSections ↔ ¬ Unshared sections) ∧
        ∀ others : List Section, others.Perm sections → check others = check sections) ∧
      ∀ {pid : Pid} {image : Image} {config : MachineConfig} {space : AddressSpace},
        AddressSpace.make pid image config = .ok space → space.Sectioned :=
  ⟨fun _ => ⟨check_eq_ok_iff, check_eq_error_iff, fun _ => check_of_perm⟩,
    AddressSpace.sectioned_of_make⟩

/-- A section inside another one is noticed, although an empty one stands between their starts;
behind the other one it may stand, and the empty one may stay where it is. -/
theorem Section.nested_refused :
    check [⟨".data", ⟨7⟩, 1, false⟩, ⟨".note", ⟨5⟩, 0, false⟩, ⟨".text", ⟨0⟩, 10, true⟩] =
        .error .overlappingSections ∧
      ∃ space, AddressSpace.make 1 (.assembled
          { entry := 0
            sections := [⟨⟨".data", ⟨10⟩, 1, false⟩, #[7]⟩, ⟨⟨".note", ⟨5⟩, 0, false⟩, #[]⟩,
              ⟨⟨".text", ⟨0⟩, 10, true⟩, #[1, 2]⟩] }) (.withFrames 1 1) = .ok space ∧
        space.Sectioned := by
  refine ⟨(check_decides.1 _).2.1.2 fun h => ?_, ?_⟩
  · have hsame : 0 = 2 := @h 0 2 _ _ ⟨7⟩ rfl rfl rfl rfl
    cases hsame
  · refine (?_ : ∃ space, _ = Except.ok space).imp fun _ hmake => ⟨hmake, check_decides.2 hmake⟩
    exact ⟨_, by cbv⟩

end DemandPaging
