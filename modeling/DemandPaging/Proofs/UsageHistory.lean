import DemandPaging.Proofs.Coherence

/-!
# Usage bits and what happened

The usage bits of a page are spread over its entry and the mirrors of its frame, and are dropped
with a mirror at any time.  Taken together they say what happened to the page since it got its
frame, no more and no less.

* `History.Honest` — a page was handed to the swap store, when its frame was taken, exactly if it
  was written.
* `Paging.Exact` — usage bits say what happened, and read-only pages are never written.
* `Paging.marked_of_folded` — copies that are dropped after folding lose nothing.
* `Paging.Move.exact`, `Paging.Used.exact`, `Paging.Installed.exact` and the like — each step
  keeps the bits exact.
-/

namespace DemandPaging

/-! ## Histories -/

/-- Pages whose frames were taken were handed to the swap store exactly if they were written
since they had got their frames. -/
def History.Honest : History → Prop
  | [] => True
  | .resident _ :: rest => Honest rest
  | .accessed .. :: rest => Honest rest
  | .victim key handedOver :: rest => handedOver = History.shows rest .written key ∧ Honest rest

theorem History.shows_accessed (h : History) (key k : PageKey) (writing : Bool) (u : Usage) :
    History.shows (.accessed key writing :: h) u k = true ↔
      h.shows u k = true ∨ (k = key ∧ u.counts writing = true) := by
  rw [History.shows, Bool.or_eq_true, Bool.and_eq_true, decide_eq_true_iff, or_comm,
    eq_comm (a := key)]

namespace Paging

variable {F : Type} {s t : Paging F} {seat seat' : TlbId → Option Pid} {pid : Pid} {id : TlbId}

/-- The usage bits of resident pages say what happened to them, and read-only pages were never
written. -/
structure Exact (s : Paging F) : Prop where
  usage : ∀ {key e}, s.entry key = some e → ∀ u, s.Marked u key ↔ s.history.shows u key = true
  readOnly : ∀ {key e}, s.entry key = some e → e.flags.readOnly = true → ¬ s.Marked .written key
  honest : s.history.Honest

/-! ## When a usage shows as before -/

theorem marked_of_entry {u : Usage} {k : PageKey} {e : Translation} (hs : s.Agrees)
    (he : s.entry k = some e) (hbit : u.bit e.flags = true) : s.Marked u k := by
  obtain ⟨-, f, hf, -⟩ := hs.entry he
  exact ⟨e, f, he, hf, Or.inl hbit⟩

theorem marked_of_slot {u : Usage} {k : PageKey} {e : Translation} {f : FrameNumber} {i : Nat}
    (he : s.entry k = some e) (hf : e.maps f = true) (hm : (s.slot id i).maps f = true)
    (hbit : u.bit (s.slot id i).flags = true) : s.Marked u k :=
  ⟨e, f, he, hf, Or.inr ⟨id, i, hm, hbit⟩⟩

/-- The entry and the mirrors of the frame are the same. -/
theorem marked_of_same {u : Usage} {k : PageKey} {e : Translation} {f : FrameNumber}
    (he : s.entry k = some e) (he' : t.entry k = some e) (hf : e.maps f = true)
    (hslot : ∀ id i, (t.slot id i).maps f = true ∨ (s.slot id i).maps f = true →
      t.slot id i = s.slot id i) : t.Marked u k ↔ s.Marked u k := by
  rw [marked_iff he hf, marked_iff he' hf]
  refine or_congr_right ⟨?_, ?_⟩
  · rintro ⟨id, i, hm, hbit⟩
    have hsame := hslot id i (Or.inl hm)
    rw [hsame] at hm hbit
    exact ⟨id, i, hm, hbit⟩
  · rintro ⟨id, i, hm, hbit⟩
    have hsame := hslot id i (Or.inr hm)
    rw [← hsame] at hm hbit
    exact ⟨id, i, hm, hbit⟩

/-- A mirror of another frame outlives a shootdown. -/
theorem slot_of_shot {a b : Translation} {f g : FrameNumber}
    (h : b = if a.maps f = true then a.invalidate else a) (hgf : g ≠ f)
    (hm : b.maps g = true ∨ a.maps g = true) : b = a := by
  split at h
  · rename_i ha
    subst h
    rcases hm with hm | hm
    · cases hm
    · exact absurd (Translation.maps_unique hm ha) hgf
  · exact h

/-- **What is folded before it is dropped is not lost, and nothing is made up.**  Some copies of
one TLB are folded into the entries of the process that it works for; then slots may be dropped
that held one of them, and slots may get copies of entries. -/
theorem marked_of_folded {copies : List Translation} (hs : s.Agrees) (hc : s.Coherent seat)
    (hentry : ∀ k, t.entry k =
      if k.pid = pid then (s.entry k).map (·.absorb (holding copies k.page)) else s.entry k)
    (hcopies : ∀ c ∈ copies, c.valid = true → ∃ n, s.slot id n = c)
    (hseat : ∀ p, seat id = some p → p = pid)
    (hnew : ∀ {j n}, (t.slot j n).valid = true →
      t.slot j n = s.slot j n ∨ ∃ k, s.entry k = some (t.slot j n))
    (hold : ∀ {j n}, (s.slot j n).valid = true →
      t.slot j n = s.slot j n ∨ (j = id ∧ s.slot j n ∈ copies)) (u : Usage) {k : PageKey}
    {e : Translation} (he : s.entry k = some e) : t.Marked u k ↔ s.Marked u k := by
  obtain ⟨-, f, hf, -⟩ := hs.entry he
  obtain ⟨e', he', hbare⟩ := exists_bare (fun k => bare_of_absorb (hentry k)) he
  have hf' : e'.maps f = true := by rwa [Translation.maps_congr hbare]
  -- the entry has the bits that it had, and those of copies of it that were folded
  have hbits : u.bit e'.flags = true ↔ u.bit e.flags = true ∨
      (k.pid = pid ∧ ∃ c ∈ copies, c.valid = true ∧ c.page = k.page ∧
        PageTable.current e c = true ∧ u.bit c.flags = true) := by
    have hk := hentry k
    rw [he, he'] at hk
    split at hk
    · rename_i hpid
      obtain rfl := Option.some.inj hk
      rw [Translation.bit_absorb]
      refine or_congr_right ⟨?_, ?_⟩
      · rintro ⟨c, hmem, hcur, hbit⟩
        obtain ⟨hc, hv, hpage⟩ := mem_holding.1 hmem
        exact ⟨hpid, c, hc, hv, hpage, hcur, hbit⟩
      · rintro ⟨-, c, hc, hv, hpage, hcur, hbit⟩
        exact ⟨c, mem_holding.2 ⟨hc, hv, hpage⟩, hcur, hbit⟩
    · rename_i hpid
      obtain rfl := Option.some.inj hk
      exact ⟨Or.inl, fun h => h.elim (fun h => h) fun h => absurd h.1 hpid⟩
  constructor
  · rw [marked_iff he' hf', hbits]
    rintro ((hbit | ⟨-, c, hmem, hv, -, hcur, hbit⟩) | ⟨j, n, hm, hbit⟩)
    · exact marked_of_entry hs he hbit
    · obtain ⟨n, rfl⟩ := hcopies c hmem hv
      refine marked_of_slot he hf (Translation.maps_iff.2 ⟨?_, ?_⟩) hbit
      · rw [Translation.valid, Bool.and_eq_true] at hv
        exact hv.1
      · rw [← (Translation.current_iff.1 hcur).1]
        exact (Translation.maps_iff.1 hf).2
    · rcases hnew (Translation.valid_of_maps hm) with hsame | ⟨k', hk'⟩
      · rw [hsame] at hm hbit
        exact marked_of_slot he hf hm hbit
      · obtain rfl := hs.key_unique he hk' hf hm
        obtain rfl := Option.some.inj (he.symm.trans hk')
        exact marked_of_entry hs he hbit
  · rw [marked_iff he hf]
    rintro (hbit | ⟨j, n, hm, hbit⟩)
    · exact ⟨e', f, he', hf', Or.inl (hbits.2 (Or.inl hbit))⟩
    · have hv := Translation.valid_of_maps hm
      rcases hold hv with hsame | ⟨rfl, hmem⟩
      · rw [← hsame] at hm hbit
        exact marked_of_slot he' hf' hm hbit
      · obtain ⟨p, d, hp, hd, hdb⟩ := hc.mirrors hv
        have hdf : d.maps f = true := by rwa [Translation.maps_congr hdb]
        obtain rfl := hs.key_unique he hd hf hdf
        obtain rfl := Option.some.inj (he.symm.trans hd)
        obtain ⟨hpage, hframe, -, -⟩ := Translation.bare_eq_iff.1 hdb
        refine ⟨e', f, he', hf', Or.inl (hbits.2 (Or.inr ⟨hseat p hp, _, hmem, hv, rfl, ?_, hbit⟩))⟩
        exact Translation.current_iff.2 ⟨hframe, hpage⟩

/-! ## Steps that keep the bits as they are -/

/-- A step by which no page that stays resident is used. -/
theorem Exact.of_marked (hs : s.Exact)
    (hentry : ∀ {k e'}, t.entry k = some e' → ∃ e, s.entry k = some e ∧
      e.flags.readOnly = e'.flags.readOnly ∧ ∀ u, t.Marked u k ↔ s.Marked u k)
    (hshows : ∀ u k, t.history.shows u k = s.history.shows u k) (hhonest : t.history.Honest) :
    t.Exact := by
  refine ⟨fun {k e'} he' u => ?_, fun {k e'} he' hro => ?_, hhonest⟩
  · obtain ⟨e, he, -, hmarked⟩ := hentry he'
    rw [hmarked, hshows, hs.usage he]
  · obtain ⟨e, he, hread, hmarked⟩ := hentry he'
    rw [hmarked]
    exact hs.readOnly he (hread.trans hro)

theorem Still.marked (h : Still s t) (u : Usage) (k : PageKey) : t.Marked u k ↔ s.Marked u k := by
  simp only [Marked, h.entry, h.slot]

theorem Still.exact (h : Still s t) (hs : s.Exact) : t.Exact := by
  refine hs.of_marked (fun {k e'} he' => ⟨e', (h.entry k).symm.trans he', rfl, fun u => h.marked u k⟩)
    (fun u k => by rw [h.history]) ?_
  rw [h.history]
  exact hs.honest

theorem Recalled.marked {key : PageKey} {f : FrameNumber} (h : Recalled s t key f) (hs : s.Agrees)
    (u : Usage) {k : PageKey} {e : Translation} (he : s.entry k = some e) :
    t.Marked u k ↔ s.Marked u k := by
  by_cases hk : k = key
  · subst hk
    obtain ⟨e', he', hbare, hbit⟩ := h.entry e he
    obtain ⟨d, hd, hdf⟩ := hs.owned h.held
    obtain rfl := Option.some.inj (he.symm.trans hd)
    rw [← hbit u, marked_iff he' (by rwa [Translation.maps_congr hbare])]
    constructor
    · rintro (hbit | ⟨id, i, hm, -⟩)
      · exact hbit
      · exact absurd rfl (maps_of_slot_shot (h.slot id i) hm).2.2
    · exact Or.inl
  · obtain ⟨-, g, hg, hgk⟩ := hs.entry he
    have hgf : g ≠ f := by
      rintro rfl
      rw [h.held] at hgk
      exact hk (Option.some.inj hgk).symm
    exact marked_of_same he ((h.entry_ne k hk).trans he) hg fun id i => slot_of_shot (h.slot id i) hgf

theorem Recalled.exact {key : PageKey} {f : FrameNumber} (h : Recalled s t key f) (hs : s.Exact)
    (ha : s.Agrees) : t.Exact := by
  refine hs.of_marked (fun {k e'} he' => ?_) (fun u k => by rw [h.history]) (h.history ▸ hs.honest)
  have hbare := h.bare ha k
  rw [he', Option.map_some, eq_comm, Option.map_eq_some_iff] at hbare
  obtain ⟨e, he, hb⟩ := hbare
  exact ⟨e, he, (Translation.bare_eq_iff.1 hb).2.2.2, fun u => h.marked ha u he⟩

theorem Vacated.marked {key : PageKey} {f : FrameNumber} (h : Vacated s t key f) (hs : s.Agrees)
    (u : Usage) {k : PageKey} {e : Translation} (he : t.entry k = some e) :
    s.entry k = some e ∧ (t.Marked u k ↔ s.Marked u k) := by
  have he' := he
  rw [h.entry] at he'
  split at he'
  · cases he'
  · rename_i hk
    obtain ⟨-, g, hg, hgk⟩ := hs.entry he'
    have hgf : g ≠ f := by
      rintro rfl
      rw [h.held] at hgk
      exact hk (Option.some.inj hgk).symm
    exact ⟨he', marked_of_same he' he hg fun id i => slot_of_shot (h.slot id i) hgf⟩

/-- The usage of a page shows as before when another process loses pages. -/
theorem Lost.marked (h : Lost s t pid) (hs : s.Agrees) (u : Usage) {k : PageKey} {e : Translation}
    (hpid : k.pid ≠ pid) (he : s.entry k = some e) : t.Marked u k ↔ s.Marked u k := by
  have he' : t.entry k = some e := ((h.entry k).resolve_right fun hgone => hpid hgone.1).trans he
  obtain ⟨-, f, hf, -⟩ := hs.entry he
  refine marked_of_same he he' hf fun id i hm => ?_
  rcases hm with hm | hm
  · exact h.slot (Translation.valid_of_maps hm)
  · rcases h.kept (Translation.valid_of_maps hm) with hsame | ⟨key, d, g, hkey, hd, hdg, hg⟩
    · exact hsame
    · obtain rfl := Translation.maps_unique hm hg
      obtain rfl := hs.key_unique he hd hf hdg
      exact absurd hkey hpid

theorem Gone.marked (h : Gone s t pid) (hs : s.Agrees) (u : Usage) {k : PageKey} {e : Translation}
    (he : t.entry k = some e) : t.Marked u k ↔ s.Marked u k := by
  refine h.toLost.marked hs u (fun hk => ?_) (h.entry_some he)
  rw [h.absent k hk] at he
  cases he

theorem Gone.exact (h : Gone s t pid) (hs : s.Exact) (ha : s.Agrees) : t.Exact :=
  hs.of_marked (fun {k e'} he' => ⟨e', h.entry_some he', rfl, fun u => h.marked ha u he'⟩)
    (fun u k => by rw [h.history]) (h.history ▸ hs.honest)

/-- **A frame is taken from a page**, and the page is handed to the swap store exactly if it was
written. -/
theorem Exact.handed_eq (hs : s.Exact) {key : PageKey} {e : Translation} {f : FrameNumber}
    (he : s.entry key = some e) (hef : e.maps f = true)
    (halone : ∀ id i, (s.slot id i).maps f = false) :
    e.needsWriteback = s.history.shows .written key := by
  rw [Bool.eq_iff_iff, ← hs.usage he, marked_iff he hef, Translation.needsWriteback,
    Bool.and_eq_true, Bool.not_eq_true']
  constructor
  · exact fun h => Or.inl h.1
  · rintro (hbit | ⟨id, i, hm, -⟩)
    · refine ⟨hbit, Bool.eq_false_iff.2 fun hro => hs.readOnly he hro ?_⟩
      exact ⟨e, f, he, hef, Or.inl hbit⟩
    · rw [halone] at hm
      cases hm

/-! ## Steps on TLBs -/

theorem Exact.of_folded {copies : List Translation} (hs : s.Exact) (ha : s.Agrees)
    (hc : s.Coherent seat)
    (hentry : ∀ k, t.entry k =
      if k.pid = pid then (s.entry k).map (·.absorb (holding copies k.page)) else s.entry k)
    (hcopies : ∀ c ∈ copies, c.valid = true → ∃ n, s.slot id n = c)
    (hseat : ∀ p, seat id = some p → p = pid)
    (hnew : ∀ {j n}, (t.slot j n).valid = true →
      t.slot j n = s.slot j n ∨ ∃ k, s.entry k = some (t.slot j n))
    (hold : ∀ {j n}, (s.slot j n).valid = true →
      t.slot j n = s.slot j n ∨ (j = id ∧ s.slot j n ∈ copies))
    (hhistory : t.history = s.history) : t.Exact := by
  refine hs.of_marked (fun {k e'} he' => ?_) (fun u k => by rw [hhistory]) (hhistory ▸ hs.honest)
  have hbare := bare_of_absorb (hentry k)
  rw [he', Option.map_some, eq_comm, Option.map_eq_some_iff] at hbare
  obtain ⟨e, he, hb⟩ := hbare
  exact ⟨e, he, (Translation.bare_eq_iff.1 hb).2.2.2, fun u =>
    marked_of_folded ha hc hentry hcopies hseat hnew hold u he⟩

theorem Installed.exact {e : Translation} {i : Nat} (h : Installed s t id pid e i) (hs : s.Exact)
    (ha : s.Agrees) (hc : s.Coherent seat) (hid : seat id = some pid) {key : PageKey}
    (he : s.entry key = some e) : t.Exact := by
  refine hs.of_folded ha hc h.entry (fun c hmem _ => ?_)
    (fun p hp => Option.some.inj (hp.symm.trans hid)) (fun {j n} _ => ?_) (fun {j n} _ => ?_) h.history
  · exact ⟨i, (List.mem_singleton.1 hmem).symm⟩
  · rw [h.slot]
    split
    · exact Or.inr ⟨key, he⟩
    · exact Or.inl rfl
  · by_cases hjn : j = id ∧ n = i
    · obtain ⟨rfl, rfl⟩ := hjn
      exact Or.inr ⟨rfl, List.mem_singleton.2 rfl⟩
    · exact Or.inl ((h.slot j n).trans (if_neg hjn))

theorem Saved.exact (h : Saved s t id pid) (hs : s.Exact) (ha : s.Agrees) (hc : s.Coherent seat)
    (hid : ∀ p, seat id = some p → p = pid) : t.Exact := by
  refine hs.of_folded ha hc h.entry (fun c hmem hv => (mem_slots_iff hv).1 hmem) hid
    (fun {j n} hv => ?_) (fun {j n} hv => ?_) h.history
  · by_cases hj : j = id
    · subst hj
      rw [h.slot] at hv
      cases hv
    · exact Or.inl (h.slot_ne j n hj)
  · by_cases hj : j = id
    · subst hj
      exact Or.inr ⟨rfl, (mem_slots_iff hv).2 ⟨n, rfl⟩⟩
    · exact Or.inl (h.slot_ne j n hj)

theorem Restored.exact {pages : List (Option PageNumber)} (h : Restored s t id pid pages)
    (hs : s.Exact) (ha : s.Agrees) (hc : s.Coherent seat)
    (hempty : ∀ n, (s.slot id n).valid = false) : t.Exact := by
  -- nobody works on the TLB yet, so nothing has to be folded
  have hc' : s.Coherent fun j => if j = id then none else seat j := by
    refine hc.congr fun j => ?_
    by_cases hj : j = id
    · exact Or.inr fun i => hj ▸ hempty i
    · exact Or.inl (if_neg hj)
  have hentry : ∀ k, t.entry k =
      if k.pid = pid then (s.entry k).map (·.absorb (holding [] k.page)) else s.entry k := by
    intro k
    rw [h.entry]
    split
    · cases s.entry k <;> rfl
    · rfl
  have hseat : ∀ p, (if id = id then none else seat id) = some p → p = pid := by
    intro p hp
    rw [if_pos rfl] at hp
    cases hp
  refine hs.of_folded ha hc' hentry (fun c hmem => by cases hmem) hseat (fun {j n} hv => ?_)
    (fun {j n} hv => ?_) h.history
  · by_cases hj : j = id
    · subst hj
      obtain ⟨p, -, he⟩ := h.slot_of_valid ha hv
      exact Or.inr ⟨_, he⟩
    · exact Or.inl (h.slot_ne j n hj)
  · by_cases hj : j = id
    · subst hj
      rw [hempty] at hv
      cases hv
    · exact Or.inl (h.slot_ne j n hj)

/-- Clearing a TLB that holds nothing loses nothing. -/
theorem Cleared.exact (h : Cleared s t id) (hs : s.Exact) (ha : s.Agrees)
    (hempty : ∀ n, (s.slot id n).valid = false) : t.Exact := by
  refine hs.of_marked (fun {k e'} he' => ?_) (fun u k => by rw [h.history]) (h.history ▸ hs.honest)
  have he : s.entry k = some e' := (h.entry k).symm.trans he'
  obtain ⟨-, f, hf, -⟩ := ha.entry he
  refine ⟨e', he, rfl, fun u => marked_of_same he he' hf fun j n hm => ?_⟩
  have hslot := h.slot j n
  split at hslot
  · rename_i hj
    subst hj
    rcases hm with hm | hm
    · rw [hslot, Translation.maps_invalidate] at hm
      cases hm
    · have hv := hempty n
      rw [Translation.valid_of_maps hm] at hv
      cases hv
  · exact hslot

/-! ## Accesses -/

/-- An access shows from now on, and nothing else changes. -/
theorem Exact.of_access (hs : s.Exact) {key : PageKey} {writing : Bool}
    (hentry : ∀ {k e'}, t.entry k = some e' → ∃ e, s.entry k = some e ∧
      e.flags.readOnly = e'.flags.readOnly)
    (hmarked : ∀ u {k e}, s.entry k = some e →
      (t.Marked u k ↔ s.Marked u k ∨ (k = key ∧ u.counts writing = true)))
    (hwritable : ∀ e, s.entry key = some e → ¬ (writing = true ∧ e.flags.readOnly = true))
    (hhistory : t.history = .accessed key writing :: s.history) : t.Exact := by
  refine ⟨fun {k e'} he' u => ?_, fun {k e'} he' hro => ?_, hhistory ▸ hs.honest⟩
  · obtain ⟨e, he, -⟩ := hentry he'
    rw [hmarked u he, hs.usage he, hhistory, History.shows_accessed]
  · obtain ⟨e, he, hread⟩ := hentry he'
    rw [hmarked .written he]
    rintro (hold | ⟨rfl, hw⟩)
    · exact hs.readOnly he (hread.trans hro) hold
    · exact hwritable e he ⟨hw, hread.trans hro⟩

/-- A copy that is used is one of the entry of its page. -/
theorem Coherent.entry_of_slot (hc : s.Coherent seat) {key : PageKey} {i : Nat} {f : FrameNumber}
    (hslot : (s.slot id i).maps f = true) (hid : seat id = some key.pid)
    (hpage : (s.slot id i).page = key.page) :
    ∃ d, s.entry key = some d ∧ d.bare = (s.slot id i).bare ∧ d.maps f = true := by
  obtain ⟨p, d, hp, hd, hbare⟩ := hc.mirrors (Translation.valid_of_maps hslot)
  obtain rfl := Option.some.inj (hid.symm.trans hp)
  rw [hpage] at hd
  exact ⟨d, hd, hbare, by rwa [Translation.maps_congr hbare]⟩

/-- **An access through a TLB sets the bits of a mirror.** -/
theorem Used.marked {key : PageKey} {i : Nat} {f : FrameNumber} {writing : Bool} {page : Page}
    (h : Used s t key id i f writing page) (ha : s.Agrees) {d : Translation}
    (hd : s.entry key = some d) (hdf : d.maps f = true) (hslot : (s.slot id i).maps f = true)
    (u : Usage) {k : PageKey} {e : Translation} (he : s.entry k = some e) :
    t.Marked u k ↔ s.Marked u k ∨ (k = key ∧ u.counts writing = true) := by
  have he' : t.entry k = some e := (h.entry k).trans he
  obtain ⟨-, g, hg, -⟩ := ha.entry he
  rw [marked_iff he hg, marked_iff he' hg, or_assoc]
  refine or_congr_right ⟨?_, ?_⟩
  · rintro ⟨j, n, hm, hbit⟩
    rw [h.slot] at hm hbit
    split at hm
    · rename_i hjn
      rw [if_pos hjn, Translation.bit_touch, Bool.or_eq_true] at hbit
      rcases hbit with hbit | hbit
      · exact Or.inl ⟨j, n, hm, hbit⟩
      · obtain ⟨rfl, rfl⟩ := hjn
        obtain rfl := Translation.maps_unique hslot hm
        exact Or.inr ⟨ha.key_unique he hd hg hdf, hbit⟩
    · rename_i hjn
      rw [if_neg hjn] at hbit
      exact Or.inl ⟨j, n, hm, hbit⟩
  · rintro (⟨j, n, hm, hbit⟩ | ⟨rfl, hbit⟩)
    · refine ⟨j, n, ?_⟩
      rw [h.slot]
      split
      · exact ⟨hm, by rw [Translation.bit_touch, hbit, Bool.true_or]⟩
      · exact ⟨hm, hbit⟩
    · obtain rfl := Option.some.inj (he.symm.trans hd)
      obtain rfl := Translation.maps_unique hg hdf
      refine ⟨id, i, ?_⟩
      rw [h.slot, if_pos ⟨rfl, rfl⟩]
      exact ⟨hslot, by rw [Translation.bit_touch, hbit, Bool.or_true]⟩

theorem Used.exact {key : PageKey} {i : Nat} {f : FrameNumber} {writing : Bool} {page : Page}
    (h : Used s t key id i f writing page) (hs : s.Exact) (ha : s.Agrees) (hc : s.Coherent seat)
    (hslot : (s.slot id i).maps f = true) (hid : seat id = some key.pid)
    (hpage : (s.slot id i).page = key.page)
    (hro : ¬ (writing = true ∧ (s.slot id i).flags.readOnly = true)) : t.Exact := by
  obtain ⟨d, hd, hbare, hdf⟩ := hc.entry_of_slot hslot hid hpage
  refine hs.of_access (fun {k e'} he' => ⟨e', (h.entry k).symm.trans he', rfl⟩)
    (fun u {k e} he => h.marked ha hd hdf hslot u he) (fun e he => ?_) h.history
  obtain rfl := Option.some.inj (he.symm.trans hd)
  rw [(Translation.bare_eq_iff.1 hbare).2.2.2]
  exact hro

/-- **An access by the kernel sets the bits of the entry.** -/
theorem Copied.marked {key : PageKey} {f : FrameNumber} {writing : Bool} {page : Page}
    (h : Copied s t key f writing page) (ha : s.Agrees) (u : Usage) {k : PageKey} {e : Translation}
    (he : s.entry k = some e) :
    t.Marked u k ↔ s.Marked u k ∨ (k = key ∧ u.counts writing = true) := by
  obtain ⟨-, g, hg, -⟩ := ha.entry he
  by_cases hk : k = key
  · have he' : t.entry k = some (e.touch writing) := by rw [h.entry, if_pos hk, he, Option.map_some]
    rw [marked_iff he hg, marked_iff he' hg, Translation.bit_touch, Bool.or_eq_true]
    simp only [h.slot, hk, true_and]
    rw [or_assoc, or_assoc]
    exact or_congr_right or_comm
  · have he' : t.entry k = some e := by rw [h.entry, if_neg hk, he]
    rw [marked_iff he hg, marked_iff he' hg]
    simp only [h.slot, hk, false_and, or_false]

theorem Copied.exact {key : PageKey} {f : FrameNumber} {writing : Bool} {page : Page}
    (h : Copied s t key f writing page) (hs : s.Exact) (ha : s.Agrees) {d : Translation}
    (hd : s.entry key = some d) (hro : ¬ (writing = true ∧ d.flags.readOnly = true)) :
    t.Exact := by
  refine hs.of_access (fun {k e'} he' => ?_)
    (fun u {k e} he => h.marked ha u he) (fun e he => ?_) h.history
  · rw [h.entry] at he'
    split at he'
    · obtain ⟨e, he, rfl⟩ := Option.map_eq_some_iff.1 he'
      exact ⟨e, he, rfl⟩
    · exact ⟨e', he', rfl⟩
  · obtain rfl := Option.some.inj (he.symm.trans hd)
    exact hro

/-! ## Steps of the pager -/

variable [BackingFile F] {space : AddressSpace} {pinned : Bool}

theorem Filled.exact {p : PageNumber} {f : FrameNumber} {pinned readOnly : Bool} {page : Page}
    (h : Filled s t space p f pinned page readOnly) (hs : s.Exact) (ha : s.Agrees) : t.Exact := by
  -- the page starts anew: its bits are clear, and no TLB mirrors a frame that was free
  have hnew : ∀ u, ¬ t.Marked u (space.key p) := by
    intro u
    have he : t.entry (space.key p) = some _ := (h.entry _).trans (if_pos rfl)
    rw [marked_iff he (Translation.maps_iff.2 ⟨rfl, rfl⟩)]
    rintro (hbit | ⟨id, i, hm, -⟩)
    · cases u <;> cases hbit
    · rw [h.slot] at hm
      obtain ⟨-, key, hkey, -⟩ := ha.mirror hm
      rw [holder_eq_none.2 h.free] at hkey
      cases hkey
  have hold : ∀ {k e'}, k ≠ space.key p → t.entry k = some e' →
      s.entry k = some e' ∧ ∀ u, t.Marked u k ↔ s.Marked u k := by
    intro k e' hk he'
    have he : s.entry k = some e' := by rwa [h.entry, if_neg hk] at he'
    obtain ⟨-, g, hg, -⟩ := ha.entry he
    exact ⟨he, fun u => marked_of_same he he' hg fun id i _ => h.slot id i⟩
  refine ⟨fun {k e'} he' u => ?_, fun {k e'} he' hro => ?_, h.history ▸ hs.honest⟩
  · rw [h.history, History.shows]
    by_cases hk : k = space.key p
    · subst hk
      rw [if_pos rfl]
      exact ⟨fun hm => absurd hm (hnew u), fun hm => by cases hm⟩
    · obtain ⟨he, hmarked⟩ := hold hk he'
      rw [if_neg (Ne.symm hk), hmarked, hs.usage he]
  · by_cases hk : k = space.key p
    · subst hk
      exact hnew _
    · obtain ⟨he, hmarked⟩ := hold hk he'
      rw [hmarked]
      exact hs.readOnly he hro

/-- **Whatever step the pager takes, usage bits stay exact.** -/
theorem Move.exact (h : Move space pinned s t) (hs : s.Exact) (ha : s.Agrees) : t.Exact := by
  cases h with
  | quiet h => exact h.toStill.exact hs
  | recalled h => exact h.exact hs ha
  | evicted h =>
      obtain ⟨e, he, hdirty⟩ := h.dirty
      obtain ⟨d, hd, hdf⟩ := ha.owned h.held
      obtain rfl := Option.some.inj (he.symm.trans hd)
      refine hs.of_marked (fun {k e'} he' => ?_) (fun u k => by rw [h.history]; rfl) ?_
      · exact ⟨e', (h.toVacated.marked ha .written he').1, rfl, fun u =>
          (h.toVacated.marked ha u he').2⟩
      · rw [h.history]
        exact ⟨hdirty.symm.trans (hs.handed_eq he hdf h.alone), hs.honest⟩
  | kept h =>
      obtain ⟨e, he, hdirty⟩ := h.dirty
      obtain ⟨d, hd, hdf⟩ := ha.owned h.held
      obtain rfl := Option.some.inj (he.symm.trans hd)
      refine hs.of_marked (fun {k e'} he' => ⟨e', (h.entry k).symm.trans he', rfl, fun u => ?_⟩)
        (fun u k => by rw [h.history]; rfl) ?_
      · simp only [Marked, h.entry, h.slot]
      · rw [h.history]
        exact ⟨hdirty.symm.trans (hs.handed_eq he hdf h.alone), hs.honest⟩
  | filled h => exact h.exact hs ha
  | spoiled h =>
      refine hs.of_marked (fun {k e'} he' => ⟨e', (h.entry k).symm.trans he', rfl, fun u => ?_⟩)
        (fun u k => by rw [h.history]) (h.history ▸ hs.honest)
      simp only [Marked, h.entry, h.slot]

end Paging

end DemandPaging
