import DemandPaging.Proofs.Processes
import DemandPaging.Proofs.Sections
import Mathlib

/-!
# Read-only pages

A page of a read-only section may lose its frame and get another one as often as it likes: it is
never written there, never written out, and always comes back from the program.

* `Image.backing_eq` — a page of a section starts with what the program has there.
* `Kernel.AsProgrammed` — what there is to be found of a page that is read-only.
* `Machine.readOnly_of_orderly` — it is so of every such page in every orderly machine.
-/

namespace DemandPaging

open Paging

/-! ## What a page starts with -/

namespace Image

/-- Every section has all its pages. -/
theorem exists_page? {image : Image} {n : Nat} {s : Section} (hs : image.sections[n]? = some s)
    (i : Nat) : ∃ page, image.page? n i = some page := by
  cases image with
  | assembled m =>
      rw [sections, List.getElem?_map, Option.map_eq_some_iff] at hs
      obtain ⟨x, hx, -⟩ := hs
      exact ⟨x.page i, by rw [page?, hx, Option.map_some]⟩
  | elf m =>
      rw [sections, List.getElem?_map, Option.map_eq_some_iff] at hs
      obtain ⟨x, hx, -⟩ := hs
      exact ⟨x.page m.data i, by rw [page?, hx, Option.map_some]⟩

/-- **A page of a section starts with what the program has there.** -/
theorem backing_eq {image : Image} (h : Section.check image.sections = .ok ()) {n : Nat}
    {s : Section} {p : PageNumber} (hs : image.sections[n]? = some s)
    (hp : s.contains p = true) : ∃ page, image.page? n (p.val - s.first.val) = some page ∧
      image.backing p = some (page, s.readOnly) := by
  obtain ⟨page, hpage⟩ := exists_page? hs (p.val - s.first.val)
  refine ⟨page, hpage, ?_⟩
  unfold backing
  rw [sectionOf_eq_some h hs hp]
  dsimp only
  rw [hpage, Option.map_some]

end Image

/-! ## Pages of such sections -/

variable {F : Type}

/-- A page is where its program put it, or nowhere: it has no slot of the swap store, and if it is
resident, nobody has written it. -/
structure Kernel.AsProgrammed (k : Kernel F) (key : PageKey) (page : Option Page) : Prop where
  slot : k.swap.slots[key]? = none
  /-- The entry says that the page may not be written, and that it was not. -/
  entry : ∀ {e : Translation}, k.core.table[key]? = some e →
    e.flags.readOnly = true ∧ e.flags.dirty = false
  /-- So does every valid mirror of it in a TLB. -/
  mirror : ∀ {e : Translation} {id : TlbId} {i : Nat}, k.core.table[key]? = some e →
    ((k.core.tlbs.tlb id).slot i).valid = true →
    ((k.core.tlbs.tlb id).slot i).frame = e.frame →
    ((k.core.tlbs.tlb id).slot i).flags.readOnly = true ∧
      ((k.core.tlbs.tlb id).slot i).flags.dirty = false
  /-- The frame holds what the program has there. -/
  frame : ∀ {e : Translation}, k.core.table[key]? = some e →
    ∃ f, e.frame = some f ∧ page = some (k.core.memory.frame f)

namespace Machine

/-- The pages of all read-only sections of live processes are as their programs have them. -/
def ReadOnlyKept (m : Machine F) : Prop :=
  ∀ {i : ProcessNumber} {p : Process} {n : Nat} {s : Section} {q : PageNumber},
    m.process? i = some p → p.exitCode = none → p.space.image.sections[n]? = some s →
    s.readOnly = true → s.contains q = true →
    m.kernel.AsProgrammed ⟨p.pid, q⟩ (p.space.image.page? n (q.val - s.first.val))

variable [BackingFile F]

/-- What is known of a page that a tenant may not write. -/
theorem asProgrammed_of_inOrder {view : Option (FileView F)} {tenants : Pid → Option Tenant}
    {seat : TlbId → Option Pid} {k : Kernel F} (hk : k.InOrder view tenants seat) {key : PageKey}
    {T : Tenant} (hT : tenants key.pid = some T) (hsealed : T.space.isSealed key.page = true) :
    k.AsProgrammed key (some (T.space.initialPage key.page)) := by
  have hlocked : ∀ {e}, k.entry key = some e → e.flags.readOnly = true := fun he => by
    rw [hk.locked.resident he hT, hsealed]
  have hunwritten : ∀ {e}, k.entry key = some e → ¬ k.Marked .written key := fun he =>
    hk.usage.readOnly he (hlocked he)
  refine ⟨?_, fun {e} he => ?_, fun {e id i} he hv hframe => ?_, fun {e} he => ?_⟩
  · rw [Option.eq_none_iff_forall_ne_some]
    intro a ha
    rw [hk.locked.stored ha hT] at hsealed
    cases hsealed
  · exact ⟨hlocked he, Bool.eq_false_iff.2 fun hdirty =>
      hunwritten he (marked_of_entry hk.toAgrees he hdirty)⟩
  · obtain ⟨-, f, hf, -⟩ := hk.entry he
    have hmaps : (k.slot id i).maps f = true := by
      obtain ⟨g, hg⟩ := Translation.valid_iff.1 hv
      have hgf := (Translation.maps_iff.1 hg).2.symm.trans
        (hframe.trans (Translation.maps_iff.1 hf).2)
      exact Option.some.inj hgf ▸ hg
    obtain ⟨pid, d, -, hd, hbare⟩ := hk.coherent.mirrors hv
    have hdf : d.maps f = true := (Translation.maps_congr hbare f).trans hmaps
    obtain rfl := hk.toAgrees.key_unique hd he hdf hf
    obtain rfl := Option.some.inj (hd.symm.trans he)
    refine ⟨(Translation.bare_eq_iff.1 hbare).2.2.2 ▸ hlocked he, Bool.eq_false_iff.2 fun hdirty => ?_⟩
    exact hunwritten he (marked_of_slot he hf hmaps hdirty)
  · obtain ⟨-, f, hf, -⟩ := hk.entry he
    exact ⟨f, (Translation.maps_iff.1 hf).2, congrArg some (hk.intact.resident he hf hT hsealed).symm⟩

/-- **Read-only pages never change, and are never written out**, whatever tries to store there,
and however often they lose their frames. -/
theorem readOnly_of_orderly {file : F} {m : Machine F} {a : Account} (h : Orderly file m a) :
    m.ReadOnlyKept := by
  intro i p n s q hp hlive hs hro hq
  have hnone : ∀ w : FileView F, none = some w → w.good file := nofun
  obtain ⟨tenants, seat, hm⟩ := h.inOrder hnone
  obtain ⟨image, config, hmake⟩ := h.reached.named.space hp
  obtain ⟨page, hpage, hbacking⟩ := Image.backing_eq (AddressSpace.check_of_make hmake) hs hq
  have hsealed : p.space.isSealed q = true := by
    rw [AddressSpace.isSealed, hbacking]
    exact hro
  have hfirst : p.space.initialPage q = page := by rw [AddressSpace.initialPage, hbacking]
  rw [hpage, ← hfirst]
  have hT : tenants (PageKey.mk p.pid q).pid = some ⟨p.space, a.plain i⟩ := hm.tenant hp hlive
  exact asProgrammed_of_inOrder hm.kernel hT hsealed

set_option maxRecDepth 100000 in
/-- A machine with one frame, after the kernel was asked to write to the code of a program, which
then lost its frame to the stack and got it back. -/
theorem readOnly_after_refault :
    ∃ k j, Kernel.boot (.withFrames 1 1) [] (some ({} : MemoryFile)) = (.ok k, j) ∧
      (((((Machine.addCpu { kernel := k } 1).perform 0
          (.load (.assembled (({ entry := 0 } : SectionImage).withSection
            { name := "code", first := ⟨0⟩, pages := 1, readOnly := true } #[1, 2, 3])) []
              .demand)).2.perform 0 (.write 0 ⟨0⟩ #[7])).2.perform 0
                (.write 0 ⟨1024⟩ #[8])).2.perform 0 (.read 0 ⟨0⟩ 1)).2.ReadOnlyKept := by
  have hboot : Kernel.boot (.withFrames 1 1) [] (some ({} : MemoryFile)) = (.ok _, _) := rfl
  obtain ⟨_, rfl, ⟨a, h, -⟩, -⟩ := ((Orderly.boot hboot).addCpu 1).withLast.serve
    [⟨0, _, .load (.assembled (({ entry := 0 } : SectionImage).withSection
      { name := "code", first := ⟨0⟩, pages := 1, readOnly := true } #[1, 2, 3])) [] .demand⟩,
      ⟨0, _, .write 0 ⟨0⟩ #[7]⟩, ⟨0, _, .write 0 ⟨1024⟩ #[8]⟩, ⟨0, _, .read 0 ⟨0⟩ 1⟩]
    (fun _ => true) (by decide_cbv)
  exact ⟨_, _, hboot, readOnly_of_orderly h⟩

end Machine

end DemandPaging
