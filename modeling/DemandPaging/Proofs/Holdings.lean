import DemandPaging.Proofs.Extents
import DemandPaging.Proofs.Pinned
import DemandPaging.Proofs.TornDown

/-!
# What a live process has

The bytes of a live process are where the tables say: in the frames of its resident pages, and for
the others in the swap file or in the program.  A process that was to have all its pages from the
start has them for as long as it lives.

* `Paging.byteAt` — the byte of a process at an address, wherever its page is.
* `Machine.Orderly.stocked` — a live process has the pages that it is to have.
* `Machine.Orderly.lives` — what is known of a live process of an orderly machine.
* `Machine.Orderly.byteAt_eq` — its bytes are those of its plain memory.
-/

namespace DemandPaging

open Paging

variable {F : Type}

/-! ## Bytes -/

/-- An address lies in a space if it comes before its end. -/
theorem AddressSpace.contains_page {space : AddressSpace} {a : VirtAddr} :
    space.contains a.page = true ↔ a.val < space.pageCount * pageSize := by
  rw [contains, decide_eq_true_eq]
  exact Nat.div_lt_iff_lt_mul (by decide)

namespace Paging

variable [BackingFile F] {s : Paging F} {w : FileView F} {tenants : Pid → Option Tenant}
  {seat : TlbId → Option Pid} {space : AddressSpace} {memory : Memory} {a : VirtAddr}

/-- The byte of a process at an address, wherever its page is. -/
def byteAt (w : FileView F) (s : Paging F) (space : AddressSpace) (a : VirtAddr) : UInt8 :=
  (s.contents w space (space.key a.page)).get ⟨a.offset, a.offset_lt⟩

/-- The pages of a tenant hold what his plain memory has there. -/
theorem InOrder.contents_eq (hs : s.InOrder (some w) tenants seat)
    (hT : tenants space.pid = some ⟨space, memory⟩) {p : PageNumber} (hp : p.val < space.pageCount) :
    s.contents w space (space.key p) = memory.frame ⟨p.val⟩ := by
  have hfaithful := hs.faithful rfl
  cases he : s.entry (space.key p) with
  | none =>
      have hclean : s.Clean (space.key p) := fun e he' => nomatch he.symm.trans he'
      rw [contents_of_absent he]
      exact hfaithful.stored hT hp hclean
  | some e =>
      obtain ⟨-, f, hf, -⟩ := hs.entry he
      rw [contents_of_maps he hf]
      exact hfaithful.resident he hf hT

theorem InOrder.byteAt_eq (hs : s.InOrder (some w) tenants seat)
    (hT : tenants space.pid = some ⟨space, memory⟩) (ha : a.val < space.pageCount * pageSize) :
    s.byteAt w space a = memory.byte ⟨a.val⟩ := by
  have hp : a.page.val < space.pageCount := of_decide_eq_true (AddressSpace.contains_page.2 ha)
  rw [byteAt, hs.contents_eq hT hp, ← a.page_mul_add_offset]
  exact memory.getElem_frame a.page.val a.offset a.offset_lt

end Paging

/-! ## Live processes -/

namespace Machine

variable [BackingFile F] {m m' : Machine F} {a b : Account} {file : F} {w : FileView F}
  {cpu : CpuNumber} {i : ProcessNumber} {p q : Process} {address : VirtAddr}

/-- **A live process has the pages that it is to have**: all of them, if it was loaded so. -/
theorem Orderly.stocked (h : Orderly file m a) (hp : m.process? i = some p)
    (hlive : p.exitCode = none) : m.kernel.Stocked p.space p.strategy := by
  induction h generalizing p with
  | boot => cases hp
  | addCpu _ slots ih =>
      intro heager
      obtain ⟨place, hplace⟩ := ih hp hlive heager
      exact ⟨place, hplace.of_same (fun _ => rfl) rfl rfl⟩
  | found _ _ _ _ _ ih => exact ih hp hlive
  | @perform n n' a cpu α request r h hpermits hstep ih =>
      have hn := h.reached
      have hevolves := perform_evolves hn.consistent hstep
      rcases becomes_of_perform hn.consistent hstep hp with ⟨q, hq, hqp⟩ |
        ⟨-, tlb, image, strategy, hloaded⟩
      · have hqlive : q.exitCode = none := by
          by_contra hexit
          exact hqp.exited hexit hlive
        have hkeeps : ¬ request.evicts q.pid := by
          intro hevicts
          cases request <;> first | exact hevicts | exact hpermits
        have hpid : q.space.pid = q.pid := by
          obtain ⟨image, config, hmake⟩ := hn.named.space hq
          exact Kernel.space_pid_of_make hmake
        have hnot : ¬ n.fates n' request (.loses q.pid) :=
          not_loses hn.named hn.sound_pids hq hkeeps (isLive_iff.2 ⟨p, hp, hlive⟩)
        rw [hqp.space, hqp.strategy]
        exact hevolves.changes.stocked hn.consistent (hpid.symm ▸ hnot) (ih hq hqlive)
      · intro heager
        obtain rfl : strategy = .eager := hloaded.strategy.symm.trans heager
        have hpid : p.space.pid = p.pid := Kernel.space_pid_of_make hloaded.space
        obtain ⟨place, hplace⟩ := hloaded.preloaded hn.consistent
        exact ⟨place, hpid ▸ hplace⟩

/-- What is known of a live process of an orderly machine. -/
structure Lives (w : FileView F) (tenants : Pid → Option Tenant) (seat : TlbId → Option Pid)
    (a : Account) (m : Machine F) (i : ProcessNumber) (p : Process) : Prop where
  inOrder : m.InOrder (some w) tenants seat a
  tenant : tenants p.pid = some ⟨p.space, a.plain i⟩
  pid : p.space.pid = p.pid
  stocked : m.kernel.Stocked p.space p.strategy
  fits : p.space.pageCount * pageSize ≤ maxUserAddr

theorem Orderly.lives (h : Orderly file m a) (hgood : w.good file) (hp : m.process? i = some p)
    (hlive : p.exitCode = none) : ∃ tenants seat, Lives w tenants seat a m i p := by
  have hview : ∀ v, some w = some v → v.good file := fun v hv => Option.some.inj hv ▸ hgood
  obtain ⟨tenants, seat, hm⟩ := h.inOrder hview
  obtain ⟨image, config, hmake⟩ := h.reached.named.space hp
  exact ⟨tenants, seat, hm, hm.tenant hp hlive, Kernel.space_pid_of_make hmake,
    h.stocked hp hlive, AddressSpace.make_fits hmake⟩

/-- **The bytes of a live process are those of its plain memory**, wherever its pages are. -/
theorem Orderly.byteAt_eq (h : Orderly file m a) (hgood : w.good file) (hp : m.process? i = some p)
    (hlive : p.exitCode = none) (haddress : address.val < p.space.pageCount * pageSize) :
    m.kernel.byteAt w p.space address = (a.plain i).byte ⟨address.val⟩ := by
  obtain ⟨tenants, seat, hm⟩ := h.lives hgood hp hlive
  exact hm.inOrder.kernel.byteAt_eq (hm.pid.symm ▸ hm.tenant) haddress

/-- A process whose plain memory is the same has the same bytes. -/
theorem Orderly.byteAt_congr (h : Orderly file m a) (h' : Orderly file m' b) (hgood : w.good file)
    (hp : m.process? i = some p) (hlive : p.exitCode = none) (hq : m'.process? i = some q)
    (hlive' : q.exitCode = none) (hspace : q.space = p.space) (hplain : b.plain i = a.plain i)
    (haddress : address.val < p.space.pageCount * pageSize) :
    m'.kernel.byteAt w p.space address = m.kernel.byteAt w p.space address := by
  rw [h.byteAt_eq hgood hp hlive haddress, ← hplain, ← hspace,
    h'.byteAt_eq hgood hq hlive' (hspace ▸ haddress)]

end Machine

end DemandPaging
