import DemandPaging.Proofs.Obtainable

/-!
# How much of a range is had

An access to a range of addresses goes on as long as its pages are granted and stops at the first
that is refused.  This is true of every range, wherever it starts and ends on its pages, and there
is one place only where an access can stop.

* `Stops` — where an access to a range stops, and why; `Stops.unique` — there is one such place.
* `Stops.of_refused`, `Stops.of_granted` — an access is followed piece by piece.
* `Kernel.copyPieces_served`, `Kernel.copy_served` — copies stop there.
* `Kernel.readMemory_served`, `Kernel.writeMemory_served` — so do those who read and write.
-/

namespace DemandPaging

/-- Of the `count` bytes from an address on, the first `n` lie on pages that are granted.  If there
are more, the next one lies on a page that is refused for the cause. -/
structure Stops (refusal : PageNumber → Option ExceptionCause) (a : VirtAddr) (count n : Nat)
    (cause : Option ExceptionCause) : Prop where
  le : n ≤ count
  granted : ∀ k < n, refusal (a.advance k).page = none
  whole : cause = none → n = count
  refused : ∀ c, cause = some c → n < count ∧ refusal (a.advance n).page = some c

namespace Stops

variable {refusal : PageNumber → Option ExceptionCause} {a : VirtAddr}
  {count n n' place stop : Nat} {cause cause' : Option ExceptionCause} {c : ExceptionCause}
  {q : Piece} {qs : List Piece}

/-- The byte after the last one decides. -/
theorem cause_eq (h : Stops refusal a count n cause) :
    cause = if n < count then refusal (a.advance n).page else none := by
  cases cause with
  | none => rw [if_neg (Nat.not_lt_of_le (Nat.le_of_eq (h.whole rfl).symm))]
  | some c =>
      obtain ⟨hlt, hrefused⟩ := h.refused c rfl
      rw [if_pos hlt, hrefused]

theorem refused_of_lt (h : Stops refusal a count n cause) (hlt : n < count) :
    cause ≠ none ∧ refusal (a.advance n).page = cause := by
  refine ⟨fun hnone => Nat.ne_of_lt hlt (h.whole hnone), ?_⟩
  rw [h.cause_eq, if_pos hlt]

/-- **There is one place where an access stops**, and one cause. -/
theorem unique (h : Stops refusal a count n cause) (h' : Stops refusal a count n' cause') :
    n = n' ∧ cause = cause' := by
  -- What is granted to one access is refused to the other, if one stops before the other.
  have hle : ∀ {l l' : Nat} {x x' : Option ExceptionCause}, Stops refusal a count l x →
      Stops refusal a count l' x' → ¬ l < l' := by
    intro l l' x x' hl hl' hlt
    obtain ⟨hnot, hrefused⟩ := hl.refused_of_lt (Nat.lt_of_lt_of_le hlt hl'.le)
    exact hnot (hrefused.symm.trans (hl'.granted l hlt))
  obtain rfl : n = n' := Nat.le_antisymm (Nat.le_of_not_lt (hle h' h)) (Nat.le_of_not_lt (hle h h'))
  exact ⟨rfl, by rw [h.cause_eq, h'.cause_eq]⟩

/-- **An access is not stopped exactly if all its pages are granted.** -/
theorem eq_none_iff (h : Stops refusal a count n cause) :
    cause = none ↔ ∀ k < count, refusal (a.advance k).page = none := by
  refine ⟨fun hnone => h.whole hnone ▸ h.granted, fun hall => ?_⟩
  cases cause with
  | none => rfl
  | some c =>
      obtain ⟨hlt, hrefused⟩ := h.refused c rfl
      rw [hall n hlt] at hrefused
      cases hrefused

/-- If the bytes before some place are granted, and no others, the access goes up to there. -/
theorem eq_min {d : Nat} (h : Stops refusal a count n cause)
    (hd : ∀ k < count, refusal (a.advance k).page = none ↔ k < d) : n = min count d := by
  have hle := h.le
  have hgranted : n ≤ d := by
    by_contra hlt
    have hbefore := (hd d (by omega)).1 (h.granted d (by omega))
    omega
  by_cases hlt : n < count
  · obtain ⟨hnot, hrefused⟩ := h.refused_of_lt hlt
    have hend : ¬ n < d := fun hbefore => hnot (hrefused.symm.trans ((hd n hlt).2 hbefore))
    omega
  · omega

/-- An access that is stopped has moved whole pages, apart from the first. -/
theorem aligned (h : Stops refusal a count n cause) (hlt : n < count) :
    n = 0 ∨ (a.advance n).offset = 0 := by
  obtain ⟨hnot, hrefused⟩ := h.refused_of_lt hlt
  by_contra hinner
  have hsame : (a.advance (n - 1)).page = (a.advance n).page := by
    simp only [VirtAddr.page, VirtAddr.advance, VirtAddr.offset, pageSize] at *
    congr 1
    omega
  exact hnot (hrefused.symm.trans (hsame ▸ h.granted (n - 1) (by omega)))

/-! ## Piece by piece -/

/-- An access that is granted all its pages is not stopped. -/
theorem of_granted (h : ∀ k < count, refusal (a.advance k).page = none) :
    Stops refusal a count count none :=
  ⟨Nat.le_refl _, h, fun _ => rfl, nofun⟩

/-- An access stops at a piece whose page is refused. -/
theorem of_refused (hqs : Pieces a.val place stop (q :: qs)) (hsize : 0 < q.size)
    (hbefore : ∀ k < place, refusal (a.advance k).page = none)
    (h : refusal q.address.page = some c) : Stops refusal a stop place (some c) := by
  cases hqs with
  | cons haddress _ _ hrest =>
      have hle := hrest.le
      have hplace : a.advance place = q.address :=
        congrArg VirtAddr.mk haddress.symm
      refine ⟨by omega, hbefore, nofun, fun c' hc => ?_⟩
      obtain rfl := Option.some.inj hc
      exact ⟨by omega, hplace ▸ h⟩

/-- All bytes of a piece lie on its page. -/
theorem granted_append (hqs : Pieces a.val place stop (q :: qs))
    (hbefore : ∀ k < place, refusal (a.advance k).page = none)
    (h : refusal q.address.page = none) :
    ∀ k < place + q.size, refusal (a.advance k).page = none := by
  cases hqs with
  | cons haddress _ hpage _ =>
      intro k hk
      by_cases hold : k < place
      · exact hbefore k hold
      · have hsame : (a.advance k).page = q.address.page := by
          simp only [VirtAddr.page, VirtAddr.advance, VirtAddr.offset, pageSize] at *
          congr 1
          omega
        rw [hsame]
        exact h

end Stops

namespace Kernel

open Paging

variable {F : Type} [BackingFile F] {view : Option (FileView F)} {tenants : Pid → Option Tenant}
  {seat : TlbId → Option Pid} {k k' : Kernel F} {tlb : TlbId} {memory : Memory} {access : Access}
  {refusal : PageNumber → Option ExceptionCause}

/-- What has become of a copy that no transfer of the swap file has failed: it has stopped at the
first page that was refused.  Only a page that may not be written stops it without an error. -/
structure Copied.Stopped (refusal : PageNumber → Option ExceptionCause) (address : VirtAddr)
    (count : Nat) (c : Copied) (cause : Option ExceptionCause) : Prop where
  stops : Stops refusal address count c.moved.size cause
  failed : ∀ why, c.failure = some why →
    why = .error .outOfFrames ∨ ∃ a, why = .error (.invalidAddress a)
  silent : c.failure = none → cause = none ∨ cause = some .readOnly

section Stopped

variable {address : VirtAddr} {count : Nat} {c : Copied} {cause : Option ExceptionCause}

theorem Copied.Stopped.of_silent (hstops : Stops refusal address count c.moved.size cause)
    (hsilent : c.failure = none) (hcause : cause = none ∨ cause = some .readOnly) :
    c.Stopped refusal address count cause where
  stops := hstops
  failed why hwhy := by
    rw [hsilent] at hwhy
    cases hwhy
  silent _ := hcause

theorem Copied.Stopped.of_failed {why : Failure}
    (hstops : Stops refusal address count c.moved.size cause) (hfailure : c.failure = some why)
    (hwhy : why = .error .outOfFrames ∨ ∃ a, why = .error (.invalidAddress a)) :
    c.Stopped refusal address count cause where
  stops := hstops
  failed why' hwhy' := by
    obtain rfl := Option.some.inj (hfailure.symm.trans hwhy')
    exact hwhy
  silent hsilent := by
    rw [hsilent] at hfailure
    cases hfailure

theorem Copied.Stopped.survivable (h : c.Stopped refusal address count cause) : c.Survivable := by
  intro why hwhy
  obtain rfl | ⟨a, rfl⟩ := h.failed why hwhy
  · exact ⟨_, rfl, rfl⟩
  · exact ⟨_, rfl, rfl⟩

end Stopped

/-- **The pieces of a range are copied up to the first page that is refused**, unless a transfer
comes up short. -/
theorem copyPieces_served {p : Process} {address : VirtAddr} {count : Nat} {qs : List Piece}
    {moved : Bytes} {c : Copied} (hqs : Pieces address.val moved.size count qs)
    (hsizes : ∀ q ∈ qs, 0 < q.size) (hdata : ∀ data, access = .store data → count ≤ data.size)
    (hmoved : access.Moved (∃ w, view = some w) memory address.val moved)
    (hpid : p.space.pid = p.pid) (hk : k.InOrder view
      (Function.update tenants p.pid (some ⟨p.space, access.after memory address.val moved⟩)) seat)
    (hstocked : k.Stocked p.space p.strategy)
    (hrefusal : ∀ page, k.obstacle p.space access.writing page = refusal page)
    (hbefore : ∀ n < moved.size, refusal (address.advance n).page = none)
    (h : copyPieces tlb p access qs moved k = (c, k')) :
    (Shorts k.toPaging k'.toPaging 0 ∧ ∃ cause, c.Stopped refusal address count cause) ∨
      (Shorts k.toPaging k'.toPaging 1 ∧ c.failure = some (.error .shortTransfer)) := by
  induction qs generalizing k moved with
  | nil =>
      obtain ⟨rfl, rfl⟩ := Prod.mk.inj h
      refine Or.inl ⟨.refl _, none, .of_silent ?_ rfl (Or.inl rfl)⟩
      dsimp only
      generalize moved.size = n at hqs hbefore ⊢
      cases hqs
      exact .of_granted hbefore
  | cons q qs ih =>
      unfold copyPieces at h
      cases ha : k.accessPage tlb p.space p.strategy q.address.page access.writing
          (access.change q) with
      | mk r m =>
          rw [ha] at h
          have hT : Function.update tenants p.pid
              (some ⟨p.space, access.after memory address.val moved⟩) p.space.pid =
                some ⟨p.space, access.after memory address.val moved⟩ := by
            rw [hpid, Function.update_self]
          have hrefused : ∀ {cause}, refusal q.address.page = some cause →
              Stops refusal address count moved.size (some cause) :=
            .of_refused hqs (hsizes q (List.mem_cons_self ..)) hbefore
          obtain ⟨hshorts, hserved⟩ | ⟨hshorts, rfl⟩ := accessPage_served hk hstocked hT ha
          · rw [hrefusal] at hserved
            generalize hpage : refusal q.address.page = cause at hserved
            cases hserved with
            | readOnly =>
                obtain ⟨rfl, rfl⟩ := Prod.mk.inj h
                exact Or.inl ⟨hshorts, _, .of_silent (hrefused hpage) rfl (Or.inr rfl)⟩
            | outside =>
                obtain ⟨rfl, rfl⟩ := Prod.mk.inj h
                exact Or.inl ⟨hshorts, _, .of_failed (hrefused hpage) rfl (Or.inr ⟨_, rfl⟩)⟩
            | exhausted =>
                obtain ⟨rfl, rfl⟩ := Prod.mk.inj h
                exact Or.inl ⟨hshorts, _, .of_failed (hrefused hpage) rfl (Or.inl rfl)⟩
            | granted page =>
                have hevolves : Evolves (fun _ => False) k m :=
                  accessPage_evolves hk.toConsistent ha
                have hstocked' := hevolves.changes.stocked hk.toConsistent id hstocked
                have hsupply := hevolves.changes.sameSupply hk.toConsistent (fun _ => id) fun _ => id
                have hgranted := Stops.granted_append hqs hbefore hpage
                obtain ⟨-, ⟨hstop, -⟩ | ⟨old, hold, hturned⟩⟩ :=
                  accessPage_inOrder hk hT (fun hw => Access.change_of_not_writing hw q) ha
                · rcases hstop with ⟨err, hstop⟩ | hstop
                  · cases hstop
                  · cases hstop
                · obtain rfl := Option.some.inj (Except.ok.inj hold)
                  rw [hpid] at hturned
                  have hpiece := (hqs.fits hdata).1
                  obtain ⟨_, rfl, hrest, hmoved', hm⟩ := hturned.append hqs hdata hmoved
                  have hsize : (moved ++ (access.change q old).slice q.address.offset q.size).size =
                      moved.size + q.size := by
                    rw [Array.size_append, Page.slice,
                      Bytes.size_slice (by rw [Vector.size_toArray]; exact hpiece)]
                  have hend := ih hrest (fun q' hq' => hsizes q' (List.mem_cons_of_mem _ hq'))
                    hmoved' hm hstocked' (fun page => hsupply.obstacle.trans (hrefusal page))
                    (hsize ▸ hgranted) h
                  exact hend.imp (fun hall => ⟨hshorts.head hall.1, hall.2⟩)
                    fun hshort => ⟨hshorts.head hshort.1, hshort.2⟩
          · obtain ⟨rfl, rfl⟩ := Prod.mk.inj h
            exact Or.inr ⟨hshorts, rfl⟩

/-- **A copy stops at the first page that is refused**, unless a transfer comes up short. -/
theorem copy_served {p : Process} {address : VirtAddr} {count : Nat} {c : Copied}
    (hk : k.InOrder view tenants seat) (hstocked : k.Stocked p.space p.strategy)
    (hT : tenants p.pid = some ⟨p.space, memory⟩)
    (hfits : p.space.pageCount * pageSize ≤ maxUserAddr)
    (hdata : ∀ data, access = .store data → count ≤ data.size)
    (h : k.copy tlb p address count access = (c, k')) :
    (Shorts k.toPaging k'.toPaging 0 ∧
        ∃ cause, c.Stopped (k.obstacle p.space access.writing) address count cause) ∨
      (Shorts k.toPaging k'.toPaging 1 ∧ c.failure = some (.error .shortTransfer)) := by
  unfold copy at h
  split at h
  · rename_i haddress
    obtain ⟨rfl, rfl⟩ := Prod.mk.inj h
    have houtside : k.obstacle p.space access.writing address.page = some .addressError :=
      obstacle_outside (AddressSpace.contains_of_lt hfits haddress)
    by_cases hcount : count = 0
    · subst hcount
      exact Or.inl ⟨.refl _, none, .of_failed (.of_granted nofun) rfl (Or.inr ⟨_, rfl⟩)⟩
    · have hstops : Stops (k.obstacle p.space access.writing) address count 0 (some .addressError) :=
        ⟨Nat.zero_le _, nofun, nofun, fun c hc => ⟨Nat.pos_of_ne_zero hcount, houtside.trans hc⟩⟩
      exact Or.inl ⟨.refl _, _, .of_failed hstops rfl (Or.inr ⟨_, rfl⟩)⟩
  · have hqs : Pieces address.val (#[] : Bytes).size count (pieces address count) :=
      pieces_spec address count
    have hstart : k.InOrder view
        (Function.update tenants p.pid (some ⟨p.space, access.after memory address.val #[]⟩)) seat :=
      hk.tenant_congr hT rfl (access.frameCount_after _ _ _) fun q =>
        access.frame_after_empty memory address.val q.val
    exact copyPieces_served hqs (fun _ hq => (piece_on_page hq).1) hdata
      (access.moved_empty (∃ w, view = some w) memory address.val) (hk.lodged.space hT).1 hstart
      hstocked (fun _ => rfl) nofun h

/-! ## Reading and writing -/

/-- No transfer is made when a copy is settled. -/
theorem shorts_settle {pid : Pid} {c : Copied} {r : Except Halt Bytes}
    (h : k.settle pid c = (r, k')) : Shorts k.toPaging k'.toPaging 0 := by
  unfold settle at h
  split at h
  · obtain ⟨-, rfl⟩ := Prod.mk.inj h
    exact .refl _
  · obtain ⟨-, rfl⟩ := Prod.mk.inj h
    exact .refl _
  · split at h
    · obtain ⟨-, rfl⟩ := Prod.mk.inj h
      exact .refl _
    · obtain ⟨-, rfl⟩ := Prod.mk.inj h
      exact .note rfl

/-- **What is read ends at the first page that is refused**, unless a transfer comes up short; that
is the end of the machine. -/
theorem readMemory_served {p : Process} {address : VirtAddr} {count : Nat} {r : Except Halt Bytes}
    (hk : k.InOrder view tenants seat) (hstocked : k.Stocked p.space p.strategy)
    (hT : tenants p.pid = some ⟨p.space, memory⟩)
    (hfits : p.space.pageCount * pageSize ≤ maxUserAddr)
    (h : k.readMemory tlb p address count = (r, k')) :
    (Shorts k.toPaging k'.toPaging 0 ∧ ∃ bytes cause, r = .ok bytes ∧
        Stops (k.obstacle p.space false) address count bytes.size cause) ∨
      (Shorts k.toPaging k'.toPaging 1 ∧ r = .error (.copyFailed p.pid .shortTransfer)) := by
  unfold readMemory at h
  cases hc : k.copy tlb p address count .load with
  | mk c m =>
      rw [hc] at h
      dsimp only at h
      have hsettled := shorts_settle h
      obtain ⟨hshorts, cause, hstopped⟩ | ⟨hshorts, hfailure⟩ :=
        copy_served hk hstocked hT hfits (fun _ hd => by cases hd) hc
      · have hr : (m.settle p.pid c).1 = .ok c.moved := settle_reach hstopped.survivable
        rw [h] at hr
        exact Or.inl ⟨hshorts.tail hsettled, c.moved, cause, hr, hstopped.stops⟩
      · unfold settle at h
        rw [hfailure] at h
        obtain ⟨rfl, rfl⟩ := Prod.mk.inj h
        exact Or.inr ⟨hshorts, rfl⟩

/-- **What is written ends at the first page that is refused**, unless a transfer comes up short. -/
theorem writeMemory_served {p : Process} {address : VirtAddr} {data : Bytes} {r : Except Halt Nat}
    (hk : k.InOrder view tenants seat) (hstocked : k.Stocked p.space p.strategy)
    (hT : tenants p.pid = some ⟨p.space, memory⟩)
    (hfits : p.space.pageCount * pageSize ≤ maxUserAddr)
    (h : k.writeMemory tlb p address data = (r, k')) :
    (Shorts k.toPaging k'.toPaging 0 ∧ ∃ n cause, r = .ok n ∧
        Stops (k.obstacle p.space true) address data.size n cause) ∨
      (Shorts k.toPaging k'.toPaging 1 ∧ r = .error (.copyFailed p.pid .shortTransfer)) := by
  unfold writeMemory at h
  cases hc : k.copy tlb p address data.size (.store data) with
  | mk c m =>
      rw [hc] at h
      dsimp only at h
      cases hs : m.settle p.pid c with
      | mk x u =>
          rw [hs] at h
          obtain ⟨rfl, rfl⟩ := Prod.mk.inj h
          have hsettled := shorts_settle hs
          obtain ⟨hshorts, cause, hstopped⟩ | ⟨hshorts, hfailure⟩ := copy_served hk hstocked hT hfits
            (fun d hd => Nat.le_of_eq (by rw [Access.store.inj hd])) hc
          · have hr : (m.settle p.pid c).1 = .ok c.moved := settle_reach hstopped.survivable
            rw [hs] at hr
            obtain rfl : x = .ok c.moved := hr
            exact Or.inl ⟨hshorts.tail hsettled, _, cause, rfl, hstopped.stops⟩
          · unfold settle at hs
            rw [hfailure] at hs
            obtain ⟨rfl, rfl⟩ := Prod.mk.inj hs
            exact Or.inr ⟨hshorts, rfl⟩

end Kernel

end DemandPaging
