import EtherBench.Nand.Readiness

/-! # What an erase verification finds

`page_erase_verify` reads the main area of its page. `block_erase_verify` relies on it for the
first and the last page of the block and does not read the others.
-/

namespace EtherBench.Nand.EraseVerify
open Device Hal Driver Operations PageStore Readiness RoundTrip Library.Effects Library.Memory Library.Triples

def MainErased (page : Page) : Prop := ∀ c < gd25PageSize, page c = 0xFF

variable {block page : ℕ} {w t : World} {bytes : List UInt8}

theorem pageRead_slice (hreliable : Reliable w)
    (hread : pageRead block page (gd25PageSize / 4) w = .ok bytes t) :
    bytes = slice (w.chip.page (rowAddr block page)) 0 gd25PageSize ∧ Reliable t ∧ t.chip.page = w.chip.page := by
  have hcolumns : Triple (At (Holds w.chip.page)) (pageRead block page (gd25PageSize / 4))
      (fun bytes t => bytes = slice (w.chip.page (rowAddr block page)) 0 gd25PageSize ∧
        At (Holds w.chip.page) t) (fun _ => True) := by
    have hsize : ulong (gd25PageSize / 4 * 4) = sizeOf true gd25PageSize := rfl
    have hread : Triple (At (Holds w.chip.page))
        (genericRead block page true (sizeOf true gd25PageSize) false (sizeOf false gd25PageOob) 0) _ _ :=
      genericRead_columns true false (Nat.le_refl gd25PageOob)
    rw [pageRead, hsize]
    apply triple_bind hread
    intro read
    apply triple_pure
    rintro v ⟨rfl, hv⟩
    refine ⟨?_, hv⟩
    simp only [if_true]
  exact hcolumns.of_ok ⟨hreliable, rfl⟩ hread

theorem slice_erased_iff {page : Page} :
    (slice page 0 gd25PageSize).all (· = 0xFF) = true ↔ MainErased page := by
  simp [slice, MainErased]

theorem pageEraseVerify_eq (hread : pageRead block page (gd25PageSize / 4) w = .ok bytes t) :
    pageEraseVerify block page w =
      if bytes.all (· = 0xFF) = true then .ok () t else .error lxError t := by
  simp only [pageEraseVerify, orThrow, bind, EStateM.bind, hread]
  split <;> rfl

/-- When its read succeeds, `page_erase_verify` is right about its page. -/
theorem pageEraseVerify_erased (hreliable : Reliable w)
    (hread : ∃ bytes t, pageRead block page (gd25PageSize / 4) w = .ok bytes t) :
    (∃ t, pageEraseVerify block page w = .ok () t) ↔ MainErased (w.chip.page (rowAddr block page)) := by
  obtain ⟨bytes, t, hread⟩ := hread
  rw [pageEraseVerify_eq hread, (pageRead_slice hreliable hread).1, ← slice_erased_iff]
  split
  · next herased => exact iff_of_true ⟨t, rfl⟩ herased
  · next hprogrammed => exact iff_of_false (fun ⟨_, h⟩ => by cases h) hprogrammed

/-- The reads that `block_erase_verify` makes succeed. -/
def ReadsSucceed (block : ℕ) (w : World) : Prop :=
  (∃ bytes t, pageRead block 0 (gd25PageSize / 4) w = .ok bytes t) ∧
    ∀ t, pageEraseVerify block 0 w = .ok () t →
      ∃ bytes u, pageRead block (gd25BlockPages - 1) (gd25PageSize / 4) t = .ok bytes u

/-- The answer for the block is about all of its pages, and that for a page about this page. -/
def Verifies (block : ℕ) (w : World) : Prop :=
  ((∃ t, blockEraseVerify block w = .ok () t) ↔
    ∀ page < gd25BlockPages, MainErased (w.chip.page (rowAddr block page))) ∧
  ∀ page, (∃ bytes t, pageRead block page (gd25PageSize / 4) w = .ok bytes t) →
    ((∃ t, pageEraseVerify block page w = .ok () t) ↔ MainErased (w.chip.page (rowAddr block page)))

/-- The answer for the block is about its first and its last page. -/
theorem blockEraseVerify_ends (hreliable : Reliable w) (hreads : ReadsSucceed block w) :
    (∃ t, blockEraseVerify block w = .ok () t) ↔ MainErased (w.chip.page (rowAddr block 0)) ∧
      MainErased (w.chip.page (rowAddr block (gd25BlockPages - 1))) := by
  rw [← pageEraseVerify_erased hreliable hreads.1]
  simp only [blockEraseVerify, bind, EStateM.bind, orThrow]
  cases hfirst : pageEraseVerify block 0 w with
  | error e t => simp
  | ok a t =>
    obtain ⟨bytes, v, hread⟩ := hreads.1
    have hsame : v = t := by
      rw [pageEraseVerify_eq hread] at hfirst
      split at hfirst <;> cases hfirst
      rfl
    subst hsame
    obtain ⟨-, hreliable', hpages⟩ := pageRead_slice hreliable hread
    rw [← hpages, ← pageEraseVerify_erased hreliable' (hreads.2 v hfirst)]
    cases hlast : pageEraseVerify block (gd25BlockPages - 1) v with
    | error e u => simp [hlast]
    | ok b u => simp [hlast]

/-- The verification is right exactly when the first or the last page is not erased, or the pages
between them are. -/
theorem verifies_iff (hreliable : Reliable w) (hreads : ReadsSucceed block w) :
    Verifies block w ↔ ¬ MainErased (w.chip.page (rowAddr block 0)) ∨
      ¬ MainErased (w.chip.page (rowAddr block (gd25BlockPages - 1))) ∨
      ∀ page, 0 < page → page < gd25BlockPages - 1 → MainErased (w.chip.page (rowAddr block page)) := by
  have hpage (page : ℕ) : _ → ((∃ t, pageEraseVerify block page w = .ok () t) ↔ _) :=
    pageEraseVerify_erased hreliable
  rw [Verifies, and_iff_left hpage, blockEraseVerify_ends hreliable hreads]
  constructor
  · intro hexact
    by_cases hends : MainErased (w.chip.page (rowAddr block 0)) ∧
        MainErased (w.chip.page (rowAddr block (gd25BlockPages - 1)))
    · exact Or.inr (Or.inr fun page _ hlast => hexact.mp hends page (by omega))
    · rw [not_and_or] at hends
      exact hends.imp_right Or.inl
  · intro hcondition
    constructor
    · rintro ⟨hfirst, hlast⟩ page hpage
      rcases hcondition with h | h | hbetween
      · exact absurd hfirst h
      · exact absurd hlast h
      · rcases Nat.eq_zero_or_pos page with rfl | hpositive
        · exact hfirst
        · by_cases hend : page < gd25BlockPages - 1
          · exact hbetween page hpositive hend
          · have hpageLast : page = gd25BlockPages - 1 := by omega
            rw [hpageLast]
            exact hlast
    · exact fun hall => ⟨hall 0 (by decide), hall _ (by decide)⟩

theorem Ready.readsSucceed (hw : Ready w) (block : ℕ) : ReadsSucceed block w := by
  have hread : ∀ page v, Ready v → ∃ bytes t, pageRead block page (gd25PageSize / 4) v = .ok bytes t ∧ Ready t :=
    fun page v hv => ok_of_triple (ready_contract.pageRead ⟨_, rfl⟩ _) hv
  obtain ⟨bytes, v, hfirst, hv⟩ := hread 0 w hw
  refine ⟨⟨bytes, v, hfirst⟩, fun t hverify => ?_⟩
  rw [pageEraseVerify_eq hfirst] at hverify
  split at hverify <;> cases hverify
  obtain ⟨last, u, hlast, -⟩ := hread (gd25BlockPages - 1) v hv
  exact ⟨last, u, hlast⟩

theorem verifies_erased : Verifies 5 (fresh fun _ => smooth) := by
  have hready : Ready (fresh fun _ => smooth) := fresh_ready fun _ => smooth_obliging
  exact (verifies_iff hready.reliable (Ready.readsSucceed hready 5)).mpr
    (Or.inr (Or.inr fun _ _ _ _ _ => rfl))

/-- An erased chip but for one byte of page 1 of block 5. -/
def dirty : World :=
  let w := fresh fun _ => smooth
  { w with chip := { w.chip with page := Function.update w.chip.page (5 * gd25BlockPages + 1) fun c =>
      if c = 0 then 0 else 0xFF } }

theorem dirty_passes :
    ¬ ∀ block w, Reliable w → ReadsSucceed block w → Verifies block w := by
  intro h
  have hready : Ready dirty :=
    (fresh_ready fun _ => smooth_obliging).congr rfl rfl rfl (by simp [Contracts.Failed, dirty, fresh])
  have hreads := Ready.readsSucceed hready 5
  have hends := blockEraseVerify_ends hready.reliable hreads
  have hexact := (h 5 dirty hready.reliable hreads).1
  rw [hends] at hexact
  have herased := hexact.mp ⟨fun c _ => ?_, fun c _ => ?_⟩ 1 (by decide) 0 (by decide)
  · cases herased
  · rfl
  · rfl

end EtherBench.Nand.EraseVerify
