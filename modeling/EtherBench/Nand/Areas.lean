import EtherBench.Nand.Readiness

/-! # Where `generic_write` and `generic_read` look for the areas

The spare bytes have a place in the staging buffer, a place in the page, and the transfer has a
length; the three are computed apart. They fit together when the spare area is moved alone from
its start, or behind a whole main area.
-/

namespace EtherBench.Nand.Areas
open Device Hal Driver Operations PageStore Readiness RoundTrip Library.Effects Library.Memory Library.Triples

/-- Every successful read brings in the bytes from where its parameters say. -/
def HonoursRead (mainGiven : Bool) (mainSize : ℕ) (spareGiven : Bool) (spareSize spareOffset : ℕ) : Prop :=
  ∀ block page w read t, Reliable w →
    genericRead block page mainGiven mainSize spareGiven spareSize spareOffset w = .ok read t →
    read = (if mainGiven then slice (w.chip.page (rowAddr block page)) 0 mainSize else [],
      if spareGiven then slice (w.chip.page (rowAddr block page)) (gd25PageSize + spareOffset) spareSize else [])

/-- No spare byte is moved, or the spare area starts right behind the main area in the staging buffer
as it does in the page. -/
def Aligned (mainGiven : Bool) (mainSize : ℕ) (spareGiven : Bool) (spareSize spareOffset : ℕ) : Prop :=
  spareGiven = true → spareSize ≠ 0 → spareOffset = 0 ∧ mainSize = sizeOf mainGiven gd25PageSize

variable {mainGiven spareGiven : Bool} {mainSize spareSize spareOffset : ℕ}

theorem Aligned.of_given (h : spareGiven = true → Aligned mainGiven mainSize spareGiven spareSize spareOffset) :
    Aligned mainGiven mainSize spareGiven spareSize spareOffset := fun hgiven => h hgiven hgiven

theorem not_aligned_iff : ¬ Aligned mainGiven mainSize true spareSize spareOffset ↔
    spareSize ≠ 0 ∧ (spareOffset ≠ 0 ∨ mainSize ≠ sizeOf mainGiven gd25PageSize) := by
  simp only [Aligned, true_implies, Classical.not_imp, not_and_or, ne_eq]

theorem xferSize_within (hmain : mainSize ≤ gd25PageSize) (hspare : spareOffset + spareSize ≤ gd25PageOob) :
    xferSize mainGiven mainSize spareGiven spareSize = sizeOf mainGiven mainSize + sizeOf spareGiven spareSize := by
  apply ulong_eq
  have hmainSize := sizeOf_le mainGiven mainSize
  have hspareSize := sizeOf_le spareGiven spareSize
  simp only [PageStore.sizeOf, gd25PageSize, gd25PageOob] at *
  omega

section Within

variable (hmain : mainSize ≤ gd25PageSize) (hspare : spareOffset + spareSize ≤ gd25PageOob)
include hmain hspare

end Within

section Within

variable (hmain : mainSize ≤ gd25PageSize) (hspare : spareOffset + spareSize ≤ gd25PageOob)
include hmain hspare

/-- Out of a page of ones with a spare area of zeros, one byte of the spare area comes from elsewhere:
from the main area, or from a place of the staging buffer that the transfer does not reach. -/
theorem fetched_astray (hastray : ¬ Aligned mainGiven mainSize true spareSize spareOffset) :
    ∃ i < spareSize, fetched (layout (area none) fun _ => 0) (startColumn mainGiven spareOffset)
      (xferSize mainGiven mainSize true spareSize) (mainSize + spareOffset + i) = 0xFF := by
  obtain ⟨hsome, hplace⟩ := not_aligned_iff.mp hastray
  by_cases hoffset : mainGiven = true ∧ spareOffset = 0
  · obtain ⟨rfl, rfl⟩ := hoffset
    refine ⟨0, by omega, ?_⟩
    rcases hplace with hoffset | hsize
    · exact absurd rfl hoffset
    · change mainSize ≠ gd25PageSize at hsize
      rw [fetched_apply _ _ (by rw [xferSize_within hmain hspare]; simp only [PageStore.sizeOf, if_true]; omega)]
      exact layout_main (by omega)
  · refine ⟨spareSize - 1, by omega, ?_⟩
    rw [fetched, overlay_range, xferSize_within hmain hspare]
    apply if_neg
    rintro ⟨-, hbehind⟩
    cases mainGiven with
    | true =>
      change _ < 0 + (mainSize + spareSize) at hbehind
      have hpositive : spareOffset ≠ 0 := fun h => hoffset ⟨rfl, h⟩
      omega
    | false =>
      change _ < 0 + (0 + spareSize) at hbehind
      rcases hplace with hoffset | hsize
      · omega
      · change mainSize ≠ 0 at hsize
        omega

theorem taken_astray (hastray : ¬ Aligned mainGiven mainSize true spareSize spareOffset) :
    taken (layout (area none) fun _ => 0) mainGiven mainSize true spareSize spareOffset ≠
      (if mainGiven then slice (layout (area none) fun _ => 0) 0 mainSize else [],
        slice (layout (area none) fun _ => 0) (gd25PageSize + spareOffset) spareSize) := by
  intro heq
  have hspareBytes := congrArg Prod.snd heq
  change (List.range spareSize).map _ = (List.range spareSize).map _ at hspareBytes
  rw [List.map_inj_left] at hspareBytes
  obtain ⟨i, hi, hones⟩ := fetched_astray hmain hspare hastray
  have hstored : layout (area none) (fun _ => 0) (gd25PageSize + spareOffset + i) = 0 := by
    rw [Nat.add_assoc]
    exact layout_spare (by omega)
  have hbyte := hspareBytes i (List.mem_range.mpr hi)
  rw [hones, hstored] at hbyte
  cases hbyte

theorem aligned_of_honoursRead (hreads : HonoursRead mainGiven mainSize spareGiven spareSize spareOffset) :
    Aligned mainGiven mainSize spareGiven spareSize spareOffset := by
  refine Aligned.of_given fun hgiven => ?_
  subst hgiven
  by_contra hastray
  let chip : Chip := { (fresh fun _ => smooth).chip with page := fun _ => layout (area none) fun _ => 0 }
  let w : World := { fresh fun _ => smooth with chip := chip }
  have hready : Ready w := (fresh_ready fun _ => smooth_obliging).congr rfl rfl rfl (by simp [Contracts.Failed, w, chip, fresh])
  obtain ⟨read, t, hread, -⟩ := ok_of_triple (genericRead_ready 0 0 mainGiven mainSize true spareSize spareOffset) hready
  have htaken := (genericRead_taken mainGiven mainSize true spareSize spareOffset).of_ok ⟨hready.reliable, rfl⟩ hread
  have hcolumns := hreads 0 0 w read t hready.reliable hread
  exact taken_astray hmain hspare hastray (htaken.1.symm.trans hcolumns)

end Within

end EtherBench.Nand.Areas
