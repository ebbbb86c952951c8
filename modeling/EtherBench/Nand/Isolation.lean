import EtherBench.Nand.Contracts

/-! # What the driver leaves alone

Every function of the driver, whatever the environment does and wherever it stops, keeps
the rows that its commands do not program or erase, and addresses only blocks of the chip.
-/

namespace EtherBench.Nand.Isolation
open Device Hal Driver Contracts Library.Effects Library.Triples

/-- The rows `rows` hold `pages`, and every command so far addressed a block of the chip. -/
structure Isolated (rows : Set ℕ) (pages : ℕ → Page) (w : World) : Prop where
  kept : ∀ row ∈ rows, w.chip.page row = pages row
  addressed : ∀ c ∈ w.issued, ∀ row, c.row? = some row → row / gd25BlockPages < gd25BlockCountNormal

structure Command.Fits (rows : Set ℕ) (c : Command) : Prop where
  spares : c.Spares rows
  addressed : ∀ row, c.row? = some row → row / gd25BlockPages < gd25BlockCountNormal

variable {rows : Set ℕ} {pages : ℕ → Page}

theorem Isolated.exchange {w : World} (h : Isolated rows pages w) (effect : Chip → Chip)
    (heffect : ∀ row ∈ rows, (effect w.chip).page row = w.chip.page row) :
    Isolated rows pages (w.exchange effect) where
  kept row hrow := by
    rw [World.exchange]
    split
    · exact (heffect row hrow).trans (h.kept row hrow)
    · exact h.kept row hrow
  addressed := by
    simpa [World.exchange] using h.addressed

theorem Isolated.congr {w v : World} (h : Isolated rows pages w) (hchip : v.chip = w.chip)
    (hissued : v.issued = w.issued) : Isolated rows pages v where
  kept := by
    rw [hchip]
    exact h.kept
  addressed := by
    rw [hissued]
    exact h.addressed

theorem halXspiCommand_isolated {c : Command} (hc : Command.Fits rows c) :
    Preserves (Isolated rows pages) (halXspiCommand c) := by
  intro w hw
  have hchip := hw.exchange (·.execute w.reaction c) fun row hrow =>
    execute_page hc.spares w.chip w.reaction hrow
  refine ⟨hchip.kept, fun d hd => ?_⟩
  rcases List.mem_cons.mp hd with rfl | hd
  · exact hc.addressed
  · exact hw.addressed d hd

theorem halXspiTransmit_isolated (c : Command) (data : List UInt8) :
    Preserves (Isolated rows pages) (halXspiTransmit c data) :=
  fun w hw =>
    (hw.exchange (·.take data c) fun row _ => congrFun (take_page w.chip data c) row).congr rfl rfl

theorem halXspiReceive_isolated (c : Command) :
    Preserves (Isolated rows pages) (halXspiReceive c) :=
  fun _ hw => (hw.exchange id fun _ _ => rfl).congr rfl rfl

theorem halXspiAutoPollingIt_isolated : Preserves (Isolated rows pages) halXspiAutoPollingIt :=
  fun _ hw => (hw.exchange id fun _ _ => rfl).congr rfl rfl

theorem drainFlashWip_isolated : Preserves (Isolated rows pages) drainFlashWip :=
  fun _ hw => (hw.exchange id fun _ _ => rfl).congr rfl rfl

theorem getFlashWip_isolated : Preserves (Isolated rows pages) getFlashWip :=
  fun _ hw => (hw.exchange id fun _ _ => rfl).congr rfl rfl

theorem getFlashDmaDone_isolated : Preserves (Isolated rows pages) getFlashDmaDone :=
  fun _ hw => (hw.exchange id fun _ _ => rfl).congr rfl rfl

theorem fits_of_no_row {c : Command} (hrow : c.row? = none) (hc : c.Spares rows) :
    Command.Fits rows c where
  spares := hc
  addressed row h := by
    rw [hrow] at h
    cases h

theorem fits_readToCache {row : ℕ} (h : row / gd25BlockPages < gd25BlockCountNormal) :
    Command.Fits rows (.readToCache row) where
  spares := trivial
  addressed _ hrow := by
    cases hrow
    exact h

theorem fits_programExecute {row : ℕ} (h : row / gd25BlockPages < gd25BlockCountNormal)
    (hrow : row ∉ rows) : Command.Fits rows (.programExecute row) where
  spares := hrow
  addressed _ hrow := by
    cases hrow
    exact h

theorem fits_statusCommand : Command.Fits rows statusCommand := fits_of_no_row rfl trivial

theorem fits_plain {c : Command} (hc : plain c = true) : Command.Fits rows c := by
  cases c with
  | writeEnable => exact fits_of_no_row rfl trivial
  | programLoadX4 column length => exact fits_of_no_row rfl trivial
  | readFromCacheQio column length => exact fits_of_no_row rfl trivial
  | _ => cases hc

theorem waitForComplete_isolated : Preserves (Isolated rows pages) waitForComplete := by
  apply preserves_waitForComplete
  · exact drainFlashWip_isolated
  · exact halXspiCommand_isolated fits_statusCommand
  · exact halXspiAutoPollingIt_isolated
  · exact getFlashWip_isolated
  · exact halXspiReceive_isolated statusCommand
  · exact halXspiCommand_isolated (fits_of_no_row rfl trivial)

/-- All functions of the driver keep to the rows that their commands fit. -/
theorem isolated_contract : Contract (Command.Fits rows) (Isolated rows pages)
    (fun _ => Isolated rows pages) (Isolated rows pages) where
  buffer _ _ hw := hw.congr rfl rfl
  command _ hc := triple_of_preserves (preserves_require (halXspiCommand_isolated (fits_plain hc)))
  operate _ _ hc := triple_of_preserves (preserves_require (halXspiCommand_isolated hc))
  transmit _ _ _ := triple_of_preserves (preserves_require (halXspiTransmit_isolated _ _))
  receive _ _ := triple_receive fun _ hw => (hw.exchange id fun _ _ => rfl).congr rfl rfl
  dmaDone := triple_of_preserves (preserves_require getFlashDmaDone_isolated)
  wait _ := triple_of_preserves waitForComplete_isolated

theorem rowAddr_div {block page : ℕ} (hblock : block < gd25BlockCountNormal)
    (hpage : page < gd25BlockPages) : rowAddr block page / gd25BlockPages = block := by
  rw [rowAddr_eq hblock hpage]
  simp only [gd25BlockPages] at *
  omega

/-- The physical block `block` holds none of the rows. -/
def Outside (rows : Set ℕ) (block : ℕ) : Prop := ∀ row ∈ rows, row / gd25BlockPages ≠ block

theorem Outside.not_mem {block page : ℕ} (h : Outside rows block)
    (hblock : block < gd25BlockCountNormal) (hpage : page < gd25BlockPages) :
    rowAddr block page ∉ rows := fun hrow => h _ hrow (rowAddr_div hblock hpage)

theorem addressed_of_lt {block page : ℕ} (hblock : block < gd25BlockCountNormal)
    (hpage : page < gd25BlockPages) :
    rowAddr block page / gd25BlockPages < gd25BlockCountNormal := by
  rw [rowAddr_div hblock hpage]
  exact hblock

section Block

variable {block page n : ℕ} (hblock : block < gd25BlockCountNormal)
include hblock

theorem fits_load (hpage : page < gd25BlockPages) : Command.Fits rows (.readToCache (rowAddr block page)) :=
  fits_readToCache (addressed_of_lt hblock hpage)

theorem fits_program (hrows : Outside rows block) (hpage : page < gd25BlockPages) :
    Command.Fits rows (.programExecute (rowAddr block page)) :=
  fits_programExecute (addressed_of_lt hblock hpage) (hrows.not_mem hblock hpage)

theorem fits_erase (hrows : Outside rows block) : Command.Fits rows (.blockErase (rowAddr block 0)) where
  spares row hrow := by
    rw [rowAddr_div hblock (by decide)]
    exact hrows row hrow
  addressed row hrow := by
    cases hrow
    exact addressed_of_lt hblock (by decide)

omit hblock in
theorem ulong_page {i : ℕ} (hpages : page + n ≤ gd25BlockPages) (hi : i < n) :
    ulong (page + i) < gd25BlockPages := by
  rw [ulong_eq (by simp only [gd25BlockPages] at hpages; omega)]
  omega

theorem genericWrite_isolated (hrows : Outside rows block) (hpage : page < gd25BlockPages)
    {mainBuffer spareBuffer : Source} {mainSize spareSize spareOffset : ℕ} :
    Preserves (Isolated rows pages)
      (genericWrite block page mainBuffer mainSize spareBuffer spareSize spareOffset) :=
  (isolated_contract.genericWrite (fits_program hblock hrows hpage) _ _ _ _ _).preserves

theorem pagesWrite_isolated (hrows : Outside rows block) (hpages : page + n ≤ gd25BlockPages)
    (mainBuffer spareBuffer : Source) :
    Preserves (Isolated rows pages) (pagesWrite block page mainBuffer spareBuffer n) := by
  apply Triple.preserves
  apply isolated_contract.pagesWrite
  exact fun i hi => fits_program hblock hrows (ulong_page hpages hi)

theorem pagesRead_isolated (mainGiven spareGiven : Bool) (hpages : page + n ≤ gd25BlockPages) :
    Preserves (Isolated rows pages) (pagesRead block page mainGiven spareGiven n) := by
  apply Triple.preserves
  apply isolated_contract.pagesReadLoop
  exact fun i _ hi => fits_load hblock (ulong_page hpages (by omega))

theorem extraBytesGet_isolated (hpage : page < gd25BlockPages) (size : ℕ) :
    Preserves (Isolated rows pages) (extraBytesGet block page size) :=
  (isolated_contract.extraBytesGet (fits_load hblock hpage) size).preserves

theorem blockStatusGet_isolated : Preserves (Isolated rows pages) (blockStatusGet block) :=
  (isolated_contract.blockStatusGet (fits_load hblock (by decide))).preserves

theorem pageEraseVerify_isolated (hpage : page < gd25BlockPages) :
    Preserves (Isolated rows pages) (pageEraseVerify block page) :=
  (isolated_contract.pageEraseVerify (fun _ hw => hw) (fits_load hblock hpage)).preserves

theorem blockEraseVerify_isolated : Preserves (Isolated rows pages) (blockEraseVerify block) := by
  apply Triple.preserves
  apply isolated_contract.blockEraseVerify (fun _ hw => hw)
  · exact fits_load hblock (by decide)
  · exact fits_load hblock (by decide)

theorem blockErase_isolated (hrows : Outside rows block) :
    Preserves (Isolated rows pages) (blockErase block) :=
  (isolated_contract.blockErase (fits_erase hblock hrows)).preserves

end Block

/-- A copy reads one block and programs another. -/
theorem pageCopy_isolated {srcBlock srcPage destBlock destPage n : ℕ}
    (hsrc : srcBlock < gd25BlockCountNormal) (hsrcPages : srcPage + n ≤ gd25BlockPages)
    (hdest : destBlock < gd25BlockCountNormal) (hdestPages : destPage + n ≤ gd25BlockPages)
    (hrows : Outside rows destBlock) :
    Preserves (Isolated rows pages) (pageCopy srcBlock srcPage destBlock destPage n) := by
  apply Triple.preserves
  apply isolated_contract.pageCopy
  · exact fun i hi => fits_load hsrc (by omega)
  · exact fun i hi => fits_program hdest hrows (by omega)

end EtherBench.Nand.Isolation
