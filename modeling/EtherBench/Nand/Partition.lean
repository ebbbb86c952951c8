import EtherBench.Library.Transition
import EtherBench.Nand.Isolation

/-! # The three volumes of the NAND

`ll_vfs.h` gives each volume an offset and `app_levelx.c` a number of blocks; the callbacks
of `ll_vfs.c` add the offset to each block number. The flash volume is as large as the chip
less the backtrace volume, but does not start at block zero.
-/

namespace EtherBench.Nand.Partition
open Device Hal Driver Isolation Library.Effects Library.Transition

def settingsPartitionSize : ℕ := 10
def backtracePartitionSize : ℕ := 10
def flashPartitionSize : ℕ := gd25BlockCountNormal - backtracePartitionSize

def settingsPartitionOffset : ℕ := 0
def flashPartitionOffset : ℕ := 10
def backtracePartitionOffset : ℕ := gd25BlockCountNormal - backtracePartitionSize

/-- `LX_NAND_FLASH`: the size that the driver reports and the callbacks that it installs. -/
structure LxNandFlash where
  totalBlocks : ℕ
  pagesRead : ℕ → ℕ → Bool → Bool → ℕ → Driver (List UInt8 × List UInt8)
  pagesWrite : ℕ → ℕ → Source → Source → ℕ → Driver Unit
  pagesCopy : ℕ → ℕ → ℕ → ℕ → ℕ → Driver Unit
  blockErase : ℕ → ℕ → Driver Unit
  blockErasedVerify : ℕ → Driver Unit
  pageErasedVerify : ℕ → ℕ → Driver Unit
  blockStatusGet : ℕ → Driver (List UInt8)
  blockStatusSet : ℕ → UInt8 → Driver Unit
  extraBytesGet : ℕ → ℕ → ℕ → Driver (List UInt8)
  extraBytesSet : ℕ → ℕ → Source → ℕ → Driver Unit

/-- The trampolines of one volume: those of `ll_vfs.c` differ in the offset alone. -/
def trampolines (offset totalBlocks : ℕ) : LxNandFlash where
  totalBlocks := totalBlocks
  pagesRead block := Driver.pagesRead (ulong (block + offset))
  pagesWrite block := Driver.pagesWrite (ulong (block + offset))
  pagesCopy srcBlock srcPage destBlock :=
    Driver.pageCopy (ulong (srcBlock + offset)) srcPage (ulong (destBlock + offset))
  blockErase block _ := Driver.blockErase (ulong (block + offset))
  blockErasedVerify block := Driver.blockEraseVerify (ulong (block + offset))
  pageErasedVerify block := Driver.pageEraseVerify (ulong (block + offset))
  blockStatusGet block := Driver.blockStatusGet (ulong (block + offset))
  blockStatusSet block := Driver.blockStatusSet (ulong (block + offset))
  extraBytesGet block := Driver.extraBytesGet (ulong (block + offset))
  extraBytesSet block := Driver.extraBytesSet (ulong (block + offset))

def settingsInit : LxNandFlash := trampolines settingsPartitionOffset settingsPartitionSize
def flashInit : LxNandFlash := trampolines flashPartitionOffset flashPartitionSize
def backtraceInit : LxNandFlash := trampolines backtracePartitionOffset backtracePartitionSize

inductive Volume where
  | settings
  | flash
  | backtrace
  deriving DecidableEq

def Volume.offset : Volume → ℕ
  | .settings => settingsPartitionOffset
  | .flash => flashPartitionOffset
  | .backtrace => backtracePartitionOffset

def Volume.nand : Volume → LxNandFlash
  | .settings => settingsInit
  | .flash => flashInit
  | .backtrace => backtraceInit

inductive Callback where
  | pagesRead (block page : ℕ) (mainGiven spareGiven : Bool) (pages : ℕ)
  | pagesWrite (block page : ℕ) (mainBuffer spareBuffer : Source) (pages : ℕ)
  | pagesCopy (srcBlock srcPage destBlock destPage pages : ℕ)
  | blockErase (block eraseCount : ℕ)
  | blockErasedVerify (block : ℕ)
  | pageErasedVerify (block page : ℕ)
  | blockStatusGet (block : ℕ)
  | blockStatusSet (block : ℕ) (badBlockByte : UInt8)
  | extraBytesGet (block page size : ℕ)
  | extraBytesSet (block page : ℕ) (source : Source) (size : ℕ)

def LxNandFlash.issue (nand : LxNandFlash) : Callback → Driver Unit
  | .pagesRead block page mainGiven spareGiven pages => do
    let _ ← nand.pagesRead block page mainGiven spareGiven pages
  | .pagesWrite block page mainBuffer spareBuffer pages =>
    nand.pagesWrite block page mainBuffer spareBuffer pages
  | .pagesCopy srcBlock srcPage destBlock destPage pages =>
    nand.pagesCopy srcBlock srcPage destBlock destPage pages
  | .blockErase block eraseCount => nand.blockErase block eraseCount
  | .blockErasedVerify block => nand.blockErasedVerify block
  | .pageErasedVerify block page => nand.pageErasedVerify block page
  | .blockStatusGet block => do
    let _ ← nand.blockStatusGet block
  | .blockStatusSet block badBlockByte => nand.blockStatusSet block badBlockByte
  | .extraBytesGet block page size => do
    let _ ← nand.extraBytesGet block page size
  | .extraBytesSet block page source size => nand.extraBytesSet block page source size

def InBlock (nand : LxNandFlash) (block page pages : ℕ) : Prop :=
  block < nand.totalBlocks ∧ page + pages ≤ gd25BlockPages

/-- The callbacks that keep to their volume: block numbers below its size, and pages inside
one block. -/
def Valid (nand : LxNandFlash) : Callback → Prop
  | .pagesRead block page _ _ pages => InBlock nand block page pages
  | .pagesWrite block page _ _ pages => InBlock nand block page pages
  | .pagesCopy srcBlock srcPage destBlock destPage pages =>
    InBlock nand srcBlock srcPage pages ∧ InBlock nand destBlock destPage pages
  | .blockErase block _ => InBlock nand block 0 1
  | .blockErasedVerify block => InBlock nand block 0 1
  | .pageErasedVerify block page => InBlock nand block page 1
  | .blockStatusGet block => InBlock nand block 0 1
  | .blockStatusSet block _ => InBlock nand block 0 1
  | .extraBytesGet block page _ => InBlock nand block page 1
  | .extraBytesSet block page _ _ => InBlock nand block page 1

def Callback.dest? : Callback → Option ℕ
  | .pagesWrite block _ _ _ _ => some block
  | .pagesCopy _ _ destBlock _ _ => some destBlock
  | .blockErase block _ => some block
  | .blockStatusSet block _ => some block
  | .extraBytesSet block _ _ _ => some block
  | _ => none

theorem volume_fits (v : Volume) : v.offset + v.nand.totalBlocks ≤ gd25BlockCountNormal := by
  cases v <;> decide

section Trampolines

variable {offset totalBlocks : ℕ} (hfits : offset + totalBlocks ≤ gd25BlockCountNormal)
include hfits

theorem physical_block {block : ℕ} (hblock : block < totalBlocks) :
    ulong (block + offset) = block + offset ∧ block + offset < gd25BlockCountNormal := by
  have hlt : block + offset < gd25BlockCountNormal := by omega
  refine ⟨ulong_eq ?_, hlt⟩
  simp only [gd25BlockCountNormal] at hlt
  omega

/-- A valid callback touches no row outside of the block that it modifies. -/
theorem issue_isolated {c : Callback} (hc : Valid (trampolines offset totalBlocks) c)
    {rows : Set ℕ} {pages : ℕ → Page}
    (hdest : ∀ block, c.dest? = some block → Outside rows (block + offset)) :
    Preserves (Isolated rows pages) ((trampolines offset totalBlocks).issue c) := by
  cases c with
  | pagesRead block page mainGiven spareGiven n =>
    obtain ⟨heq, hlt⟩ := physical_block hfits hc.1
    simp only [LxNandFlash.issue, trampolines, heq]
    exact preserves_bind (pagesRead_isolated hlt _ _ hc.2) fun _ => preserves_pure _ _
  | pagesWrite block page mainBuffer spareBuffer n =>
    obtain ⟨heq, hlt⟩ := physical_block hfits hc.1
    simp only [LxNandFlash.issue, trampolines, heq]
    exact pagesWrite_isolated hlt (hdest block rfl) hc.2 _ _
  | pagesCopy srcBlock srcPage destBlock destPage n =>
    obtain ⟨heq, hlt⟩ := physical_block hfits hc.1.1
    obtain ⟨heq', hlt'⟩ := physical_block hfits hc.2.1
    simp only [LxNandFlash.issue, trampolines, heq, heq']
    exact pageCopy_isolated hlt hc.1.2 hlt' hc.2.2 (hdest destBlock rfl)
  | blockErase block eraseCount =>
    obtain ⟨heq, hlt⟩ := physical_block hfits hc.1
    simp only [LxNandFlash.issue, trampolines, heq]
    exact blockErase_isolated hlt (hdest block rfl)
  | blockErasedVerify block =>
    obtain ⟨heq, hlt⟩ := physical_block hfits hc.1
    simp only [LxNandFlash.issue, trampolines, heq]
    exact blockEraseVerify_isolated hlt
  | pageErasedVerify block page =>
    obtain ⟨heq, hlt⟩ := physical_block hfits hc.1
    simp only [LxNandFlash.issue, trampolines, heq]
    exact pageEraseVerify_isolated hlt hc.2
  | blockStatusGet block =>
    obtain ⟨heq, hlt⟩ := physical_block hfits hc.1
    simp only [LxNandFlash.issue, trampolines, heq]
    exact preserves_bind (blockStatusGet_isolated hlt) fun _ => preserves_pure _ _
  | blockStatusSet block badBlockByte =>
    obtain ⟨heq, hlt⟩ := physical_block hfits hc.1
    simp only [LxNandFlash.issue, trampolines, heq]
    exact genericWrite_isolated hlt (hdest block rfl) (by decide)
  | extraBytesGet block page size =>
    obtain ⟨heq, hlt⟩ := physical_block hfits hc.1
    simp only [LxNandFlash.issue, trampolines, heq]
    exact preserves_bind (extraBytesGet_isolated hlt hc.2 size) fun _ => preserves_pure _ _
  | extraBytesSet block page source size =>
    obtain ⟨heq, hlt⟩ := physical_block hfits hc.1
    simp only [LxNandFlash.issue, trampolines, heq]
    exact genericWrite_isolated hlt (hdest block rfl) hc.2

end Trampolines

theorem volume_issue_isolated {v : Volume} {c : Callback} (hc : Valid v.nand c) {rows : Set ℕ}
    {pages : ℕ → Page} (hdest : ∀ block, c.dest? = some block → Outside rows (block + v.offset)) :
    Preserves (Isolated rows pages) (v.nand.issue c) := by
  have hfits := volume_fits v
  cases v with
  | settings => exact issue_isolated hfits hc hdest
  | flash => exact issue_isolated hfits hc hdest
  | backtrace => exact issue_isolated hfits hc hdest

def Volume.rows (v : Volume) : Set ℕ := fun row =>
  ∃ block < v.nand.totalBlocks, ∃ page < gd25BlockPages, row = rowAddr (ulong (block + v.offset)) page

/-- The callbacks through one volume that modify no block of another one. Only the flash
and the backtrace volumes have blocks in common: the last ten of the first are the second. -/
def Apart : Volume → Volume → Callback → Prop
  | .flash, .backtrace, c => ∀ block, c.dest? = some block → block < 1004
  | .backtrace, .flash, c => c.dest? = none
  | _, _, _ => True

theorem Valid.dest_lt {nand : LxNandFlash} {c : Callback} (hc : Valid nand c) {block : ℕ}
    (hdest : c.dest? = some block) : block < nand.totalBlocks := by
  cases c with
  | pagesWrite _ _ _ _ _ => cases hdest; exact hc.1
  | pagesCopy _ _ _ _ _ => cases hdest; exact hc.2.1
  | blockErase _ _ => cases hdest; exact hc.1
  | blockStatusSet _ _ => cases hdest; exact hc.1
  | extraBytesSet _ _ _ _ => cases hdest; exact hc.1
  | _ => cases hdest

theorem rows_div {u : Volume} {row : ℕ} (h : row ∈ u.rows) :
    u.offset ≤ row / gd25BlockPages ∧ row / gd25BlockPages < u.offset + u.nand.totalBlocks := by
  obtain ⟨block, hblock, page, hpage, rfl⟩ := h
  obtain ⟨heq, hlt⟩ := physical_block (volume_fits u) hblock
  rw [heq, rowAddr_div hlt hpage]
  omega

theorem Apart.outside {v u : Volume} (hne : v ≠ u) {c : Callback} (hc : Valid v.nand c)
    (h : Apart v u c) {block : ℕ} (hdest : c.dest? = some block) :
    Outside u.rows (block + v.offset) := by
  intro row hrow hblock
  have hlt := hc.dest_lt hdest
  obtain ⟨hlow, hhigh⟩ := rows_div hrow
  rw [hblock] at hlow hhigh
  cases v <;> cases u
  case flash.backtrace =>
    have hsmall := h block hdest
    simp only [Volume.offset, flashPartitionOffset, backtracePartitionOffset, backtracePartitionSize,
      gd25BlockCountNormal] at hlow
    omega
  case backtrace.flash =>
    rw [h] at hdest
    cases hdest
  all_goals
    simp only [Volume.offset, Volume.nand, settingsInit, flashInit, backtraceInit, trampolines,
      settingsPartitionOffset, flashPartitionOffset, backtracePartitionOffset, settingsPartitionSize,
      flashPartitionSize, backtracePartitionSize, gd25BlockCountNormal] at hlow hhigh hlt
    first
      | omega
      | exact hne rfl

def step (v : Volume) (w : World) (c : Callback) : Option World := some (final (v.nand.issue c) w)

def OnChip (w : World) : Prop :=
  ∀ c ∈ w.issued, ∀ row, c.row? = some row → row / gd25BlockPages < gd25BlockCountNormal

def Kept (u : Volume) (before w : World) : Prop :=
  ∀ row ∈ u.rows, w.chip.page row = before.chip.page row

/-- Callbacks that stay outside of some rows keep them through a whole run. -/
theorem run_isolated {v : Volume} {rows : Set ℕ} {callbacks : List Callback}
    (hcallbacks : ∀ c ∈ callbacks, Valid v.nand c ∧
      ∀ block, c.dest? = some block → Outside rows (block + v.offset)) (w₀ : World) {w : World}
    (hw : Isolated rows w₀.chip.page w) :
    Always (step v) (Isolated rows w₀.chip.page) w callbacks := by
  induction callbacks generalizing w with
  | nil => exact hw
  | cons c callbacks ih =>
    refine ⟨hw, fun t ht => ?_⟩
    cases ht
    obtain ⟨hvalid, hdest⟩ := hcallbacks c List.mem_cons_self
    exact ih (fun d hd => hcallbacks d (List.mem_cons_of_mem c hd))
      (volume_issue_isolated hvalid hdest w hw)

/-- Valid callbacks of one volume address only blocks of the chip, and change no page of
another volume as long as they are apart from it. -/
theorem partitions_isolated {v u : Volume} (hne : v ≠ u) (callbacks : List Callback)
    (hvalid : ∀ c ∈ callbacks, Valid v.nand c) (w : World) (hw : w.issued = []) :
    Always (step v) OnChip w callbacks ∧
      ((∀ c ∈ callbacks, Apart v u c) → Always (step v) (Kept u w) w callbacks) := by
  have hstart : ∀ rows : Set ℕ, Isolated rows w.chip.page w := by
    intro rows
    refine ⟨fun _ _ => rfl, ?_⟩
    simp [hw]
  constructor
  · have hempty : ∀ c ∈ callbacks, Valid v.nand c ∧
        ∀ block, c.dest? = some block → Outside ∅ (block + v.offset) :=
      fun c hc => ⟨hvalid c hc, fun _ _ _ hrow => hrow.elim⟩
    exact (run_isolated hempty w (hstart ∅)).mono fun _ h => h.addressed
  · intro hapart
    have hoff : ∀ c ∈ callbacks, Valid v.nand c ∧
        ∀ block, c.dest? = some block → Outside u.rows (block + v.offset) :=
      fun c hc => ⟨hvalid c hc, fun _ hdest => (hapart c hc).outside hne (hvalid c hc) hdest⟩
    exact (run_isolated hoff w (hstart u.rows)).mono fun _ h => h.kept

def written : World where
  chip := ⟨fun _ _ => 0, erasedPage, false, 0, gd25FeatureBitQe, false, false, 0⟩
  env _ := ⟨true, true, true, none, 0, none⟩
  time := 0
  issued := []
  buffer := erasedPage
  polling := false
  flashWip := 0

theorem flash_spares_backtrace :
    Always (step .flash) OnChip written [.blockErase 1003 0] ∧
      Always (step .flash) (Kept .backtrace written) written [.blockErase 1003 0] := by
  have hne : Volume.flash ≠ .backtrace := by decide
  have hvalid : ∀ c ∈ [Callback.blockErase 1003 0], Valid Volume.flash.nand c := by
    intro c hc
    rw [List.mem_singleton.mp hc]
    exact ⟨by decide, by decide⟩
  have hapart : ∀ c ∈ [Callback.blockErase 1003 0], Apart .flash .backtrace c := by
    intro c hc block hdest
    rw [List.mem_singleton.mp hc] at hdest
    cases hdest
    decide
  have h := partitions_isolated hne _ hvalid written rfl
  exact ⟨h.1, h.2 hapart⟩

/-- Block 1004 of the flash volume is block 0 of the backtrace volume. -/
theorem flash_erases_backtrace :
    Valid Volume.flash.nand (.blockErase 1004 0) ∧
      ¬ Always (step .flash) (Kept .backtrace written) written [.blockErase 1004 0] := by
  refine ⟨⟨by decide, by decide⟩, fun h => ?_⟩
  have hkept := (h.2 _ rfl) (rowAddr 1014 0) ⟨0, by decide, 0, by decide, rfl⟩
  have hbyte := congrFun hkept 0
  exact absurd hbyte (by decide)

end EtherBench.Nand.Partition
