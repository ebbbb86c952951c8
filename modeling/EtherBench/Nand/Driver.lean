import Mathlib.Algebra.Group.Nat.Defs
import EtherBench.Nand.Hal

/-! # The NAND driver

The functions of `levelx/bsp/GD5F1GO4UBY1G/src`. A pointer to constant data is the memory
behind it, or nothing when it is null; a function that fills buffers answers what it stored
in them. `ULONG` arithmetic is modulo `2 ^ 32`.
-/

namespace EtherBench.Nand.Driver
open Device Hal Library.Effects

def ulong (n : ℕ) : ℕ := n % 2 ^ 32

theorem ulong_eq {n : ℕ} (h : n < 2 ^ 32) : ulong n = n := Nat.mod_eq_of_lt h

/-- A `const` buffer; `none` is the null pointer. -/
abbrev Source := Option (ℕ → UInt8)

def Source.advance (source : Source) (n : ℕ) : Source := source.map fun bytes i => bytes (n + i)

def gd25DmaThreshold : ℕ := 32

def rowAddr (block page : ℕ) : ℕ := ulong (block * gd25BlockPages + page)

theorem rowAddr_eq {block page : ℕ} (hblock : block < gd25BlockCountNormal)
    (hpage : page < gd25BlockPages) : rowAddr block page = block * gd25BlockPages + page := by
  apply ulong_eq
  simp only [gd25BlockCountNormal, gd25BlockPages] at *
  omega

/-- The command of `wait_for_complete`, also used to read the status at the end. -/
def statusCommand : Command := .getFeatures gd25FeatureRegStatus1

theorem exchange_status_chip (w : World) :
    (w.exchange (·.execute w.reaction statusCommand)).chip = w.chip := ite_self w.chip

def reset : Driver Unit := do
  let _ ← halXspiCommand .reset

/-- The check of the status register after a wait. A status that cannot be read counts as
success, and so does a byte that was not received. -/
def checkStatus : Driver Unit := do
  let ok ← halXspiCommand statusCommand
  if ok then
    let received ← halXspiReceive statusCommand
    let statusReg := (received.getD [0]).headD 0
    if statusReg &&& gd25FeatureBitEFail ≠ 0 ∨ statusReg &&& gd25FeatureBitPFail ≠ 0 then
      reset
      throw (lxError ||| statusReg.toNat <<< 8)
    else pure ()
  else pure ()

def waitForComplete : Driver Unit := do
  drainFlashWip
  require (halXspiCommand statusCommand)
  require halXspiAutoPollingIt
  require getFlashWip
  checkStatus

def writeEnable : Driver Unit := require (halXspiCommand .writeEnable)
def writeDisable : Driver Unit := require (halXspiCommand .writeDisable)

/-- The staging buffer set to ones, with the bytes of both sources copied over it. Places
from `gd25PageTotal` on stand for the memory after the buffer. -/
def stage (mainBuffer : Source) (mainSize : ℕ) (spareBuffer : Source) (spareSize spareOffset : ℕ) :
    Page :=
  let copy (page : Page) (column : ℕ) (source : Source) (size : ℕ) : Page :=
    match source with
    | none => page
    | some bytes => overlay page column ((List.range size).map bytes)
  copy (copy erasedPage 0 mainBuffer mainSize) (mainSize + spareOffset) spareBuffer spareSize

/-- The bytes to move: the sizes of the areas that are given. -/
def xferSize (mainGiven : Bool) (mainSize : ℕ) (spareGiven : Bool) (spareSize : ℕ) : ℕ :=
  ulong ((if mainGiven then mainSize else 0) + if spareGiven then spareSize else 0)

def startColumn (mainGiven : Bool) (spareOffset : ℕ) : ℕ :=
  if mainGiven then 0 else gd25PageSize + spareOffset

/-- The start of the staging buffer goes out, by DMA above the threshold. -/
def transmit (load : Command) (size : ℕ) : Driver Unit := do
  let w ← get
  require (halXspiCommand load)
  require (halXspiTransmit load ((List.range size).map w.buffer))
  if size > gd25DmaThreshold then require getFlashDmaDone else pure ()

/-- `GD5F1GO4UBY1G_generic_write`. -/
def genericWrite (block page : ℕ) (mainBuffer : Source) (mainSize : ℕ) (spareBuffer : Source)
    (spareSize spareOffset : ℕ) : Driver Unit := do
  let size := xferSize mainBuffer.isSome mainSize spareBuffer.isSome spareSize
  let load := Command.programLoadX4 (startColumn mainBuffer.isSome spareOffset) size
  modify fun w => { w with buffer := stage mainBuffer mainSize spareBuffer spareSize spareOffset }
  transmit load size
  writeEnable
  require (halXspiCommand (.programExecute (rowAddr block page)))
  waitForComplete

def pageWrite (block page : ℕ) (source : ℕ → UInt8) (words : ℕ) : Driver Unit :=
  genericWrite block page (some source) (ulong (words * 4)) none 0 0

def extraBytesSet (block page : ℕ) (source : Source) (size : ℕ) : Driver Unit :=
  genericWrite block page none 0 source size 0

/-- `GD5F1GO4UBY1G_pages_write`: both pointers move on by one page each turn. -/
def pagesWrite (block page : ℕ) (mainBuffer spareBuffer : Source) (pages : ℕ) : Driver Unit :=
  let mainSize := if mainBuffer.isSome then gd25PageSize else 0
  let spareSize := if spareBuffer.isSome then gd25PageOob else 0
  forRange (fun i => genericWrite block (ulong (page + i)) (mainBuffer.advance (i * gd25PageSize))
    mainSize (spareBuffer.advance (i * gd25PageOob)) spareSize 0) 0 pages

def storeReceived : Option (List UInt8) → Driver Unit
  | some bytes => modify fun w => { w with buffer := overlay w.buffer 0 bytes }
  | none => throw lxError

/-- Bytes of the cache come in, by DMA above the threshold. -/
def receive (read : Command) (size : ℕ) : Driver Unit := do
  require (halXspiCommand read)
  let received ← halXspiReceive read
  storeReceived received
  if size > gd25DmaThreshold then require getFlashDmaDone else pure ()

/-- `GD5F1GO4UBY1G_generic_read`: the bytes stored in the main and in the spare buffer. -/
def genericRead (block page : ℕ) (mainGiven : Bool) (mainSize : ℕ) (spareGiven : Bool)
    (spareSize spareOffset : ℕ) : Driver (List UInt8 × List UInt8) := do
  require (halXspiCommand (.readToCache (rowAddr block page)))
  orThrow lxError waitForComplete
  let size := xferSize mainGiven mainSize spareGiven spareSize
  let read := Command.readFromCacheQio (startColumn mainGiven spareOffset) size
  modify fun w => { w with buffer := erasedPage }
  receive read size
  let w ← get
  let main := if mainGiven then (List.range mainSize).map w.buffer else []
  let spare := (List.range spareSize).map fun i => w.buffer (mainSize + spareOffset + i)
  pure (main, if spareGiven then spare else [])

def pageRead (block page words : ℕ) : Driver (List UInt8) := do
  let read ← genericRead block page true (ulong (words * 4)) false 0 0
  pure read.1

def extraBytesGet (block page size : ℕ) : Driver (List UInt8) := do
  let read ← genericRead block page false 0 true size 0
  pure read.2

/-- The loop of `GD5F1GO4UBY1G_pages_read`: what its turns store, one after the other. -/
def pagesReadLoop (block page : ℕ) (mainGiven spareGiven : Bool) :
    ℕ → ℕ → Driver (List UInt8 × List UInt8)
  | _, 0 => pure ([], [])
  | i, n + 1 => do
    let first ← genericRead block (ulong (page + i)) mainGiven
      (if mainGiven then gd25PageSize else 0) spareGiven (if spareGiven then gd25PageOob else 0) 0
    let rest ← pagesReadLoop block page mainGiven spareGiven (i + 1) n
    pure (first.1 ++ rest.1, first.2 ++ rest.2)

def pagesRead (block page : ℕ) (mainGiven spareGiven : Bool) (pages : ℕ) :
    Driver (List UInt8 × List UInt8) :=
  pagesReadLoop block page mainGiven spareGiven 0 pages

/-- One turn of `GD5F1GO4UBY1G_page_copy`: the page goes through the cache of the chip. -/
def copyOne (srcRow destRow : ℕ) : Driver Unit := do
  require (halXspiCommand (.readToCache srcRow))
  orThrow lxError waitForComplete
  writeEnable
  require (halXspiCommand (.programExecute destRow))
  orThrow lxError waitForComplete

def pageCopy (srcBlock srcPage destBlock destPage pages : ℕ) : Driver Unit :=
  forRange (fun i => copyOne (rowAddr srcBlock (srcPage + i)) (rowAddr destBlock (destPage + i)))
    0 pages

def blockErase (block : ℕ) : Driver Unit := do
  writeEnable
  require (halXspiCommand (.blockErase (rowAddr block 0)))
  waitForComplete

def blockStatusGet (block : ℕ) : Driver (List UInt8) := do
  let read ← genericRead block 0 false 0 true 1 0
  pure read.2

def blockStatusSet (block : ℕ) (badBlockByte : UInt8) : Driver Unit :=
  genericWrite block 0 none 0 (some fun _ => badBlockByte) 1 0

def pageEraseVerify (block page : ℕ) : Driver Unit := do
  let words ← orThrow lxError (pageRead block page (gd25PageSize / 4))
  if words.all (· = 0xFF) then pure () else throw lxError

/-- `GD5F1GO4UBY1G_block_erase_verify` looks at the first and at the last page. -/
def blockEraseVerify (block : ℕ) : Driver Unit := do
  orThrow lxError (pageEraseVerify block 0)
  orThrow lxError (pageEraseVerify block (gd25BlockPages - 1))

def ignore (x : Driver Unit) : Driver Unit := fun w =>
  match x w with
  | .ok _ t => .ok () t
  | .error _ t => .ok () t

/-- The write of a feature register, by `GD5F1GO4UBY1G_set_protected_blocks` and
`GD5F1GO4UBY1G_enable_quad`. The outcome of the wait does not matter to them. -/
def setFeature (reg value : UInt8) : Driver Unit := do
  writeEnable
  require (halXspiCommand (.setFeatures reg))
  require (halXspiTransmit (.setFeatures reg) [value])
  ignore waitForComplete

def setProtectedBlocks (status : UInt8) : Driver Unit := setFeature gd25FeatureRegProtection status

/-- The host side, which is set up last, has no effect on the chip. -/
def enableQuad : Driver Unit := do
  setFeature gd25FeatureRegFeature1 gd25FeatureBitQe
  writeDisable

end EtherBench.Nand.Driver
