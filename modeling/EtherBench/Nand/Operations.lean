import EtherBench.Nand.Driver

/-! # Operations of the NAND driver

The calls of LevelX into the driver, and what they exchange with the chip.
-/

namespace EtherBench.Nand.Operations
open Device Hal Driver Library.Effects

/-- The functions that change the array. -/
inductive Modification where
  | blockErase (block : ℕ)
  | pageWrite (block page : ℕ) (source : ℕ → UInt8) (words : ℕ)
  | pagesWrite (block page : ℕ) (mainBuffer spareBuffer : Source) (pages : ℕ)
  | extraBytesSet (block page : ℕ) (source : Source) (size : ℕ)
  | blockStatusSet (block : ℕ) (badBlockByte : UInt8)
  | pageCopy (srcBlock srcPage destBlock destPage pages : ℕ)

inductive Operation where
  | modify (m : Modification)
  | pageRead (block page words : ℕ)
  | pagesRead (block page : ℕ) (mainGiven spareGiven : Bool) (pages : ℕ)
  | extraBytesGet (block page size : ℕ)
  | blockStatusGet (block : ℕ)
  | pageEraseVerify (block page : ℕ)
  | blockEraseVerify (block : ℕ)

def Modification.perform : Modification → Driver Unit
  | .blockErase block => Driver.blockErase block
  | .pageWrite block page source words => Driver.pageWrite block page source words
  | .pagesWrite block page mainBuffer spareBuffer pages =>
    Driver.pagesWrite block page mainBuffer spareBuffer pages
  | .extraBytesSet block page source size => Driver.extraBytesSet block page source size
  | .blockStatusSet block badBlockByte => Driver.blockStatusSet block badBlockByte
  | .pageCopy srcBlock srcPage destBlock destPage pages =>
    Driver.pageCopy srcBlock srcPage destBlock destPage pages

/-- A function and its status; the bytes that it stores are left out. -/
def statusOf {α : Type} (x : Driver α) : Driver Unit := do
  let _ ← x

def Operation.perform : Operation → Driver Unit
  | .modify m => m.perform
  | .pageRead block page words => statusOf (Driver.pageRead block page words)
  | .pagesRead block page mainGiven spareGiven pages =>
    statusOf (Driver.pagesRead block page mainGiven spareGiven pages)
  | .extraBytesGet block page size => statusOf (Driver.extraBytesGet block page size)
  | .blockStatusGet block => statusOf (Driver.blockStatusGet block)
  | .pageEraseVerify block page => Driver.pageEraseVerify block page
  | .blockEraseVerify block => Driver.blockEraseVerify block

def watch (w : World) : World := { w with exchanges := [] }

def trace (x : Driver Unit) (w : World) : List Exchange := (final x (watch w)).exchanges

def Succeeds (x : Driver Unit) (w : World) : Prop := ∃ t, x (watch w) = .ok () t

/-- The reaction of a bus and a chip that do what they are asked. -/
def smooth : Reaction := ⟨true, true, true, none, 0, none⟩

def fresh (env : ℕ → Reaction) : World where
  chip := ⟨fun _ => erasedPage, erasedPage, false, 0, gd25FeatureBitQe, false, false, 0⟩
  env := env
  time := 0
  issued := []
  buffer := erasedPage
  polling := false
  flashWip := 0

end EtherBench.Nand.Operations
