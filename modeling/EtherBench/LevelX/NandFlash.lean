import EtherBench.Nand.Device
import Mathlib.Data.List.Basic

/-! # LevelX over NAND flash

The control block of a volume and the pages of its chip, as far as their spare bytes tell them apart, with
the functions of `levelx/common/src` that need no more than that: one turn of the loops of a format and of an
open, the two lists of blocks, and the search for a sector.
-/

namespace EtherBench.LevelX.NandFlash
open Nand.Device

def lxNandMaxBlockCount : ℕ := 32768
def lxNandFlashMaxEraseCountDelta : UInt8 := 64

def lxNandBlockStatusFree : BitVec 16 := 0xFFFF
def lxNandBlockStatusBad : BitVec 16 := 0xFF00
def lxNandBlockStatusAllocated : BitVec 16 := 0x8000
def lxNandBlockStatusFull : BitVec 16 := 0x4000
def lxNandBlockStatusNonSequential : BitVec 16 := 0x2000
def lxNandBlockStatusPageNumberMask : BitVec 16 := 0x0FFF

inductive Status where
  | success
  | error
  | noBlocks
  deriving DecidableEq

/-- What the spare bytes of a page say about it. -/
inductive PageType where
  | free
  | deviceInfo
  | eraseCountTable (page : UInt8)
  | blockMappingTable (page : UInt8)
  | blockStatusTable (page : UInt8)
  | blockLink
  | userData (sector : ℕ)
  | userDataReleased (sector : ℕ)
  deriving DecidableEq

def PageType.sector? : PageType → Option ℕ
  | .userData sector | .userDataReleased sector => some sector
  | _ => none

/-- The blocks of the metadata, or those of its backup. -/
structure MetadataBlocks where
  number : Option ℕ
  current : ℕ
  next : Option ℕ
  /-- The blocks in use, in the order they have been taken. -/
  blocks : List ℕ

structure Volume where
  totalBlocks : ℕ
  blockStatusTable : ℕ → BitVec 16
  blockMappingTable : ℕ → Option ℕ
  eraseCountTable : ℕ → UInt8
  /-- The block that is taken next comes first. -/
  freeBlockList : List ℕ
  /-- Logical blocks, the one that is moved next first. -/
  mappedBlockList : List ℕ
  metadata : MetadataBlocks
  backupMetadata : MetadataBlocks
  /-- The same in both copies. -/
  metadataBlockCurrentPage : ℕ
  pages : ℕ → ℕ → PageType

/-- The size of a table with an entry for every block, one page at least. -/
def tableSize (entrySize totalBlocks : ℕ) : ℕ := max (totalBlocks * entrySize) gd25PageSize

def pageNumber (status : BitVec 16) : ℕ := (status &&& lxNandBlockStatusPageNumberMask).toNat

/-- The flags of a status with another page number. -/
def withPageNumber (status : BitVec 16) (page : ℕ) : BitVec 16 :=
  BitVec.ofNat 16 page ||| (status &&& ~~~lxNandBlockStatusPageNumberMask)

def driverPageWrite (s : Volume) (block page : ℕ) (type : PageType) : Volume :=
  { s with pages := Function.update s.pages block (Function.update (s.pages block) page type) }

def driverBlockErase (s : Volume) (block : ℕ) : Volume :=
  { s with pages := Function.update s.pages block fun _ => .free }

/-! ## Format and open -/

/-- The control block as `_lx_nand_flash_memory_initialize` leaves it. -/
def initialized (totalBlocks : ℕ) : Volume where
  totalBlocks := totalBlocks
  blockStatusTable := fun _ => lxNandBlockStatusFree
  blockMappingTable := fun _ => none
  eraseCountTable := fun _ => 0
  freeBlockList := []
  mappedBlockList := []
  metadata := ⟨none, 0, none, []⟩
  backupMetadata := ⟨none, 0, none, []⟩
  metadataBlockCurrentPage := 0
  pages := fun _ _ => .free

def formatBlock (good : ℕ → Bool) (s : Volume) (block : ℕ) : Volume :=
  if good block then
    let s := driverBlockErase s block
    if s.metadata.number = none then
      { s with metadata := { s.metadata with number := some block, current := block } }
    else if s.backupMetadata.number = none then
      { s with backupMetadata := { s.backupMetadata with number := some block, current := block } }
    else if s.metadata.next = none then { s with metadata := { s.metadata with next := some block } }
    else if s.backupMetadata.next = none then
      { s with backupMetadata := { s.backupMetadata with next := some block } }
    else s
  else { s with blockStatusTable := Function.update s.blockStatusTable block lxNandBlockStatusBad }

def pageCount (size : ℕ) : ℕ := (size + (gd25PageSize - 1)) / gd25PageSize

def metadataTypes (totalBlocks : ℕ) : List PageType :=
  .deviceInfo ::
    ((List.range (pageCount (tableSize 1 totalBlocks))).map fun i => .eraseCountTable (.ofNat i)) ++
    ((List.range (pageCount (tableSize 2 totalBlocks))).map fun i => .blockMappingTable (.ofNat i)) ++
    ((List.range (pageCount (tableSize 2 totalBlocks))).map fun i => .blockStatusTable (.ofNat i))

/-- Goes behind every entry with fewer erases, where the entry with the fewest comes first. -/
def insertByWear (wear : ℕ → UInt8) (x : ℕ) (list : List ℕ) : List ℕ :=
  (list.takeWhile fun y => wear y < wear x) ++ x :: list.dropWhile fun y => wear y < wear x

/-- Nothing changes when the two lists fill the array they share. -/
def freeBlockListAdd (s : Volume) (block : ℕ) : Volume :=
  if s.totalBlocks ≤ s.freeBlockList.length + s.mappedBlockList.length then s
  else { s with freeBlockList := insertByWear s.eraseCountTable block s.freeBlockList }

/-- The number of erases of the block behind a logical block. -/
def mappedWear (s : Volume) (index : ℕ) : UInt8 := (s.blockMappingTable index).elim 0 s.eraseCountTable

def mappedBlockListAdd (s : Volume) (index : ℕ) : Volume :=
  if s.totalBlocks ≤ s.freeBlockList.length + s.mappedBlockList.length then s
  else { s with mappedBlockList := insertByWear (mappedWear s) index s.mappedBlockList }

def mappedBlockListRemove (s : Volume) (index : ℕ) : Volume :=
  { s with mappedBlockList := s.mappedBlockList.erase index }

/-- One turn of the loop that builds the two lists. -/
def openBlock (s : Volume) (block : ℕ) : Volume :=
  let s := if s.blockStatusTable block = lxNandBlockStatusFree then freeBlockListAdd s block else s
  if (s.blockMappingTable block).isSome then mappedBlockListAdd s block else s

/-! ## Blocks and pages of a sector -/

/-- The mapped block and its status, or `none` for a sector out of range. -/
def blockFind (s : Volume) (logicalSector : ℕ) : Option (Option ℕ × BitVec 16) :=
  let index := logicalSector / gd25BlockPages
  if tableSize 2 s.totalBlocks / 2 < index then none
  else
    match s.blockMappingTable index with
    | none => some (none, 0)
    | some block => some (some block, s.blockStatusTable block)

theorem index_in_table {s : Volume} {index : ℕ} (h : index < s.totalBlocks) :
    ¬ tableSize 2 s.totalBlocks / 2 < index := by
  have hsize : s.totalBlocks * 2 ≤ tableSize 2 s.totalBlocks := Nat.le_max_left _ _
  omega

def blockAllocate (s : Volume) : Option (ℕ × Volume) :=
  match s.freeBlockList with
  | [] => none
  | block :: rest => some (block, { s with freeBlockList := rest })

def setAt (status : BitVec 16) (flag : BitVec 16) (on : Bool) : BitVec 16 := if on then status ||| flag else status

/-- The latest copy of a sector among the given number of pages. -/
def findPage (s : Volume) (block pages sector : ℕ) : Option ℕ :=
  (List.range pages).reverse.find? fun page => (s.pages block page).sector? = some sector

end EtherBench.LevelX.NandFlash
