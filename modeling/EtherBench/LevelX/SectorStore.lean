import EtherBench.LevelX.NandFlash

/-! # LevelX with the contents of the pages

The sector reads, writes and releases of `levelx/common/src` and what they call, over pages with their
main areas. The driver carries every call out. `_lx_nand_flash_metadata_allocate`
writes metadata and so calls itself; what it does once a metadata block is full is the parameter
`advance` of the functions below it, and `advanced` is its body.
-/

namespace EtherBench.LevelX.SectorStore
open Nand.Device NandFlash

def lxNandFlashMaxMetadataBlocks : ℕ := 4
def lxNandBlockUnmapped : ℕ := 0xFFFF
def lxNandDeviceInfoSignature1 : ℕ := 0x76654C20
def lxNandDeviceInfoSignature2 : ℕ := 0x20586C65
def levelxMajorVersion : ℕ := 6
def levelxMinorVersion : ℕ := 4
def levelxPatchVersion : ℕ := 0

abbrev PageData := ℕ → UInt8

/-- What a sector holds that has not been written. -/
def allOnes : PageData := fun _ => 0xFF

structure Store extends Volume where
  contents : ℕ → ℕ → PageData
  /-- A page has been programmed again before an erase, which the chip does not allow for. -/
  reprogrammed : Bool

def driverPageWrite (s : Store) (block page : ℕ) (type : PageType) (data : PageData) : Store where
  toVolume := NandFlash.driverPageWrite s.toVolume block page type
  contents := Function.update s.contents block (Function.update (s.contents block) page data)
  reprogrammed := s.reprogrammed || s.pages block page ≠ .free

def driverBlockErase (s : Store) (block : ℕ) : Store :=
  { s with
    toVolume := NandFlash.driverBlockErase s.toVolume block
    contents := Function.update s.contents block fun _ => allOnes }

def driverPagesCopy (s : Store) (source sourcePage destination destinationPage count : ℕ) : Store :=
  (List.range count).foldl (fun s i =>
    driverPageWrite s destination (destinationPage + i) (s.pages source (sourcePage + i))
      (s.contents source (sourcePage + i))) s

def blockAllocate (s : Store) : Option (ℕ × Store) :=
  (NandFlash.blockAllocate s.toVolume).map fun (block, volume) => (block, { s with toVolume := volume })

def freeBlockListAdd (s : Store) (block : ℕ) : Store :=
  { s with toVolume := NandFlash.freeBlockListAdd s.toVolume block }

def mappedBlockListAdd (s : Store) (index : ℕ) : Store :=
  { s with toVolume := NandFlash.mappedBlockListAdd s.toVolume index }

def mappedBlockListRemove (s : Store) (index : ℕ) : Store :=
  { s with toVolume := NandFlash.mappedBlockListRemove s.toVolume index }

/-! ## The pages of metadata -/

/-- A table of 16-bit entries in a page, the low byte of each first. -/
def shorts (entry : ℕ → ℕ) : PageData := fun i => .ofNat (entry (i / 2) / 256 ^ (i % 2))

/-- Numbers of 32 bits at the start of a page of ones. -/
def longs (words : List ℕ) : PageData := fun i =>
  if i < 4 * words.length then .ofNat (words.getD (i / 4) 0 / 256 ^ (i % 4)) else 0xFF

def shortAt (data : PageData) (i : ℕ) : ℕ := (data (2 * i)).toNat + 256 * (data (2 * i + 1)).toNat

def longAt (data : PageData) (i : ℕ) : ℕ :=
  (data (4 * i)).toNat + 256 * ((data (4 * i + 1)).toNat + 256 * ((data (4 * i + 2)).toNat +
    256 * (data (4 * i + 3)).toNat))

def blockNumber (block : Option ℕ) : ℕ := block.getD lxNandBlockUnmapped

def mappedBlock (number : ℕ) : Option ℕ := if number = lxNandBlockUnmapped then none else some number

def deviceInfo (s : Store) : PageData :=
  longs [lxNandDeviceInfoSignature1, lxNandDeviceInfoSignature2, levelxMajorVersion, levelxMinorVersion,
    levelxPatchVersion, blockNumber s.metadata.number, blockNumber s.backupMetadata.number]

def blockLink (s : Store) : PageData := longs [blockNumber s.metadata.next, blockNumber s.backupMetadata.next]

/-- The part of a table that a page of metadata holds. -/
def tablePage (s : Store) : PageType → PageData
  | .eraseCountTable page => fun i => s.eraseCountTable (page.toNat * gd25PageSize + i)
  | .blockMappingTable page => shorts fun i => blockNumber (s.blockMappingTable (page.toNat * (gd25PageSize / 2) + i))
  | .blockStatusTable page => shorts fun i => (s.blockStatusTable (page.toNat * (gd25PageSize / 2) + i)).toNat
  | .deviceInfo => deviceInfo s
  | .blockLink => blockLink s
  | _ => allOnes

theorem tablePage_eraseCountTable (s : Store) (page : UInt8) : tablePage s (.eraseCountTable page) =
    fun i => s.eraseCountTable (page.toNat * gd25PageSize + i) := rfl

theorem tablePage_blockMappingTable (s : Store) (page : UInt8) : tablePage s (.blockMappingTable page) =
    shorts fun i => blockNumber (s.blockMappingTable (page.toNat * (gd25PageSize / 2) + i)) := rfl

theorem tablePage_blockStatusTable (s : Store) (page : UInt8) : tablePage s (.blockStatusTable page) =
    shorts fun i => (s.blockStatusTable (page.toNat * (gd25PageSize / 2) + i)).toNat := rfl

theorem tablePage_deviceInfo (s : Store) : tablePage s .deviceInfo = deviceInfo s := rfl

theorem tablePage_blockLink (s : Store) : tablePage s .blockLink = blockLink s := rfl

def metadataPageWrite (s : Store) (type : PageType) : Store :=
  let page := s.metadataBlockCurrentPage
  let data := tablePage s type
  let s := driverPageWrite s s.metadata.current page type data
  let s := driverPageWrite s s.backupMetadata.current page type data
  { s with metadataBlockCurrentPage := page + 1 }

section Metadata
variable (advance : Store → Store)

def metadataAllocate (s : Store) : Store :=
  if s.metadataBlockCurrentPage < gd25BlockPages then s else advance s

def metadataWrite (s : Store) (type : PageType) : Store := metadataAllocate advance (metadataPageWrite s type)

def metadataBuild (s : Store) : Store := (metadataTypes s.totalBlocks).foldl (metadataWrite advance) s

def blockMappingSet (s : Store) (logicalSector : ℕ) (block : Option ℕ) : Store :=
  let index := logicalSector / gd25BlockPages
  if tableSize 2 s.totalBlocks / 2 < index then s
  else
    metadataWrite advance { s with blockMappingTable := Function.update s.blockMappingTable index block }
      (.blockMappingTable (.ofNat (index * 2 / gd25PageSize)))

def blockStatusSet (s : Store) (block : ℕ) (status : BitVec 16) : Store :=
  metadataWrite advance { s with blockStatusTable := Function.update s.blockStatusTable block status }
    (.blockStatusTable (.ofNat (block * 2 / gd25PageSize)))

def eraseCountSet (s : Store) (block : ℕ) (count : UInt8) : Store :=
  metadataWrite advance { s with eraseCountTable := Function.update s.eraseCountTable block count }
    (.eraseCountTable (.ofNat (block / gd25PageSize)))

/-! ## Copies -/

structure Filled where
  store : Store
  page : ℕ
  flags : BitVec 16

def copySector (source available destination sector : ℕ) (f : Filled) : Filled :=
  match findPage f.store.toVolume source available sector with
  | none => f
  | some page =>
    if f.store.pages source page = .userData sector then
      let store := driverPagesCopy f.store source page destination f.page 1
      let flags := setAt f.flags lxNandBlockStatusNonSequential (f.page ≠ sector % gd25BlockPages)
      ⟨store, f.page + 1, setAt flags lxNandBlockStatusFull (f.page + 1 = gd25BlockPages)⟩
    else f

def availablePages (status : BitVec 16) : ℕ :=
  if status &&& lxNandBlockStatusFull ≠ 0 then gd25BlockPages else pageNumber status

/-- The sectors one by one, from the latest page of each. -/
def copySectors (s : Store) (logicalSector source available destination : ℕ) (destinationStatus : BitVec 16)
    (sectors : ℕ) : Filled :=
  (List.range sectors).foldl (fun f i => copySector source available destination (logicalSector + i) f)
    ⟨s, pageNumber destinationStatus, destinationStatus⟩

def copyPages (s : Store) (logicalSector source available destination : ℕ) (destinationStatus : BitVec 16)
    (sectors : ℕ) : Filled :=
  let page := pageNumber destinationStatus
  let sourcePage := logicalSector % gd25BlockPages
  let count := if available < sourcePage + sectors then available - sourcePage else sectors
  if count ≠ 0 then
    let flags := setAt destinationStatus lxNandBlockStatusNonSequential (sourcePage ≠ page)
    ⟨driverPagesCopy s source sourcePage destination page count, page + count,
      setAt flags lxNandBlockStatusFull (page + count = gd25BlockPages)⟩
  else ⟨s, page, destinationStatus⟩

def dataPageCopy (s : Store) (logicalSector source : ℕ) (sourceStatus : BitVec 16) (destination : ℕ)
    (destinationStatus : BitVec 16) (sectors : ℕ) : Store × BitVec 16 :=
  let available := availablePages sourceStatus
  let f :=
    if sourceStatus &&& lxNandBlockStatusNonSequential ≠ 0 then
      copySectors s logicalSector source available destination destinationStatus sectors
    else copyPages s logicalSector source available destination destinationStatus sectors
  (f.store, withPageNumber f.flags f.page)

/-! ## Blocks that are given back -/

def eraseCounted (s : Store) (block : ℕ) : Store :=
  let s := driverBlockErase s block
  eraseCountSet advance s block (s.eraseCountTable block + 1)

def release (s : Store) (block : ℕ) : Store :=
  freeBlockListAdd (blockStatusSet advance s block lxNandBlockStatusFree) block

/-- The sectors of a logical block go from its block to the new one. -/
def blockMove (s : Store) (index block : ℕ) (blockStatus : BitVec 16) (newBlock : ℕ) : Store :=
  let sector := index * gd25BlockPages
  let (s, status) := dataPageCopy s sector block blockStatus newBlock lxNandBlockStatusAllocated gd25BlockPages
  let s :=
    if pageNumber status ≠ 0 then
      let s := blockStatusSet advance s newBlock status
      mappedBlockListAdd (blockMappingSet advance s sector (some newBlock)) index
    else
      -- No sector is valid, so that the logical block is only unmapped.
      let s := blockStatusSet advance (freeBlockListAdd s newBlock) newBlock lxNandBlockStatusFree
      blockMappingSet advance s sector none
  release advance (eraseCounted advance s block) block

/-- The logical block with the fewest erases goes to the worn block, and its own one becomes free. -/
def blockDataMove (s : Store) (newBlock : ℕ) : Store :=
  match s.mappedBlockList with
  | [] => s
  | index :: rest =>
    let s := { s with mappedBlockList := rest }
    match blockFind s.toVolume (index * gd25BlockPages) with
    | some (some block, blockStatus) => blockMove advance s index block blockStatus newBlock
    | _ => s

/-- The old block after its sectors have been copied. -/
def retire (s : Store) (block : ℕ) : Store :=
  let s := eraseCounted advance s block
  if lxNandFlashMaxEraseCountDelta < s.eraseCountTable block then blockDataMove advance s block
  else release advance s block

/-! ## Sectors -/

/-- `none` stands for an error. -/
def sectorRead (s : Store) (logicalSector : ℕ) : Option PageData :=
  match blockFind s.toVolume logicalSector with
  | none => none
  | some (none, _) => some allOnes
  | some (some block, blockStatus) =>
    let available := availablePages blockStatus
    if blockStatus &&& lxNandBlockStatusNonSequential ≠ 0 then
      match findPage s.toVolume block available logicalSector with
      | some page => some (s.contents block page)
      | none => some allOnes
    else if logicalSector % gd25BlockPages < available then
      some (s.contents block (logicalSector % gd25BlockPages))
    else some allOnes

/-- The page of a sector, and the status of its block after that. -/
def sectorPageWrite (s : Store) (logicalSector : ℕ) (data : PageData) (block : ℕ) (status : BitVec 16) :
    Store × BitVec 16 :=
  let page := pageNumber status
  let flags := setAt status lxNandBlockStatusNonSequential (page ≠ logicalSector % gd25BlockPages)
  (driverPageWrite s block page (.userData logicalSector) data,
    withPageNumber (setAt flags lxNandBlockStatusFull (page + 1 = gd25BlockPages)) (page + 1))

/-- The sectors of a logical block behind the addressed one. -/
def copyRest (s : Store) (logicalSector block : ℕ) (blockStatus : BitVec 16) (newBlock : ℕ)
    (status : BitVec 16) : Store × BitVec 16 :=
  let offset := logicalSector % gd25BlockPages
  if offset < gd25BlockPages - 1 then
    dataPageCopy s (logicalSector + 1) block blockStatus newBlock status (gd25BlockPages - 1 - offset)
  else (s, status)

def sectorWrite (s : Store) (logicalSector : ℕ) (data : PageData) : Status × Store :=
  let index := logicalSector / gd25BlockPages
  let offset := logicalSector % gd25BlockPages
  match blockFind s.toVolume logicalSector with
  | none => (.error, s)
  | some (none, _) =>
    match blockAllocate s with
    | none => (.noBlocks, s)
    | some (newBlock, s) =>
      let s := blockMappingSet advance s logicalSector (some newBlock)
      let (s, status) := sectorPageWrite s logicalSector data newBlock lxNandBlockStatusAllocated
      (.success, mappedBlockListAdd (blockStatusSet advance s newBlock status) index)
  | some (some block, blockStatus) =>
    if blockStatus &&& lxNandBlockStatusFull ≠ 0 then
      match blockAllocate s with
      | none => (.noBlocks, s)
      | some (newBlock, s) =>
        let s := mappedBlockListRemove s index
        let (s, status) :=
          dataPageCopy s (logicalSector - offset) block blockStatus newBlock lxNandBlockStatusAllocated offset
        let s := blockMappingSet advance s logicalSector (some newBlock)
        let (s, status) := sectorPageWrite s logicalSector data newBlock status
        let (s, status) := copyRest s logicalSector block blockStatus newBlock status
        let s := retire advance (blockStatusSet advance s newBlock status) block
        (.success, mappedBlockListAdd s index)
    else
      let (s, status) := sectorPageWrite s logicalSector data block blockStatus
      (.success, blockStatusSet advance s block status)

/-- Whether there is a page of the sector to release: some copy of it, where the block is out of order. -/
def releasable (s : Store) (logicalSector block : ℕ) (blockStatus : BitVec 16) : Bool :=
  let available := availablePages blockStatus
  if blockStatus &&& lxNandBlockStatusNonSequential ≠ 0 then
    (List.range available).any fun page => s.pages block page = .userData logicalSector
  else logicalSector % gd25BlockPages < available

/-- The page that marks the sector as released, and the status of its block after that. -/
def releasedPageWrite (s : Store) (logicalSector block : ℕ) (status : BitVec 16) : Store × BitVec 16 :=
  let page := availablePages status
  (driverPageWrite s block page (.userDataReleased logicalSector) allOnes,
    withPageNumber (setAt status lxNandBlockStatusFull (page + 1 = gd25BlockPages)) (page + 1) |||
      lxNandBlockStatusNonSequential)

def sectorRelease (s : Store) (logicalSector : ℕ) : Status × Store :=
  let index := logicalSector / gd25BlockPages
  let offset := logicalSector % gd25BlockPages
  match blockFind s.toVolume logicalSector with
  | none => (.error, s)
  | some (none, _) => (.success, s)
  | some (some block, blockStatus) =>
    if releasable s logicalSector block blockStatus then
      if blockStatus &&& lxNandBlockStatusFull ≠ 0 then
        match blockAllocate s with
        | none => (.error, s)
        | some (newBlock, s) =>
          let s := mappedBlockListRemove s index
          let (s, status) :=
            dataPageCopy s (logicalSector - offset) block blockStatus newBlock lxNandBlockStatusAllocated offset
          let (s, status) := copyRest s logicalSector block blockStatus newBlock status
          let kept := pageNumber status ≠ 0
          let s := if kept then blockStatusSet advance s newBlock status else freeBlockListAdd s newBlock
          let s := blockMappingSet advance s logicalSector (if kept then some newBlock else none)
          let s := retire advance s block
          (.success, if kept then mappedBlockListAdd s index else s)
      else
        let (s, status) := releasedPageWrite s logicalSector block blockStatus
        (.success, blockStatusSet advance s block status)
    else (.success, s)

/-! ## A full metadata block -/

/-- A block that the metadata has left, as it is counted before the metadata is written anew. -/
def metadataBlockFree (s : Store) (block : ℕ) : Store :=
  { s with
    blockStatusTable := Function.update s.blockStatusTable block lxNandBlockStatusFree
    eraseCountTable := Function.update s.eraseCountTable block (s.eraseCountTable block + 1) }

def minEraseCount (s : Store) : UInt8 :=
  (List.range s.totalBlocks).foldl (fun least block =>
    if s.blockStatusTable block ≠ lxNandBlockStatusBad ∧ s.eraseCountTable block < least then
      s.eraseCountTable block
    else least) 255

/-- The erases that all good blocks share are not kept in the table. -/
def eraseCountsLower (s : Store) : Store :=
  let least := minEraseCount s
  if 0 < least then
    { s with eraseCountTable := fun block =>
        if block < s.totalBlocks ∧ s.blockStatusTable block ≠ lxNandBlockStatusBad then
          s.eraseCountTable block - least
        else s.eraseCountTable block }
  else s

/-- The erase of a block that the metadata has left. -/
def metadataBlockErase (s : Store) (block : ℕ) : Store :=
  let s := driverBlockErase s block
  if lxNandFlashMaxEraseCountDelta < s.eraseCountTable block then blockDataMove advance s block
  else freeBlockListAdd s block

/-- The metadata starts anew in its current block, and the blocks before it are given back. -/
def metadataRestart (s : Store) : Store :=
  let pairs := (s.metadata.blocks.zip s.backupMetadata.blocks).take (lxNandFlashMaxMetadataBlocks - 1)
  let s := pairs.foldl (fun s pair => metadataBlockFree (metadataBlockFree s pair.1) pair.2) s
  let s := { s with
    metadata := { s.metadata with number := some s.metadata.current }
    backupMetadata := { s.backupMetadata with number := some s.backupMetadata.current } }
  let s := metadataBuild advance (eraseCountsLower s)
  let s := pairs.foldl (fun s pair => metadataBlockErase advance (metadataBlockErase advance s pair.1) pair.2) s
  { s with
    metadata := { s.metadata with blocks := [s.metadata.current] }
    backupMetadata := { s.backupMetadata with blocks := [s.backupMetadata.current] } }

/-- One more block for the metadata, unless none is free. -/
def metadataExtend (s : Store) : Store :=
  match blockAllocate s with
  | none => s
  | some (block, s) =>
    let s := { s with metadata := { s.metadata with next := some block } }
    let s := blockStatusSet advance s block lxNandBlockStatusAllocated
    match blockAllocate s with
    | none => s
    | some (backupBlock, s) =>
      let s := { s with backupMetadata := { s.backupMetadata with next := some backupBlock } }
      let s := blockStatusSet advance s backupBlock lxNandBlockStatusAllocated
      let s := metadataWrite advance s .blockLink
      { s with
        metadata := { s.metadata with blocks := s.metadata.blocks ++ [block] }
        backupMetadata := { s.backupMetadata with blocks := s.backupMetadata.blocks ++ [backupBlock] } }

def metadataNext (s : Store) : Store :=
  { s with
    metadata := { s.metadata with current := blockNumber s.metadata.next }
    backupMetadata := { s.backupMetadata with current := blockNumber s.backupMetadata.next }
    metadataBlockCurrentPage := 0 }

/-- `_lx_nand_flash_metadata_allocate` for a full metadata block: the metadata moves on to the next one. -/
def advanced (s : Store) : Store :=
  let s := metadataNext s
  metadataExtend advance (if s.metadata.blocks.length = lxNandFlashMaxMetadataBlocks then metadataRestart advance s else s)

end Metadata

end EtherBench.LevelX.SectorStore
