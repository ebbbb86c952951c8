import EtherBench.LevelX.SectorStore

/-! # Format and open, with the contents of the pages

`_lx_nand_flash_format` and `_lx_nand_flash_open`. An open has nothing to go by but the pages: it looks
for a page of device information, follows the metadata from block to block, and takes over each part of a
table that it comes across, up to the first free page.
-/

namespace EtherBench.LevelX.Mount
open Nand.Device SectorStore
open NandFlash (PageType MetadataBlocks Status tableSize initialized lxNandBlockStatusAllocated
  lxNandBlockStatusBad lxNandMaxBlockCount)

/-! ## Format -/

def formatBlock (good : ℕ → Bool) (s : Store) (block : ℕ) : Store :=
  { s with
    toVolume := NandFlash.formatBlock good s.toVolume block
    contents := if good block then Function.update s.contents block fun _ => allOnes else s.contents }

/-- The control block starts anew, and the chip holds what it has held. -/
def cleared (s : Store) : Store :=
  { s with toVolume := { initialized s.totalBlocks with pages := s.pages } }

def format (advance : Store → Store) (good : ℕ → Bool) (s : Store) : Status × Store :=
  let s := cleared s
  if lxNandMaxBlockCount < s.totalBlocks then (.error, s)
  else
    let s := (List.range s.totalBlocks).foldl (formatBlock good) s
    match s.metadata.number, s.backupMetadata.number, s.metadata.next, s.backupMetadata.next with
    | some number, some backupNumber, some next, some backupNext =>
      let table := Function.update s.blockStatusTable backupNext lxNandBlockStatusAllocated
      let table := Function.update table next lxNandBlockStatusAllocated
      let table := Function.update table backupNumber (BitVec.ofNat 16 backupNext)
      let table := Function.update table number (BitVec.ofNat 16 next)
      (.success, metadataWrite advance (metadataBuild advance { s with blockStatusTable := table }) .blockLink)
    | _, _, _, _ => (.noBlocks, s)

/-! ## Open -/

/-- The tables and the metadata blocks, as far as an open has them from the pages. -/
structure Collected where
  totalBlocks : ℕ
  eraseCountTable : ℕ → UInt8
  blockMappingTable : ℕ → Option ℕ
  blockStatusTable : ℕ → BitVec 16
  metadata : MetadataBlocks
  backupMetadata : MetadataBlocks

def tableRead {α : Type} (entries : ℕ) (table : ℕ → α) (page : UInt8) (entry : ℕ → α) : ℕ → α := fun i =>
  if page.toNat * entries ≤ i ∧ i < (page.toNat + 1) * entries then entry (i - page.toNat * entries) else table i

def linkRead (blocks : MetadataBlocks) (number : ℕ) : MetadataBlocks :=
  { blocks with
    next := mappedBlock number
    blocks := blocks.blocks ++ [number % 0x10000] }

/-- A page of metadata that is not free. `none` stands for an error. -/
def pageRead (c : Collected) (type : PageType) (data : PageData) : Option Collected :=
  match type with
  | .deviceInfo => some c
  | .eraseCountTable page =>
    if tableSize 1 c.totalBlocks < (page.toNat + 1) * gd25PageSize then none
    else some { c with eraseCountTable := tableRead gd25PageSize c.eraseCountTable page data }
  | .blockMappingTable page =>
    if tableSize 2 c.totalBlocks < (page.toNat + 1) * gd25PageSize then none
    else
      some { c with
        blockMappingTable :=
          tableRead (gd25PageSize / 2) c.blockMappingTable page fun i => mappedBlock (shortAt data i) }
  | .blockStatusTable page =>
    if tableSize 2 c.totalBlocks < (page.toNat + 1) * gd25PageSize then none
    else
      some { c with
        blockStatusTable :=
          tableRead (gd25PageSize / 2) c.blockStatusTable page fun i => BitVec.ofNat 16 (shortAt data i) }
  | .blockLink =>
    some { c with
      metadata := linkRead c.metadata (longAt data 0)
      backupMetadata := linkRead c.backupMetadata (longAt data 1) }
  | .free | .userData _ | .userDataReleased _ => none

/-- The last pages of a metadata block, as many as given. It ends with the first free one, if there is one. -/
def pagesRead (s : Store) (block : ℕ) : ℕ → Collected → Option (Collected × Option ℕ)
  | 0, c => some (c, none)
  | count + 1, c =>
    let page := gd25BlockPages - (count + 1)
    if s.pages block page = .free then some (c, some page)
    else
      match pageRead c (s.pages block page) (s.contents block page) with
      | none => none
      | some c => pagesRead s block count c

/-- The links are looked for in each block anew. -/
def unlinked (c : Collected) : Collected :=
  { c with
    metadata := { c.metadata with next := none }
    backupMetadata := { c.backupMetadata with next := none } }

def blockNext (c : Collected) (block : ℕ) : Collected :=
  { c with
    metadata := { c.metadata with current := block }
    backupMetadata := { c.backupMetadata with current := blockNumber c.backupMetadata.next } }

/-- The blocks of the metadata, up to the page where it goes on. The first page of a block does not count. -/
def blocksRead (s : Store) : ℕ → ℕ → Collected → Option (Collected × ℕ)
  | 0, _, _ => none
  | count + 1, block, c =>
    match pagesRead s block gd25BlockPages (unlinked c) with
    | none => none
    | some (c, some page) => if page = 0 then blocksRead s count block c else some (c, page)
    | some (c, none) =>
      match c.metadata.next with
      | none => none
      | some next => blocksRead s count next (blockNext c next)

/-- The memory of the tables is cleared, and the bad blocks before the device information are noted.
There is nothing behind a table. -/
def collected (good : ℕ → Bool) (s : Store) (block number : ℕ) (backupNumber : Option ℕ) : Collected where
  totalBlocks := s.totalBlocks
  eraseCountTable := fun _ => 0
  blockMappingTable := fun l => if l < tableSize 2 s.totalBlocks / 2 then some 0 else none
  blockStatusTable := fun b => if b < block ∧ good b = false then lxNandBlockStatusBad else 0
  metadata := ⟨some number, number, none, [number % 0x10000]⟩
  backupMetadata := ⟨backupNumber, blockNumber backupNumber, none, [blockNumber backupNumber % 0x10000]⟩

def informed (good : ℕ → Bool) (s : Store) (block : ℕ) : Bool :=
  good block && s.pages block 0 = .deviceInfo && longAt (s.contents block 0) 0 = lxNandDeviceInfoSignature1 &&
    longAt (s.contents block 0) 1 = lxNandDeviceInfoSignature2

/-- The two lists, and with them the volume as it is used. -/
def opened (s : Store) (c : Collected) (page : ℕ) : Store :=
  let s := { s with
    eraseCountTable := c.eraseCountTable
    blockMappingTable := c.blockMappingTable
    blockStatusTable := c.blockStatusTable
    freeBlockList := []
    mappedBlockList := []
    metadata := c.metadata
    backupMetadata := c.backupMetadata
    metadataBlockCurrentPage := page }
  { s with toVolume := (List.range s.totalBlocks).foldl NandFlash.openBlock s.toVolume }

/-- Only the pages of the given store count. -/
def openStore (good : ℕ → Bool) (s : Store) : Option Store :=
  if lxNandMaxBlockCount < s.totalBlocks then none
  else
    match (List.range s.totalBlocks).find? (informed good s) with
    | none => none
    | some block =>
      match mappedBlock (longAt (s.contents block 0) 5) with
      | none => none
      | some number =>
        let c := collected good s block number (mappedBlock (longAt (s.contents block 0) 6))
        match blocksRead s s.totalBlocks block c with
        | none => none
        | some (c, page) => some (opened s c page)

/-! ## What has been read -/

/-- An open has read the blocks given and, of the block behind them, the pages before the given one. -/
inductive Read (s : Store) (c₀ : Collected) (block₀ : ℕ) : List ℕ → Collected → ℕ → ℕ → Prop
  | start : Read s c₀ block₀ [] (unlinked c₀) block₀ 0
  | page {blocks : List ℕ} {c c' : Collected} {block page : ℕ} (h : Read s c₀ block₀ blocks c block page)
      (hpage : page < gd25BlockPages) (htype : s.pages block page ≠ .free)
      (hread : pageRead c (s.pages block page) (s.contents block page) = some c') :
      Read s c₀ block₀ blocks c' block (page + 1)
  | next {blocks : List ℕ} {c : Collected} {block next : ℕ} (h : Read s c₀ block₀ blocks c block gd25BlockPages)
      (hnext : c.metadata.next = some next) :
      Read s c₀ block₀ (blocks ++ [block]) (unlinked (blockNext c next)) next 0

variable {s t : Store} {c₀ c : Collected} {block₀ block page : ℕ} {blocks : List ℕ}

theorem Read.frame (h : Read s c₀ block₀ blocks c block page)
    (hblocks : ∀ b ∈ blocks, t.pages b = s.pages b ∧ t.contents b = s.contents b)
    (hblock : ∀ p < page, t.pages block p = s.pages block p ∧ t.contents block p = s.contents block p) :
    Read t c₀ block₀ blocks c block page := by
  induction h with
  | start => exact .start
  | page h hpage htype hread ih =>
    have hlast := hblock _ (Nat.lt_succ_self _)
    refine .page (ih hblocks fun p hp => hblock p (Nat.lt_succ_of_lt hp)) hpage ?_ ?_
    · rwa [hlast.1]
    · rwa [hlast.1, hlast.2]
  | next h hnext ih =>
    have hlast := hblocks _ (List.mem_append_right _ List.mem_cons_self)
    refine .next (ih (fun b hb => hblocks b (List.mem_append_left _ hb)) fun p _ => ?_) hnext
    exact ⟨congrFun hlast.1 p, congrFun hlast.2 p⟩

theorem Read.not_free (h : Read s c₀ block₀ blocks c block page) :
    (∀ b ∈ blocks, ∀ p < gd25BlockPages, s.pages b p ≠ .free) ∧ ∀ p < page, s.pages block p ≠ .free := by
  induction h with
  | start => exact ⟨by simp, by simp⟩
  | page _ _ htype _ ih =>
    refine ⟨ih.1, fun p hp => ?_⟩
    rcases Nat.lt_succ_iff_lt_or_eq.mp hp with hlt | rfl
    · exact ih.2 p hlt
    · exact htype
  | next _ _ ih =>
    refine ⟨fun b hb => ?_, by simp⟩
    rcases List.mem_append.mp hb with hb | hb
    · exact ih.1 b hb
    · exact List.mem_singleton.mp hb ▸ ih.2

/-- The loop of the open, from where it has got to. -/
def resume (s : Store) (count block page : ℕ) (c : Collected) : Option (Collected × ℕ) :=
  match pagesRead s block (gd25BlockPages - page) c with
  | none => none
  | some (c, some page) => if page = 0 then blocksRead s count block c else some (c, page)
  | some (c, none) =>
    match c.metadata.next with
    | none => none
    | some next => blocksRead s count next (blockNext c next)

theorem Read.resume_eq (h : Read s c₀ block₀ blocks c block page) (count : ℕ) :
    blocksRead s (blocks.length + count + 1) block₀ c₀ = resume s count block page c := by
  induction h generalizing count with
  | start => rw [List.length_nil, Nat.zero_add, blocksRead, resume, Nat.sub_zero]
  | page h hpage htype hread ih =>
    rename_i page
    have hleft : gd25BlockPages - page = gd25BlockPages - (page + 1) + 1 := by omega
    have hplace : gd25BlockPages - (gd25BlockPages - (page + 1) + 1) = page := by omega
    rw [ih, resume, hleft, pagesRead, hplace, if_neg htype, hread]
    rfl
  | next h hnext ih =>
    rename_i blocks c block next
    have hcount : (blocks ++ [block]).length + count + 1 = blocks.length + (count + 1) + 1 := by
      rw [List.length_append, List.length_singleton]
      omega
    rw [hcount, ih, resume, Nat.sub_self, pagesRead]
    dsimp only
    rw [hnext]
    dsimp only
    rw [blocksRead, resume, Nat.sub_zero]

/-- A free page behind what has been read ends it. -/
theorem Read.blocksRead_eq (h : Read s c₀ block₀ blocks c block page) (hpos : 0 < page) (hpage : page < gd25BlockPages)
    (hfree : s.pages block page = .free) {count : ℕ} (hcount : blocks.length < count) :
    blocksRead s count block₀ c₀ = some (c, page) := by
  obtain ⟨rest, rfl⟩ := Nat.exists_eq_add_of_lt hcount
  have hleft : gd25BlockPages - page = gd25BlockPages - (page + 1) + 1 := by omega
  have hplace : gd25BlockPages - (gd25BlockPages - (page + 1) + 1) = page := by omega
  rw [h.resume_eq, resume, hleft, pagesRead, hplace, if_pos hfree]
  dsimp only
  rw [if_neg (Nat.ne_of_gt hpos)]

end EtherBench.LevelX.Mount
