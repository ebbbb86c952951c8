import EtherBench.LevelX.OnChip
import EtherBench.LevelX.Service

/-! # What LevelX reads from the chip

`_lx_nand_flash_sector_read` and `_lx_nand_flash_open`, which go by the words among the spare bytes, over the
driver. They find on the chip what the volume has in its pages.
-/

namespace EtherBench.LevelX.ChipReads
open Library.Effects Library.Memory Library.Transition Library.Triples Nand.Device Nand.Hal Nand.Readiness
  SpareBytes OnChip BlockPages Custody Mount Remount
open Nand.Partition (Volume)
open NandFlash (PageType blockFind pageNumber findPage lxNandBlockStatusNonSequential lxNandBlockStatusBad
  lxNandMaxBlockCount tableSize)
open SectorStore (Store PageData allOnes availablePages shortAt longAt mappedBlock blockNumber lxNandDeviceInfoSignature1
  lxNandDeviceInfoSignature2)

/-! ## Sectors -/

/-- The loop over the pages of a block, the last one first. -/
def sectorSearch (v : Volume) (block logicalSector : ℕ) : ℕ → Driver (List UInt8)
  | 0 => pure (slice allOnes 0 gd25PageSize)
  | page + 1 => do
    let read ← v.nand.pagesRead block page true true 1
    if (longGet read.2 gd25SpareBlockOffset &&& lxNandPageTypeUserDataMask).toNat = logicalSector then pure read.1
    else sectorSearch v block logicalSector page

/-- `_lx_nand_flash_sector_read`: the tables are those of the given volume. -/
def sectorRead (v : Volume) (s : Store) (logicalSector : ℕ) : Driver (List UInt8) :=
  match blockFind s.toVolume logicalSector with
  | none => throw lxError
  | some (none, _) => pure (slice allOnes 0 gd25PageSize)
  | some (some block, blockStatus) =>
    let available := availablePages blockStatus
    if blockStatus &&& lxNandBlockStatusNonSequential ≠ 0 then sectorSearch v block logicalSector available
    else if logicalSector % gd25BlockPages < available then do
      let read ← v.nand.pagesRead block (logicalSector % gd25BlockPages) true true 1
      pure read.1
    else pure (slice allOnes 0 gd25PageSize)

/-! ## Open -/

def buffer (bytes : List UInt8) : PageData := fun i => bytes.getD i 0xFF

/-- The loop over the blocks for the device information, with the status of the bad ones before it. -/
def infoFind (v : Volume) : ℕ → ℕ → (ℕ → BitVec 16) → Driver (ℕ × PageData × (ℕ → BitVec 16))
  | 0, _, _ => throw lxError
  | left + 1, block, table => do
    let status ← v.nand.blockStatusGet block
    if status = [lxNandGoodBlock] then
      let read ← v.nand.pagesRead block 0 true true 1
      let data := buffer read.1
      if longGet read.2 gd25SpareBlockOffset = lxNandPageTypeDeviceInfo ∧
          longAt data 0 = lxNandDeviceInfoSignature1 ∧ longAt data 1 = lxNandDeviceInfoSignature2 then
        pure (block, data, table)
      else infoFind v left (block + 1) table
    else infoFind v left (block + 1) (Function.update table block lxNandBlockStatusBad)

/-- The last pages of a metadata block, as many as given. -/
def metadataRead (v : Volume) (block : ℕ) : ℕ → Collected → Driver (Collected × Option ℕ)
  | 0, c => pure (c, none)
  | count + 1, c => do
    let page := gd25BlockPages - (count + 1)
    let read ← v.nand.pagesRead block page true true 1
    match pageTypeOf (longGet read.2 gd25SpareBlockOffset) with
    | none => throw lxError
    | some type =>
      if type = .free then pure (c, some page)
      else
        match pageRead c type (buffer read.1) with
        | none => throw lxError
        | some c => metadataRead v block count c

/-- What comes after a metadata block: the open is through with a free page, or goes on with the next block. -/
def proceed (rest : ℕ → Collected → Driver (Collected × ℕ)) (block : ℕ) (r : Collected × Option ℕ) :
    Driver (Collected × ℕ) :=
  match r.2 with
  | some page => if page = 0 then rest block r.1 else pure (r.1, page)
  | none =>
    match r.1.metadata.next with
    | none => throw lxError
    | some next => rest next (blockNext r.1 next)

def blocksRead (v : Volume) : ℕ → ℕ → Collected → Driver (Collected × ℕ)
  | 0 => fun _ _ => throw lxError
  | count + 1 => fun block c =>
    metadataRead v block gd25BlockPages (unlinked c) >>= proceed (blocksRead v count) block

def started (v : Volume) (table : ℕ → BitVec 16) (number : ℕ) (backupNumber : Option ℕ) : Collected where
  totalBlocks := v.nand.totalBlocks
  eraseCountTable := fun _ => 0
  blockMappingTable := fun l => if l < tableSize 2 v.nand.totalBlocks / 2 then some 0 else none
  blockStatusTable := table
  metadata := ⟨some number, number, none, [number % 0x10000]⟩
  backupMetadata := ⟨backupNumber, blockNumber backupNumber, none, [blockNumber backupNumber % 0x10000]⟩

/-- `_lx_nand_flash_open`, up to the two lists, which are made of the tables. -/
def openFlash (v : Volume) : Driver (Collected × ℕ) :=
  if lxNandMaxBlockCount < v.nand.totalBlocks then throw lxError
  else do
    let info ← infoFind v v.nand.totalBlocks 0 fun _ => 0
    match mappedBlock (longAt info.2.1 5) with
    | none => throw lxError
    | some number =>
      blocksRead v v.nand.totalBlocks info.1 (started v info.2.2 number (mappedBlock (longAt info.2.1 6)))

/-! ## Pages -/

/-- What is known of a page that has been read, and of the mark of a block. -/
structure Reads (v : Volume) (good : ℕ → Bool) (s : Store) (I E : World → Prop) : Prop where
  page : ∀ block < v.nand.totalBlocks, good block = true → ∀ page < gd25BlockPages,
    Triple I (v.nand.pagesRead block page true true 1) (fun read w => Answers s block page true read ∧ I w) E
  mark : ∀ block < v.nand.totalBlocks, Triple I (v.nand.blockStatusGet block)
    (fun bytes w => (bytes = [lxNandGoodBlock] ↔ good block = true) ∧ I w) E

variable {v : Volume} {good : ℕ → Bool} {s : Store} {I E : World → Prop}

theorem keeps_reads : Reads v good s (Keeps v good s) (fun _ => True) where
  page _ hblock hgood _ hpage := pagesRead_answers hblock hgood hpage true
  mark _ hblock := blockStatusGet_marks hblock

theorem ready_reads : Reads v good s (fun w => Keeps v good s w ∧ Ready w) (fun _ => False) where
  page block hblock hgood page hpage := by
    have hready : Triple Ready (v.nand.pagesRead block page true true 1) (fun _ => Ready) (fun _ => False) := by
      cases v <;> exact pagesRead_ready _ _ _ _ _
    exact ((pagesRead_answers hblock hgood hpage true).both hready).weaken (fun _ h => h)
      (fun _ _ h => ⟨h.1.1, h.1.2, h.2⟩) fun _ h => h.2
  mark block hblock := by
    have hready : Triple Ready (v.nand.blockStatusGet block) (fun _ => Ready) (fun _ => False) := by
      cases v <;> exact ready_contract.blockStatusGet ⟨_, rfl⟩
    exact ((blockStatusGet_marks hblock).both hready).weaken (fun _ h => h)
      (fun _ _ h => ⟨h.1.1, h.1.2, h.2⟩) fun _ h => h.2

theorem shown_used {block page : ℕ} (h : s.pages block page ≠ .free) : shown s block page = s.contents block page :=
  if_neg h

theorem buffer_eq {block page : ℕ} {read : List UInt8 × List UInt8} (h : Answers s block page true read)
    (hused : s.pages block page ≠ .free) {i : ℕ} (hi : i < gd25PageSize) :
    buffer read.1 i = s.contents block page i := by
  rw [buffer, h.contents, if_pos rfl, shown_used hused, List.getD_eq_getElem?_getD, slice_getElem?, if_pos hi,
    Nat.zero_add]
  rfl

section Reading
variable (hreads : Reads v good s I E)
include hreads

theorem sectorSearch_latest {block logicalSector count : ℕ} (hblock : block < v.nand.totalBlocks)
    (hgood : good block = true) (hcount : count ≤ gd25BlockPages)
    (hsectors : ∀ page < count, ∃ sector, (s.pages block page).sector? = some sector) :
    Triple I (sectorSearch v block logicalSector count)
      (fun data w => data = slice (latest (s.pages block) (s.contents block) count logicalSector) 0 gd25PageSize ∧ I w)
      E := by
  induction count with
  | zero => exact triple_pure _ fun _ hw => ⟨rfl, hw⟩
  | succ count ih =>
    apply triple_bind (hreads.page block hblock hgood count hcount)
    intro read
    apply triple_of_and
    intro hanswers
    obtain ⟨sector, hsector⟩ := hsectors count (Nat.lt_succ_self count)
    rw [sector_of_type hanswers.type hsector, latest, hsector]
    by_cases hfound : sector = logicalSector
    · have hused : s.pages block count ≠ .free := fun hfree => by simp [hfree, PageType.sector?] at hsector
      rw [if_pos hfound, if_pos (congrArg some hfound), ← shown_used hused]
      exact triple_pure _ fun _ hw => ⟨hanswers.contents, hw⟩
    · rw [if_neg hfound, if_neg fun heq => hfound (Option.some.inj heq)]
      exact ih (Nat.le_of_succ_le hcount) fun page hpage => hsectors page (Nat.lt_succ_of_lt hpage)

/-- A sector is read as the pages have it. -/
theorem sectorRead_value {hand kept : List ℕ} {logicalSector : ℕ} (h : Accounted hand kept [] s)
    (htotal : s.totalBlocks = v.nand.totalBlocks) (hgood : ∀ b < s.totalBlocks, good b = false ↔ b ∈ hand)
    (hsector : logicalSector / gd25BlockPages < s.totalBlocks) :
    Triple I (sectorRead v s logicalSector)
      (fun data w => data = slice (value s logicalSector) 0 gd25PageSize ∧ I w) E := by
  rw [sectorRead, value]
  cases hmapped : s.blockMappingTable (logicalSector / gd25BlockPages) with
  | none =>
    rw [Sectors.blockFind_unmapped hsector hmapped]
    exact triple_pure _ fun _ hw => ⟨rfl, hw⟩
  | some block =>
    have hstored := h.mapped_stored _ List.not_mem_nil block hmapped
    have hlt := h.mapped_lt _ List.not_mem_nil block hmapped
    have hgoodBlock : good block = true := by
      rw [← Bool.not_eq_false, hgood block hlt]
      exact fun hbad => h.mapped_held _ List.not_mem_nil block hmapped (List.mem_append_left kept hbad)
    rw [Upkeep.blockFind_mapped rfl hsector hmapped]
    dsimp only
    rw [hstored.availablePages_eq]
    by_cases hflag : s.blockStatusTable block &&& lxNandBlockStatusNonSequential ≠ 0
    · rw [if_pos hflag]
      apply sectorSearch_latest hreads (htotal ▸ hlt) hgoodBlock hstored.le
      exact fun page hpage => (hstored.filled.sector page hpage).imp fun sector => And.left
    · rw [if_neg hflag]
      rw [nonSequential_ne_zero, Bool.not_eq_true] at hflag
      rw [(hstored.inOrder hflag).latest_eq rfl]
      by_cases hpage : logicalSector % gd25BlockPages < pageNumber (s.blockStatusTable block)
      · rw [if_pos hpage, if_pos hpage]
        have hlast : logicalSector % gd25BlockPages < gd25BlockPages := Nat.mod_lt _ (by decide)
        have hused : s.pages block (logicalSector % gd25BlockPages) ≠ .free := by
          rw [(hstored.inOrder hflag) _ hpage]
          exact fun hfree => by cases hfree
        rw [← shown_used hused]
        apply triple_bind (hreads.page block (htotal ▸ hlt) hgoodBlock _ hlast)
        exact fun read => triple_of_and fun hanswers => triple_pure _ fun _ hw => ⟨hanswers.contents, hw⟩
      · rw [if_neg hpage, if_neg hpage]
        exact triple_pure _ fun _ hw => ⟨rfl, hw⟩

end Reading

/-! ## What an open makes of the pages -/

theorem tableRead_congr {α : Type} {entries : ℕ} {entry entry' : ℕ → α} (h : ∀ i < entries, entry i = entry' i)
    (table : ℕ → α) (page : UInt8) : tableRead entries table page entry = tableRead entries table page entry' := by
  funext i
  rw [tableRead, tableRead]
  by_cases hi : page.toNat * entries ≤ i ∧ i < (page.toNat + 1) * entries
  · rw [if_pos hi, if_pos hi]
    apply h
    have hend := hi.2
    rw [Nat.add_mul, Nat.one_mul] at hend
    omega
  · rw [if_neg hi, if_neg hi]

section Data
variable {data data' : PageData} (h : ∀ i < gd25PageSize, data i = data' i)
include h

theorem shortAt_congr {i : ℕ} (hi : i < gd25PageSize / 2) : shortAt data i = shortAt data' i := by
  rw [gd25PageSize] at *
  rw [shortAt, shortAt, h (2 * i) (by omega), h (2 * i + 1) (by omega)]

theorem longAt_congr {i : ℕ} (hi : i < gd25PageSize / 4) : longAt data i = longAt data' i := by
  rw [gd25PageSize] at *
  rw [longAt, longAt, h (4 * i) (by omega), h (4 * i + 1) (by omega), h (4 * i + 2) (by omega), h (4 * i + 3) (by omega)]

theorem pageRead_congr (c : Collected) (type : PageType) : pageRead c type data = pageRead c type data' := by
  cases type with
  | eraseCountTable page => rw [pageRead, pageRead, tableRead_congr h]
  | blockMappingTable page =>
    rw [pageRead, pageRead, tableRead_congr fun i hi => congrArg mappedBlock (shortAt_congr h hi)]
  | blockStatusTable page =>
    rw [pageRead, pageRead, tableRead_congr fun i hi => congrArg (BitVec.ofNat 16) (shortAt_congr h hi)]
  | blockLink => rw [pageRead, pageRead, longAt_congr h (by decide), longAt_congr h (by decide)]
  | free => rfl
  | deviceInfo => rfl
  | userData sector => rfl
  | userDataReleased sector => rfl

end Data

def noted (good : ℕ → Bool) (block : ℕ) : ℕ → BitVec 16 := fun b =>
  if b < block ∧ good b = false then lxNandBlockStatusBad else 0

theorem noted_zero : noted good 0 = fun _ => 0 := by
  funext b
  exact if_neg fun h => Nat.not_lt_zero b h.1

theorem noted_good {block : ℕ} (h : good block = true) : noted good (block + 1) = noted good block := by
  funext b
  rw [noted, noted]
  by_cases hb : b = block
  · rw [hb, h, if_neg (by simp), if_neg (by simp)]
  · have hiff : b < block + 1 ∧ good b = false ↔ b < block ∧ good b = false := by
      refine and_congr_left fun _ => ?_
      omega
    simp only [hiff]

theorem noted_bad {block : ℕ} (h : good block = false) :
    noted good (block + 1) = Function.update (noted good block) block lxNandBlockStatusBad := by
  funext b
  by_cases hb : b = block
  · rw [hb, Function.update_self, noted, if_pos ⟨Nat.lt_succ_self block, h⟩]
  · have hiff : b < block + 1 ∧ good b = false ↔ b < block ∧ good b = false := by
      refine and_congr_left fun _ => ?_
      omega
    rw [Function.update_of_ne hb, noted, noted]
    simp only [hiff]

section Opening
variable (hreads : Reads v good s I E)
include hreads

theorem infoFind_found {left block found : ℕ} (hleft : block + left ≤ v.nand.totalBlocks)
    (hfind : (List.range' block left).find? (informed good s) = some found) :
    Triple I (infoFind v left block (noted good block))
      (fun info w => (info.1 = found ∧ info.2.2 = noted good found ∧
        ∀ i < gd25PageSize, info.2.1 i = s.contents found 0 i) ∧ I w) E := by
  induction left generalizing block with
  | zero => cases hfind
  | succ left ih =>
    rw [List.range'_succ, List.find?_cons] at hfind
    have hblock : block < v.nand.totalBlocks := by omega
    apply triple_bind (hreads.mark block hblock)
    intro status
    apply triple_of_and
    intro hmark
    cases hgood : good block with
    | false =>
      have hskip : informed good s block = false := by simp [informed, hgood]
      rw [hskip] at hfind
      have hstatus : status ≠ [lxNandGoodBlock] := fun heq => by simp [hmark.mp heq] at hgood
      rw [if_neg hstatus, ← noted_bad hgood]
      exact ih (by omega) hfind
    | true =>
      rw [if_pos (hmark.mpr hgood)]
      apply triple_bind (hreads.page block hblock hgood 0 (by decide))
      intro read
      apply triple_of_and
      intro hanswers
      have htype : longGet read.2 gd25SpareBlockOffset = lxNandPageTypeDeviceInfo ↔ s.pages block 0 = .deviceInfo := by
        constructor
        · intro hword
          have hpage := hanswers.type
          rw [hword] at hpage
          exact (Option.some.inj hpage).symm
        · intro hpage
          rw [hanswers.word, hpage]
          rfl
      have hdata : s.pages block 0 = .deviceInfo → ∀ i < gd25PageSize, buffer read.1 i = s.contents block 0 i :=
        fun hpage i hi => buffer_eq hanswers (by simp [hpage]) hi
      have hinformed : informed good s block = true ↔ longGet read.2 gd25SpareBlockOffset = lxNandPageTypeDeviceInfo ∧
          longAt (buffer read.1) 0 = lxNandDeviceInfoSignature1 ∧
          longAt (buffer read.1) 1 = lxNandDeviceInfoSignature2 := by
        rw [htype, informed, hgood, Bool.true_and, Bool.and_eq_true, Bool.and_eq_true, and_assoc, decide_eq_true_eq,
          decide_eq_true_eq, decide_eq_true_eq]
        refine and_congr_right fun hpage => ?_
        rw [longAt_congr (hdata hpage) (by decide), longAt_congr (hdata hpage) (by decide)]
      cases hcase : informed good s block with
      | true =>
        rw [hcase] at hfind
        cases hfind
        rw [if_pos (hinformed.mp hcase)]
        exact triple_pure _ fun _ hw => ⟨⟨rfl, rfl, hdata (htype.mp (hinformed.mp hcase).1)⟩, hw⟩
      | false =>
        rw [hcase] at hfind
        rw [if_neg fun h => by simp [hinformed.mpr h] at hcase, ← noted_good hgood]
        exact ih (by omega) hfind

theorem read_triple {c₀ c : Collected} {block₀ block page : ℕ} {blocks : List ℕ}
    (hread : Read s c₀ block₀ blocks c block page)
    (hgood : ∀ b ∈ blocks ++ [block], b < v.nand.totalBlocks ∧ good b = true) {Q : Collected × ℕ → World → Prop}
    (count : ℕ)
    (h : Triple I (metadataRead v block (gd25BlockPages - page) c >>= proceed (blocksRead v count) block) Q E) :
    Triple I (blocksRead v (blocks.length + count + 1) block₀ c₀) Q E := by
  induction hread generalizing count with
  | start =>
    rw [List.length_nil, Nat.zero_add]
    exact h
  | @page blocks c c' block page hread hpage htype hpageRead ih =>
    apply ih hgood
    have hleft : gd25BlockPages - page = gd25BlockPages - (page + 1) + 1 := by omega
    have hplace : gd25BlockPages - (gd25BlockPages - (page + 1) + 1) = page := by omega
    obtain ⟨hblock, hgoodBlock⟩ := hgood block (List.mem_append_right _ List.mem_cons_self)
    rw [hleft, metadataRead, hplace, bind_assoc]
    apply triple_bind (hreads.page block hblock hgoodBlock page hpage)
    intro read
    apply triple_of_and
    intro hanswers
    rw [hanswers.type]
    dsimp only
    rw [if_neg htype, pageRead_congr fun i hi => buffer_eq hanswers htype hi, hpageRead]
    exact h
  | @next blocks c block next hread hnext ih =>
    have hcount : (blocks ++ [block]).length + count + 1 = blocks.length + (count + 1) + 1 := by
      rw [List.length_append, List.length_singleton]
      omega
    rw [hcount]
    apply ih fun b hb => hgood b (List.mem_append_left _ hb)
    rw [Nat.sub_self, metadataRead, pure_bind, proceed, hnext]
    exact h

theorem blocksRead_ends {c₀ c : Collected} {block₀ block page : ℕ} {blocks : List ℕ}
    (hread : Read s c₀ block₀ blocks c block page)
    (hgood : ∀ b ∈ blocks ++ [block], b < v.nand.totalBlocks ∧ good b = true) (hpos : 0 < page)
    (hpage : page < gd25BlockPages) (hfree : s.pages block page = .free) {count : ℕ} (hcount : blocks.length < count) :
    Triple I (blocksRead v count block₀ c₀) (fun r w => r = (c, page) ∧ I w) E := by
  obtain ⟨rest, rfl⟩ := Nat.exists_eq_add_of_lt hcount
  have hleft : gd25BlockPages - page = gd25BlockPages - (page + 1) + 1 := by omega
  have hplace : gd25BlockPages - (gd25BlockPages - (page + 1) + 1) = page := by omega
  obtain ⟨hblock, hgoodBlock⟩ := hgood block (List.mem_append_right _ List.mem_cons_self)
  apply read_triple hreads hread hgood rest
  rw [hleft, metadataRead, hplace, bind_assoc]
  apply triple_bind (hreads.page block hblock hgoodBlock page hpage)
  intro read
  apply triple_of_and
  intro hanswers
  rw [hanswers.type, hfree]
  dsimp only
  rw [if_pos rfl, pure_bind, proceed]
  dsimp only
  rw [if_neg (Nat.ne_of_gt hpos)]
  exact triple_pure _ fun _ hw => ⟨rfl, hw⟩

/-- A volume that has been in use is opened from the chip. -/
theorem openFlash_opens {hand pre backupPre : List ℕ} {number backupNumber next backupNext : ℕ}
    (h : Mountable hand number backupNumber next backupNext pre backupPre s)
    (htotal : s.totalBlocks = v.nand.totalBlocks) (hgood : ∀ b < s.totalBlocks, good b = false ↔ b ∈ hand) :
    Triple I (openFlash v) (fun r w => openStore good s = some (opened s r.1 r.2) ∧ I w) E := by
  obtain ⟨block, hblock, hfind⟩ := informed_found h.accounted h.recorded hgood
  obtain ⟨blocks, c, b, hread, hcurrent, hblocks, hlength, -, hE, -⟩ :=
    h.recorded.traced.read block hblock _ (collected_started h.accounted h.recorded good block)
  have hfew : blocks.length < s.totalBlocks := by
    rw [hE] at hlength
    exact Nat.lt_of_lt_of_le (Nat.lt_of_le_of_lt (Nat.le_add_right _ _) hlength) h.length_le_total
  have hfree := Recording.current_page_free h.accounted hcurrent
  have hpure := openStore_of_reads h.accounted h.recorded hblock hfind
    (hread.blocksRead_eq h.page_pos h.page_lt hfree hfew)
  have hkept : ∀ b' ∈ blocks ++ [b], b' < v.nand.totalBlocks ∧ good b' = true := by
    intro b' hb'
    have hin : b' ∈ _ := (List.mem_append.mp hb').elim (fun h => hblocks h)
      fun hlast => List.mem_singleton.mp hlast ▸ Recording.current_kept h.accounted hcurrent
    have hlt := h.accounted.held_lt b' (List.mem_append_right hand hin)
    refine ⟨htotal ▸ hlt, ?_⟩
    rw [← Bool.not_eq_false, hgood b' hlt]
    exact fun hbad => h.accounted.hand_kept hbad hin
  have hmax : ¬ lxNandMaxBlockCount < v.nand.totalBlocks :=
    Nat.not_lt.mpr (htotal ▸ le_trans h.recorded.bounded.total_le (by decide))
  rw [openFlash, if_neg hmax, ← noted_zero]
  rw [List.range_eq_range', htotal] at hfind
  apply triple_bind (infoFind_found hreads (Nat.le_of_eq (Nat.zero_add _)) hfind)
  intro info
  apply triple_of_and
  rintro ⟨rfl, htable, hdata⟩
  obtain ⟨hlong, hbackupLong⟩ := info_longs h.accounted h.recorded hblock
  rw [longAt_congr hdata (by decide), longAt_congr hdata (by decide), hlong, hbackupLong, htable,
    (number_mapped h.accounted h.recorded (Or.inl rfl)).1,
    (number_mapped h.accounted h.recorded (b := backupNumber) (Or.inr rfl)).1]
  dsimp only
  have hstarted : started v (noted good info.1) number (some backupNumber) =
      collected good s info.1 number (some backupNumber) := by
    rw [collected, htotal]
    rfl
  rw [hstarted]
  have hend := blocksRead_ends hreads hread hkept h.page_pos h.page_lt hfree (htotal ▸ hfew)
  refine hend.weaken (fun _ hw => hw) (fun r w hr => ?_) fun _ hw => hw
  obtain ⟨rfl, hw⟩ := hr
  exact ⟨hpure, hw⟩

end Opening

/-! ## A volume in use -/

section Runs
open Service (Room serve formatted)

variable {nested : Store → Store} {t : Store} (hclean : s.reprogrammed = false)
  (htotal : s.totalBlocks = v.nand.totalBlocks) (hformatted : formatted nested good s = some t)
  {requests : List Service.Request} (hroom : Guarded (serve nested good) Room t requests)
include hclean htotal hformatted hroom

/-- Whatever has been asked of a volume, and wherever its pages have gone: a sector that is read from a chip with the
volume on it is as it was last written. -/
theorem sectors_on_chip : ∃ u, run (serve nested good) t requests = some u ∧
    ∀ w, Keeps v good u w → ∀ sector < s.totalBlocks * gd25BlockPages,
      (∀ data w', sectorRead v u sector w = .ok data w' →
        data = slice ((requests.foldl Service.apply fun _ => allOnes) sector) 0 gd25PageSize) ∧
      (Ready w → ∃ data w', sectorRead v u sector w = .ok data w') := by
  have hfits := Nand.Partition.volume_fits v
  have hle : s.totalBlocks ≤ gd25BlockCountNormal := by omega
  obtain ⟨u, hrun, hserves⟩ := Service.run_serves hclean hle hformatted hroom
  have hsame := hserves.totalBlocks.trans (Service.formatted_serves hclean hle hformatted).2.1
  refine ⟨u, hrun, fun w hw sector hsector => ?_⟩
  have hindex := hsame ▸ Service.sector_index hsector
  have hgood : ∀ b < u.totalBlocks, good b = false ↔ b ∈ Format.bads good s.totalBlocks := Service.good_iff_bads hsame
  constructor
  · intro data w' hread
    have hvalue : Triple (Keeps v good u) (sectorRead v u sector) _ _ :=
      sectorRead_value keeps_reads hserves.accounted (hsame.trans htotal) hgood hindex
    rw [← hserves.value sector]
    exact (hvalue.of_ok hw hread).1
  · intro hready
    have hvalue : Triple (fun w => Keeps v good u w ∧ Ready w) (sectorRead v u sector) _ (fun _ => False) :=
      sectorRead_value ready_reads hserves.accounted (hsame.trans htotal) hgood hindex
    obtain ⟨data, w', hread, -⟩ := ok_of_triple hvalue ⟨hw, hready⟩
    exact ⟨data, w', hread⟩

/-- At any time in the use of a volume, an open that goes by the chip alone gives what an open gives that knows the
pages. -/
theorem open_on_chip : Always (serve nested good) (fun u => ∀ w, Keeps v good u w →
    (∀ r w', openFlash v w = .ok r w' → openStore good u = some (opened u r.1 r.2)) ∧
      (Ready w → ∃ r w', openFlash v w = .ok r w')) t requests := by
  have hfits := Nand.Partition.volume_fits v
  have hle : s.totalBlocks ≤ gd25BlockCountNormal := by omega
  obtain ⟨-, hfirst, -, hbads⟩ := Service.formatted_serves hclean hle hformatted
  refine (Service.always_serves hclean hle hformatted hroom).mono fun u ⟨content, hserves⟩ w hw => ?_
  have hsame := hserves.totalBlocks.trans hfirst
  have hgood : ∀ b < u.totalBlocks, good b = false ↔ b ∈ Format.bads good s.totalBlocks := Service.good_iff_bads hsame
  obtain ⟨number, backupNumber, next, backupNext, pre, backupPre, hmountable, -⟩ :=
    hserves.mountable fun b hb => (hbads b hb).1
  constructor
  · intro r w' hopen
    have hopens : Triple (Keeps v good u) (openFlash v) _ _ :=
      openFlash_opens keeps_reads hmountable (hsame.trans htotal) hgood
    exact (hopens.of_ok hw hopen).1
  · intro hready
    have hopens : Triple (fun w => Keeps v good u w ∧ Ready w) (openFlash v) _ (fun _ => False) :=
      openFlash_opens ready_reads hmountable (hsame.trans htotal) hgood
    obtain ⟨r, w', hopen, -⟩ := ok_of_triple hopens ⟨hw, hready⟩
    exact ⟨r, w', hopen⟩

end Runs

section Example
open Service (Room serve formatted sixBad tenBlocks someRequests)

theorem tenBlocks_imprinted : ∃ t u, formatted id sixBad tenBlocks = some t ∧
    Guarded (serve id sixBad) Room t someRequests ∧ run (serve id sixBad) t someRequests = some u ∧
    Keeps .settings sixBad u (imprinted .settings sixBad u) := by
  have hsome : (formatted id sixBad tenBlocks).any fun t => decide (Guarded (serve id sixBad) Room t someRequests) &&
      (run (serve id sixBad) t someRequests).any fun u =>
        decide (∀ block < (10 : ℕ), ∀ page < gd25BlockPages, Fits (u.pages block page)) := by decide +kernel
  obtain ⟨t, hformatted, ht⟩ := (Option.any_eq_true _ _).mp hsome
  obtain ⟨hguarded, hu⟩ := (Bool.and_eq_true_iff).mp ht
  obtain ⟨u, hrun, hfits⟩ := (Option.any_eq_true _ _).mp hu
  exact ⟨t, u, hformatted, of_decide_eq_true hguarded, hrun,
    imprinted_keeps fun block hblock _ => of_decide_eq_true hfits block hblock⟩

theorem sectors_on_chip_tenBlocks : ∃ t u, formatted id sixBad tenBlocks = some t ∧
    run (serve id sixBad) t someRequests = some u ∧ ∀ sector < 10 * gd25BlockPages,
      ∃ data w', sectorRead .settings u sector (imprinted .settings sixBad u) = .ok data w' ∧
        data = slice ((someRequests.foldl Service.apply fun _ => allOnes) sector) 0 gd25PageSize := by
  obtain ⟨t, u, hformatted, hroom, hrun, hkeeps⟩ := tenBlocks_imprinted
  obtain ⟨u', hrun', hsectors⟩ := sectors_on_chip (v := .settings) rfl rfl hformatted hroom
  obtain rfl : u' = u := Option.some.inj (hrun'.symm.trans hrun)
  refine ⟨t, u', hformatted, hrun, fun sector hsector => ?_⟩
  obtain ⟨hvalue, hready⟩ := hsectors _ hkeeps sector hsector
  obtain ⟨data, w', hread⟩ := hready imprinted_ready
  exact ⟨data, w', hread, hvalue data w' hread⟩

theorem open_on_chip_tenBlocks : ∃ t u, formatted id sixBad tenBlocks = some t ∧
    run (serve id sixBad) t someRequests = some u ∧
      ∃ r w', openFlash .settings (imprinted .settings sixBad u) = .ok r w' ∧
        openStore sixBad u = some (opened u r.1 r.2) := by
  obtain ⟨t, u, hformatted, hroom, hrun, hkeeps⟩ := tenBlocks_imprinted
  obtain ⟨hopens, hready⟩ := (open_on_chip (v := .settings) rfl rfl hformatted hroom).last hrun _ hkeeps
  obtain ⟨r, w', hopen⟩ := hready imprinted_ready
  exact ⟨t, u, hformatted, hrun, r, w', hopen, hopens r w' hopen⟩

end Example

end EtherBench.LevelX.ChipReads
