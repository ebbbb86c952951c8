import EtherBench.LevelX.Mount
import EtherBench.LevelX.Upkeep

/-! # The metadata keeps a record of the tables

A change of a table goes to a page of metadata before anything else is done. So an open that reads as far
as the metadata has got has the tables as they are, whichever copy of the first block it starts with.
-/

namespace EtherBench.LevelX.Recording
open Nand.Device SectorStore BlockPages Custody Upkeep Mount
open NandFlash (PageType MetadataBlocks tableSize lxNandBlockStatusFree)

variable {hand kept busy : List ℕ} {R : ℕ → Prop} {s t : Store} {c c' : Collected} {block index : ℕ}

/-! ## Numbers in a page -/

theorem shortAt_shorts {entry : ℕ → ℕ} {i : ℕ} (h : entry i < 0x10000) : shortAt (shorts entry) i = entry i := by
  have hlow : 2 * i / 2 = i ∧ 2 * i % 2 = 0 := by omega
  have hhigh : (2 * i + 1) / 2 = i ∧ (2 * i + 1) % 2 = 1 := by omega
  simp only [shortAt, shorts, hlow, hhigh, UInt8.toNat_ofNat', Nat.pow_zero, Nat.pow_one, Nat.div_one]
  omega

theorem longAt_longs {words : List ℕ} {i : ℕ} (hi : i < words.length) (h : words.getD i 0 < 0x100000000) :
    longAt (longs words) i = words.getD i 0 := by
  have hbyte (j : ℕ) (hj : j < 4) :
      (longs words (4 * i + j)).toNat = words.getD i 0 / 256 ^ j % 256 := by
    have hplace : (4 * i + j) / 4 = i ∧ (4 * i + j) % 4 = j := by omega
    rw [longs, if_pos (by omega), hplace.1, hplace.2, UInt8.toNat_ofNat']
  rw [longAt, hbyte 1 (by decide), hbyte 2 (by decide), hbyte 3 (by decide), ← Nat.add_zero (4 * i), hbyte 0 (by decide)]
  generalize words.getD i 0 = word at h ⊢
  have hpow : 256 ^ 0 = 1 ∧ 256 ^ 1 = 256 ∧ 256 ^ 2 = 65536 ∧ 256 ^ 3 = 16777216 := by decide
  simp only [hpow]
  omega

theorem mappedBlock_blockNumber {blockOf : Option ℕ} (h : ∀ b, blockOf = some b → b < lxNandBlockUnmapped) :
    mappedBlock (blockNumber blockOf) = blockOf := by
  cases blockOf with
  | none => rfl
  | some b => exact if_neg (Nat.ne_of_lt (h b rfl))

/-! ## Pages of the tables -/

/-- What an open has of the tables is what they are. -/
structure Covers (c : Collected) (s : Store) : Prop where
  totalBlocks : c.totalBlocks = s.totalBlocks
  eraseCount : ∀ b < s.totalBlocks, c.eraseCountTable b = s.eraseCountTable b
  mapping : c.blockMappingTable = s.blockMappingTable
  status : ∀ b < s.totalBlocks, c.blockStatusTable b = s.blockStatusTable b

/-- The volume is on the chip, and so are the blocks that are mapped. -/
structure Bounded (s : Store) : Prop where
  total_le : s.totalBlocks ≤ gd25BlockCountNormal
  mapped : ∀ l b, s.blockMappingTable l = some b → l < s.totalBlocks ∧ b < s.totalBlocks

theorem tableSize_le {size : ℕ} (hsize : size ≤ 2) {n : ℕ} (h : n ≤ gd25BlockCountNormal) :
    tableSize size n = gd25PageSize := by
  have hn : n * size ≤ gd25BlockCountNormal * 2 := Nat.mul_le_mul h hsize
  exact Nat.max_eq_right hn

theorem tableRead_zero {α : Type} (entries : ℕ) (table : ℕ → α) (entry : ℕ → α) (i : ℕ) :
    tableRead entries table 0 entry i = if i < entries then entry i else table i := by
  simp [tableRead]

theorem shorts_page {n : ℕ} (h : n < gd25BlockCountNormal) : UInt8.ofNat (n * 2 / gd25PageSize) = 0 := by
  have hlt : n * 2 < gd25PageSize := Nat.mul_lt_mul_of_pos_right h (by decide)
  rw [Nat.div_eq_of_lt hlt]
  rfl

theorem bytes_page {n : ℕ} (h : n < gd25BlockCountNormal) : UInt8.ofNat (n / gd25PageSize) = 0 := by
  rw [Nat.div_eq_of_lt (Nat.lt_trans h (by decide))]
  rfl

section Pages
variable (hbounded : Bounded s) (htotal : c.totalBlocks = s.totalBlocks)
include hbounded htotal

theorem pageRead_eraseCount : ∃ table, pageRead c (.eraseCountTable 0) (tablePage s (.eraseCountTable 0)) =
    some { c with eraseCountTable := table } ∧ ∀ b < s.totalBlocks, table b = s.eraseCountTable b := by
  have hsize : ¬ tableSize 1 c.totalBlocks < ((0 : UInt8).toNat + 1) * gd25PageSize := by
    rw [htotal, tableSize_le (by decide) hbounded.total_le]
    decide
  rw [pageRead, if_neg hsize]
  refine ⟨_, rfl, fun b hb => ?_⟩
  have hlt : b < gd25PageSize := lt_of_lt_of_le hb (le_trans hbounded.total_le (by decide))
  rw [tableRead_zero, if_pos hlt, tablePage_eraseCountTable]
  simp

theorem pageRead_status : ∃ table, pageRead c (.blockStatusTable 0) (tablePage s (.blockStatusTable 0)) =
    some { c with blockStatusTable := table } ∧ ∀ b < s.totalBlocks, table b = s.blockStatusTable b := by
  have hsize : ¬ tableSize 2 c.totalBlocks < ((0 : UInt8).toNat + 1) * gd25PageSize := by
    rw [htotal, tableSize_le (by decide) hbounded.total_le]
    decide
  rw [pageRead, if_neg hsize]
  refine ⟨_, rfl, fun b hb => ?_⟩
  have hlt : b < gd25PageSize / 2 := lt_of_lt_of_le hb (le_trans hbounded.total_le (by decide))
  rw [tableRead_zero, if_pos hlt, tablePage_blockStatusTable, shortAt_shorts (BitVec.isLt _)]
  simp

theorem pageRead_mapping (hrest : ∀ l, gd25BlockCountNormal ≤ l → c.blockMappingTable l = none) :
    pageRead c (.blockMappingTable 0) (tablePage s (.blockMappingTable 0)) =
      some { c with blockMappingTable := s.blockMappingTable } := by
  have hsize : ¬ tableSize 2 c.totalBlocks < ((0 : UInt8).toNat + 1) * gd25PageSize := by
    rw [htotal, tableSize_le (by decide) hbounded.total_le]
    decide
  rw [pageRead, if_neg hsize]
  refine congrArg (fun table => some { c with blockMappingTable := table }) (funext fun l => ?_)
  rw [tableRead_zero]
  split
  · have hnumber (b : ℕ) (hb : s.blockMappingTable l = some b) : b < lxNandBlockUnmapped :=
      lt_of_lt_of_le (hbounded.mapped l b hb).2 (le_trans hbounded.total_le (by decide))
    have hlt : blockNumber (s.blockMappingTable l) < 0x10000 := by
      cases hcase : s.blockMappingTable l with
      | none => decide
      | some b => exact lt_trans (hnumber b hcase) (by decide)
    rw [tablePage_blockMappingTable, shortAt_shorts (by simpa using hlt)]
    simpa using mappedBlock_blockNumber hnumber
  · rename_i hl
    rw [hrest l (Nat.le_of_not_lt hl)]
    cases hcase : s.blockMappingTable l with
    | none => rfl
    | some b => exact absurd (lt_of_lt_of_le (hbounded.mapped l b hcase).1 hbounded.total_le) hl

end Pages

/-! ## Writes of a page -/

def Current (s : Store) (block : ℕ) : Prop := block = s.metadata.current ∨ block = s.backupMetadata.current

theorem current_kept (h : Accounted hand kept busy s) (hblock : Current s block) : block ∈ kept :=
  hblock.elim (fun heq => heq ▸ h.current_kept) fun heq => heq ▸ h.backup_kept

theorem current_page_free (h : Accounted hand kept busy s) (hblock : Current s block) :
    s.pages block s.metadataBlockCurrentPage = .free := by
  have hfree := h.current_free _ (Nat.le_refl _)
  exact hblock.elim (fun heq => heq ▸ hfree.1) fun heq => heq ▸ hfree.2

section Writes
variable (type : PageType)

theorem metadataPageWrite_of_not_current (hblock : ¬ Current s block) :
    (metadataPageWrite s type).pages block = s.pages block ∧ (metadataPageWrite s type).contents block = s.contents block :=
  have hne := not_or.mp hblock
  ⟨(Function.update_of_ne hne.2 _ _).trans (Function.update_of_ne hne.1 _ _),
    (Function.update_of_ne hne.2 _ _).trans (Function.update_of_ne hne.1 _ _)⟩

theorem metadataPageWrite_of_current (hblock : Current s block) (hne : s.metadata.current ≠ s.backupMetadata.current) :
    (metadataPageWrite s type).pages block = Function.update (s.pages block) s.metadataBlockCurrentPage type ∧
      (metadataPageWrite s type).contents block =
        Function.update (s.contents block) s.metadataBlockCurrentPage (tablePage s type) := by
  rcases hblock with rfl | rfl
  · have hpages := Function.update_self s.metadata.current
      (Function.update (s.pages s.metadata.current) s.metadataBlockCurrentPage type) s.pages
    have hcontents := Function.update_self s.metadata.current
      (Function.update (s.contents s.metadata.current) s.metadataBlockCurrentPage (tablePage s type)) s.contents
    exact ⟨(Function.update_of_ne hne _ _).trans hpages, (Function.update_of_ne hne _ _).trans hcontents⟩
  · have hpages := Function.update_of_ne (Ne.symm hne)
      (Function.update (s.pages s.metadata.current) s.metadataBlockCurrentPage type) s.pages
    have hcontents := Function.update_of_ne (Ne.symm hne)
      (Function.update (s.contents s.metadata.current) s.metadataBlockCurrentPage (tablePage s type)) s.contents
    constructor
    · refine (Function.update_self ..).trans ?_
      exact congrArg (fun pages => Function.update pages s.metadataBlockCurrentPage type) hpages
    · refine (Function.update_self ..).trans ?_
      exact congrArg (fun contents => Function.update contents s.metadataBlockCurrentPage (tablePage s type)) hcontents

/-- A page that is free in both copies takes the next part of the metadata. -/
theorem accounted_metadataPageWrite (h : Accounted hand kept busy s) :
    Accounted hand kept busy (metadataPageWrite s type) := by
  have hout {b : ℕ} (hb : b ∉ kept) : ¬ Current s b := fun hcurrent => hb (current_kept h hcurrent)
  have hpages {b : ℕ} (hb : b ∉ hand ++ kept) : (metadataPageWrite s type).pages b = s.pages b :=
    (metadataPageWrite_of_not_current type (hout fun hin => hb (List.mem_append_right hand hin))).1
  have hfree := h.current_free s.metadataBlockCurrentPage (Nat.le_refl _)
  have hnext {b page : ℕ} (hcurrent : Current s b) (hpage : s.metadataBlockCurrentPage + 1 ≤ page) :
      (metadataPageWrite s type).pages b page = s.pages b page := by
    rw [(metadataPageWrite_of_current type hcurrent h.current_ne).1]
    exact Function.update_of_ne (Nat.ne_of_gt hpage) _ _
  exact { h with
    free_erased := fun b hb page => by
      rw [hpages (h.free_held b hb)]
      exact h.free_erased b hb page
    mapped_stored := fun l hl b hb => by
      have hnot := h.mapped_held l hl b hb
      rw [hpages hnot,
        (metadataPageWrite_of_not_current type (hout fun hin => hnot (List.mem_append_right hand hin))).2]
      exact h.mapped_stored l hl b hb
    free_status := fun b hlt hb hstatus page => by
      rw [hpages hb]
      exact h.free_status b hlt hb hstatus page
    other_info := fun b hlt hb => by
      rw [hpages hb]
      exact h.other_info b hlt hb
    current_free := fun page hpage => by
      have hle : s.metadataBlockCurrentPage ≤ page := Nat.le_of_succ_le hpage
      exact ⟨(hnext (Or.inl rfl) hpage).trans (h.current_free page hle).1,
        (hnext (Or.inr rfl) hpage).trans (h.current_free page hle).2⟩
    clean := by
      have hbackup : Function.update s.pages s.metadata.current (Function.update (s.pages s.metadata.current)
          s.metadataBlockCurrentPage type) s.backupMetadata.current s.metadataBlockCurrentPage = .free := by
        rw [Function.update_of_ne (Ne.symm h.current_ne)]
        exact hfree.2
      simp [metadataPageWrite, driverPageWrite, NandFlash.driverPageWrite, h.clean, hfree.1, hbackup] }

theorem undisturbed_metadataPageWrite (h : Accounted hand kept busy s) :
    Undisturbed hand busy R s (metadataPageWrite s type) := by
  have hsame {b : ℕ} (hb : b ∉ kept) := metadataPageWrite_of_not_current (s := s) type
    fun hcurrent => hb (current_kept h hcurrent)
  exact ⟨rfl, fun b hb => (hsame (h.hand_kept hb)).1, fun b hb => (hsame (h.hand_kept hb)).2, fun _ _ => rfl,
    fun _ _ => rfl, fun _ _ hl => hl, fun x hx => value_congr rfl fun b hb =>
      have hb := hsame fun hin => h.mapped_held _ hx b hb (List.mem_append_right hand hin)
      ⟨hb.1, hb.2, rfl⟩⟩

end Writes

/-! ## Traces -/

def infoPage (number backupNumber : ℕ) : PageData :=
  longs [lxNandDeviceInfoSignature1, lxNandDeviceInfoSignature2, levelxMajorVersion, levelxMinorVersion,
    levelxPatchVersion, number, backupNumber]

structure Started (totalBlocks number backupNumber : ℕ) (c : Collected) : Prop where
  totalBlocks : c.totalBlocks = totalBlocks
  metadata : c.metadata = ⟨some number, number, none, [number]⟩
  backupMetadata : c.backupMetadata = ⟨some backupNumber, backupNumber, none, [backupNumber]⟩
  rest : ∀ l, gd25BlockCountNormal ≤ l → c.blockMappingTable l = none

/-- Only the two copies of the first block of metadata look like it, and an open that starts with one of them
comes to where the metadata has got to, with what is asked for. -/
structure Traced (kept : List ℕ) (number backupNumber : ℕ) (C : Collected → Prop) (s : Store) : Prop where
  info : ∀ b, b = number ∨ b = backupNumber →
    b ∈ kept ∧ s.pages b 0 = .deviceInfo ∧ s.contents b 0 = infoPage number backupNumber
  others : ∀ b ∈ kept, ¬ (b = number ∨ b = backupNumber) → s.pages b 0 ≠ .deviceInfo
  read : ∀ b₀, b₀ = number ∨ b₀ = backupNumber → ∀ c₀, Started s.totalBlocks number backupNumber c₀ →
    ∃ blocks c block, Read s c₀ b₀ blocks c block s.metadataBlockCurrentPage ∧ Current s block ∧ blocks ⊆ kept ∧
      blocks.length + c.metadata.next.toList.length < c.metadata.blocks.length ∧ C c

variable {number backupNumber : ℕ} {C C' : Collected → Prop}

theorem Traced.imp (h : Traced kept number backupNumber C s) (hC : ∀ c, C c → C' c) :
    Traced kept number backupNumber C' s where
  info := h.info
  others := h.others
  read b₀ hb₀ c₀ hstarted := by
    obtain ⟨blocks, c, block, hread, hblock, hblocks, hlength, hc⟩ := h.read b₀ hb₀ c₀ hstarted
    exact ⟨blocks, c, block, hread, hblock, hblocks, hlength, hC c hc⟩

theorem Traced.grow (h : Traced kept number backupNumber C s) {kept' : List ℕ} (hsub : kept ⊆ kept')
    (hnew : ∀ b ∈ kept', b ∉ kept → s.pages b 0 ≠ .deviceInfo) : Traced kept' number backupNumber C s where
  info b hb := ⟨hsub (h.info b hb).1, (h.info b hb).2⟩
  others b hb hout := by
    by_cases hin : b ∈ kept
    · exact h.others b hin hout
    · exact hnew b hb hin
  read b₀ hb₀ c₀ hstarted := by
    obtain ⟨blocks, c, block, hread, hblock, hblocks, hrest⟩ := h.read b₀ hb₀ c₀ hstarted
    exact ⟨blocks, c, block, hread, hblock, List.Subset.trans hblocks hsub, hrest⟩

theorem Traced.congr (h : Traced kept number backupNumber C s) (hcurrent : ∀ b, Current s b → b ∈ kept)
    (htotal : t.totalBlocks = s.totalBlocks) (hmetadata : t.metadata.current = s.metadata.current)
    (hbackup : t.backupMetadata.current = s.backupMetadata.current)
    (hpage : t.metadataBlockCurrentPage = s.metadataBlockCurrentPage)
    (hkept : ∀ b ∈ kept, t.pages b = s.pages b ∧ t.contents b = s.contents b) :
    Traced kept number backupNumber C t where
  info b hb := by
    obtain ⟨hin, hinfo⟩ := h.info b hb
    rw [(hkept b hin).1, (hkept b hin).2]
    exact ⟨hin, hinfo⟩
  others b hb hout := by
    rw [(hkept b hb).1]
    exact h.others b hb hout
  read b₀ hb₀ c₀ hstarted := by
    rw [htotal] at hstarted
    obtain ⟨blocks, c, block, hread, hblock, hblocks, hrest⟩ := h.read b₀ hb₀ c₀ hstarted
    have hsame := hkept block (hcurrent block hblock)
    refine ⟨blocks, c, block, ?_, ?_, hblocks, hrest⟩
    · rw [hpage]
      exact hread.frame (fun b hb => hkept b (hblocks hb)) fun p _ => ⟨congrFun hsame.1 p, congrFun hsame.2 p⟩
    · rwa [Current, hmetadata, hbackup]

theorem Traced.write (h : Traced kept number backupNumber C s) (hacc : Accounted hand kept busy s)
    (hpage : s.metadataBlockCurrentPage < gd25BlockPages) {type : PageType} (htype : type ≠ .free)
    (hinfo : type ≠ .deviceInfo)
    (hread : ∀ c, C c → ∃ c', pageRead c type (tablePage s type) = some c' ∧ C' c' ∧
      c'.metadata.next.toList.length + c.metadata.blocks.length ≤
        c.metadata.next.toList.length + c'.metadata.blocks.length) :
    Traced kept number backupNumber C' (metadataPageWrite s type) := by
  have hne := hacc.current_ne
  have hfree (b : ℕ) (hb : Current s b) := current_page_free hacc hb
  have hpages {b : ℕ} (hb : s.pages b 0 = .deviceInfo) : (metadataPageWrite s type).pages b 0 = .deviceInfo ∧
      (metadataPageWrite s type).contents b 0 = s.contents b 0 := by
    by_cases hcase : Current s b
    · have hzero : 0 ≠ s.metadataBlockCurrentPage := by
        intro hzero
        rw [hzero, hfree b hcase] at hb
        exact PageType.noConfusion hb
      rw [(metadataPageWrite_of_current type hcase hne).1, (metadataPageWrite_of_current type hcase hne).2,
        Function.update_of_ne hzero, Function.update_of_ne hzero]
      exact ⟨hb, rfl⟩
    · rw [(metadataPageWrite_of_not_current type hcase).1, (metadataPageWrite_of_not_current type hcase).2]
      exact ⟨hb, rfl⟩
  refine ⟨fun b hb => ?_, fun b hb hout => ?_, fun b₀ hb₀ c₀ hstarted => ?_⟩
  · obtain ⟨hin, htype, hdata⟩ := h.info b hb
    exact ⟨hin, (hpages htype).1, (hpages htype).2.trans hdata⟩
  · by_cases hcase : Current s b
    · rw [(metadataPageWrite_of_current type hcase hne).1]
      by_cases hzero : s.metadataBlockCurrentPage = 0
      · rwa [hzero, Function.update_self]
      · rw [Function.update_of_ne (Ne.symm hzero)]
        exact h.others b hb hout
    · rw [(metadataPageWrite_of_not_current type hcase).1]
      exact h.others b hb hout
  · obtain ⟨blocks, c, block, hreads, hblock, hblocks, hlength, hC⟩ := h.read b₀ hb₀ c₀ hstarted
    obtain ⟨c', hc', hC', hgrow⟩ := hread c hC
    have hwrite := metadataPageWrite_of_current type hblock hne
    have hold (b : ℕ) (hb : b ∈ blocks) : (metadataPageWrite s type).pages b = s.pages b ∧
        (metadataPageWrite s type).contents b = s.contents b := metadataPageWrite_of_not_current type fun hcase =>
      hreads.not_free.1 b hb _ hpage (hfree b hcase)
    refine ⟨blocks, c', block, .page (hreads.frame hold fun p hp => ?_) hpage ?_ ?_, hblock, hblocks, by omega, hC'⟩
    · rw [hwrite.1, hwrite.2, Function.update_of_ne (Nat.ne_of_lt hp), Function.update_of_ne (Nat.ne_of_lt hp)]
      exact ⟨rfl, rfl⟩
    · rwa [hwrite.1, Function.update_self]
    · rwa [hwrite.1, hwrite.2, Function.update_self, Function.update_self]

theorem Traced.next (h : Traced kept number backupNumber C s) (hpage : s.metadataBlockCurrentPage = gd25BlockPages)
    (hcurrent : ∀ b, Current s b → b ∈ kept) {next backupNext : ℕ}
    (hC : ∀ c, C c → c.metadata.next = some next ∧ C' (unlinked (blockNext c next))) :
    Traced kept number backupNumber C' { s with
      metadata := { s.metadata with current := next }
      backupMetadata := { s.backupMetadata with current := backupNext }
      metadataBlockCurrentPage := 0 } := by
  refine ⟨h.info, h.others, fun b₀ hb₀ c₀ hstarted => ?_⟩
  obtain ⟨blocks, c, block, hread, hblock, hblocks, hlength, hc⟩ := h.read b₀ hb₀ c₀ hstarted
  obtain ⟨hnext, hC'⟩ := hC c hc
  have hlast : Read s c₀ b₀ (blocks ++ [block]) (unlinked (blockNext c next)) next 0 := .next (hpage ▸ hread) hnext
  refine ⟨blocks ++ [block], _, next, hlast.frame (fun _ _ => ⟨rfl, rfl⟩) fun _ _ => ⟨rfl, rfl⟩, Or.inl rfl, ?_, ?_, hC'⟩
  · exact List.append_subset.mpr ⟨hblocks, fun b hb => List.mem_singleton.mp hb ▸ hcurrent block hblock⟩
  · rw [hnext] at hlength
    simpa [unlinked, blockNext] using hlength

theorem Traced.start {next backupNext : Option ℕ} {rest backupRest : List ℕ}
    (hmetadata : s.metadata = ⟨some number, number, next, rest⟩)
    (hbackup : s.backupMetadata = ⟨some backupNumber, backupNumber, backupNext, backupRest⟩)
    (hne : number ≠ backupNumber) (hpage : s.metadataBlockCurrentPage = 0) :
    Traced [number, backupNumber] number backupNumber
      (fun c => ∃ c₀, Started s.totalBlocks number backupNumber c₀ ∧ c = unlinked c₀)
      (metadataPageWrite s .deviceInfo) := by
  have hcurrent {b : ℕ} (hb : b = number ∨ b = backupNumber) : Current s b := by
    rwa [Current, hmetadata, hbackup]
  have hcurrents : s.metadata.current ≠ s.backupMetadata.current := by
    rwa [hmetadata, hbackup]
  have hfirst {b : ℕ} (hb : b = number ∨ b = backupNumber) :
      (metadataPageWrite s .deviceInfo).pages b 0 = .deviceInfo ∧
        (metadataPageWrite s .deviceInfo).contents b 0 = infoPage number backupNumber := by
    obtain ⟨hpages, hcontents⟩ := metadataPageWrite_of_current .deviceInfo (hcurrent hb) hcurrents
    rw [hpages, hcontents, hpage, Function.update_self, Function.update_self]
    refine ⟨rfl, ?_⟩
    rw [tablePage_deviceInfo, deviceInfo, hmetadata, hbackup]
    rfl
  refine ⟨fun b hb => ⟨by simpa using hb, hfirst hb⟩, fun b hb hout => absurd (by simpa using hb) hout,
    fun b₀ hb₀ c₀ hstarted => ⟨[], unlinked c₀, b₀, ?_, hcurrent hb₀, List.nil_subset _, ?_, c₀, hstarted, rfl⟩⟩
  · rw [show (metadataPageWrite s .deviceInfo).metadataBlockCurrentPage = 0 + 1 by rw [← hpage]; rfl]
    refine .page .start (by decide) ?_ ?_
    · rw [(hfirst hb₀).1]
      exact PageType.noConfusion
    · rw [(hfirst hb₀).1]
      rfl
  · simp [unlinked, hstarted.metadata]

/-! ## The record -/

/-- The pages of metadata say what the tables are, and that the blocks of metadata are in use. -/
structure Recorded (kept : List ℕ) (number backupNumber : ℕ) (E E' : MetadataBlocks) (s : Store) : Prop where
  bounded : Bounded s
  kept_status : ∀ b ∈ kept, s.blockStatusTable b ≠ lxNandBlockStatusFree
  traced : Traced kept number backupNumber (fun c => Covers c s ∧ c.metadata = E ∧ c.backupMetadata = E') s

variable {E E' : MetadataBlocks}

theorem Recorded.congr (h : Recorded kept number backupNumber E E' s) (hcurrent : ∀ b, Current s b → b ∈ kept)
    (htotal : t.totalBlocks = s.totalBlocks)
    (htables : t.blockStatusTable = s.blockStatusTable ∧ t.blockMappingTable = s.blockMappingTable ∧
      t.eraseCountTable = s.eraseCountTable)
    (hmetadata : t.metadata.current = s.metadata.current ∧ t.backupMetadata.current = s.backupMetadata.current ∧
      t.metadataBlockCurrentPage = s.metadataBlockCurrentPage)
    (hkept : ∀ b ∈ kept, t.pages b = s.pages b ∧ t.contents b = s.contents b) :
    Recorded kept number backupNumber E E' t := by
  obtain ⟨hstatus, hmapping, herase⟩ := htables
  have hcovers (c : Collected) : Covers c t ↔ Covers c s := by
    constructor
    · rintro ⟨h₁, h₂, h₃, h₄⟩
      rw [htotal] at h₁ h₂ h₄
      exact ⟨h₁, herase ▸ h₂, hmapping ▸ h₃, hstatus ▸ h₄⟩
    · rintro ⟨h₁, h₂, h₃, h₄⟩
      rw [← htotal] at h₁ h₂ h₄
      exact ⟨h₁, herase ▸ h₂, hmapping ▸ h₃, hstatus ▸ h₄⟩
  refine ⟨⟨htotal ▸ h.bounded.total_le, ?_⟩, hstatus ▸ h.kept_status, ?_⟩
  · rw [hmapping, htotal]
    exact h.bounded.mapped
  · simp only [hcovers]
    exact h.traced.congr hcurrent htotal hmetadata.1 hmetadata.2.1 hmetadata.2.2 hkept

theorem Recorded.aside (h : Recorded kept number backupNumber E E' s) (hcurrent : ∀ b, Current s b → b ∈ kept)
    (haside : Aside kept s t) : Recorded kept number backupNumber E E' t :=
  h.congr hcurrent haside.totalBlocks ⟨haside.blockStatusTable, haside.blockMappingTable, haside.eraseCountTable⟩
    ⟨congrArg (·.current) haside.metadata, congrArg (·.current) haside.backupMetadata, haside.currentPage⟩
    fun b hb => ⟨haside.pages b hb, haside.contents b hb⟩

theorem Recorded.grow (h : Recorded kept number backupNumber E E' s) {kept' : List ℕ} (hsub : kept ⊆ kept')
    (hnew : ∀ b ∈ kept', b ∉ kept →
      s.pages b 0 ≠ .deviceInfo ∧ s.blockStatusTable b ≠ lxNandBlockStatusFree) :
    Recorded kept' number backupNumber E E' s := by
  refine ⟨h.bounded, fun b hb => ?_, h.traced.grow hsub fun b hb hout => (hnew b hb hout).1⟩
  by_cases hin : b ∈ kept
  · exact h.kept_status b hin
  · exact (hnew b hb hin).2

/-- A table that has changed is written, and other tables have not changed. -/
theorem Recorded.write (h : Recorded kept number backupNumber E E' s) (hacc : Accounted hand kept busy t)
    (hpages : t.pages = s.pages ∧ t.contents = s.contents ∧ t.metadataBlockCurrentPage = s.metadataBlockCurrentPage)
    (hmetadata : t.metadata = s.metadata ∧ t.backupMetadata = s.backupMetadata ∧ t.totalBlocks = s.totalBlocks)
    (hpage : s.metadataBlockCurrentPage < gd25BlockPages) (hbounded : Bounded t)
    (hstatus : ∀ b ∈ kept, t.blockStatusTable b ≠ lxNandBlockStatusFree) {type : PageType} (htype : type ≠ .free)
    (hinfo : type ≠ .deviceInfo)
    (hread : ∀ c, Covers c s → ∃ c', pageRead c type (tablePage t type) = some c' ∧ Covers c' t ∧
      c'.metadata = c.metadata ∧ c'.backupMetadata = c.backupMetadata) :
    Recorded kept number backupNumber E E' (metadataPageWrite t type) := by
  have hcurrent (b : ℕ) (hb : Current s b) : b ∈ kept := by
    rw [Current, ← hmetadata.1, ← hmetadata.2.1] at hb
    exact current_kept hacc hb
  have htraced := h.traced.congr (t := t) hcurrent hmetadata.2.2 (congrArg (·.current) hmetadata.1)
    (congrArg (·.current) hmetadata.2.1) hpages.2.2
    fun b _ => ⟨congrFun hpages.1 b, congrFun hpages.2.1 b⟩
  refine ⟨⟨hbounded.total_le, hbounded.mapped⟩, hstatus, htraced.write hacc (hpages.2.2 ▸ hpage) htype hinfo
    fun c hc => ?_⟩
  obtain ⟨hcovers, hE, hE'⟩ := hc
  obtain ⟨c', hc', hcovers', hsame, hsame'⟩ := hread c hcovers
  refine ⟨c', hc', ⟨⟨hcovers'.totalBlocks, hcovers'.eraseCount, hcovers'.mapping, hcovers'.status⟩,
    hsame.trans hE, hsame'.trans hE'⟩, ?_⟩
  rw [hsame]

section Tables
variable (h : Recorded kept number backupNumber E E' s) (hpage : s.metadataBlockCurrentPage < gd25BlockPages)
include h hpage

theorem Recorded.status (status : BitVec 16) (hacc : Accounted hand kept busy (withStatus s block status))
    (hlt : block < s.totalBlocks) (hkept : block ∈ kept → status ≠ lxNandBlockStatusFree) :
    Recorded kept number backupNumber E E' (metadataPageWrite (withStatus s block status)
      (.blockStatusTable (.ofNat (block * 2 / gd25PageSize)))) := by
  rw [shorts_page (lt_of_lt_of_le hlt h.bounded.total_le)]
  refine h.write hacc ⟨rfl, rfl, rfl⟩ ⟨rfl, rfl, rfl⟩ hpage ⟨h.bounded.total_le, h.bounded.mapped⟩ (fun b hb => ?_)
    (by simp) (by simp) fun c hc => ?_
  · by_cases heq : b = block
    · subst heq
      simpa [withStatus] using hkept hb
    · simpa [withStatus, heq] using h.kept_status b hb
  · obtain ⟨table, hread, htable⟩ := pageRead_status (s := withStatus s block status)
      ⟨h.bounded.total_le, h.bounded.mapped⟩ hc.totalBlocks
    exact ⟨_, hread, ⟨hc.totalBlocks, hc.eraseCount, hc.mapping, htable⟩, rfl, rfl⟩

theorem Recorded.mapping (blockOf : Option ℕ) (hacc : Accounted hand kept busy (withMapping s index blockOf))
    (hlt : index < s.totalBlocks) (hblock : ∀ b, blockOf = some b → b < s.totalBlocks) :
    Recorded kept number backupNumber E E' (metadataPageWrite (withMapping s index blockOf)
      (.blockMappingTable (.ofNat (index * 2 / gd25PageSize)))) := by
  have hbounded : Bounded (withMapping s index blockOf) := by
    refine ⟨h.bounded.total_le, fun l b hb => ?_⟩
    by_cases heq : l = index
    · subst heq
      exact ⟨hlt, hblock b (by simpa [withMapping] using hb)⟩
    · exact h.bounded.mapped l b (by simpa [withMapping, heq] using hb)
  rw [shorts_page (lt_of_lt_of_le hlt h.bounded.total_le)]
  refine h.write hacc ⟨rfl, rfl, rfl⟩ ⟨rfl, rfl, rfl⟩ hpage hbounded h.kept_status (by simp) (by simp)
    fun c hc => ?_
  have hread := pageRead_mapping hbounded (c := c) hc.totalBlocks fun l hl => by
    rw [hc.mapping]
    cases hcase : s.blockMappingTable l with
    | none => rfl
    | some b =>
      have hin := (h.bounded.mapped l b hcase).1
      exact absurd (lt_of_lt_of_le hin h.bounded.total_le) (Nat.not_lt.mpr hl)
  exact ⟨_, hread, ⟨hc.totalBlocks, hc.eraseCount, rfl, hc.status⟩, rfl, rfl⟩

theorem Recorded.eraseCount (count : UInt8) (hacc : Accounted hand kept busy s) (hlt : block < s.totalBlocks) :
    Recorded kept number backupNumber E E' (metadataPageWrite
      { s with eraseCountTable := Function.update s.eraseCountTable block count }
      (.eraseCountTable (.ofNat (block / gd25PageSize)))) := by
  rw [bytes_page (lt_of_lt_of_le hlt h.bounded.total_le)]
  have hcounted : Accounted hand kept busy
      { s with eraseCountTable := Function.update s.eraseCountTable block count } := { hacc with clean := hacc.clean }
  refine h.write hcounted ⟨rfl, rfl, rfl⟩ ⟨rfl, rfl, rfl⟩ hpage ⟨h.bounded.total_le, h.bounded.mapped⟩ h.kept_status
    (by simp) (by simp) fun c hc => ?_
  obtain ⟨table, hread, htable⟩ := pageRead_eraseCount
    (s := { s with eraseCountTable := Function.update s.eraseCountTable block count })
    ⟨h.bounded.total_le, h.bounded.mapped⟩ hc.totalBlocks
  exact ⟨_, hread, ⟨hc.totalBlocks, htable, hc.mapping, hc.status⟩, rfl, rfl⟩

end Tables

end EtherBench.LevelX.Recording
