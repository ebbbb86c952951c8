import EtherBench.LevelX.MetadataBlocks
import EtherBench.LevelX.Sectors
import Mathlib.Data.List.Nodup
import Mathlib.Data.List.Perm.Subperm

/-! # What an open comes back with

An open of a volume that has been in use finds the metadata where it has got to, and with it the tables. The
lists are made anew from them, so that every sector holds what it held.
-/

namespace EtherBench.LevelX.Remount
open Nand.Device SectorStore BlockPages Custody Upkeep Mount Recording MetadataBlocks Sectors
open NandFlash (PageType tableSize mappedWear lxNandMaxBlockCount lxNandBlockStatusFree insertByWear)

variable {hand kept busy : List ℕ} {s t : Store} {c : Collected} {block number backupNumber : ℕ}
  {E E' : NandFlash.MetadataBlocks}

/-! ## The lists -/

def openBlock (s : Store) (block : ℕ) : Store :=
  { s with toVolume := NandFlash.openBlock s.toVolume block }

theorem openBlock_eq (s : Store) (block : ℕ) : openBlock s block =
    let t := if s.blockStatusTable block = lxNandBlockStatusFree then freeBlockListAdd s block else s
    if (t.blockMappingTable block).isSome then mappedBlockListAdd t block else t := by
  rw [openBlock, NandFlash.openBlock]
  by_cases hfree : s.blockStatusTable block = lxNandBlockStatusFree
  · rw [if_pos hfree, if_pos hfree]
    dsimp only
    split
    · rw [if_pos (by assumption)]
      rfl
    · rw [if_neg (by assumption)]
      rfl
  · rw [if_neg hfree, if_neg hfree]
    dsimp only
    split
    · rfl
    · rfl

/-- Lists of what comes before the given places, on which nobody else has a claim, in the order of wear. -/
structure Listed (hand kept : List ℕ) (s : Store) (n m : ℕ) (t : Store) : Prop where
  accounted : Accounted hand kept [] t
  same : ∃ freeBlockList mappedBlockList,
    t = { s with freeBlockList := freeBlockList, mappedBlockList := mappedBlockList }
  free_iff : ∀ b, b ∈ t.freeBlockList ↔ b < n ∧ s.blockStatusTable b = lxNandBlockStatusFree
  mapped_iff : ∀ l, l ∈ t.mappedBlockList ↔ l < m ∧ s.blockMappingTable l ≠ none
  free_sorted : t.freeBlockList.Pairwise fun a b => s.eraseCountTable a ≤ s.eraseCountTable b
  mapped_sorted : t.mappedBlockList.Pairwise fun l l' => mappedWear s.toVolume l ≤ mappedWear s.toVolume l'

theorem insertByWear_sorted {wear : ℕ → UInt8} {list : List ℕ} (h : list.Pairwise fun a b => wear a ≤ wear b) (x : ℕ) :
    (insertByWear wear x list).Pairwise fun a b => wear a ≤ wear b := by
  induction list with
  | nil => exact List.pairwise_singleton _ x
  | cons y ys ih =>
    obtain ⟨hy, hys⟩ := List.pairwise_cons.mp h
    by_cases hlt : wear y < wear x
    · have hstep : insertByWear wear x (y :: ys) = y :: insertByWear wear x ys := by simp [insertByWear, hlt]
      rw [hstep]
      refine List.pairwise_cons.mpr ⟨fun z hz => ?_, ih hys⟩
      rcases List.mem_cons.mp ((insertByWear_perm wear x ys).mem_iff.mp hz) with rfl | hz
      · exact UInt8.le_of_lt hlt
      · exact hy z hz
    · have hle : wear x ≤ wear y := UInt8.not_lt.mp hlt
      have hstep : insertByWear wear x (y :: ys) = x :: y :: ys := by simp [insertByWear, hlt]
      rw [hstep]
      refine List.pairwise_cons.mpr ⟨fun z hz => ?_, h⟩
      rcases List.mem_cons.mp hz with rfl | hz
      · exact hle
      · exact UInt8.le_trans hle (hy z hz)

/-- No block is free and mapped at once, or mapped twice. -/
theorem nodup_used (h : Accounted hand kept [] t) {ls : List ℕ} (hls : ls.Nodup) :
    (t.freeBlockList ++ ls.filterMap t.blockMappingTable).Nodup := by
  refine List.nodup_append.mpr ⟨h.free_nodup, ?_, ?_⟩
  · exact hls.filterMap fun l l' b hl hl' =>
      h.mapped_once l List.not_mem_nil l' List.not_mem_nil b (Option.mem_def.mp hl) (Option.mem_def.mp hl')
  · rintro b hb _ hin rfl
    obtain ⟨l, -, hl⟩ := List.mem_filterMap.mp hin
    exact h.mapped_free l List.not_mem_nil b hl hb

theorem lt_of_used (h : Accounted hand kept [] t) {ls : List ℕ} {b : ℕ}
    (hb : b ∈ t.freeBlockList ++ ls.filterMap t.blockMappingTable) : b < t.totalBlocks ∧ b ∉ hand ++ kept := by
  rcases List.mem_append.mp hb with hb | hb
  · exact ⟨h.free_lt b hb, h.free_held b hb⟩
  · obtain ⟨l, -, hl⟩ := List.mem_filterMap.mp hb
    exact ⟨h.mapped_lt l List.not_mem_nil b hl, h.mapped_held l List.not_mem_nil b hl⟩

theorem room_of_unlisted (h : Accounted hand kept [] t) (hlt : block < t.totalBlocks) (hfree : block ∉ t.freeBlockList)
    (hmapped : ∀ l ∈ t.mappedBlockList, t.blockMappingTable l ≠ some block) :
    t.freeBlockList.length + t.mappedBlockList.length < t.totalBlocks := by
  have hlength : (t.mappedBlockList.filterMap t.blockMappingTable).length = t.mappedBlockList.length := by
    rw [List.length_filterMap_eq_countP, List.countP_eq_length]
    exact fun l hl => Option.isSome_iff_ne_none.mpr (h.listed_mapped l hl)
  have hnodup : (block :: (t.freeBlockList ++ t.mappedBlockList.filterMap t.blockMappingTable)).Nodup := by
    refine List.nodup_cons.mpr ⟨fun hin => ?_, nodup_used h h.listed_nodup⟩
    rcases List.mem_append.mp hin with hin | hin
    · exact hfree hin
    · obtain ⟨l, hl, hb⟩ := List.mem_filterMap.mp hin
      exact hmapped l hl hb
  have hsub : block :: (t.freeBlockList ++ t.mappedBlockList.filterMap t.blockMappingTable) ⊆
      List.range t.totalBlocks := by
    intro b hb
    rw [List.mem_range]
    rcases List.mem_cons.mp hb with rfl | hb
    · exact hlt
    · exact (lt_of_used h hb).1
  have hle := (hnodup.subperm hsub).length_le
  rw [List.length_cons, List.length_append, hlength, List.length_range] at hle
  exact hle

theorem lt_succ_and_iff {p : ℕ → Prop} {b n : ℕ} : b < n + 1 ∧ p b ↔ (b = n ∧ p n) ∨ (b < n ∧ p b) := by
  rw [Nat.lt_succ_iff_lt_or_eq, or_and_right, Or.comm]
  exact or_congr_left ⟨fun ⟨heq, h⟩ => ⟨heq, heq ▸ h⟩, fun ⟨heq, h⟩ => ⟨heq, heq ▸ h⟩⟩

theorem Listed.free {n m : ℕ} (h : Listed hand kept s n m t) (hn : n < s.totalBlocks)
    (hstatus : s.blockStatusTable n = lxNandBlockStatusFree)
    (hheld : ∀ b ∈ hand ++ kept, s.blockStatusTable b ≠ lxNandBlockStatusFree) :
    Listed hand kept s (n + 1) m (freeBlockListAdd t n) := by
  obtain ⟨hacc, ⟨freeList, mappedList, rfl⟩, hfree, hmapped, hsorted, hmappedSorted⟩ := h
  have hout : n ∉ hand ++ kept := fun hin => hheld n hin hstatus
  have hunlisted : n ∉ freeList := fun hin => absurd ((hfree n).mp hin).1 (Nat.lt_irrefl n)
  have hunmapped (l : ℕ) (hl : l ∉ []) : s.blockMappingTable l ≠ some n := fun hin =>
    stored_ne_free (hacc.mapped_stored l hl n hin) hstatus
  have hgive := (hacc.grab hn hunlisted hout hunmapped).give (hacc.free_status n hn hout hstatus)
  have hroom := room_of_unlisted hacc hn hunlisted fun l _ => hunmapped l List.not_mem_nil
  have hadd : freeBlockListAdd { s with freeBlockList := freeList, mappedBlockList := mappedList } n =
      { s with freeBlockList := insertByWear s.eraseCountTable n freeList, mappedBlockList := mappedList } := by
    rw [freeBlockListAdd, NandFlash.freeBlockListAdd, if_neg (Nat.not_le.mpr hroom)]
  rw [hadd] at hgive ⊢
  refine ⟨hgive, ⟨_, mappedList, rfl⟩, fun b => ?_, hmapped, insertByWear_sorted hsorted n, hmappedSorted⟩
  rw [(insertByWear_perm _ _ _).mem_iff, List.mem_cons, hfree b,
    lt_succ_and_iff (p := fun b => s.blockStatusTable b = lxNandBlockStatusFree), and_iff_left hstatus]

theorem Listed.mapped {n m : ℕ} (h : Listed hand kept s n m t) (hm : m < s.totalBlocks)
    (hmapping : s.blockMappingTable m ≠ none) : Listed hand kept s n (m + 1) (mappedBlockListAdd t m) := by
  obtain ⟨hacc, ⟨freeList, mappedList, rfl⟩, hfree, hmapped, hsorted, hmappedSorted⟩ := h
  have hunlisted : m ∉ mappedList := fun hin => absurd ((hmapped m).mp hin).1 (Nat.lt_irrefl m)
  obtain ⟨b, hb⟩ := Option.ne_none_iff_exists'.mp hmapping
  have hroom := room_of_unlisted hacc (hacc.mapped_lt m List.not_mem_nil b hb) (hacc.mapped_free m List.not_mem_nil b hb)
    fun l hl hin => hunlisted (hacc.mapped_once l List.not_mem_nil m List.not_mem_nil b hin hb ▸ hl)
  have hlist := hacc.list List.not_mem_nil hm hunlisted hmapping
  have hadd : mappedBlockListAdd { s with freeBlockList := freeList, mappedBlockList := mappedList } m =
      { s with freeBlockList := freeList, mappedBlockList := insertByWear (mappedWear s.toVolume) m mappedList } := by
    rw [mappedBlockListAdd, NandFlash.mappedBlockListAdd, if_neg (Nat.not_le.mpr hroom)]
    rfl
  rw [hadd] at hlist ⊢
  refine ⟨hlist, ⟨freeList, _, rfl⟩, hfree, fun l => ?_, hsorted, insertByWear_sorted hmappedSorted m⟩
  rw [(insertByWear_perm _ _ _).mem_iff, List.mem_cons, hmapped l,
    lt_succ_and_iff (p := fun l => s.blockMappingTable l ≠ none), and_iff_left hmapping]

theorem Listed.openBlock {n : ℕ} (h : Listed hand kept s n n t) (hn : n < s.totalBlocks)
    (hheld : ∀ b ∈ hand ++ kept, s.blockStatusTable b ≠ lxNandBlockStatusFree) :
    Listed hand kept s (n + 1) (n + 1) (openBlock t n) := by
  obtain ⟨freeList, mappedList, hsame⟩ := h.same
  rw [openBlock_eq]
  have hfirst : Listed hand kept s (n + 1) n
      (if t.blockStatusTable n = lxNandBlockStatusFree then freeBlockListAdd t n else t) := by
    split
    · rename_i hstatus
      exact h.free hn (by rwa [hsame] at hstatus) hheld
    · rename_i hstatus
      rw [hsame] at hstatus
      refine { h with free_iff := fun b => ?_ }
      rw [h.free_iff b, lt_succ_and_iff (p := fun b => s.blockStatusTable b = lxNandBlockStatusFree)]
      exact (or_iff_right fun hn => hstatus hn.2).symm
  generalize (if t.blockStatusTable n = lxNandBlockStatusFree then freeBlockListAdd t n else t) = u at hfirst ⊢
  obtain ⟨freeList', mappedList', hsame'⟩ := hfirst.same
  dsimp only
  split
  · rename_i hmapping
    exact hfirst.mapped hn (by rw [hsame'] at hmapping; exact Option.isSome_iff_ne_none.mp hmapping)
  · rename_i hmapping
    rw [hsame', Option.isSome_iff_ne_none] at hmapping
    refine { hfirst with mapped_iff := fun l => ?_ }
    rw [hfirst.mapped_iff l, lt_succ_and_iff (p := fun l => s.blockMappingTable l ≠ none)]
    exact (or_iff_right fun hn => hmapping hn.2).symm

theorem listed_blocks (hacc : Accounted hand kept [] s) (hfree : s.freeBlockList = []) (hmapped : s.mappedBlockList = [])
    (hheld : ∀ b ∈ hand ++ kept, s.blockStatusTable b ≠ lxNandBlockStatusFree) {n : ℕ} (hn : n ≤ s.totalBlocks) :
    Listed hand kept s n n ((List.range n).foldl openBlock s) := by
  induction n with
  | zero =>
    refine ⟨hacc, ⟨s.freeBlockList, s.mappedBlockList, rfl⟩, fun b => ?_, fun l => ?_, ?_, ?_⟩
    · simp [hfree]
    · simp [hmapped]
    · rw [List.range_zero, List.foldl_nil, hfree]
      exact List.Pairwise.nil
    · rw [List.range_zero, List.foldl_nil, hmapped]
      exact List.Pairwise.nil
  | succ n ih =>
    rw [List.range_succ, List.foldl_append, List.foldl_cons, List.foldl_nil]
    exact (ih (Nat.le_of_succ_le hn)).openBlock hn hheld

/-! ## The open -/

def withCollected (s : Store) (c : Collected) : Store :=
  { s with
    eraseCountTable := c.eraseCountTable
    blockMappingTable := c.blockMappingTable
    blockStatusTable := c.blockStatusTable
    freeBlockList := []
    mappedBlockList := []
    metadata := c.metadata
    backupMetadata := c.backupMetadata }

theorem opened_eq (s : Store) (c : Collected) : opened s c s.metadataBlockCurrentPage =
    (List.range s.totalBlocks).foldl openBlock (withCollected s c) := by
  have hfold (blocks : List ℕ) (t : Store) :
      blocks.foldl openBlock t = { t with toVolume := blocks.foldl NandFlash.openBlock t.toVolume } := by
    induction blocks generalizing t with
    | nil => rfl
    | cons b blocks ih => rw [List.foldl_cons, ih]; rfl
  rw [hfold]
  rfl

theorem value_withCollected (hacc : Accounted hand kept [] s) (hcovers : Covers c s) (x : ℕ) :
    value (withCollected s c) x = value s x := by
  refine value_congr (congrFun hcovers.mapping _) fun b hb => ⟨rfl, rfl, ?_⟩
  exact hcovers.status b (hacc.mapped_lt _ List.not_mem_nil b hb)

theorem accounted_withCollected (hacc : Accounted hand kept [] s) (hcovers : Covers c s)
    (hcurrent : c.metadata.current = s.metadata.current) (hbackup : c.backupMetadata.current = s.backupMetadata.current) :
    Accounted hand kept [] (withCollected s c) := by
  obtain ⟨total, counts, mapping, statuses, metadata, backupMetadata⟩ := c
  obtain ⟨-, -, rfl, hstatus⟩ := hcovers
  exact { hacc with
    free_nodup := List.nodup_nil
    free_lt := fun b hb => absurd hb List.not_mem_nil
    free_held := fun b hb => absurd hb List.not_mem_nil
    free_erased := fun b hb => absurd hb List.not_mem_nil
    mapped_free := fun _ _ _ _ => List.not_mem_nil
    mapped_stored := fun l hl b hb => by
      have hsame : statuses b = s.blockStatusTable b := hstatus b (hacc.mapped_lt l hl b hb)
      change Stored (s.pages b) (s.contents b) l (statuses b)
      rw [hsame]
      exact hacc.mapped_stored l hl b hb
    listed_nodup := List.nodup_nil
    listed_lt := fun l hl => absurd hl List.not_mem_nil
    listed_mapped := fun l hl => absurd hl List.not_mem_nil
    listed_busy := fun l hl => absurd hl List.not_mem_nil
    free_status := fun b hlt hout hfree => hacc.free_status b hlt hout ((hstatus b hlt).symm.trans hfree)
    current_kept := hcurrent ▸ hacc.current_kept
    backup_kept := hbackup ▸ hacc.backup_kept
    current_ne := hcurrent ▸ hbackup ▸ hacc.current_ne
    current_free := hcurrent ▸ hbackup ▸ hacc.current_free
    clean := hacc.clean }

theorem infoPage_longs (number backupNumber : ℕ) (hnumber : number < gd25BlockCountNormal)
    (hbackup : backupNumber < gd25BlockCountNormal) :
    longAt (infoPage number backupNumber) 0 = lxNandDeviceInfoSignature1 ∧
      longAt (infoPage number backupNumber) 1 = lxNandDeviceInfoSignature2 ∧
      longAt (infoPage number backupNumber) 5 = number ∧ longAt (infoPage number backupNumber) 6 = backupNumber := by
  have hsmall {b : ℕ} (hb : b < gd25BlockCountNormal) : b < 0x100000000 := lt_trans hb (by decide)
  have hfirst : lxNandDeviceInfoSignature1 < 0x100000000 := by decide
  have hsecond : lxNandDeviceInfoSignature2 < 0x100000000 := by decide
  exact ⟨longAt_longs (i := 0) (by simp) hfirst, longAt_longs (i := 1) (by simp) hsecond,
    longAt_longs (i := 5) (by simp) (hsmall hnumber), longAt_longs (i := 6) (by simp) (hsmall hbackup)⟩

section Found
variable {good : ℕ → Bool} (hacc : Accounted hand kept [] s)
  (hrecorded : Recorded kept number backupNumber E E' s) (hgood : ∀ b < s.totalBlocks, good b = false ↔ b ∈ hand)
include hacc hrecorded

theorem number_lt {b : ℕ} (hb : b = number ∨ b = backupNumber) : b < s.totalBlocks ∧ b < gd25BlockCountNormal := by
  have hlt := hacc.held_lt b (List.mem_append_right hand (hrecorded.traced.info b hb).1)
  exact ⟨hlt, lt_of_lt_of_le hlt hrecorded.bounded.total_le⟩

theorem number_mapped {b : ℕ} (hb : b = number ∨ b = backupNumber) : mappedBlock b = some b ∧ b % 0x10000 = b := by
  have hlt := (number_lt hacc hrecorded hb).2
  exact ⟨if_neg (Nat.ne_of_lt (lt_trans hlt (by decide))), Nat.mod_eq_of_lt (lt_trans hlt (by decide))⟩

theorem collected_started (good : ℕ → Bool) (block : ℕ) :
    Started s.totalBlocks number backupNumber (collected good s block number (some backupNumber)) := by
  refine ⟨rfl, ?_, ?_, fun l hl => ?_⟩
  · rw [collected, (number_mapped hacc hrecorded (Or.inl rfl)).2]
  · rw [collected, blockNumber, Option.getD_some, (number_mapped hacc hrecorded (b := backupNumber) (Or.inr rfl)).2]
  · refine if_neg (Nat.not_lt.mpr ?_)
    rw [tableSize_le (by decide) hrecorded.bounded.total_le]
    exact hl

theorem info_longs (hblock : block = number ∨ block = backupNumber) :
    longAt (s.contents block 0) 5 = number ∧ longAt (s.contents block 0) 6 = backupNumber := by
  obtain ⟨-, -, hcontents⟩ := hrecorded.traced.info block hblock
  obtain ⟨-, -, hlong, hbackupLong⟩ := infoPage_longs number backupNumber
    (number_lt hacc hrecorded (b := number) (Or.inl rfl)).2 (number_lt hacc hrecorded (b := backupNumber) (Or.inr rfl)).2
  rw [hcontents]
  exact ⟨hlong, hbackupLong⟩

theorem openStore_of_reads (hblock : block = number ∨ block = backupNumber)
    (hfind : (List.range s.totalBlocks).find? (informed good s) = some block) {page : ℕ}
    (hreads : blocksRead s s.totalBlocks block (collected good s block number (some backupNumber)) = some (c, page)) :
    openStore good s = some (opened s c page) := by
  have hmax : ¬ lxNandMaxBlockCount < s.totalBlocks := Nat.not_lt.mpr (le_trans hrecorded.bounded.total_le (by decide))
  obtain ⟨hlong, hbackupLong⟩ := info_longs hacc hrecorded hblock
  rw [openStore, if_neg hmax, hfind]
  dsimp only
  rw [hlong, hbackupLong, (number_mapped hacc hrecorded (Or.inl rfl)).1,
    (number_mapped hacc hrecorded (b := backupNumber) (Or.inr rfl)).1]
  dsimp only
  rw [hreads]

include hgood

/-- The search for device information ends with one of the copies of the first block. -/
theorem informed_found : ∃ block, (block = number ∨ block = backupNumber) ∧
    (List.range s.totalBlocks).find? (informed good s) = some block := by
  have hlong := infoPage_longs number backupNumber (number_lt hacc hrecorded (Or.inl rfl)).2
    (number_lt hacc hrecorded (Or.inr rfl)).2
  have hnumber : informed good s number = true := by
    obtain ⟨hin, hpage, hcontents⟩ := hrecorded.traced.info number (Or.inl rfl)
    have hlt := (number_lt hacc hrecorded (b := number) (Or.inl rfl)).1
    have hgoodNumber : good number = true := by
      rw [← Bool.not_eq_false, hgood number hlt]
      exact fun hhand => hacc.hand_kept hhand hin
    simp [informed, hgoodNumber, hpage, hcontents, hlong.1, hlong.2.1]
  cases hfind : (List.range s.totalBlocks).find? (informed good s) with
  | none =>
    have hlt := (number_lt hacc hrecorded (b := number) (Or.inl rfl)).1
    exact absurd hnumber (List.find?_eq_none.mp hfind number (List.mem_range.mpr hlt))
  | some block =>
    refine ⟨block, ?_, rfl⟩
    have hinformed : informed good s block = true := List.find?_some hfind
    have hlt : block < s.totalBlocks := List.mem_range.mp (List.mem_of_find?_eq_some hfind)
    simp only [informed, Bool.and_eq_true, decide_eq_true_eq] at hinformed
    obtain ⟨⟨⟨hgoodBlock, hpage⟩, -⟩, -⟩ := hinformed
    by_contra hother
    by_cases hin : block ∈ hand ++ kept
    · rcases List.mem_append.mp hin with hhand | hkept
      · rw [(hgood block hlt).mpr hhand] at hgoodBlock
        exact Bool.noConfusion hgoodBlock
      · exact hrecorded.traced.others block hkept hother hpage
    · exact hacc.other_info block hlt hin hpage

theorem openStore_eq (hpos : 0 < s.metadataBlockCurrentPage) (hpage : s.metadataBlockCurrentPage < gd25BlockPages)
    (hlength : E.blocks.length ≤ s.totalBlocks) : ∃ c, openStore good s = some (opened s c s.metadataBlockCurrentPage) ∧
      Covers c s ∧ c.metadata = E ∧ c.backupMetadata = E' := by
  obtain ⟨block, hblock, hfind⟩ := informed_found hacc hrecorded hgood
  obtain ⟨blocks, c, b, hread, hcurrent, -, hblocks, hcovers, hE, hE'⟩ :=
    hrecorded.traced.read block hblock _ (collected_started hacc hrecorded good block)
  have hfew : blocks.length < s.totalBlocks := by
    rw [hE] at hblocks
    omega
  have hreads := hread.blocksRead_eq hpos hpage (current_page_free hacc hcurrent) hfew
  exact ⟨c, openStore_of_reads hacc hrecorded hblock hfind hreads, hcovers, hE, hE'⟩

end Found

/-! ## What is found -/

/-- The chip has a volume on it, whatever the control block says of its lists and metadata blocks. -/
structure Mountable (hand : List ℕ) (number backupNumber next backupNext : ℕ) (pre backupPre : List ℕ) (s : Store) :
    Prop where
  accounted : Accounted hand (pre ++ [s.metadata.current, next] ++ (backupPre ++ [s.backupMetadata.current, backupNext]))
    [] s
  page_pos : 0 < s.metadataBlockCurrentPage
  page_lt : s.metadataBlockCurrentPage < gd25BlockPages
  length_eq : pre.length = backupPre.length
  length_le : pre.length ≤ 2
  next_free : ∀ page, s.pages next page = .free ∧ s.pages backupNext page = .free
  recorded : Recorded (pre ++ [s.metadata.current, next] ++ (backupPre ++ [s.backupMetadata.current, backupNext]))
    number backupNumber ⟨some number, s.metadata.current, some next, pre ++ [s.metadata.current, next]⟩
    ⟨some backupNumber, s.backupMetadata.current, some backupNext, backupPre ++ [s.backupMetadata.current, backupNext]⟩ s
  hand_status : ∀ b ∈ hand, s.blockStatusTable b ≠ lxNandBlockStatusFree

theorem Mountable.length_le_total {next backupNext : ℕ} {pre backupPre : List ℕ}
    (h : Mountable hand number backupNumber next backupNext pre backupPre s) :
    (pre ++ [s.metadata.current, next]).length ≤ s.totalBlocks := by
  have hnodup := (List.nodup_append.mp (List.nodup_append.mp h.accounted.held_nodup).2.1).1
  have hsub : pre ++ [s.metadata.current, next] ⊆ List.range s.totalBlocks := fun b hb =>
    List.mem_range.mpr (h.accounted.held_lt b (List.mem_append_right _ (List.mem_append_left _ hb)))
  exact (hnodup.subperm hsub).length_le.trans_eq List.length_range

theorem recorded_withCollected (h : Recorded kept number backupNumber E E' s) (hacc : Accounted hand kept [] s)
    (hcovers : Covers c s) (freeBlockList mappedBlockList : List ℕ)
    (hcurrent : c.metadata.current = s.metadata.current) (hbackup : c.backupMetadata.current = s.backupMetadata.current) :
    Recorded kept number backupNumber E E'
      { withCollected s c with freeBlockList := freeBlockList, mappedBlockList := mappedBlockList } := by
  have hlt {b : ℕ} (hb : b ∈ kept) : b < s.totalBlocks := hacc.held_lt b (List.mem_append_right hand hb)
  refine ⟨⟨h.bounded.total_le, fun l b hb => ?_⟩, fun b hb => ?_, ?_⟩
  · exact h.bounded.mapped l b ((congrFun hcovers.mapping l).symm.trans hb)
  · exact fun hfree => h.kept_status b hb ((hcovers.status b (hlt hb)).symm.trans hfree)
  · have htraced := h.traced.congr
      (t := { withCollected s c with freeBlockList := freeBlockList, mappedBlockList := mappedBlockList })
      (fun b hb => current_kept hacc hb) rfl hcurrent hbackup rfl fun _ _ => ⟨rfl, rfl⟩
    refine htraced.imp fun c' hc => ⟨⟨hc.1.totalBlocks, fun b hb => ?_, ?_, fun b hb => ?_⟩, hc.2⟩
    · exact (hc.1.eraseCount b hb).trans (hcovers.eraseCount b hb).symm
    · exact hc.1.mapping.trans hcovers.mapping.symm
    · exact (hc.1.status b hb).trans (hcovers.status b hb).symm

/-- The tables are what they were, and the lists are made of them, in the order of wear. -/
structure Restored (s t : Store) : Prop where
  eraseCount : ∀ b < s.totalBlocks, t.eraseCountTable b = s.eraseCountTable b
  mapping : t.blockMappingTable = s.blockMappingTable
  status : ∀ b < s.totalBlocks, t.blockStatusTable b = s.blockStatusTable b
  currentPage : t.metadataBlockCurrentPage = s.metadataBlockCurrentPage
  free_iff : ∀ b, b ∈ t.freeBlockList ↔ b < s.totalBlocks ∧ s.blockStatusTable b = lxNandBlockStatusFree
  mapped_iff : ∀ l, l ∈ t.mappedBlockList ↔ l < s.totalBlocks ∧ s.blockMappingTable l ≠ none
  free_sorted : t.freeBlockList.Pairwise fun a b => t.eraseCountTable a ≤ t.eraseCountTable b
  mapped_sorted : t.mappedBlockList.Pairwise fun l l' => mappedWear t.toVolume l ≤ mappedWear t.toVolume l'

theorem Restored.of_listed {n : ℕ} (hcovers : Covers c s) (h : Listed hand kept (withCollected s c) n n t)
    (hn : n = s.totalBlocks) : Restored s t := by
  obtain ⟨-, ⟨freeList, mappedList, rfl⟩, hfree, hmapped, hsorted, hmappedSorted⟩ := h
  subst hn
  refine ⟨hcovers.eraseCount, hcovers.mapping, hcovers.status, rfl, fun b => ?_, fun l => ?_, hsorted, hmappedSorted⟩
  · rw [hfree b, and_congr_right_iff]
    exact fun hb => Eq.congr_left (hcovers.status b hb)
  · rw [hmapped l, ← hcovers.mapping]
    rfl

/-- An open comes back with all that the sectors hold. -/
theorem openStore_spec {good : ℕ → Bool} {next backupNext : ℕ} {pre backupPre : List ℕ}
    (h : Mountable hand number backupNumber next backupNext pre backupPre s)
    (hgood : ∀ b < s.totalBlocks, good b = false ↔ b ∈ hand) :
    ∃ t, openStore good s = some t ∧ Changed hand metadataBlocks Ready (value s) s t ∧ Restored s t ∧
      t.metadata = ⟨some number, s.metadata.current, some next, pre ++ [s.metadata.current, next]⟩ ∧
      t.backupMetadata = ⟨some backupNumber, s.backupMetadata.current, some backupNext,
        backupPre ++ [s.backupMetadata.current, backupNext]⟩ := by
  obtain ⟨c, hopen, hcovers, hE, hE'⟩ :=
    openStore_eq h.accounted h.recorded hgood h.page_pos h.page_lt h.length_le_total
  have hcurrent : c.metadata.current = s.metadata.current := by rw [hE]
  have hbackup : c.backupMetadata.current = s.backupMetadata.current := by rw [hE']
  have hstart := accounted_withCollected h.accounted hcovers hcurrent hbackup
  have hstatus {b : ℕ} (hb : b < s.totalBlocks) : (withCollected s c).blockStatusTable b = s.blockStatusTable b :=
    hcovers.status b hb
  have hheld (b : ℕ) (hb : b ∈ hand ++ (pre ++ [s.metadata.current, next] ++
      (backupPre ++ [s.backupMetadata.current, backupNext]))) :
      (withCollected s c).blockStatusTable b ≠ lxNandBlockStatusFree := by
    rw [hstatus (h.accounted.held_lt b hb)]
    exact (List.mem_append.mp hb).elim (h.hand_status b) (h.recorded.kept_status b)
  have hlisted :=
    listed_blocks (s := withCollected s c) (n := s.totalBlocks) hstart rfl rfl hheld (Nat.le_refl _)
  refine ⟨_, hopen, ?_⟩
  rw [opened_eq]
  have hrestored := Restored.of_listed hcovers hlisted rfl
  obtain ⟨haccounted, ⟨freeList, mappedList, hsame⟩, -, -, -, -⟩ := hlisted
  rw [hsame] at haccounted hrestored ⊢
  have hrecorded := recorded_withCollected h.recorded h.accounted hcovers freeList mappedList hcurrent hbackup
  have hm : (withCollected s c).metadata = ⟨some number, s.metadata.current, some next, pre ++ [s.metadata.current, next]⟩ :=
    hE
  have hm' : (withCollected s c).backupMetadata = ⟨some backupNumber, s.backupMetadata.current, some backupNext,
    backupPre ++ [s.backupMetadata.current, backupNext]⟩ := hE'
  have hkept : metadataBlocks { withCollected s c with freeBlockList := freeList, mappedBlockList := mappedList } =
      pre ++ [s.metadata.current, next] ++ (backupPre ++ [s.backupMetadata.current, backupNext]) := by
    rw [metadataBlocks, hm, hm']
  refine ⟨⟨hkept ▸ haccounted, rfl,
    fun b hb => ⟨rfl, rfl, hstatus (h.accounted.held_lt b (List.mem_append_left _ hb))⟩, fun x => ?_,
    Nat.zero_le _, h.page_pos, h.page_lt, Or.inl h.page_lt, number, backupNumber, next, backupNext, pre, backupPre, ?_⟩,
    hrestored, hm, hm'⟩
  · rw [← value_withCollected h.accounted hcovers x]
    exact value_congr rfl fun _ _ => ⟨rfl, rfl, rfl⟩
  · refine ⟨?_, ?_, h.length_eq, h.length_le, h.next_free, ?_⟩
    · rw [hm]
    · rw [hm']
    · rw [← hm, ← hm'] at hrecorded
      rw [hkept]
      exact hrecorded

end EtherBench.LevelX.Remount
