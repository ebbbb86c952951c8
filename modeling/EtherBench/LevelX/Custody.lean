import EtherBench.LevelX.BlockPages
import Mathlib.Data.List.Perm.Basic

/-! # Who has the blocks

While an operation is under way, a block is free, mapped, kept by the metadata or in the hands of the
operation. The logical blocks that the operation is busy with are left out; every other one has its
sectors in the block that it is mapped to.
-/

namespace EtherBench.LevelX.Custody
open Nand.Device SectorStore BlockPages
open NandFlash (PageType pageNumber blockFind insertByWear lxNandBlockStatusFree lxNandBlockStatusNonSequential)

def value (s : Store) (sector : ℕ) : PageData :=
  match s.blockMappingTable (sector / gd25BlockPages) with
  | none => allOnes
  | some block => latest (s.pages block) (s.contents block) (pageNumber (s.blockStatusTable block)) sector

structure Accounted (hand kept busy : List ℕ) (s : Store) : Prop where
  held_nodup : (hand ++ kept).Nodup
  held_lt : ∀ b ∈ hand ++ kept, b < s.totalBlocks
  free_nodup : s.freeBlockList.Nodup
  free_lt : ∀ b ∈ s.freeBlockList, b < s.totalBlocks
  free_held : ∀ b ∈ s.freeBlockList, b ∉ hand ++ kept
  free_erased : ∀ b ∈ s.freeBlockList, ∀ page, s.pages b page = .free
  mapped_lt : ∀ l ∉ busy, ∀ b, s.blockMappingTable l = some b → b < s.totalBlocks
  mapped_free : ∀ l ∉ busy, ∀ b, s.blockMappingTable l = some b → b ∉ s.freeBlockList
  mapped_held : ∀ l ∉ busy, ∀ b, s.blockMappingTable l = some b → b ∉ hand ++ kept
  mapped_once : ∀ l ∉ busy, ∀ l' ∉ busy, ∀ b, s.blockMappingTable l = some b → s.blockMappingTable l' = some b → l = l'
  mapped_stored : ∀ l ∉ busy, ∀ b, s.blockMappingTable l = some b →
    Stored (s.pages b) (s.contents b) l (s.blockStatusTable b)
  listed_nodup : s.mappedBlockList.Nodup
  listed_lt : ∀ l ∈ s.mappedBlockList, l < s.totalBlocks
  listed_mapped : ∀ l ∈ s.mappedBlockList, s.blockMappingTable l ≠ none
  listed_busy : ∀ l ∈ s.mappedBlockList, l ∉ busy
  /-- A status that says so is right: the block has nothing in it. -/
  free_status : ∀ b < s.totalBlocks, b ∉ hand ++ kept → s.blockStatusTable b = lxNandBlockStatusFree →
    ∀ page, s.pages b page = .free
  /-- Only the metadata starts a block like this. -/
  other_info : ∀ b < s.totalBlocks, b ∉ hand ++ kept → s.pages b 0 ≠ .deviceInfo
  current_kept : s.metadata.current ∈ kept
  backup_kept : s.backupMetadata.current ∈ kept
  current_ne : s.metadata.current ≠ s.backupMetadata.current
  current_free : ∀ page, s.metadataBlockCurrentPage ≤ page →
    s.pages s.metadata.current page = .free ∧ s.pages s.backupMetadata.current page = .free
  clean : s.reprogrammed = false

variable {hand kept busy : List ℕ} {s t : Store} {block index : ℕ}

/-- Blocks in hand and blocks of the metadata are told apart in another way. -/
theorem Accounted.regroup (h : Accounted hand kept busy s) {hand' kept' : List ℕ}
    (hperm : (hand ++ kept).Perm (hand' ++ kept')) (hcurrent : s.metadata.current ∈ kept')
    (hbackup : s.backupMetadata.current ∈ kept') : Accounted hand' kept' busy s := by
  have hmem (b : ℕ) : b ∈ hand' ++ kept' ↔ b ∈ hand ++ kept := hperm.mem_iff.symm
  exact { h with
    held_nodup := hperm.nodup_iff.mp h.held_nodup
    held_lt := fun b hb => h.held_lt b ((hmem b).mp hb)
    free_held := fun b hb => mt (hmem b).mp (h.free_held b hb)
    mapped_held := fun l hl b hb => mt (hmem b).mp (h.mapped_held l hl b hb)
    free_status := fun b hb hout => h.free_status b hb (mt (hmem b).mpr hout)
    other_info := fun b hlt hb => h.other_info b hlt (mt (hmem b).mpr hb)
    current_kept := hcurrent
    backup_kept := hbackup }

theorem Accounted.perm (h : Accounted hand kept busy s) {hand' : List ℕ} (hperm : hand.Perm hand') :
    Accounted hand' kept busy s := h.regroup (hperm.append_right kept) h.current_kept h.backup_kept

theorem Accounted.hand_kept (h : Accounted hand kept busy s) (hb : block ∈ hand) : block ∉ kept :=
  fun hkept => (List.nodup_append.mp h.held_nodup).2.2 block hb block hkept rfl

theorem Accounted.hand_current (h : Accounted hand kept busy s) (hb : block ∈ hand) :
    s.metadata.current ≠ block ∧ s.backupMetadata.current ≠ block :=
  ⟨fun heq => h.hand_kept hb (heq ▸ h.current_kept), fun heq => h.hand_kept hb (heq ▸ h.backup_kept)⟩

/-! ## Changes of the data -/

/-- The pages of a block in hand are its holder's business. -/
theorem Accounted.withBlock (h : Accounted hand kept busy s) (hb : block ∈ hand) (types : ℕ → PageType)
    (data : ℕ → PageData) : Accounted hand kept busy (withBlock s block types data) := by
  have hheld : block ∈ hand ++ kept := List.mem_append_left kept hb
  have hpages (b : ℕ) (hne : b ≠ block) : (BlockPages.withBlock s block types data).pages b = s.pages b :=
    withBlock_pages_of_ne hne types data
  have hout {b : ℕ} (hb : b ∉ hand ++ kept) : b ≠ block := fun heq => hb (heq ▸ hheld)
  obtain ⟨hcurrent, hbackup⟩ := h.hand_current hb
  exact { h with
    free_erased := fun b hfree page => by
      rw [hpages b (hout (h.free_held b hfree))]
      exact h.free_erased b hfree page
    mapped_stored := fun l hl b hmapped => by
      have hne := hout (h.mapped_held l hl b hmapped)
      rw [hpages b hne, withBlock_contents_of_ne hne]
      exact h.mapped_stored l hl b hmapped
    free_status := fun b hlt hb hstatus page => by
      rw [hpages b (hout hb)]
      exact h.free_status b hlt hb hstatus page
    other_info := fun b hlt hb => by
      rw [hpages b (hout hb)]
      exact h.other_info b hlt hb
    current_free := fun page hpage => by
      refine ⟨(congrFun (hpages _ hcurrent) page).trans (h.current_free page hpage).1, ?_⟩
      exact (congrFun (hpages _ hbackup) page).trans (h.current_free page hpage).2
    clean := h.clean }

theorem Accounted.take (h : Accounted hand kept busy s) {rest : List ℕ} (hfree : s.freeBlockList = block :: rest) :
    Accounted (block :: hand) kept busy { s with freeBlockList := rest } := by
  have hnodup := List.nodup_cons.mp (hfree ▸ h.free_nodup)
  have hblock : block ∈ s.freeBlockList := hfree ▸ List.mem_cons_self
  have hsub (b : ℕ) (hb : b ∈ rest) : b ∈ s.freeBlockList := hfree ▸ List.mem_cons_of_mem block hb
  have hheld {b : ℕ} : b ∈ block :: hand ++ kept ↔ b = block ∨ b ∈ hand ++ kept := List.mem_cons
  exact { h with
    held_nodup := List.nodup_cons.mpr ⟨h.free_held block hblock, h.held_nodup⟩
    held_lt := fun b hb => (hheld.mp hb).elim (fun heq => heq ▸ h.free_lt block hblock) (h.held_lt b)
    free_nodup := hnodup.2
    free_lt := fun b hb => h.free_lt b (hsub b hb)
    free_held := fun b hb hin => (hheld.mp hin).elim (fun heq => hnodup.1 (heq ▸ hb)) (h.free_held b (hsub b hb))
    free_erased := fun b hb => h.free_erased b (hsub b hb)
    mapped_free := fun l hl b hb hin => h.mapped_free l hl b hb (hsub b hin)
    mapped_held := fun l hl b hb hin => (hheld.mp hin).elim
      (fun heq => h.mapped_free l hl b hb (heq ▸ hblock)) (h.mapped_held l hl b hb)
    free_status := fun b hlt hout => h.free_status b hlt fun hin => hout (hheld.mpr (Or.inr hin))
    other_info := fun b hlt hout => h.other_info b hlt fun hin => hout (hheld.mpr (Or.inr hin)) }

theorem Accounted.grab (h : Accounted hand kept busy s) (hlt : block < s.totalBlocks) (hfree : block ∉ s.freeBlockList)
    (hheld : block ∉ hand ++ kept) (hunmapped : ∀ l ∉ busy, s.blockMappingTable l ≠ some block) :
    Accounted (block :: hand) kept busy s := by
  have hcase {b : ℕ} : b ∈ block :: hand ++ kept ↔ b = block ∨ b ∈ hand ++ kept := List.mem_cons
  exact { h with
    held_nodup := List.nodup_cons.mpr ⟨hheld, h.held_nodup⟩
    held_lt := fun b hb => (hcase.mp hb).elim (fun heq => heq ▸ hlt) (h.held_lt b)
    free_held := fun b hb hin => (hcase.mp hin).elim (fun heq => hfree (heq ▸ hb)) (h.free_held b hb)
    mapped_held := fun l hl b hb hin => (hcase.mp hin).elim (fun heq => hunmapped l hl (heq ▸ hb)) (h.mapped_held l hl b hb)
    free_status := fun b hlt hout => h.free_status b hlt fun hin => hout (hcase.mpr (Or.inr hin))
    other_info := fun b hlt hout => h.other_info b hlt fun hin => hout (hcase.mpr (Or.inr hin)) }

theorem Accounted.drop (h : Accounted (block :: hand) kept busy s) (herased : ∀ page, s.pages block page = .free) :
    Accounted hand kept busy s := by
  have hheld {b : ℕ} : b ∈ block :: hand ++ kept ↔ b = block ∨ b ∈ hand ++ kept := List.mem_cons
  exact { h with
    held_nodup := (List.nodup_cons.mp h.held_nodup).2
    held_lt := fun b hb => h.held_lt b (hheld.mpr (Or.inr hb))
    free_held := fun b hb hin => h.free_held b hb (hheld.mpr (Or.inr hin))
    mapped_held := fun l hl b hb hin => h.mapped_held l hl b hb (hheld.mpr (Or.inr hin))
    free_status := fun b hlt hout hstatus => by
      by_cases heq : b = block
      · exact heq ▸ herased
      · exact h.free_status b hlt (fun hin => (hheld.mp hin).elim heq hout) hstatus
    other_info := fun b hlt hout => by
      by_cases heq : b = block
      · rw [heq, herased 0]
        exact PageType.noConfusion
      · exact h.other_info b hlt fun hin => (hheld.mp hin).elim heq hout }

theorem insertByWear_perm (wear : ℕ → UInt8) (x : ℕ) (list : List ℕ) : (insertByWear wear x list).Perm (x :: list) := by
  rw [insertByWear]
  refine List.perm_middle.trans (List.Perm.cons x ?_)
  rw [List.takeWhile_append_dropWhile]

theorem Accounted.give (h : Accounted (block :: hand) kept busy s) (herased : ∀ page, s.pages block page = .free) :
    Accounted hand kept busy (freeBlockListAdd s block) := by
  have hdrop := h.drop herased
  rw [freeBlockListAdd, NandFlash.freeBlockListAdd]
  split
  · exact hdrop
  · have hperm := insertByWear_perm s.eraseCountTable block s.freeBlockList
    have hblock : block ∈ block :: hand ++ kept := List.mem_cons_self
    have hmem {b : ℕ} (hb : b ∈ insertByWear s.eraseCountTable block s.freeBlockList) :
        b = block ∨ b ∈ s.freeBlockList := List.mem_cons.mp (hperm.mem_iff.mp hb)
    exact { hdrop with
      free_nodup := hperm.nodup_iff.mpr (List.nodup_cons.mpr ⟨fun hin => h.free_held block hin hblock, h.free_nodup⟩)
      free_lt := fun b hb => (hmem hb).elim (fun heq => heq ▸ h.held_lt block hblock) (h.free_lt b)
      free_held := fun b hb => (hmem hb).elim (fun heq => heq ▸ (List.nodup_cons.mp h.held_nodup).1)
        (hdrop.free_held b)
      free_erased := fun b hb => (hmem hb).elim (fun heq => heq ▸ herased) (h.free_erased b)
      mapped_free := fun l hl b hb hin => (hmem hin).elim
        (fun heq => h.mapped_held l hl b hb (heq ▸ hblock)) (h.mapped_free l hl b hb) }

/-- The operation turns to a logical block, whose block comes into hand. -/
theorem Accounted.checkOut (h : Accounted hand kept busy s) (hindex : index ∉ busy)
    (hmapped : s.blockMappingTable index = some block) :
    Accounted (block :: hand) kept (index :: busy) { s with mappedBlockList := s.mappedBlockList.erase index } := by
  have hheld {b : ℕ} : b ∈ block :: hand ++ kept ↔ b = block ∨ b ∈ hand ++ kept := List.mem_cons
  have hbusy {l : ℕ} (hl : l ∉ index :: busy) : l ≠ index ∧ l ∉ busy :=
    ⟨fun heq => hl (heq ▸ List.mem_cons_self), fun hin => hl (List.mem_cons_of_mem _ hin)⟩
  exact { h with
    held_nodup := List.nodup_cons.mpr ⟨h.mapped_held index hindex block hmapped, h.held_nodup⟩
    held_lt := fun b hb => (hheld.mp hb).elim (fun heq => heq ▸ h.mapped_lt index hindex block hmapped) (h.held_lt b)
    free_held := fun b hb hin => (hheld.mp hin).elim
      (fun heq => h.mapped_free index hindex block hmapped (heq ▸ hb)) (h.free_held b hb)
    mapped_lt := fun l hl => h.mapped_lt l (hbusy hl).2
    mapped_free := fun l hl => h.mapped_free l (hbusy hl).2
    mapped_held := fun l hl b hb hin => (hheld.mp hin).elim
      (fun heq => (hbusy hl).1 (h.mapped_once l (hbusy hl).2 index hindex block (heq ▸ hb) hmapped))
      (h.mapped_held l (hbusy hl).2 b hb)
    mapped_once := fun l hl l' hl' => h.mapped_once l (hbusy hl).2 l' (hbusy hl').2
    mapped_stored := fun l hl => h.mapped_stored l (hbusy hl).2
    listed_nodup := h.listed_nodup.erase index
    listed_lt := fun l hl => h.listed_lt l (List.mem_of_mem_erase hl)
    listed_mapped := fun l hl => h.listed_mapped l (List.mem_of_mem_erase hl)
    listed_busy := fun l hl hin => by
      obtain ⟨hne, hlisted⟩ := h.listed_nodup.mem_erase_iff.mp hl
      exact (List.mem_cons.mp hin).elim hne (h.listed_busy l hlisted)
    free_status := fun b hlt hout => h.free_status b hlt fun hin => hout (hheld.mpr (Or.inr hin))
    other_info := fun b hlt hout => h.other_info b hlt fun hin => hout (hheld.mpr (Or.inr hin)) }

theorem stored_ne_free {types : ℕ → PageType} {data : ℕ → PageData} {status : BitVec 16}
    (h : Stored types data index status) : status ≠ lxNandBlockStatusFree := by
  rintro rfl
  exact absurd h.le (by decide)

theorem stored_ne_info {types : ℕ → PageType} {data : ℕ → PageData} {status : BitVec 16}
    (h : Stored types data index status) : types 0 ≠ .deviceInfo := by
  rcases Nat.eq_zero_or_pos (pageNumber status) with hzero | hpos
  · rw [h.filled.rest 0 (Nat.le_of_eq hzero)]
    exact PageType.noConfusion
  · obtain ⟨sector, hsector, -⟩ := h.filled.sector 0 hpos
    intro hinfo
    rw [hinfo] at hsector
    exact absurd hsector (by simp [PageType.sector?])

/-- A logical block is done with, and so is the block in hand that it is mapped to. -/
theorem Accounted.checkIn (h : Accounted (block :: hand) kept (index :: busy) s)
    (hmapped : s.blockMappingTable index = some block)
    (hstored : Stored (s.pages block) (s.contents block) index (s.blockStatusTable block)) :
    Accounted hand kept busy s := by
  have hheld {b : ℕ} : b ∈ block :: hand ++ kept ↔ b = block ∨ b ∈ hand ++ kept := List.mem_cons
  have hblock : block ∈ block :: hand ++ kept := List.mem_cons_self
  have hcase {l : ℕ} (hl : l ∉ busy) : l = index ∨ l ∉ index :: busy := by
    by_cases heq : l = index
    · exact Or.inl heq
    · exact Or.inr fun hin => (List.mem_cons.mp hin).elim heq hl
  have hself {b : ℕ} (hb : s.blockMappingTable index = some b) : b = block := Option.some.inj (hb.symm.trans hmapped)
  exact { h with
    held_nodup := (List.nodup_cons.mp h.held_nodup).2
    held_lt := fun b hb => h.held_lt b (hheld.mpr (Or.inr hb))
    free_held := fun b hb hin => h.free_held b hb (hheld.mpr (Or.inr hin))
    mapped_lt := fun l hl b hb => by
      rcases hcase hl with rfl | hout
      · exact hself hb ▸ h.held_lt block hblock
      · exact h.mapped_lt l hout b hb
    mapped_free := fun l hl b hb => by
      rcases hcase hl with rfl | hout
      · exact fun hin => h.free_held b hin (hself hb ▸ hblock)
      · exact h.mapped_free l hout b hb
    mapped_held := fun l hl b hb => by
      rcases hcase hl with rfl | hout
      · exact hself hb ▸ (List.nodup_cons.mp h.held_nodup).1
      · exact fun hin => h.mapped_held l hout b hb (hheld.mpr (Or.inr hin))
    mapped_once := fun l hl l' hl' b hb hb' => by
      rcases hcase hl with rfl | hout <;> rcases hcase hl' with rfl | hout'
      · rfl
      · exact absurd (hself hb ▸ hblock) (h.mapped_held l' hout' b hb')
      · exact absurd (hself hb' ▸ hblock) (h.mapped_held l hout b hb)
      · exact h.mapped_once l hout l' hout' b hb hb'
    mapped_stored := fun l hl b hb => by
      rcases hcase hl with rfl | hout
      · exact hself hb ▸ hstored
      · exact h.mapped_stored l hout b hb
    listed_busy := fun l hl hin => h.listed_busy l hl (List.mem_cons_of_mem _ hin)
    free_status := fun b hlt hout hstatus => by
      by_cases heq : b = block
      · exact absurd (heq ▸ hstatus) (stored_ne_free hstored)
      · exact h.free_status b hlt (fun hin => (hheld.mp hin).elim heq hout) hstatus
    other_info := fun b hlt hout => by
      by_cases heq : b = block
      · exact heq ▸ stored_ne_info hstored
      · exact h.other_info b hlt fun hin => (hheld.mp hin).elim heq hout }

theorem Accounted.checkInUnmapped (h : Accounted hand kept (index :: busy) s) (hmapped : s.blockMappingTable index = none) :
    Accounted hand kept busy s := by
  have hcase {l b : ℕ} (hl : l ∉ busy) (hb : s.blockMappingTable l = some b) : l ∉ index :: busy := by
    intro hin
    rcases List.mem_cons.mp hin with rfl | hin
    · exact absurd (hmapped.symm.trans hb) (by simp)
    · exact hl hin
  exact { h with
    mapped_lt := fun l hl b hb => h.mapped_lt l (hcase hl hb) b hb
    mapped_free := fun l hl b hb => h.mapped_free l (hcase hl hb) b hb
    mapped_held := fun l hl b hb => h.mapped_held l (hcase hl hb) b hb
    mapped_once := fun l hl l' hl' b hb hb' => h.mapped_once l (hcase hl hb) l' (hcase hl' hb') b hb hb'
    mapped_stored := fun l hl b hb => h.mapped_stored l (hcase hl hb) b hb
    listed_busy := fun l hl hin => h.listed_busy l hl (List.mem_cons_of_mem _ hin) }

theorem Accounted.checkOutUnlisted (h : Accounted hand kept busy s) (hindex : index ∉ s.mappedBlockList) :
    Accounted hand kept (index :: busy) s := by
  have hbusy {l : ℕ} (hl : l ∉ index :: busy) : l ∉ busy := fun hin => hl (List.mem_cons_of_mem _ hin)
  exact { h with
    mapped_lt := fun l hl => h.mapped_lt l (hbusy hl)
    mapped_free := fun l hl => h.mapped_free l (hbusy hl)
    mapped_held := fun l hl => h.mapped_held l (hbusy hl)
    mapped_once := fun l hl l' hl' => h.mapped_once l (hbusy hl) l' (hbusy hl')
    mapped_stored := fun l hl => h.mapped_stored l (hbusy hl)
    listed_busy := fun l hl hin => (List.mem_cons.mp hin).elim (fun heq => hindex (heq ▸ hl)) (h.listed_busy l hl) }

theorem Accounted.list (h : Accounted hand kept busy s) (hindex : index ∉ busy) (hlt : index < s.totalBlocks)
    (hlisted : index ∉ s.mappedBlockList) (hmapped : s.blockMappingTable index ≠ none) :
    Accounted hand kept busy (mappedBlockListAdd s index) := by
  rw [mappedBlockListAdd, NandFlash.mappedBlockListAdd]
  split
  · exact h
  · have hperm := insertByWear_perm (NandFlash.mappedWear s.toVolume) index s.mappedBlockList
    have hmem {l : ℕ} (hl : l ∈ insertByWear (NandFlash.mappedWear s.toVolume) index s.mappedBlockList) :
        l = index ∨ l ∈ s.mappedBlockList := List.mem_cons.mp (hperm.mem_iff.mp hl)
    exact { h with
      listed_nodup := hperm.nodup_iff.mpr (List.nodup_cons.mpr ⟨hlisted, h.listed_nodup⟩)
      listed_lt := fun l hl => (hmem hl).elim (fun heq => heq ▸ hlt) (h.listed_lt l)
      listed_mapped := fun l hl => (hmem hl).elim (fun heq => heq ▸ hmapped) (h.listed_mapped l)
      listed_busy := fun l hl => (hmem hl).elim (fun heq => heq ▸ hindex) (h.listed_busy l) }

/-! ## Changes of the tables -/

def withStatus (s : Store) (block : ℕ) (status : BitVec 16) : Store :=
  { s with blockStatusTable := Function.update s.blockStatusTable block status }

def withMapping (s : Store) (index : ℕ) (block : Option ℕ) : Store :=
  { s with blockMappingTable := Function.update s.blockMappingTable index block }

theorem Accounted.unmapped (h : Accounted hand kept busy s) (hb : block ∈ hand) :
    ∀ l ∉ busy, s.blockMappingTable l ≠ some block :=
  fun l hl hmapped => h.mapped_held l hl block hmapped (List.mem_append_left kept hb)

theorem Accounted.withStatus (h : Accounted hand kept busy s)
    (hunmapped : ∀ l ∉ busy, s.blockMappingTable l ≠ some block)
    (herased : block ∈ hand ∨ ∀ page, s.pages block page = .free) (status : BitVec 16) :
    Accounted hand kept busy (withStatus s block status) := by
  have hstatus {b : ℕ} (hne : b ≠ block) :
      Function.update s.blockStatusTable block status b = s.blockStatusTable b := Function.update_of_ne hne _ _
  exact { h with
    mapped_stored := fun l hl b hmapped => by
      have hstored := h.mapped_stored l hl b hmapped
      rwa [← hstatus fun heq => hunmapped l hl (heq ▸ hmapped)] at hstored
    free_status := fun b hlt hin hfree page => by
      by_cases heq : b = block
      · subst heq
        exact herased.elim (fun hb => absurd (List.mem_append_left kept hb) hin) fun herased => herased page
      · exact h.free_status b hlt hin ((hstatus heq).symm.trans hfree) page
    clean := h.clean }

theorem Accounted.withMapping (h : Accounted hand kept busy s) (hbusy : index ∈ busy) (blockOf : Option ℕ) :
    Accounted hand kept busy (withMapping s index blockOf) := by
  have hmapping {l : ℕ} (hl : l ∉ busy) :
      Function.update s.blockMappingTable index blockOf l = s.blockMappingTable l :=
    Function.update_of_ne (ne_of_mem_of_not_mem hbusy hl).symm _ _
  exact { h with
    mapped_lt := fun l hl b hb => h.mapped_lt l hl b ((hmapping hl).symm.trans hb)
    mapped_free := fun l hl b hb => h.mapped_free l hl b ((hmapping hl).symm.trans hb)
    mapped_held := fun l hl b hb => h.mapped_held l hl b ((hmapping hl).symm.trans hb)
    mapped_once := fun l hl l' hl' b hb hb' =>
      h.mapped_once l hl l' hl' b ((hmapping hl).symm.trans hb) ((hmapping hl').symm.trans hb')
    mapped_stored := fun l hl b hb => h.mapped_stored l hl b ((hmapping hl).symm.trans hb)
    listed_mapped := fun l hl hnone => h.listed_mapped l hl ((hmapping (h.listed_busy l hl)).symm.trans hnone) }

/-- The block of a logical block has other pages, and a status that goes with them. -/
theorem Accounted.rewrite (h : Accounted hand kept busy s) (hbusy : index ∉ busy)
    (hmapped : s.blockMappingTable index = some block) {types : ℕ → PageType} {data : ℕ → PageData}
    {status : BitVec 16} (hstored : Stored types data index status) :
    Accounted hand kept busy (Custody.withStatus (BlockPages.withBlock s block types data) block status) := by
  have hheld := h.mapped_held index hbusy block hmapped
  have hpages (b : ℕ) (hne : b ≠ block) : (BlockPages.withBlock s block types data).pages b = s.pages b :=
    withBlock_pages_of_ne hne types data
  have hcurrent : s.metadata.current ≠ block := fun heq => hheld (List.mem_append_right _ (heq ▸ h.current_kept))
  have hbackup : s.backupMetadata.current ≠ block := fun heq => hheld (List.mem_append_right _ (heq ▸ h.backup_kept))
  exact { h with
    free_erased := fun b hfree page => by
      have hne : b ≠ block := fun heq => h.mapped_free index hbusy block hmapped (heq ▸ hfree)
      exact (congrFun (hpages b hne) page).trans (h.free_erased b hfree page)
    mapped_stored := fun l hl b hb => by
      by_cases hindex : l = index
      · subst hindex
        obtain rfl : b = block := Option.some.inj (hb.symm.trans hmapped)
        simpa [Custody.withStatus] using hstored
      · have hne : b ≠ block := fun heq => hindex (h.mapped_once l hl index hbusy block (heq ▸ hb) hmapped)
        change Stored ((BlockPages.withBlock s block types data).pages b)
          ((BlockPages.withBlock s block types data).contents b) l (Function.update s.blockStatusTable block status b)
        rw [hpages b hne, withBlock_contents_of_ne hne, Function.update_of_ne hne]
        exact h.mapped_stored l hl b hb
    free_status := fun b hlt hout hstatus page => by
      by_cases heq : b = block
      · subst heq
        exact absurd ((Function.update_self ..).symm.trans hstatus) (stored_ne_free hstored)
      · refine (congrFun (hpages b heq) page).trans (h.free_status b hlt hout ?_ page)
        exact (Function.update_of_ne heq _ _).symm.trans hstatus
    other_info := fun b hlt hout => by
      by_cases heq : b = block
      · subst heq
        simpa [Custody.withStatus] using stored_ne_info hstored
      · simpa [Custody.withStatus, hpages b heq] using h.other_info b hlt hout
    current_free := fun page hpage => by
      refine ⟨(congrFun (hpages _ hcurrent) page).trans (h.current_free page hpage).1, ?_⟩
      exact (congrFun (hpages _ hbackup) page).trans (h.current_free page hpage).2
    clean := h.clean }

end EtherBench.LevelX.Custody
