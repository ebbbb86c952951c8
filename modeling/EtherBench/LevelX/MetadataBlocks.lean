import EtherBench.LevelX.Recording

/-! # The blocks of the metadata

As long as the metadata has room where it is, a change of a table adds a page to it. When its block is full,
it moves on; after the last block that it may have it starts anew in one block, and gives the others back.
-/

namespace EtherBench.LevelX.MetadataBlocks
open Nand.Device SectorStore BlockPages Custody Upkeep Mount Recording
open NandFlash (PageType metadataTypes pageCount lxNandBlockStatusFree lxNandBlockStatusAllocated)

variable {advance : Store → Store} {hand busy : List ℕ} {R : ℕ → Prop} {s t : Store} {block index k : ℕ}

/-! ## Changes of a table -/

/-- Nothing but the tables has changed. -/
structure Retabled (s t : Store) : Prop where
  totalBlocks : t.totalBlocks = s.totalBlocks
  freeBlockList : t.freeBlockList = s.freeBlockList
  mappedBlockList : t.mappedBlockList = s.mappedBlockList
  metadata : t.metadata = s.metadata
  backupMetadata : t.backupMetadata = s.backupMetadata
  currentPage : t.metadataBlockCurrentPage = s.metadataBlockCurrentPage
  pages : t.pages = s.pages
  contents : t.contents = s.contents

/-- What has been recorded stays so as the metadata takes a table. -/
def Records (kept : List ℕ) (s t : Store) (type : PageType) : Prop :=
  ∀ number backupNumber E E', Recorded kept number backupNumber E E' s →
    Recorded kept number backupNumber E E' (metadataPageWrite t type)

theorem upholds_of_write {kept : Store → List ℕ} {ready : ℕ → Store → Prop}
    (mono : ∀ {k s}, ready (k + 1) s → ready k s)
    (kept_eq : ∀ {s t : Store}, t.metadata = s.metadata → t.backupMetadata = s.backupMetadata → kept t = kept s)
    (aside : ∀ {k s t}, Aside (kept s) s t → ready k s → ready k t)
    (room : ∀ {k s}, ready k s → s.metadataBlockCurrentPage < gd25BlockPages)
    (write : ∀ {hand busy R k s t type}, ready (k + 1) s → Retabled s t → Accounted hand (kept s) busy t →
      (∀ l, R l → l ∉ s.mappedBlockList) → Records (kept s) s t type →
      Carried kept ready hand busy R k t (metadataWrite advance t type)) :
    Upholds advance kept ready where
  mono := mono
  kept_eq := kept_eq
  aside := aside
  status {hand busy R k s block} status hacc hout hlt hkept hready := by
    refine write hready ⟨rfl, rfl, rfl, rfl, rfl, rfl, rfl, rfl⟩ hacc hout fun number backupNumber E E' h => ?_
    exact h.status (room hready) status hacc hlt fun hin => absurd hin hkept
  mapping {hand busy R k s sector index} blockOf hsector hacc hout hlt hblock hready := by
    rw [blockMappingSet, hsector, if_neg (NandFlash.index_in_table hlt)]
    refine write hready ⟨rfl, rfl, rfl, rfl, rfl, rfl, rfl, rfl⟩ hacc hout fun number backupNumber E E' h => ?_
    exact h.mapping (room hready) blockOf hacc hlt hblock
  eraseCount {hand busy R k s block} count hacc hout hlt hready := by
    have hcounted : Accounted hand (kept s) busy
        { s with eraseCountTable := Function.update s.eraseCountTable block count } := { hacc with clean := hacc.clean }
    have hwrite : Carried kept ready hand busy R k
        { s with eraseCountTable := Function.update s.eraseCountTable block count }
        (eraseCountSet advance s block count) := write hready
      ⟨rfl, rfl, rfl, rfl, rfl, rfl, rfl, rfl⟩ hcounted hout
      fun number backupNumber E E' h => h.eraseCount (room hready) count hacc hlt
    have hsame : Undisturbed hand busy R s
        { s with eraseCountTable := Function.update s.eraseCountTable block count } :=
      ⟨rfl, fun _ _ => rfl, fun _ _ => rfl, fun _ _ => rfl, fun _ _ => rfl, fun _ _ hl => hl,
        fun _ _ => value_congr rfl fun _ _ => ⟨rfl, rfl, rfl⟩⟩
    exact { hwrite with undisturbed := hsame.trans hwrite.undisturbed }

theorem metadataWrite_room {type : PageType} (hpage : s.metadataBlockCurrentPage + 1 < gd25BlockPages) :
    metadataWrite advance s type = metadataPageWrite s type := if_pos hpage

/-! ## With room for some more pages -/

/-- The metadata stays where it is. -/
structure Quiet (kept : List ℕ) (number backupNumber : ℕ) (E E' m m' : NandFlash.MetadataBlocks) (free k : ℕ)
    (s : Store) : Prop where
  metadata : s.metadata = m
  backupMetadata : s.backupMetadata = m'
  free_le : free ≤ s.freeBlockList.length
  room : s.metadataBlockCurrentPage + k < gd25BlockPages
  recorded : Recorded kept number backupNumber E E' s

section Quiet

theorem Quiet.weaken {kept : List ℕ} {number backupNumber free free' k k' : ℕ} {E E' m m' : NandFlash.MetadataBlocks}
    (h : Quiet kept number backupNumber E E' m m' free k s) (hfree : free' ≤ free) (hk : k' ≤ k) :
    Quiet kept number backupNumber E E' m m' free' k' s :=
  { h with
    free_le := le_trans hfree h.free_le
    room := lt_of_le_of_lt (Nat.add_le_add_left hk _) h.room }

theorem quiet_upholds (advance : Store → Store) (kept : List ℕ) (number backupNumber : ℕ)
    (E E' m m' : NandFlash.MetadataBlocks) (free : ℕ) (hm : m.current ∈ kept) (hm' : m'.current ∈ kept) :
    Upholds advance (fun _ => kept) (Quiet kept number backupNumber E E' m m' free) := by
  have hcurrent {k : ℕ} {s : Store} (h : Quiet kept number backupNumber E E' m m' free k s) (b : ℕ)
      (hb : Current s b) : b ∈ kept := by
    rw [Current, h.metadata, h.backupMetadata] at hb
    exact hb.elim (fun heq => heq ▸ hm) fun heq => heq ▸ hm'
  refine upholds_of_write (fun h => ?_) (fun _ _ => rfl) (fun haside h => ?_) (fun h => ?_)
    fun {hand busy R k s t type} hready hsame hacc hout hrecords => ?_
  · exact { h with room := Nat.lt_of_succ_lt h.room }
  · refine ⟨haside.metadata.trans h.metadata, haside.backupMetadata.trans h.backupMetadata,
      le_trans h.free_le haside.free, ?_, h.recorded.aside (hcurrent h) haside⟩
    rw [haside.currentPage]
    exact h.room
  · exact lt_of_le_of_lt (Nat.le_add_right _ _) h.room
  · have hpage : t.metadataBlockCurrentPage + 1 + k < gd25BlockPages := by
      rw [hsame.currentPage]
      have hroom := hready.room
      omega
    rw [metadataWrite_room (lt_of_le_of_lt (Nat.le_add_right _ _) hpage)]
    refine ⟨accounted_metadataPageWrite type hacc, undisturbed_metadataPageWrite type hacc, ?_⟩
    refine ⟨hsame.metadata.trans hready.metadata, hsame.backupMetadata.trans hready.backupMetadata, ?_, hpage,
      hrecords _ _ _ _ hready.recorded⟩
    exact hready.free_le.trans_eq (congrArg List.length hsame.freeBlockList.symm)

end Quiet

/-! ## A new beginning -/

/-- The volume is small enough for one page of each table. -/
theorem metadataTypes_eq (hbounded : Bounded s) : metadataTypes s.totalBlocks =
    [.deviceInfo, .eraseCountTable 0, .blockMappingTable 0, .blockStatusTable 0] := by
  rw [metadataTypes, tableSize_le (by decide) hbounded.total_le, tableSize_le (by decide) hbounded.total_le]
  rfl

section Build
variable {number backupNumber : ℕ} {next backupNext : Option ℕ} {rest backupRest : List ℕ}

/-- The metadata is being written anew, and the tables stay as they are meanwhile. -/
structure Building (hand busy : List ℕ) (R : ℕ → Prop) (number backupNumber : ℕ) (s : Store) (C : Collected → Prop)
    (page : ℕ) (t : Store) : Prop where
  accounted : Accounted hand [number, backupNumber] busy t
  undisturbed : Undisturbed hand busy R s t
  tables : t.blockStatusTable = s.blockStatusTable ∧ t.blockMappingTable = s.blockMappingTable ∧
    t.eraseCountTable = s.eraseCountTable
  metadata : t.metadata = s.metadata
  backupMetadata : t.backupMetadata = s.backupMetadata
  freeBlockList : t.freeBlockList = s.freeBlockList
  currentPage : t.metadataBlockCurrentPage = page
  traced : Traced [number, backupNumber] number backupNumber C t

theorem Building.write {C C' : Collected → Prop} {page : ℕ} (h : Building hand busy R number backupNumber s C page t)
    (hpage : page + 1 < gd25BlockPages) {type : PageType} (htype : type ≠ .free) (hinfo : type ≠ .deviceInfo)
    (hread : ∀ c, C c → ∃ c', pageRead c type (tablePage t type) = some c' ∧ C' c' ∧ c'.metadata = c.metadata) :
    Building hand busy R number backupNumber s C' (page + 1) (metadataWrite advance t type) := by
  have hcurrent := h.currentPage
  rw [metadataWrite_room (hcurrent ▸ hpage)]
  refine ⟨accounted_metadataPageWrite type h.accounted,
    h.undisturbed.trans (undisturbed_metadataPageWrite type h.accounted), h.tables, h.metadata, h.backupMetadata,
    h.freeBlockList, congrArg (· + 1) hcurrent, ?_⟩
  refine h.traced.write h.accounted (hcurrent ▸ Nat.lt_of_succ_lt hpage) htype hinfo fun c hc => ?_
  obtain ⟨c', hc', hC', hsame⟩ := hread c hc
  exact ⟨c', hc', hC', by rw [hsame]⟩

/-- What an open has to read of a chain that has one block. -/
structure Alone (number backupNumber : ℕ) (s : Store) (c : Collected) : Prop where
  totalBlocks : c.totalBlocks = s.totalBlocks
  metadata : c.metadata = ⟨some number, number, none, [number]⟩
  backupMetadata : c.backupMetadata = ⟨some backupNumber, backupNumber, none, [backupNumber]⟩

theorem Building.quiet {E E' : NandFlash.MetadataBlocks} {page : ℕ} (h : Building hand busy R number backupNumber s
      (fun c => Covers c s ∧ c.metadata = E ∧ c.backupMetadata = E') page t)
    (hbounded : Bounded s) (hstatus : ∀ b ∈ [number, backupNumber], s.blockStatusTable b ≠ lxNandBlockStatusFree)
    (hroom : page + k < gd25BlockPages) :
    Quiet [number, backupNumber] number backupNumber E E' s.metadata s.backupMetadata s.freeBlockList.length k t := by
  obtain ⟨hstatuses, hmapping, hcounts⟩ := h.tables
  have htotal := h.undisturbed.totalBlocks
  refine ⟨h.metadata, h.backupMetadata, (congrArg List.length h.freeBlockList).ge, h.currentPage ▸ hroom, ⟨?_, ?_⟩, ?_,
    h.traced.imp fun c hc => ⟨⟨?_, ?_, ?_, ?_⟩, hc.2⟩⟩
  · exact htotal ▸ hbounded.total_le
  · rw [hmapping, htotal]
    exact hbounded.mapped
  · rwa [hstatuses]
  · exact hc.1.totalBlocks.trans htotal.symm
  · rw [htotal, hcounts]
    exact hc.1.eraseCount
  · exact hc.1.mapping.trans hmapping.symm
  · rw [htotal, hstatuses]
    exact hc.1.status

/-- The tables go to the first pages of a block, and nothing else is recorded of the metadata. -/
theorem metadataBuild_spec (hacc : Accounted hand [number, backupNumber] busy s)
    (hmetadata : s.metadata = ⟨some number, number, next, rest⟩)
    (hbackup : s.backupMetadata = ⟨some backupNumber, backupNumber, backupNext, backupRest⟩)
    (hpage : s.metadataBlockCurrentPage = 0) (hbounded : Bounded s) :
    Building hand busy R number backupNumber s (fun c => Covers c s ∧ c.metadata = ⟨some number, number, none, [number]⟩ ∧
        c.backupMetadata = ⟨some backupNumber, backupNumber, none, [backupNumber]⟩) 4 (metadataBuild advance s) := by
  have hne : number ≠ backupNumber := by
    have hcurrent := hacc.current_ne
    rwa [hmetadata, hbackup] at hcurrent
  have hbounded' {t : Store} (htotal : t.totalBlocks = s.totalBlocks)
      (hmapping : t.blockMappingTable = s.blockMappingTable) : Bounded t :=
    ⟨htotal ▸ hbounded.total_le, fun l b hb => htotal ▸ hbounded.mapped l b (hmapping ▸ hb)⟩
  rw [metadataBuild, metadataTypes_eq hbounded, List.foldl_cons, List.foldl_cons, List.foldl_cons, List.foldl_cons,
    List.foldl_nil]
  have hfirst : Building hand busy R number backupNumber s
      (fun c => ∃ c₀, Started s.totalBlocks number backupNumber c₀ ∧ c = unlinked c₀) 1
      (metadataWrite advance s .deviceInfo) := by
    rw [metadataWrite_room (hpage ▸ by decide)]
    exact ⟨accounted_metadataPageWrite _ hacc, undisturbed_metadataPageWrite _ hacc, ⟨rfl, rfl, rfl⟩, rfl, rfl, rfl,
      congrArg (· + 1) hpage, Traced.start hmetadata hbackup hne hpage⟩
  generalize metadataWrite advance s .deviceInfo = t at hfirst ⊢
  have hcounts : Building hand busy R number backupNumber s (fun c => Alone number backupNumber s c ∧
      (∀ l, gd25BlockCountNormal ≤ l → c.blockMappingTable l = none) ∧
      ∀ b < s.totalBlocks, c.eraseCountTable b = s.eraseCountTable b) 2 (metadataWrite advance t (.eraseCountTable 0)) := by
    refine hfirst.write (by decide) (by simp) (by simp) fun c hc => ?_
    obtain ⟨c₀, hstarted, rfl⟩ := hc
    have htotal := hfirst.undisturbed.totalBlocks
    obtain ⟨table, hread, htable⟩ := pageRead_eraseCount (c := unlinked c₀) (hbounded' htotal hfirst.tables.2.1)
      (hstarted.totalBlocks.trans htotal.symm)
    rw [htotal, hfirst.tables.2.2] at htable
    refine ⟨_, hread, ⟨⟨hstarted.totalBlocks, ?_, ?_⟩, hstarted.rest, htable⟩, rfl⟩
    · simp [unlinked, hstarted.metadata]
    · simp [unlinked, hstarted.backupMetadata]
  generalize metadataWrite advance t (.eraseCountTable 0) = t at hcounts ⊢
  have hmappings : Building hand busy R number backupNumber s (fun c => Alone number backupNumber s c ∧
      c.blockMappingTable = s.blockMappingTable ∧ ∀ b < s.totalBlocks, c.eraseCountTable b = s.eraseCountTable b) 3
      (metadataWrite advance t (.blockMappingTable 0)) := by
    refine hcounts.write (by decide) (by simp) (by simp) fun c hc => ?_
    obtain ⟨halone, hrest, hcount⟩ := hc
    have htotal := hcounts.undisturbed.totalBlocks
    have hread := pageRead_mapping (hbounded' htotal hcounts.tables.2.1) (halone.totalBlocks.trans htotal.symm) hrest
    exact ⟨_, hread, ⟨⟨halone.totalBlocks, halone.metadata, halone.backupMetadata⟩, hcounts.tables.2.1, hcount⟩, rfl⟩
  generalize metadataWrite advance t (.blockMappingTable 0) = t at hmappings ⊢
  refine hmappings.write (by decide) (by simp) (by simp) fun c hc => ?_
  obtain ⟨halone, hmap, hcount⟩ := hc
  have htotal := hmappings.undisturbed.totalBlocks
  obtain ⟨table, hread, htable⟩ := pageRead_status (hbounded' htotal hmappings.tables.2.1)
    (halone.totalBlocks.trans htotal.symm)
  rw [htotal, hmappings.tables.1] at htable
  exact ⟨_, hread, ⟨⟨halone.totalBlocks, hcount, hmap, htable⟩, halone.metadata, halone.backupMetadata⟩, rfl⟩

end Build

/-! ## Blocks that are given back -/

def both (pairs : List (ℕ × ℕ)) : List ℕ := pairs.flatMap fun pair => [pair.1, pair.2]

theorem foldl_both (f : Store → ℕ → Store) (pairs : List (ℕ × ℕ)) (s : Store) :
    pairs.foldl (fun s pair => f (f s pair.1) pair.2) s = (both pairs).foldl f s := by
  rw [both, List.foldl_flatMap]
  rfl

theorem both_zip_perm {pre backupPre : List ℕ} (h : pre.length = backupPre.length) :
    (both (pre.zip backupPre)).Perm (pre ++ backupPre) := by
  induction pre generalizing backupPre with
  | nil =>
    rw [List.eq_nil_of_length_eq_zero h.symm]
    exact List.Perm.refl _
  | cons b pre ih =>
    obtain ⟨d, backupPre, rfl⟩ := List.exists_cons_of_length_eq_add_one h.symm
    refine List.Perm.cons b (((ih (Nat.succ.inj h)).cons d).trans ?_)
    exact List.perm_middle.symm

theorem metadataBlocksFree_eq (blocks : List ℕ) (s : Store) : ∃ statuses counts,
    blocks.foldl metadataBlockFree s = { s with blockStatusTable := statuses, eraseCountTable := counts } ∧
      ∀ b ∉ blocks, statuses b = s.blockStatusTable b := by
  induction blocks generalizing s with
  | nil => exact ⟨_, _, rfl, fun _ _ => rfl⟩
  | cons block blocks ih =>
    obtain ⟨statuses, counts, heq, hstatuses⟩ := ih (metadataBlockFree s block)
    refine ⟨statuses, counts, heq, fun b hb => ?_⟩
    rw [hstatuses b fun hin => hb (List.mem_cons_of_mem _ hin)]
    exact Function.update_of_ne (fun hin : b = block => hb (hin ▸ List.mem_cons_self)) _ _

theorem eraseCountsLower_eq (s : Store) : ∃ counts, eraseCountsLower s = { s with eraseCountTable := counts } := by
  rw [eraseCountsLower]
  split
  · exact ⟨_, rfl⟩
  · exact ⟨_, rfl⟩

section Erase
variable {kept : Store → List ℕ} {ready : ℕ → Store → Prop} (hup : Upholds advance kept ready)
include hup

theorem metadataBlockErase_spec (h : Accounted (block :: hand) (kept s) busy s)
    (hout : ∀ l, R l → l ∉ s.mappedBlockList) (hready : ready (k + 4) s) :
    Carried kept ready hand busy R k s (metadataBlockErase advance s block) := by
  have hblock : block ∈ block :: hand := List.mem_cons_self
  have hfresh : block ∉ hand := fun hin => (List.nodup_cons.mp h.held_nodup).1 (List.mem_append_left _ hin)
  have haside := Aside.withBlock (s := s) (h.hand_kept hblock) (fun _ => .free) fun _ => allOnes
  have herased := h.withBlock hblock (fun _ => .free) fun _ => allOnes
  have hframe : Undisturbed hand busy R s (withBlock s block (fun _ => .free) fun _ => allOnes) :=
    Undisturbed.withBlock h hblock hfresh _ _
  have hempty (page : ℕ) : (withBlock s block (fun _ => .free) fun _ => allOnes).pages block page = .free := by
    rw [withBlock_pages_self]
  rw [metadataBlockErase, show driverBlockErase s block = withBlock s block (fun _ => .free) fun _ => allOnes from rfl]
  replace hready := hup.aside haside hready
  rw [← hup.aside_kept haside] at herased
  replace hout := fun l hl => hframe.unlisted l hl (hout l hl)
  generalize (withBlock s block (fun _ => .free) fun _ => allOnes) = t at *
  split
  · have hmove := hup.blockDataMove herased hempty hout hready
    exact { hmove with undisturbed := hframe.trans hmove.undisturbed }
  · have hlist := Aside.freeBlockListAdd (kept t) t block
    refine ⟨?_, hframe.trans (Undisturbed.freeBlockListAdd hand busy R t block), ?_⟩
    · rw [hup.aside_kept hlist]
      exact herased.give hempty
    · exact hup.aside hlist (hup.mono (hup.mono (hup.mono (hup.mono hready))))

theorem metadataBlocksErase_spec {blocks : List ℕ} (h : Accounted (blocks ++ hand) (kept s) busy s)
    (hout : ∀ l, R l → l ∉ s.mappedBlockList) (hready : ready (k + 4 * blocks.length) s) :
    Carried kept ready hand busy R k s (blocks.foldl (metadataBlockErase advance) s) := by
  induction blocks generalizing s with
  | nil => exact ⟨h, Undisturbed.refl hand busy R s, hready⟩
  | cons block blocks ih =>
    have hfirst := metadataBlockErase_spec hup h hout hready
    have hrest := ih hfirst.accounted (fun l hl => hfirst.undisturbed.unlisted l hl (hout l hl)) hfirst.ready
    refine { hrest with undisturbed := ?_ }
    exact (hfirst.undisturbed.mono (List.subset_append_right _ _) (List.Subset.refl _) fun _ => id).trans hrest.undisturbed

end Erase

/-! ## Restart -/

section Restart
variable {number backupNumber : ℕ} {oldNumber oldBackupNumber next backupNext : Option ℕ} {pre backupPre : List ℕ}

def renewed (s : Store) (statuses : ℕ → BitVec 16) (counts : ℕ → UInt8) : Store :=
  { s with
    blockStatusTable := statuses
    eraseCountTable := counts
    metadata := { s.metadata with number := some s.metadata.current }
    backupMetadata := { s.backupMetadata with number := some s.backupMetadata.current } }

theorem renewed_eq (s : Store) (blocks : List ℕ) : ∃ statuses counts,
    (let s := blocks.foldl metadataBlockFree s
     eraseCountsLower { s with
       metadata := { s.metadata with number := some s.metadata.current }
       backupMetadata := { s.backupMetadata with number := some s.backupMetadata.current } }) =
      renewed s statuses counts ∧ ∀ b ∉ blocks, statuses b = s.blockStatusTable b := by
  obtain ⟨statuses, counts, heq, hstatuses⟩ := metadataBlocksFree_eq blocks s
  obtain ⟨counts', hcounts⟩ := eraseCountsLower_eq (renewed s statuses counts)
  refine ⟨statuses, counts', ?_, hstatuses⟩
  rw [heq]
  exact hcounts

theorem accounted_renewed {kept blocks : List ℕ} {statuses : ℕ → BitVec 16} (counts : ℕ → UInt8)
    (h : Accounted (blocks ++ hand) kept busy s) (hstatuses : ∀ b ∉ blocks, statuses b = s.blockStatusTable b) :
    Accounted (blocks ++ hand) kept busy (renewed s statuses counts) ∧
      Undisturbed hand busy R s (renewed s statuses counts) := by
  have hout {b : ℕ} (hb : b ∉ blocks ++ hand ++ kept) :
      (renewed s statuses counts).blockStatusTable b = s.blockStatusTable b :=
    hstatuses b fun hin => hb (List.mem_append_left _ (List.mem_append_left _ hin))
  constructor
  · exact { h with
      mapped_stored := fun l hl b hb => by
        rw [hout (h.mapped_held l hl b hb)]
        exact h.mapped_stored l hl b hb
      free_status := fun b hlt hb hstatus => h.free_status b hlt hb ((hout hb).symm.trans hstatus)
      clean := h.clean }
  · refine ⟨rfl, fun _ _ => rfl, fun _ _ => rfl, fun b hb => hstatuses b fun hin => ?_, fun _ _ => rfl,
      fun _ _ hl => hl, fun x hx => value_congr rfl fun b hb => ⟨rfl, rfl, hout (h.mapped_held _ hx b hb)⟩⟩
    have hnodup := (List.nodup_append.mp h.held_nodup).1
    exact (List.nodup_append.mp hnodup).2.2 b hin b hb rfl

/-- The metadata goes on in one block, and the others are free or have taken data. -/
theorem metadataRestart_spec (advance : Store → Store)
    (hmetadata : s.metadata = ⟨oldNumber, number, next, pre ++ [number]⟩)
    (hbackup : s.backupMetadata = ⟨oldBackupNumber, backupNumber, backupNext, backupPre ++ [backupNumber]⟩)
    (hlength : pre.length = 3) (hbackupLength : backupPre.length = 3)
    (hacc : Accounted hand ((pre ++ [number]) ++ (backupPre ++ [backupNumber])) busy s)
    (hout : ∀ l, R l → l ∉ s.mappedBlockList) (hpage : s.metadataBlockCurrentPage = 0) (hbounded : Bounded s)
    (hstatus : ∀ b ∈ [number, backupNumber], s.blockStatusTable b ≠ lxNandBlockStatusFree) :
    Accounted hand [number, backupNumber] busy (metadataRestart advance s) ∧
      Undisturbed hand busy R s (metadataRestart advance s) ∧
      Quiet [number, backupNumber] number backupNumber ⟨some number, number, none, [number]⟩
        ⟨some backupNumber, backupNumber, none, [backupNumber]⟩ ⟨some number, number, next, [number]⟩
        ⟨some backupNumber, backupNumber, backupNext, [backupNumber]⟩ s.freeBlockList.length 35
        (metadataRestart advance s) := by
  have hpairs : ((pre ++ [number]).zip (backupPre ++ [backupNumber])).take (lxNandFlashMaxMetadataBlocks - 1) =
      pre.zip backupPre := by
    rw [List.zip_append (hlength.trans hbackupLength.symm)]
    exact List.take_left' (by rw [List.length_zip, hlength, hbackupLength]; rfl)
  have hperm := both_zip_perm (hlength.trans hbackupLength.symm)
  have hcount : (both (pre.zip backupPre)).length = 6 := by
    rw [hperm.length_eq, List.length_append, hlength, hbackupLength]
  obtain ⟨statuses, counts, hrenewed, hstatuses⟩ := renewed_eq s (both (pre.zip backupPre))
  have hnodup := hacc.held_nodup
  have hregroup : Accounted (both (pre.zip backupPre) ++ hand) [number, backupNumber] busy s := by
    refine hacc.regroup (List.perm_iff_count.mpr fun b => ?_) (by simp [hmetadata]) (by simp [hbackup])
    have hb := hperm.count_eq b
    simp only [List.count_append, List.count_cons, List.count_nil] at hb ⊢
    omega
  obtain ⟨hacc', hframe⟩ := accounted_renewed (R := R) counts hregroup hstatuses
  have hkept (b : ℕ) (hb : b ∈ [number, backupNumber]) : statuses b ≠ lxNandBlockStatusFree := by
    rw [hstatuses b fun hin => (List.nodup_append.mp hregroup.held_nodup).2.2 b (List.mem_append_left _ hin) b hb rfl]
    exact hstatus b hb
  have hmetadata' : (renewed s statuses counts).metadata = ⟨some number, number, next, pre ++ [number]⟩ := by
    simp [renewed, hmetadata]
  have hbackup' : (renewed s statuses counts).backupMetadata =
      ⟨some backupNumber, backupNumber, backupNext, backupPre ++ [backupNumber]⟩ := by
    simp [renewed, hbackup]
  have hbuild : Building _ busy R number backupNumber (renewed s statuses counts) _ 4
      (metadataBuild advance (renewed s statuses counts)) :=
    metadataBuild_spec hacc' hmetadata' hbackup' hpage ⟨hbounded.total_le, hbounded.mapped⟩
  rw [metadataRestart, hmetadata, hbackup]
  dsimp only
  rw [hpairs, foldl_both metadataBlockFree, foldl_both (metadataBlockErase advance), hrenewed]
  generalize metadataBuild advance (renewed s statuses counts) = t at hbuild ⊢
  have hquiet := hbuild.quiet (k := 59) ⟨hbounded.total_le, hbounded.mapped⟩ hkept (by decide)
  rw [hmetadata', hbackup'] at hquiet
  have hup := quiet_upholds advance [number, backupNumber] number backupNumber ⟨some number, number, none, [number]⟩
    ⟨some backupNumber, backupNumber, none, [backupNumber]⟩ ⟨some number, number, next, pre ++ [number]⟩
    ⟨some backupNumber, backupNumber, backupNext, backupPre ++ [backupNumber]⟩ s.freeBlockList.length (by simp) (by simp)
  obtain ⟨herased, hundisturbed, hready⟩ := metadataBlocksErase_spec hup (k := 35) hbuild.accounted (R := R)
    (fun l hl => hbuild.undisturbed.unlisted l hl (hframe.unlisted l hl (hout l hl))) (by rwa [hcount])
  generalize (both (pre.zip backupPre)).foldl (metadataBlockErase advance) t = u at herased hundisturbed hready ⊢
  refine ⟨{ herased with clean := herased.clean }, (hframe.trans (hbuild.undisturbed.mono (List.subset_append_right _ _)
    (List.Subset.refl _) fun _ => id)).trans ?_, ?_⟩
  · exact { hundisturbed with pages := hundisturbed.pages }
  · refine ⟨?_, ?_, hready.free_le, hready.room, hready.recorded.congr (fun b hb => current_kept herased hb) rfl
      ⟨rfl, rfl, rfl⟩ ⟨rfl, rfl, rfl⟩ fun _ _ => ⟨rfl, rfl⟩⟩
    · simp [hready.metadata]
    · simp [hready.backupMetadata]

end Restart

/-! ## From block to block -/

def metadataBlocks (s : Store) : List ℕ := s.metadata.blocks ++ s.backupMetadata.blocks

/-- The metadata has a next block, which has nothing in it yet. -/
structure Settled (number backupNumber next backupNext : ℕ) (pre backupPre : List ℕ) (s : Store) : Prop where
  metadata : s.metadata = ⟨some number, s.metadata.current, some next, pre ++ [s.metadata.current, next]⟩
  backupMetadata : s.backupMetadata =
    ⟨some backupNumber, s.backupMetadata.current, some backupNext, backupPre ++ [s.backupMetadata.current, backupNext]⟩
  length_eq : pre.length = backupPre.length
  length_le : pre.length ≤ 2
  next_free : ∀ page, s.pages next page = .free ∧ s.pages backupNext page = .free
  recorded : Recorded (metadataBlocks s) number backupNumber s.metadata s.backupMetadata s

/-- The metadata takes the given number of changes, if need be with two more blocks. -/
structure Ready (k : ℕ) (s : Store) : Prop where
  few : k ≤ 16
  page_pos : 0 < s.metadataBlockCurrentPage
  page_lt : s.metadataBlockCurrentPage < gd25BlockPages
  room : s.metadataBlockCurrentPage + k < gd25BlockPages ∨ 2 ≤ s.freeBlockList.length
  settled : ∃ number backupNumber next backupNext pre backupPre, Settled number backupNumber next backupNext pre backupPre s

/-- The metadata has a good part of its current block before it. -/
structure Early (k : ℕ) (s : Store) : Prop extends Ready k s where
  page_ahead : s.metadataBlockCurrentPage + 16 < gd25BlockPages

section Extend
variable {kept : List ℕ} {number backupNumber : ℕ} {E E' m m' : NandFlash.MetadataBlocks}

theorem blockTaken (advance : Store → Store) (hacc : Accounted hand kept busy s) (hout : ∀ l, R l → l ∉ s.mappedBlockList) {free : ℕ}
    (hquiet : Quiet kept number backupNumber E E' m m' (free + 1) (k + 1) s) (M M' : NandFlash.MetadataBlocks)
    (hM : M.current = m.current) (hM' : M'.current = m'.current) {rest : List ℕ} (hfree : s.freeBlockList = block :: rest) :
    let t := blockStatusSet advance { s with freeBlockList := rest, metadata := M, backupMetadata := M' } block
      lxNandBlockStatusAllocated
    Accounted (block :: hand) kept busy t ∧ Undisturbed hand busy R s t ∧
      Quiet kept number backupNumber E E' M M' free k t ∧ (∀ page, t.pages block page = .free) ∧
      t.blockStatusTable block = lxNandBlockStatusAllocated := by
  have hcurrent (b : ℕ) (hb : Current s b) : b ∈ kept := current_kept hacc hb
  have hm : s.metadata.current = M.current := (congrArg (·.current) hquiet.metadata).trans hM.symm
  have hm' : s.backupMetadata.current = M'.current := (congrArg (·.current) hquiet.backupMetadata).trans hM'.symm
  have htake : Accounted (block :: hand) kept busy { s with freeBlockList := rest, metadata := M, backupMetadata := M' } :=
    { hacc.take hfree with
      current_kept := hm ▸ hacc.current_kept
      backup_kept := hm' ▸ hacc.backup_kept
      current_ne := hm ▸ hm' ▸ hacc.current_ne
      current_free := hm ▸ hm' ▸ hacc.current_free
      clean := hacc.clean }
  have herased := hacc.free_erased block (hfree ▸ List.mem_cons_self)
  have hready : Quiet kept number backupNumber E E' M M' free (k + 1)
      { s with freeBlockList := rest, metadata := M, backupMetadata := M' } := by
    refine ⟨rfl, rfl, ?_, hquiet.room, hquiet.recorded.congr hcurrent rfl ⟨rfl, rfl, rfl⟩ ⟨hm.symm, hm'.symm, rfl⟩
      fun _ _ => ⟨rfl, rfl⟩⟩
    have hlength := hquiet.free_le
    rw [hfree, List.length_cons] at hlength
    exact Nat.le_of_succ_le_succ hlength
  have hup := quiet_upholds advance kept number backupNumber E E' M M' free (hm ▸ hacc.current_kept)
    (hm' ▸ hacc.backup_kept)
  obtain ⟨hset, hframe, hstatus⟩ := hup.setStatus htake (R := R) hout lxNandBlockStatusAllocated hready
  refine ⟨hset.accounted, ?_, hset.ready, fun page => ?_, hstatus⟩
  · exact (Undisturbed.setFree hand busy R s rest).trans { hframe with pages := hframe.pages }
  · rw [hset.undisturbed.pages block List.mem_cons_self]
    exact herased page

theorem pageRead_link {c : Collected} {backupBlock : ℕ} (hblock : block < gd25BlockCountNormal)
    (hbackup : backupBlock < gd25BlockCountNormal) (hnext : s.metadata.next = some block)
    (hbackupNext : s.backupMetadata.next = some backupBlock) :
    pageRead c .blockLink (tablePage s .blockLink) = some { c with
      metadata := { c.metadata with next := some block, blocks := c.metadata.blocks ++ [block] }
      backupMetadata :=
        { c.backupMetadata with next := some backupBlock, blocks := c.backupMetadata.blocks ++ [backupBlock] } } := by
  have hsmall {b : ℕ} (hb : b < gd25BlockCountNormal) : b < 0x10000 ∧ b < lxNandBlockUnmapped ∧ b < 0x100000000 :=
    ⟨lt_trans hb (by decide), lt_trans hb (by decide), lt_trans hb (by decide)⟩
  have hlink {b : ℕ} (hb : b < gd25BlockCountNormal) (blocks : NandFlash.MetadataBlocks) :
      linkRead blocks b = { blocks with next := some b, blocks := blocks.blocks ++ [b] } := by
    rw [linkRead, Nat.mod_eq_of_lt (hsmall hb).1]
    exact congrArg (fun next => { blocks with next := next, blocks := blocks.blocks ++ [b] })
      (if_neg (Nat.ne_of_lt (hsmall hb).2.1))
  have hfirst : longAt (tablePage s .blockLink) 0 = block := by
    rw [tablePage_blockLink, blockLink, hnext]
    exact longAt_longs (i := 0) (by simp) (hsmall hblock).2.2
  have hsecond : longAt (tablePage s .blockLink) 1 = backupBlock := by
    rw [tablePage_blockLink, blockLink, hbackupNext]
    exact longAt_longs (i := 1) (by simp) (hsmall hbackup).2.2
  rw [pageRead, hfirst, hsecond, hlink hblock, hlink hbackup]

section Link
variable {current backupCurrent backupBlock : ℕ} {next backupNext : Option ℕ} {pre backupPre : List ℕ}

def metadataLinked (s : Store) (block backupBlock : ℕ) : Store :=
  { s with
    metadata := { s.metadata with blocks := s.metadata.blocks ++ [block] }
    backupMetadata := { s.backupMetadata with blocks := s.backupMetadata.blocks ++ [backupBlock] } }

theorem linkWritten (hacc : Accounted hand kept busy s) (hblock : block < s.totalBlocks)
    (hbackupBlock : backupBlock < s.totalBlocks) (hpage : s.metadataBlockCurrentPage < gd25BlockPages)
    (hnext : s.metadata.next = some block) (hbackupNext : s.backupMetadata.next = some backupBlock)
    (hrecorded : Recorded kept number backupNumber ⟨some number, current, none, pre ++ [current]⟩
      ⟨some backupNumber, backupCurrent, none, backupPre ++ [backupCurrent]⟩ s) :
    Recorded kept number backupNumber ⟨some number, current, some block, pre ++ [current, block]⟩
      ⟨some backupNumber, backupCurrent, some backupBlock, backupPre ++ [backupCurrent, backupBlock]⟩
      (metadataPageWrite s .blockLink) := by
  have htotal := hrecorded.bounded.total_le
  refine ⟨⟨htotal, hrecorded.bounded.mapped⟩, hrecorded.kept_status,
    hrecorded.traced.write hacc hpage (by simp) (by simp) fun c hc => ?_⟩
  obtain ⟨hcovers, hE, hE'⟩ := hc
  refine ⟨_, pageRead_link (lt_of_lt_of_le hblock htotal) (lt_of_lt_of_le hbackupBlock htotal) hnext hbackupNext,
    ⟨⟨hcovers.totalBlocks, hcovers.eraseCount, hcovers.mapping, hcovers.status⟩, ?_, ?_⟩, ?_⟩
  · simp [hE]
  · simp [hE']
  · simp [hE]
    omega

theorem metadataLinked_spec
    (hmetadata : s.metadata = ⟨some number, current, some block, pre ++ [current]⟩)
    (hbackup : s.backupMetadata = ⟨some backupNumber, backupCurrent, some backupBlock, backupPre ++ [backupCurrent]⟩)
    (hlength : pre.length = backupPre.length) (hle : pre.length ≤ 2)
    (hacc : Accounted (backupBlock :: block :: hand) (metadataBlocks s) busy s)
    (hpos : 0 < s.metadataBlockCurrentPage) (hroom : s.metadataBlockCurrentPage + 16 < gd25BlockPages)
    (hrecorded : Recorded (metadataBlocks s) number backupNumber
      ⟨some number, current, some block, pre ++ [current, block]⟩
      ⟨some backupNumber, backupCurrent, some backupBlock, backupPre ++ [backupCurrent, backupBlock]⟩ s)
    (hempty : ∀ page, s.pages block page = .free ∧ s.pages backupBlock page = .free)
    (hstatus : s.blockStatusTable block ≠ lxNandBlockStatusFree ∧ s.blockStatusTable backupBlock ≠ lxNandBlockStatusFree)
    (hk : k ≤ 16) : Carried metadataBlocks Early hand busy R k s (metadataLinked s block backupBlock) := by
  have hm : (metadataLinked s block backupBlock).metadata = ⟨some number, current, some block, pre ++ [current, block]⟩ := by
    simp [metadataLinked, hmetadata]
  have hm' : (metadataLinked s block backupBlock).backupMetadata =
      ⟨some backupNumber, backupCurrent, some backupBlock, backupPre ++ [backupCurrent, backupBlock]⟩ := by
    simp [metadataLinked, hbackup]
  have hblocks : metadataBlocks (metadataLinked s block backupBlock) =
      (s.metadata.blocks ++ [block]) ++ (s.backupMetadata.blocks ++ [backupBlock]) := rfl
  have hnew {b : ℕ} : b ∈ metadataBlocks (metadataLinked s block backupBlock) ↔
      b ∈ metadataBlocks s ∨ b = block ∨ b = backupBlock := by
    rw [hblocks, metadataBlocks]
    simp only [List.mem_append, List.mem_singleton]
    tauto
  have hregroup : Accounted hand (metadataBlocks (metadataLinked s block backupBlock)) busy s := by
    refine hacc.regroup (List.perm_iff_count.mpr fun b => ?_) (hnew.mpr (Or.inl hacc.current_kept))
      (hnew.mpr (Or.inl hacc.backup_kept))
    rw [hblocks]
    simp only [metadataBlocks, List.count_append, List.count_cons, List.count_nil]
    omega
  have hrecord := hrecorded.grow (fun b hb => hnew.mpr (Or.inl hb)) fun b hb hout => by
    rcases (hnew.mp hb).resolve_left hout with rfl | rfl
    · exact ⟨by simp [(hempty 0).1], hstatus.1⟩
    · exact ⟨by simp [(hempty 0).2], hstatus.2⟩
  have hframe : Undisturbed hand busy R s (metadataLinked s block backupBlock) :=
    ⟨rfl, fun _ _ => rfl, fun _ _ => rfl, fun _ _ => rfl, fun _ _ => rfl, fun _ _ hl => hl,
      fun _ _ => value_congr rfl fun _ _ => ⟨rfl, rfl, rfl⟩⟩
  refine ⟨{ hregroup with clean := hregroup.clean }, hframe, ⟨hk, hpos, lt_of_le_of_lt (Nat.le_add_right _ _) hroom,
    Or.inl (lt_of_le_of_lt (Nat.add_le_add_left hk _) hroom), number, backupNumber, block, backupBlock, pre, backupPre, ?_⟩,
    hroom⟩
  refine ⟨?_, ?_, hlength, hle, hempty, ?_⟩
  · rw [hm]
  · rw [hm']
  · rw [hm, hm']
    exact hrecord.congr (fun b hb => current_kept hregroup hb) rfl ⟨rfl, rfl, rfl⟩ ⟨rfl, rfl, rfl⟩ fun _ _ => ⟨rfl, rfl⟩

end Link

theorem metadataExtend_spec {current backupCurrent : ℕ} {next backupNext : Option ℕ} {pre backupPre : List ℕ}
    (hmetadata : s.metadata = ⟨some number, current, next, pre ++ [current]⟩)
    (hbackup : s.backupMetadata = ⟨some backupNumber, backupCurrent, backupNext, backupPre ++ [backupCurrent]⟩)
    (hlength : pre.length = backupPre.length) (hle : pre.length ≤ 2)
    (hacc : Accounted hand (metadataBlocks s) busy s) (hout : ∀ l, R l → l ∉ s.mappedBlockList)
    (hquiet : Quiet (metadataBlocks s) number backupNumber ⟨some number, current, none, pre ++ [current]⟩
      ⟨some backupNumber, backupCurrent, none, backupPre ++ [backupCurrent]⟩ s.metadata s.backupMetadata 2 19 s)
    (hk : k ≤ 16) : Carried metadataBlocks Early hand busy R k s (metadataExtend advance s) := by
  obtain ⟨block, rest, hfree⟩ : ∃ block rest, s.freeBlockList = block :: rest :=
    List.exists_cons_of_ne_nil fun hnil => absurd hquiet.free_le (by simp [hnil])
  obtain ⟨hacc₁, hframe₁, hquiet₁, hempty₁, hstatus₁⟩ := blockTaken advance (R := R) hacc hout hquiet
    { s.metadata with next := some block } s.backupMetadata rfl rfl hfree
  rw [metadataExtend, blockAllocate_cons hfree]
  dsimp only at hacc₁ hframe₁ hquiet₁ hempty₁ hstatus₁ ⊢
  generalize blockStatusSet advance _ block lxNandBlockStatusAllocated = t at hacc₁ hframe₁ hquiet₁ hempty₁ hstatus₁ ⊢
  obtain ⟨backupBlock, rest', hfree'⟩ : ∃ block rest, t.freeBlockList = block :: rest :=
    List.exists_cons_of_ne_nil fun hnil => absurd hquiet₁.free_le (by simp [hnil])
  have hunlisted (l : ℕ) (hl : R l) : l ∉ t.mappedBlockList := hframe₁.unlisted l hl (hout l hl)
  obtain ⟨hacc₂, hframe₂, hquiet₂, hempty₂, hstatus₂⟩ := blockTaken advance (R := R) hacc₁ hunlisted hquiet₁
    t.metadata { t.backupMetadata with next := some backupBlock } (by rw [hquiet₁.metadata])
    (by rw [hquiet₁.backupMetadata]) hfree'
  rw [blockAllocate_cons hfree']
  dsimp only at hacc₂ hframe₂ hquiet₂ hempty₂ hstatus₂ ⊢
  generalize blockStatusSet advance _ backupBlock lxNandBlockStatusAllocated = u
    at hacc₂ hframe₂ hquiet₂ hempty₂ hstatus₂ ⊢
  have hm : u.metadata = ⟨some number, current, some block, pre ++ [current]⟩ := by
    rw [hquiet₂.metadata, hquiet₁.metadata, hmetadata]
  have hm' : u.backupMetadata = ⟨some backupNumber, backupCurrent, some backupBlock, backupPre ++ [backupCurrent]⟩ := by
    rw [hquiet₂.backupMetadata, hquiet₁.backupMetadata, hbackup]
  have hkept : metadataBlocks u = metadataBlocks s := by
    rw [metadataBlocks, metadataBlocks, hm, hm', hmetadata, hbackup]
  have hroom := hquiet₂.room
  have hblock : block ∈ block :: hand := List.mem_cons_self
  have hrecorded := linkWritten hacc₂ (hacc₂.held_lt block (List.mem_cons_of_mem _ List.mem_cons_self))
    (hacc₂.held_lt backupBlock List.mem_cons_self) (by omega) (by rw [hm]) (by rw [hm']) hquiet₂.recorded
  have hwritten := accounted_metadataPageWrite .blockLink hacc₂
  have hframe₃ := undisturbed_metadataPageWrite (R := R) .blockLink hacc₂
  rw [metadataWrite_room (by omega)]
  have hv : (metadataPageWrite u .blockLink).metadata = u.metadata := rfl
  have hv' : (metadataPageWrite u .blockLink).backupMetadata = u.backupMetadata := rfl
  have hpage : (metadataPageWrite u .blockLink).metadataBlockCurrentPage = u.metadataBlockCurrentPage + 1 := rfl
  generalize metadataPageWrite u .blockLink = v at hrecorded hwritten hframe₃ hv hv' hpage ⊢
  have hkept' : metadataBlocks s = metadataBlocks v := by
    rw [← hkept, metadataBlocks, metadataBlocks, hv, hv']
  rw [hkept'] at hwritten hrecorded
  have hlinked := metadataLinked_spec (R := R) (hv.trans hm) (hv'.trans hm') hlength hle hwritten
    (hpage ▸ Nat.succ_pos _) (by omega) hrecorded (fun page => ⟨?_, ?_⟩) ⟨?_, ?_⟩ hk
  · exact { hlinked with undisturbed := ((hframe₁.trans hframe₂.shrink).trans hframe₃.shrink.shrink).trans hlinked.undisturbed }
  · rw [hframe₃.pages block (List.mem_cons_of_mem _ hblock), hframe₂.pages block hblock]
    exact hempty₁ page
  · rw [hframe₃.pages backupBlock List.mem_cons_self]
    exact hempty₂ page
  · rw [hframe₃.status block (List.mem_cons_of_mem _ hblock), hframe₂.status block hblock, hstatus₁]
    decide
  · rw [hframe₃.status backupBlock List.mem_cons_self, hstatus₂]
    decide

end Extend

section Advance
variable {number backupNumber next backupNext : ℕ} {pre backupPre : List ℕ}

theorem metadataNext_spec (hs : Settled number backupNumber next backupNext pre backupPre s)
    (hacc : Accounted hand (metadataBlocks s) busy s) (hpage : s.metadataBlockCurrentPage = gd25BlockPages) :
    (metadataNext s).metadata = ⟨some number, next, some next, (pre ++ [s.metadata.current]) ++ [next]⟩ ∧
      (metadataNext s).backupMetadata =
        ⟨some backupNumber, backupNext, some backupNext, (backupPre ++ [s.backupMetadata.current]) ++ [backupNext]⟩ ∧
      Accounted hand (metadataBlocks s) busy (metadataNext s) ∧
      Recorded (metadataBlocks s) number backupNumber
        ⟨some number, next, none, (pre ++ [s.metadata.current]) ++ [next]⟩
        ⟨some backupNumber, backupNext, none, (backupPre ++ [s.backupMetadata.current]) ++ [backupNext]⟩
        (metadataNext s) := by
  have hnext : s.metadata.next = some next := by rw [hs.metadata]
  have hbackupNext : s.backupMetadata.next = some backupNext := by rw [hs.backupMetadata]
  have hblocks : s.metadata.blocks = pre ++ [s.metadata.current, next] := by rw [hs.metadata]
  have hbackupBlocks : s.backupMetadata.blocks = backupPre ++ [s.backupMetadata.current, backupNext] := by
    rw [hs.backupMetadata]
  have hmetadata : (metadataNext s).metadata = ⟨some number, next, some next, (pre ++ [s.metadata.current]) ++ [next]⟩ := by
    simp only [metadataNext, hnext, hblocks, blockNumber, Option.getD_some, List.append_assoc, List.singleton_append]
    rw [hs.metadata]
  have hbackup : (metadataNext s).backupMetadata =
      ⟨some backupNumber, backupNext, some backupNext, (backupPre ++ [s.backupMetadata.current]) ++ [backupNext]⟩ := by
    simp only [metadataNext, hbackupNext, hbackupBlocks, blockNumber, Option.getD_some, List.append_assoc,
      List.singleton_append]
    rw [hs.backupMetadata]
  have hin : next ∈ s.metadata.blocks := by simp [hblocks]
  have hbackupIn : backupNext ∈ s.backupMetadata.blocks := by simp [hbackupBlocks]
  have hne : next ≠ backupNext := by
    have hkept := (List.nodup_append.mp hacc.held_nodup).2.1
    exact (List.nodup_append.mp hkept).2.2 next hin backupNext hbackupIn
  refine ⟨hmetadata, hbackup, ?_, ⟨hs.recorded.bounded.total_le, hs.recorded.bounded.mapped⟩, hs.recorded.kept_status, ?_⟩
  · exact { hacc with
      current_kept := by
        rw [hmetadata]
        exact List.mem_append_left _ hin
      backup_kept := by
        rw [hbackup]
        exact List.mem_append_right _ hbackupIn
      current_ne := by rwa [hmetadata, hbackup]
      current_free := fun page _ => by
        rw [hmetadata, hbackup]
        exact hs.next_free page
      clean := hacc.clean }
  · have heq : metadataNext s = { s with
        metadata := { s.metadata with current := next }
        backupMetadata := { s.backupMetadata with current := backupNext }
        metadataBlockCurrentPage := 0 } := by
      simp [metadataNext, hnext, hbackupNext, blockNumber]
    rw [heq]
    refine hs.recorded.traced.next hpage (fun b hb => current_kept hacc hb) fun c hc => ?_
    obtain ⟨hcovers, hE, hE'⟩ := hc
    refine ⟨by rw [hE, hnext], ⟨hcovers.totalBlocks, hcovers.eraseCount, hcovers.mapping, hcovers.status⟩, ?_, ?_⟩
    · simp only [unlinked, blockNext, hE, hblocks, List.append_assoc, List.singleton_append]
      rw [hs.metadata]
    · simp only [unlinked, blockNext, hE', hbackupNext, hbackupBlocks, blockNumber, Option.getD_some, List.append_assoc,
        List.singleton_append]
      rw [hs.backupMetadata]

/-- The metadata moves on without harm to the data, and keeps its record. -/
theorem advanced_spec (nested : Store → Store) (hs : Settled number backupNumber next backupNext pre backupPre s)
    (hacc : Accounted hand (metadataBlocks s) busy s) (hout : ∀ l, R l → l ∉ s.mappedBlockList)
    (hpage : s.metadataBlockCurrentPage = gd25BlockPages) (hfree : 2 ≤ s.freeBlockList.length) (hk : k ≤ 16) :
    Carried metadataBlocks Early hand busy R k s (advanced nested s) := by
  obtain ⟨hm, hm', haccounted, hrecorded⟩ := metadataNext_spec hs hacc hpage
  have hsame : Undisturbed hand busy R s (metadataNext s) :=
    ⟨rfl, fun _ _ => rfl, fun _ _ => rfl, fun _ _ => rfl, fun _ _ => rfl, fun _ _ hl => hl,
      fun _ _ => value_congr rfl fun _ _ => ⟨rfl, rfl, rfl⟩⟩
  have hblocks : metadataBlocks s = ((pre ++ [s.metadata.current]) ++ [next]) ++
      ((backupPre ++ [s.backupMetadata.current]) ++ [backupNext]) := by
    rw [metadataBlocks, hs.metadata, hs.backupMetadata]
    simp
  have hlength : (pre ++ [s.metadata.current]).length = (backupPre ++ [s.backupMetadata.current]).length := by
    simp [hs.length_eq]
  have hstart : (metadataNext s).metadataBlockCurrentPage = 0 := rfl
  have hkeep : metadataBlocks (metadataNext s) = metadataBlocks s := by
    rw [hblocks, metadataBlocks, hm, hm']
  rw [advanced]
  have hcarry {u : Store} (h : Carried metadataBlocks Early hand busy R k (metadataNext s) (metadataExtend nested u)) :
      Carried metadataBlocks Early hand busy R k s (metadataExtend nested u) :=
    { h with undisturbed := hsame.trans h.undisturbed }
  by_cases hfull : (metadataNext s).metadata.blocks.length = lxNandFlashMaxMetadataBlocks
  · rw [if_pos hfull]
    have hthree : (pre ++ [s.metadata.current]).length = 3 := by
      rw [hm, List.length_append] at hfull
      exact Nat.succ.inj hfull
    obtain ⟨hrestart, hframe, hquiet⟩ := metadataRestart_spec nested (R := R) hm hm' hthree (hlength ▸ hthree)
      (hblocks ▸ haccounted) hout hstart hrecorded.bounded fun b hb => by
        refine hrecorded.kept_status b ?_
        rw [hblocks]
        rcases List.mem_pair.mp hb with rfl | rfl
        · simp
        · simp
    generalize metadataRestart nested (metadataNext s) = t at hrestart hframe hquiet ⊢
    have hkept : metadataBlocks t = [next, backupNext] := by
      rw [metadataBlocks, hquiet.metadata, hquiet.backupMetadata]
      rfl
    have hweak : Quiet [next, backupNext] next backupNext _ _ _ _ 2 19 t := hquiet.weaken hfree (by decide)
    have hm₁ : t.metadata = ⟨some next, next, some next, [] ++ [next]⟩ := hquiet.metadata
    have hm₁' : t.backupMetadata = ⟨some backupNext, backupNext, some backupNext, [] ++ [backupNext]⟩ :=
      hquiet.backupMetadata
    have hextend : Carried metadataBlocks Early hand busy R k t (metadataExtend nested t) :=
      metadataExtend_spec hm₁ hm₁' rfl (by decide) (hkept ▸ hrestart) (fun l hl => hframe.unlisted l hl (hout l hl))
        (by rwa [hkept, hm₁, hm₁']) hk
    exact hcarry { hextend with undisturbed := hframe.trans hextend.undisturbed }
  · rw [if_neg hfull]
    have hshort : (pre ++ [s.metadata.current]).length ≤ 2 := by
      have hle := hs.length_le
      rw [hm] at hfull
      simp [lxNandFlashMaxMetadataBlocks] at hfull ⊢
      omega
    refine hcarry (metadataExtend_spec hm hm' hlength hshort (hkeep ▸ haccounted) hout ?_ hk)
    exact ⟨rfl, rfl, hfree, by rw [hstart]; decide, hkeep ▸ hrecorded⟩

end Advance

theorem Settled.current_mem {number backupNumber next backupNext : ℕ} {pre backupPre : List ℕ}
    (h : Settled number backupNumber next backupNext pre backupPre s) (hblock : Current s block) :
    block ∈ metadataBlocks s := by
  rw [metadataBlocks, h.metadata, h.backupMetadata]
  rcases hblock with rfl | rfl
  · simp
  · simp

theorem Ready.aside (h : Ready k s) (haside : Aside (metadataBlocks s) s t) : Ready k t := by
  obtain ⟨number, backupNumber, next, backupNext, pre, backupPre, hs⟩ := h.settled
  have hnext : next ∈ metadataBlocks s := by
    rw [metadataBlocks, hs.metadata]
    simp
  have hbackupNext : backupNext ∈ metadataBlocks s := by
    rw [metadataBlocks, hs.backupMetadata]
    simp
  have hkept : metadataBlocks t = metadataBlocks s := by
    rw [metadataBlocks, metadataBlocks, haside.metadata, haside.backupMetadata]
  refine ⟨h.few, haside.currentPage ▸ h.page_pos, haside.currentPage ▸ h.page_lt, ?_, number, backupNumber, next,
    backupNext, pre, backupPre, ?_, ?_, hs.length_eq, hs.length_le, fun page => ?_, ?_⟩
  · rw [haside.currentPage]
    exact h.room.imp_right fun hfree => le_trans hfree haside.free
  · rw [haside.metadata]
    exact hs.metadata
  · rw [haside.backupMetadata]
    exact hs.backupMetadata
  · rw [haside.pages next hnext, haside.pages backupNext hbackupNext]
    exact hs.next_free page
  · rw [hkept, haside.metadata, haside.backupMetadata]
    exact hs.recorded.aside (fun b hb => hs.current_mem hb) haside

theorem Settled.write {number backupNumber next backupNext : ℕ} {pre backupPre : List ℕ} {type : PageType}
    (h : Settled number backupNumber next backupNext pre backupPre s) (hsame : Retabled s t)
    (hacc : Accounted hand (metadataBlocks s) busy t) (hrecords : Records (metadataBlocks s) s t type) :
    Settled number backupNumber next backupNext pre backupPre (metadataPageWrite t type) := by
  have hm : (metadataPageWrite t type).metadata = s.metadata := hsame.metadata
  have hm' : (metadataPageWrite t type).backupMetadata = s.backupMetadata := hsame.backupMetadata
  have hnodup := (List.nodup_append.mp hacc.held_nodup).2.1
  rw [metadataBlocks, h.metadata, h.backupMetadata] at hnodup
  have hnot {b : ℕ} (hb : b = next ∨ b = backupNext) : ¬ Current t b := by
    rw [Current, hsame.metadata, hsame.backupMetadata]
    simp [List.nodup_append] at hnodup
    grind
  refine ⟨?_, ?_, h.length_eq, h.length_le, fun page => ?_, ?_⟩
  · rw [hm]
    exact h.metadata
  · rw [hm']
    exact h.backupMetadata
  · rw [(metadataPageWrite_of_not_current type (hnot (Or.inl rfl))).1,
      (metadataPageWrite_of_not_current type (hnot (Or.inr rfl))).1, hsame.pages]
    exact h.next_free page
  · rw [metadataBlocks, hm, hm']
    exact hrecords _ _ _ _ h.recorded

/-- A page of metadata: one more in the block, unless it was the last one. -/
theorem advanced_write (nested : Store → Store) {type : PageType} (hready : Ready (k + 1) s) (hsame : Retabled s t)
    (hacc : Accounted hand (metadataBlocks s) busy t) (hout : ∀ l, R l → l ∉ s.mappedBlockList)
    (hrecords : Records (metadataBlocks s) s t type) :
    Carried metadataBlocks Ready hand busy R k t (metadataWrite (advanced nested) t type) ∧
      (s.metadataBlockCurrentPage + 1 = gd25BlockPages →
        (metadataWrite (advanced nested) t type).metadataBlockCurrentPage + 16 < gd25BlockPages) := by
  obtain ⟨number, backupNumber, next, backupNext, pre, backupPre, hs⟩ := hready.settled
  have hsettled := hs.write hsame hacc hrecords
  have hwritten := accounted_metadataPageWrite type hacc
  have hframe := undisturbed_metadataPageWrite (R := R) type hacc
  have hkept : metadataBlocks (metadataPageWrite t type) = metadataBlocks s := by
    rw [metadataBlocks, metadataBlocks, ← hsame.metadata, ← hsame.backupMetadata]
    rfl
  have hpage : (metadataPageWrite t type).metadataBlockCurrentPage = s.metadataBlockCurrentPage + 1 :=
    congrArg (· + 1) hsame.currentPage
  have hfree : (metadataPageWrite t type).freeBlockList = s.freeBlockList := hsame.freeBlockList
  have hlist : (metadataPageWrite t type).mappedBlockList = s.mappedBlockList := hsame.mappedBlockList
  have hfew := hready.few
  have hlt := hready.page_lt
  have hroom := hready.room
  rw [metadataWrite, metadataAllocate]
  rw [← hkept] at hwritten
  split
  · rename_i hsome
    refine ⟨⟨hwritten, hframe, Nat.le_of_succ_le hfew, ?_, hsome, ?_, number, backupNumber, next, backupNext, pre,
      backupPre, hsettled⟩, fun hlast => ?_⟩
    · exact hpage ▸ Nat.succ_pos _
    · rw [hpage, hfree]
      exact hroom.imp_left fun h => by omega
    · omega
  · rename_i hnone
    have hcarried := advanced_spec nested hsettled hwritten (R := R) (by rwa [hlist]) (by omega)
      (by rw [hfree]; omega) (Nat.le_of_succ_le hfew)
    exact ⟨⟨hcarried.accounted, hframe.trans hcarried.undisturbed, hcarried.ready.toReady⟩,
      fun _ => hcarried.ready.page_ahead⟩

theorem advanced_status_page (nested : Store → Store) (hready : Ready 1 s) (status : BitVec 16)
    (hacc : Accounted hand (metadataBlocks s) busy (withStatus s block status)) (hlt : block < s.totalBlocks)
    (hkept : block ∉ metadataBlocks s) (hlast : s.metadataBlockCurrentPage + 1 = gd25BlockPages) :
    (blockStatusSet (advanced nested) s block status).metadataBlockCurrentPage + 16 < gd25BlockPages := by
  have hrecords : Records (metadataBlocks s) s (withStatus s block status)
      (.blockStatusTable (.ofNat (block * 2 / gd25PageSize))) := fun number backupNumber E E' h =>
    h.status hready.page_lt status hacc hlt fun hin => absurd hin hkept
  have hwrite := advanced_write nested (k := 0) (t := withStatus s block status) (R := fun _ => False) hready
    ⟨rfl, rfl, rfl, rfl, rfl, rfl, rfl, rfl⟩ hacc (fun _ hl => hl.elim) hrecords
  exact hwrite.2 hlast

/-- The metadata of the code, whatever it would do if it had to move on while it does. -/
theorem advanced_upholds (nested : Store → Store) : Upholds (advanced nested) metadataBlocks Ready := by
  refine upholds_of_write (fun h => ?_) (fun hm hm' => ?_) (fun haside h => h.aside haside) (fun h => h.page_lt)
    fun hready hsame hacc hout hrecords => (advanced_write nested hready hsame hacc hout hrecords).1
  · exact { h with
      few := Nat.le_of_succ_le h.few
      room := h.room.imp_left Nat.lt_of_succ_lt }
  · rw [metadataBlocks, metadataBlocks, hm, hm']

end EtherBench.LevelX.MetadataBlocks
