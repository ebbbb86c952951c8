import EtherBench.LevelX.Custody

/-! # What the metadata does to the data

A change of a table is written to the metadata, and may make the metadata move on. Whatever that does,
an operation finds the blocks in its hands and the sectors of the other logical blocks as they have been.
From this, a logical block that moves to another block keeps its sectors.
-/

namespace EtherBench.LevelX.Upkeep
open Nand.Device SectorStore BlockPages Custody
open NandFlash (PageType pageNumber blockFind lxNandBlockStatusFree lxNandBlockStatusAllocated)

/-- The metadata is none the wiser: a change of lists and of pages that are not its own. -/
structure Aside (kept : List ℕ) (s t : Store) : Prop where
  totalBlocks : t.totalBlocks = s.totalBlocks
  blockStatusTable : t.blockStatusTable = s.blockStatusTable
  blockMappingTable : t.blockMappingTable = s.blockMappingTable
  eraseCountTable : t.eraseCountTable = s.eraseCountTable
  metadata : t.metadata = s.metadata
  backupMetadata : t.backupMetadata = s.backupMetadata
  currentPage : t.metadataBlockCurrentPage = s.metadataBlockCurrentPage
  pages : ∀ b ∈ kept, t.pages b = s.pages b
  contents : ∀ b ∈ kept, t.contents b = s.contents b
  free : s.freeBlockList.length ≤ t.freeBlockList.length

/-- The data is none the wiser: the blocks in hand, the logical blocks out of reach and the values of the
sectors of those that nobody is busy with. -/
structure Undisturbed (hand busy : List ℕ) (R : ℕ → Prop) (s t : Store) : Prop where
  totalBlocks : t.totalBlocks = s.totalBlocks
  pages : ∀ b ∈ hand, t.pages b = s.pages b
  contents : ∀ b ∈ hand, t.contents b = s.contents b
  status : ∀ b ∈ hand, t.blockStatusTable b = s.blockStatusTable b
  mapping : ∀ l, R l → t.blockMappingTable l = s.blockMappingTable l
  unlisted : ∀ l, R l → l ∉ s.mappedBlockList → l ∉ t.mappedBlockList
  value : ∀ x, x / gd25BlockPages ∉ busy → value t x = value s x

variable {hand kept busy : List ℕ} {R : ℕ → Prop} {s t u : Store} {block index : ℕ}

theorem Undisturbed.refl (hand busy : List ℕ) (R : ℕ → Prop) (s : Store) : Undisturbed hand busy R s s :=
  ⟨rfl, fun _ _ => rfl, fun _ _ => rfl, fun _ _ => rfl, fun _ _ => rfl, fun _ _ h => h, fun _ _ => rfl⟩

theorem Undisturbed.trans (h : Undisturbed hand busy R s t) (h' : Undisturbed hand busy R t u) :
    Undisturbed hand busy R s u where
  totalBlocks := h'.totalBlocks.trans h.totalBlocks
  pages b hb := (h'.pages b hb).trans (h.pages b hb)
  contents b hb := (h'.contents b hb).trans (h.contents b hb)
  status b hb := (h'.status b hb).trans (h.status b hb)
  mapping l hl := (h'.mapping l hl).trans (h.mapping l hl)
  unlisted l hl hout := h'.unlisted l hl (h.unlisted l hl hout)
  value x hx := (h'.value x hx).trans (h.value x hx)

theorem Undisturbed.held (h : Undisturbed hand busy R s t) {b : ℕ} (hb : b ∈ hand) :
    t.pages b = s.pages b ∧ t.contents b = s.contents b ∧ t.blockStatusTable b = s.blockStatusTable b :=
  ⟨h.pages b hb, h.contents b hb, h.status b hb⟩

theorem Undisturbed.mono (h : Undisturbed hand busy R s t) {hand' busy' : List ℕ} {R' : ℕ → Prop}
    (hhand : hand' ⊆ hand) (hbusy : busy ⊆ busy') (hout : ∀ l, R' l → R l) :
    Undisturbed hand' busy' R' s t where
  totalBlocks := h.totalBlocks
  pages b hb := h.pages b (hhand hb)
  contents b hb := h.contents b (hhand hb)
  status b hb := h.status b (hhand hb)
  mapping l hl := h.mapping l (hout l hl)
  unlisted l hl := h.unlisted l (hout l hl)
  value x hx := h.value x fun hin => hx (hbusy hin)

theorem Undisturbed.shrink (h : Undisturbed (block :: hand) busy R s t) : Undisturbed hand busy R s t :=
  h.mono (List.subset_cons_self block hand) (List.Subset.refl busy) fun _ => id

/-- The sectors of a logical block are what they have been, too. -/
theorem Undisturbed.settle (h : Undisturbed hand (index :: busy) R s t)
    (hvalue : ∀ x, x / gd25BlockPages = index → Custody.value t x = Custody.value s x) :
    Undisturbed hand busy R s t :=
  { h with
    value := fun x hx => by
      by_cases hindex : x / gd25BlockPages = index
      · exact hvalue x hindex
      · exact h.value x fun hin => (List.mem_cons.mp hin).elim hindex hx }

/-! ## Changes of the data -/

theorem value_congr {x : ℕ} (hmapping : t.blockMappingTable (x / gd25BlockPages) = s.blockMappingTable (x / gd25BlockPages))
    (hblock : ∀ b, s.blockMappingTable (x / gd25BlockPages) = some b →
      t.pages b = s.pages b ∧ t.contents b = s.contents b ∧ t.blockStatusTable b = s.blockStatusTable b) :
    value t x = value s x := by
  rw [value, value, hmapping]
  cases hcase : s.blockMappingTable (x / gd25BlockPages) with
  | none => rfl
  | some b =>
    obtain ⟨hpages, hcontents, hstatus⟩ := hblock b hcase
    dsimp only
    rw [hpages, hcontents, hstatus]

theorem Undisturbed.withBlock (h : Accounted hand kept busy s) (hb : block ∈ hand) {rest : List ℕ}
    (hrest : block ∉ rest) (types : ℕ → PageType) (data : ℕ → PageData) :
    Undisturbed rest busy R s (withBlock s block types data) where
  totalBlocks := rfl
  pages b hin := withBlock_pages_of_ne (ne_of_mem_of_not_mem hin hrest) types data
  contents b hin := withBlock_contents_of_ne (ne_of_mem_of_not_mem hin hrest) types data
  status _ _ := rfl
  mapping _ _ := rfl
  unlisted _ _ hl := hl
  value x hx := by
    refine value_congr rfl fun b hmapped => ?_
    have hne : b ≠ block := fun heq => h.mapped_held _ hx b hmapped (List.mem_append_left kept (heq ▸ hb))
    exact ⟨withBlock_pages_of_ne hne types data, withBlock_contents_of_ne hne types data, rfl⟩

theorem Undisturbed.withStatus (hunmapped : ∀ l ∉ busy, s.blockMappingTable l ≠ some block) (hblock : block ∉ hand)
    (status : BitVec 16) : Undisturbed hand busy R s (withStatus s block status) where
  totalBlocks := rfl
  pages _ _ := rfl
  contents _ _ := rfl
  status b hin := Function.update_of_ne (ne_of_mem_of_not_mem hin hblock) _ _
  mapping _ _ := rfl
  unlisted _ _ hl := hl
  value x hx := by
    refine value_congr rfl fun b hmapped => ⟨rfl, rfl, ?_⟩
    have hne : b ≠ block := fun heq => hunmapped _ hx (heq ▸ hmapped)
    exact Function.update_of_ne hne _ _

theorem Undisturbed.withMapping (hbusy : index ∈ busy) (hout : ¬ R index) (blockOf : Option ℕ) :
    Undisturbed hand busy R s (withMapping s index blockOf) where
  totalBlocks := rfl
  pages _ _ := rfl
  contents _ _ := rfl
  status _ _ := rfl
  mapping l hl := Function.update_of_ne (fun heq : l = index => hout (heq ▸ hl)) _ _
  unlisted _ _ hl := hl
  value _ hx := value_congr (Function.update_of_ne (ne_of_mem_of_not_mem hbusy hx).symm _ _) fun _ _ => ⟨rfl, rfl, rfl⟩

theorem Undisturbed.setList {list : List ℕ} (hlist : ∀ l, R l → l ∉ s.mappedBlockList → l ∉ list) :
    Undisturbed hand busy R s { s with mappedBlockList := list } :=
  ⟨rfl, fun _ _ => rfl, fun _ _ => rfl, fun _ _ => rfl, fun _ _ => rfl, hlist,
    fun _ _ => value_congr rfl fun _ _ => ⟨rfl, rfl, rfl⟩⟩

theorem Undisturbed.setFree (hand busy : List ℕ) (R : ℕ → Prop) (s : Store) (list : List ℕ) :
    Undisturbed hand busy R s { s with freeBlockList := list } :=
  ⟨rfl, fun _ _ => rfl, fun _ _ => rfl, fun _ _ => rfl, fun _ _ => rfl, fun _ _ hl => hl,
    fun _ _ => value_congr rfl fun _ _ => ⟨rfl, rfl, rfl⟩⟩

theorem Undisturbed.freeBlockListAdd (hand busy : List ℕ) (R : ℕ → Prop) (s : Store) (block : ℕ) :
    Undisturbed hand busy R s (freeBlockListAdd s block) := by
  rw [SectorStore.freeBlockListAdd, NandFlash.freeBlockListAdd]
  split
  · exact Undisturbed.refl hand busy R s
  · exact Undisturbed.setFree hand busy R s _

theorem Undisturbed.mappedBlockListAdd (hout : ¬ R index) :
    Undisturbed hand busy R s (mappedBlockListAdd s index) := by
  rw [SectorStore.mappedBlockListAdd, NandFlash.mappedBlockListAdd]
  split
  · exact Undisturbed.refl hand busy R s
  · refine Undisturbed.setList fun l hl hlisted hin => ?_
    rcases List.mem_cons.mp ((insertByWear_perm _ _ _).mem_iff.mp hin) with rfl | hin
    · exact hout hl
    · exact hlisted hin

theorem Aside.withBlock (hb : block ∉ kept) (types : ℕ → PageType) (data : ℕ → PageData) :
    Aside kept s (withBlock s block types data) := by
  have hne (b : ℕ) (hin : b ∈ kept) : b ≠ block := ne_of_mem_of_not_mem hin hb
  exact ⟨rfl, rfl, rfl, rfl, rfl, rfl, rfl, fun b hin => withBlock_pages_of_ne (hne b hin) types data,
    fun b hin => withBlock_contents_of_ne (hne b hin) types data, le_rfl⟩

theorem Aside.freeBlockListAdd (kept : List ℕ) (s : Store) (block : ℕ) : Aside kept s (freeBlockListAdd s block) := by
  rw [SectorStore.freeBlockListAdd, NandFlash.freeBlockListAdd]
  split
  · exact ⟨rfl, rfl, rfl, rfl, rfl, rfl, rfl, fun _ _ => rfl, fun _ _ => rfl, le_rfl⟩
  · refine ⟨rfl, rfl, rfl, rfl, rfl, rfl, rfl, fun _ _ => rfl, fun _ _ => rfl, ?_⟩
    rw [(insertByWear_perm _ _ _).length_eq]
    exact Nat.le_succ _

theorem Aside.setList (kept : List ℕ) (s : Store) (list : List ℕ) : Aside kept s { s with mappedBlockList := list } :=
  ⟨rfl, rfl, rfl, rfl, rfl, rfl, rfl, fun _ _ => rfl, fun _ _ => rfl, le_rfl⟩

theorem mappedBlockListAdd_eq (s : Store) (index : ℕ) :
    ∃ list, mappedBlockListAdd s index = { s with mappedBlockList := list } := by
  rw [SectorStore.mappedBlockListAdd, NandFlash.mappedBlockListAdd]
  split
  · exact ⟨s.mappedBlockList, rfl⟩
  · exact ⟨_, rfl⟩

theorem Aside.mappedBlockListAdd (kept : List ℕ) (s : Store) (index : ℕ) : Aside kept s (mappedBlockListAdd s index) := by
  obtain ⟨list, hlist⟩ := mappedBlockListAdd_eq s index
  rw [hlist]
  exact Aside.setList kept s list

/-! ## Writes of the metadata -/

/-- Where a step leaves an operation that has `k` changes of the tables before it. -/
structure Carried (kept : Store → List ℕ) (ready : ℕ → Store → Prop) (hand busy : List ℕ) (R : ℕ → Prop)
    (k : ℕ) (s t : Store) : Prop where
  accounted : Accounted hand (kept t) busy t
  undisturbed : Undisturbed hand busy R s t
  ready : ready k t

/-- The metadata takes a change of a table without harm to the data, as long as it is ready for one. -/
structure Upholds (advance : Store → Store) (kept : Store → List ℕ) (ready : ℕ → Store → Prop) : Prop where
  mono : ∀ {k s}, ready (k + 1) s → ready k s
  kept_eq : ∀ {s t}, t.metadata = s.metadata → t.backupMetadata = s.backupMetadata → kept t = kept s
  aside : ∀ {k s t}, Aside (kept s) s t → ready k s → ready k t
  status : ∀ {hand busy R k s block} (status : BitVec 16),
    Accounted hand (kept s) busy (withStatus s block status) → (∀ l, R l → l ∉ s.mappedBlockList) →
    block < s.totalBlocks → block ∉ kept s → ready (k + 1) s →
    Carried kept ready hand busy R k (withStatus s block status) (blockStatusSet advance s block status)
  mapping : ∀ {hand busy R k s sector index} (blockOf : Option ℕ), sector / gd25BlockPages = index →
    Accounted hand (kept s) busy (withMapping s index blockOf) → (∀ l, R l → l ∉ s.mappedBlockList) →
    index < s.totalBlocks → (∀ b, blockOf = some b → b < s.totalBlocks) → ready (k + 1) s →
    Carried kept ready hand busy R k (withMapping s index blockOf) (blockMappingSet advance s sector blockOf)
  eraseCount : ∀ {hand busy R k s block} (count : UInt8), Accounted hand (kept s) busy s →
    (∀ l, R l → l ∉ s.mappedBlockList) → block < s.totalBlocks → ready (k + 1) s →
    Carried kept ready hand busy R k s (eraseCountSet advance s block count)

section Moves
variable {advance : Store → Store} {kept : Store → List ℕ} {ready : ℕ → Store → Prop} {k : ℕ}

theorem Upholds.aside_kept (hup : Upholds advance kept ready) (h : Aside (kept s) s t) : kept t = kept s :=
  hup.kept_eq h.metadata h.backupMetadata

theorem Upholds.eraseCounted (hup : Upholds advance kept ready) (h : Accounted (block :: hand) (kept s) busy s)
    (hout : ∀ l, R l → l ∉ s.mappedBlockList) (hready : ready (k + 1) s) :
    Accounted (block :: hand) (kept (eraseCounted advance s block)) busy (eraseCounted advance s block) ∧
      Undisturbed hand busy R s (eraseCounted advance s block) ∧
      (∀ page, (eraseCounted advance s block).pages block page = .free) ∧
      ready k (eraseCounted advance s block) := by
  have hblock : block ∈ block :: hand := List.mem_cons_self
  have hfresh : block ∉ hand := fun hin => (List.nodup_cons.mp h.held_nodup).1 (List.mem_append_left _ hin)
  rw [SectorStore.eraseCounted, show driverBlockErase s block =
    withBlock s block (fun _ => .free) fun _ => allOnes from rfl]
  have haside := Aside.withBlock (s := s) (h.hand_kept hblock) (fun _ => .free) fun _ => allOnes
  have herased := h.withBlock hblock (fun _ => .free) fun _ => allOnes
  rw [← hup.aside_kept haside] at herased
  have hset := hup.eraseCount ((withBlock s block (fun _ => .free) fun _ => allOnes).eraseCountTable block + 1) herased
    (R := R) hout (h.held_lt block List.mem_cons_self) (hup.aside haside hready)
  refine ⟨hset.accounted, ?_, fun page => ?_, hset.ready⟩
  · exact (Undisturbed.withBlock h hblock hfresh _ _).trans
      hset.undisturbed.shrink
  · rw [hset.undisturbed.pages block hblock, withBlock_pages_self]

theorem Upholds.release (hup : Upholds advance kept ready) (h : Accounted (block :: hand) (kept s) busy s)
    (hout : ∀ l, R l → l ∉ s.mappedBlockList) (herased : ∀ page, s.pages block page = .free)
    (hready : ready (k + 1) s) : Carried kept ready hand busy R k s (release advance s block) := by
  have hblock : block ∈ block :: hand := List.mem_cons_self
  have hfresh : block ∉ hand := fun hin => (List.nodup_cons.mp h.held_nodup).1 (List.mem_append_left _ hin)
  have hset := hup.status lxNandBlockStatusFree
    (Accounted.withStatus h (h.unmapped hblock) (Or.inl hblock) lxNandBlockStatusFree) (R := R) hout
    (h.held_lt block List.mem_cons_self) (h.hand_kept hblock) hready
  have haside := Aside.freeBlockListAdd (kept (blockStatusSet advance s block lxNandBlockStatusFree))
    (blockStatusSet advance s block lxNandBlockStatusFree) block
  have hgive := hset.accounted.give fun page => by
    rw [hset.undisturbed.pages block hblock]
    exact herased page
  rw [SectorStore.release]
  refine ⟨?_, ?_, hup.aside haside hset.ready⟩
  · rwa [hup.aside_kept haside]
  · exact ((Undisturbed.withStatus (h.unmapped hblock) hfresh lxNandBlockStatusFree).trans
      hset.undisturbed.shrink).trans (Undisturbed.freeBlockListAdd hand busy R _ block)

theorem Upholds.giveBack (hup : Upholds advance kept ready) (h : Accounted (block :: hand) (kept s) busy s)
    (hout : ∀ l, R l → l ∉ s.mappedBlockList) (hready : ready (k + 2) s) :
    Carried kept ready hand busy R k s (SectorStore.release advance (SectorStore.eraseCounted advance s block) block) := by
  obtain ⟨haccounted, hundisturbed, herased, hready'⟩ := hup.eraseCounted h hout hready
  have hrelease := hup.release haccounted (fun l hl => hundisturbed.unlisted l hl (hout l hl)) herased hready'
  exact ⟨hrelease.accounted, hundisturbed.trans hrelease.undisturbed, hrelease.ready⟩

theorem Upholds.setStatus (hup : Upholds advance kept ready) (h : Accounted (block :: hand) (kept s) busy s)
    (hout : ∀ l, R l → l ∉ s.mappedBlockList) (status : BitVec 16) (hready : ready (k + 1) s) :
    Carried kept ready (block :: hand) busy R k (withStatus s block status) (blockStatusSet advance s block status) ∧
      Undisturbed hand busy R s (blockStatusSet advance s block status) ∧
      (blockStatusSet advance s block status).blockStatusTable block = status := by
  have hblock : block ∈ block :: hand := List.mem_cons_self
  have hfresh : block ∉ hand := fun hin => (List.nodup_cons.mp h.held_nodup).1 (List.mem_append_left _ hin)
  have hset := hup.status status (h.withStatus (h.unmapped hblock) (Or.inl hblock) status) (R := R) hout
    (h.held_lt block List.mem_cons_self) (h.hand_kept hblock) hready
  refine ⟨hset, (Undisturbed.withStatus (h.unmapped hblock) hfresh status).trans hset.undisturbed.shrink, ?_⟩
  exact (hset.undisturbed.status block hblock).trans (Function.update_self ..)

theorem blockAllocate_cons {rest : List ℕ} (hfree : s.freeBlockList = block :: rest) :
    blockAllocate s = some (block, { s with freeBlockList := rest }) := by
  rw [blockAllocate, NandFlash.blockAllocate, hfree]
  rfl

theorem blockFind_mapped {sector : ℕ} (hindex : sector / gd25BlockPages = index) (hlt : index < s.totalBlocks)
    (hmapped : s.blockMappingTable index = some block) :
    blockFind s.toVolume sector = some (some block, s.blockStatusTable block) := by
  rw [blockFind, hindex, if_neg (NandFlash.index_in_table hlt), hmapped]

theorem value_mapped {x : ℕ} (hindex : x / gd25BlockPages = index) (hmapped : s.blockMappingTable index = some block) :
    value s x = latest (s.pages block) (s.contents block) (pageNumber (s.blockStatusTable block)) x := by
  rw [value, hindex, hmapped]

/-- The operation is done with a logical block, whose sectors are as given. -/
structure Placed (kept : Store → List ℕ) (ready : ℕ → Store → Prop) (hand busy : List ℕ) (R : ℕ → Prop) (k : ℕ)
    (index : ℕ) (content : ℕ → PageData) (s t : Store) : Prop where
  accounted : Accounted hand (kept t) busy t
  undisturbed : Undisturbed hand (index :: busy) R s t
  value : ∀ x, x / gd25BlockPages = index → value t x = content x
  unlisted : index ∉ t.mappedBlockList
  ready : ready k t

section Place
variable {sector : ℕ} (hup : Upholds advance kept ready) (hsector : sector / gd25BlockPages = index)
  (hlisted : index ∉ s.mappedBlockList) (hlt : index < s.totalBlocks) (hout : ∀ l, R l → l ∉ s.mappedBlockList)
  (hindex : ¬ R index)
include hup hsector hlisted hlt hout hindex

theorem Upholds.map (h : Accounted (block :: hand) (kept s) (index :: busy) s)
    (hstored : Stored (s.pages block) (s.contents block) index (s.blockStatusTable block)) (hready : ready (k + 1) s) :
    Placed kept ready hand busy R k index
        (latest (s.pages block) (s.contents block) (pageNumber (s.blockStatusTable block))) s
        (blockMappingSet advance s sector (some block)) ∧
      (blockMappingSet advance s sector (some block)).blockMappingTable index = some block := by
  have hblock : block ∈ block :: hand := List.mem_cons_self
  have hset := hup.mapping (some block) hsector (h.withMapping List.mem_cons_self (some block))
    (R := fun l => R l ∨ l = index) (fun l hl => hl.elim (hout l) fun heq => heq ▸ hlisted) hlt
    (fun b hb => Option.some.inj hb ▸ h.held_lt block List.mem_cons_self) hready
  generalize blockMappingSet advance s sector (some block) = t at hset ⊢
  have hpages := hset.undisturbed.pages block hblock
  have hcontents := hset.undisturbed.contents block hblock
  have hstatus := hset.undisturbed.status block hblock
  have hmapped : t.blockMappingTable index = some block :=
    (hset.undisturbed.mapping index (Or.inr rfl)).trans (Function.update_self ..)
  refine ⟨⟨hset.accounted.checkIn hmapped ?_, ?_, fun x hx => ?_, ?_, hset.ready⟩, hmapped⟩
  · rw [hpages, hcontents, hstatus]
    exact hstored
  · exact (Undisturbed.withMapping List.mem_cons_self hindex (some block)).trans
      (hset.undisturbed.shrink.mono (List.Subset.refl hand) (List.Subset.refl _) fun _ => Or.inl)
  · rw [value_mapped hx hmapped, hpages, hcontents, hstatus]
    rfl
  · exact hset.undisturbed.unlisted index (Or.inr rfl) hlisted

theorem Upholds.unmap (h : Accounted hand (kept s) (index :: busy) s) (hready : ready (k + 1) s) :
    Placed kept ready hand busy R k index (fun _ => allOnes) s (blockMappingSet advance s sector none) := by
  have hset := hup.mapping none hsector (h.withMapping List.mem_cons_self none)
    (R := fun l => R l ∨ l = index) (fun l hl => hl.elim (hout l) fun heq => heq ▸ hlisted) hlt
    (by simp) hready
  generalize blockMappingSet advance s sector none = t at hset ⊢
  have hmapped : t.blockMappingTable index = none :=
    (hset.undisturbed.mapping index (Or.inr rfl)).trans (Function.update_self ..)
  refine ⟨hset.accounted.checkInUnmapped hmapped, ?_, fun x hx => ?_, ?_, hset.ready⟩
  · exact (Undisturbed.withMapping List.mem_cons_self hindex none).trans
      (hset.undisturbed.mono (List.Subset.refl hand) (List.Subset.refl _) fun _ => Or.inl)
  · rw [value, hx, hmapped]
  · exact hset.undisturbed.unlisted index (Or.inr rfl) hlisted

end Place

/-- The new block of a logical block gets its status and its place in the mapping table, and the logical block
is listed again. -/
theorem Upholds.place (hup : Upholds advance kept ready) {sector : ℕ} (hsector : sector / gd25BlockPages = index)
    (h : Accounted (block :: hand) (kept s) (index :: busy) s)
    (hlisted : index ∉ s.mappedBlockList) (hlt : index < s.totalBlocks) (hout : ∀ l, R l → l ∉ s.mappedBlockList)
    (hindex : ¬ R index) {status : BitVec 16} (hstored : Stored (s.pages block) (s.contents block) index status)
    (hready : ready (k + 2) s) :
    Placed kept ready hand busy R k index (latest (s.pages block) (s.contents block) (pageNumber status)) s
        (blockMappingSet advance (blockStatusSet advance s block status) sector (some block)) ∧
      (blockMappingSet advance (blockStatusSet advance s block status) sector (some block)).blockMappingTable index =
        some block := by
  have hblock : block ∈ block :: hand := List.mem_cons_self
  obtain ⟨hset, hsame, hstatus⟩ := hup.setStatus h (R := fun l => R l ∨ l = index)
    (fun l hl => hl.elim (hout l) fun heq => heq ▸ hlisted) status hready
  generalize blockStatusSet advance s block status = t at hset hsame hstatus ⊢
  have hpages : t.pages block = s.pages block := hset.undisturbed.pages block hblock
  have hcontents : t.contents block = s.contents block := hset.undisturbed.contents block hblock
  obtain ⟨hplaced, hmapped⟩ := hup.map hsector (hsame.unlisted index (Or.inr rfl) hlisted)
    (hsame.totalBlocks ▸ hlt) (fun l hl => hsame.unlisted l (Or.inl hl) (hout l hl)) hindex hset.accounted
    (by rwa [hpages, hcontents, hstatus]) hset.ready
  rw [hpages, hcontents, hstatus] at hplaced
  exact ⟨{ hplaced with
    undisturbed := (hsame.mono (List.Subset.refl hand) (List.Subset.refl _) fun _ => Or.inl).trans
      hplaced.undisturbed }, hmapped⟩

/-- A logical block goes to an erased block, and its sectors with it. -/
theorem Upholds.blockMove (hup : Upholds advance kept ready) {newBlock : ℕ}
    (h : Accounted (newBlock :: block :: hand) (kept s) (index :: busy) s) (hbusy : index ∉ busy)
    (hlisted : index ∉ s.mappedBlockList) (hlt : index < s.totalBlocks) (hout : ∀ l, R l → l ∉ s.mappedBlockList)
    (hindex : ¬ R index) {blockStatus : BitVec 16}
    (hstored : Stored (s.pages block) (s.contents block) index blockStatus)
    (herased : ∀ page, s.pages newBlock page = .free) (hready : ready (k + 4) s) :
    Accounted hand (kept (blockMove advance s index block blockStatus newBlock)) busy
        (blockMove advance s index block blockStatus newBlock) ∧
      Undisturbed hand (index :: busy) R s (blockMove advance s index block blockStatus newBlock) ∧
      (∀ x, x / gd25BlockPages = index → value (blockMove advance s index block blockStatus newBlock) x =
        latest (s.pages block) (s.contents block) (pageNumber blockStatus) x) ∧
      ready k (blockMove advance s index block blockStatus newBlock) := by
  have hsector : index * gd25BlockPages / gd25BlockPages = index := Nat.mul_div_cancel index (by decide)
  have hnew : newBlock ∈ newBlock :: block :: hand := List.mem_cons_self
  have hnodup := List.nodup_cons.mp h.held_nodup
  have hne : block ≠ newBlock := fun heq => hnodup.1 (heq ▸ List.mem_cons_self)
  have hfresh : newBlock ∉ hand := fun hin => hnodup.1 (List.mem_cons_of_mem _ (List.mem_append_left _ hin))
  obtain ⟨types, data, status, hcopy, hcopied, hsame⟩ := dataPageCopy_block hne hstored herased
  have hcopyFrame : Undisturbed hand (index :: busy) R s (withBlock s newBlock types data) :=
    Undisturbed.withBlock h hnew hfresh types data
  have haside := Aside.withBlock (s := s) (h.hand_kept hnew) types data
  have haccounted := h.withBlock hnew types data
  rw [← hup.aside_kept haside] at haccounted
  replace hready := hup.aside haside hready
  -- What is left to do once the logical block has its place.
  have hfinish {u : Store} (hu : Accounted (block :: hand) (kept u) busy u)
      (hframe : Undisturbed hand (index :: busy) R s u)
      (hvalue : ∀ x, x / gd25BlockPages = index → value u x = latest types data (pageNumber status) x)
      (hr : ready (k + 2) u) :
      let v := SectorStore.release advance (SectorStore.eraseCounted advance u block) block
      Accounted hand (kept v) busy v ∧ Undisturbed hand (index :: busy) R s v ∧
        (∀ x, x / gd25BlockPages = index → value v x =
          latest (s.pages block) (s.contents block) (pageNumber blockStatus) x) ∧ ready k v := by
    have hback := hup.giveBack hu (R := R) (fun l hl => hframe.unlisted l hl (hout l hl)) hr
    refine ⟨hback.accounted, ?_, fun x hx => ?_, hback.ready⟩
    · exact hframe.trans (hback.undisturbed.mono (List.Subset.refl hand) (List.subset_cons_self index busy) fun _ => id)
    · rw [hback.undisturbed.value x (hx ▸ hbusy), hvalue x hx, hsame]
  rw [SectorStore.blockMove, hcopy]
  dsimp only
  by_cases hmoved : pageNumber status ≠ 0
  · rw [if_pos hmoved]
    obtain ⟨hplaced, hmapped⟩ := hup.place hsector haccounted (R := R) hlisted hlt hout hindex
      (by rwa [withBlock_pages_self, withBlock_contents_self]) hready
    generalize blockMappingSet advance (blockStatusSet advance (withBlock s newBlock types data) newBlock status)
      (index * gd25BlockPages) (some newBlock) = u at hplaced hmapped ⊢
    have hlist := Aside.mappedBlockListAdd (kept u) u index
    have hadd : Undisturbed hand busy R u (mappedBlockListAdd u index) := Undisturbed.mappedBlockListAdd hindex
    refine hfinish ?_ ?_ (fun x hx => ?_) (hup.aside hlist hplaced.ready)
    · rw [hup.aside_kept hlist]
      exact hplaced.accounted.list hbusy (hplaced.undisturbed.totalBlocks ▸ hlt) hplaced.unlisted (by simp [hmapped])
    · exact (hcopyFrame.trans hplaced.undisturbed.shrink).trans
        (hadd.mono (List.Subset.refl hand) (List.subset_cons_self index busy) fun _ => id)
    · rw [hadd.value x (hx ▸ hbusy), hplaced.value x hx, withBlock_pages_self, withBlock_contents_self]
  · rw [if_neg hmoved]
    rw [not_not] at hmoved
    have hempty (page : ℕ) : (withBlock s newBlock types data).pages newBlock page = .free := by
      rw [withBlock_pages_self]
      exact hcopied.filled.rest page (by omega)
    have hgive := haccounted.give hempty
    have hunmapped := haccounted.unmapped hnew
    have hlist := Aside.freeBlockListAdd (kept (withBlock s newBlock types data)) (withBlock s newBlock types data) newBlock
    have hall := Undisturbed.freeBlockListAdd (newBlock :: hand) (index :: busy) (fun _ => True)
      (withBlock s newBlock types data) newBlock
    rw [← hup.aside_kept hlist] at hgive
    have hkept : newBlock ∉ kept (freeBlockListAdd (withBlock s newBlock types data) newBlock) := by
      rw [hup.aside_kept hlist]
      exact haccounted.hand_kept hnew
    replace hready := hup.aside hlist hready
    generalize freeBlockListAdd (withBlock s newBlock types data) newBlock = u at hgive hkept hready hall ⊢
    have hunmapped' (l : ℕ) (hl : l ∉ index :: busy) : u.blockMappingTable l ≠ some newBlock := by
      rw [hall.mapping l trivial]
      exact hunmapped l hl
    have hlisted' : index ∉ u.mappedBlockList := hall.unlisted index trivial hlisted
    have hout' (l : ℕ) (hl : R l) : l ∉ u.mappedBlockList := hall.unlisted l trivial (hout l hl)
    have hset := hup.status lxNandBlockStatusFree (hgive.withStatus hunmapped' (Or.inr fun page => by
        rw [hall.pages newBlock List.mem_cons_self]
        exact hempty page) lxNandBlockStatusFree) (R := fun l => R l ∨ l = index)
      (fun l hl => hl.elim (hout' l) fun heq => heq ▸ hlisted')
      (hall.totalBlocks ▸ haccounted.held_lt newBlock List.mem_cons_self) hkept hready
    have hstatusFrame : Undisturbed hand (index :: busy) (fun l => R l ∨ l = index) u
        (blockStatusSet advance u newBlock lxNandBlockStatusFree) :=
      (Undisturbed.withStatus hunmapped' hfresh lxNandBlockStatusFree).trans hset.undisturbed.shrink
    have hplaced := hup.unmap hsector (hstatusFrame.unlisted index (Or.inr rfl) hlisted')
      (hstatusFrame.totalBlocks ▸ hall.totalBlocks ▸ hlt)
      (fun l hl => hstatusFrame.unlisted l (Or.inl hl) (hout' l hl)) hindex hset.accounted hset.ready
    refine hfinish hplaced.accounted ?_ (fun x hx => ?_) hplaced.ready
    · exact ((hcopyFrame.trans (hall.shrink.mono (List.Subset.refl hand) (List.Subset.refl _) fun _ _ => trivial)).trans
        (hstatusFrame.mono (List.Subset.refl hand) (List.Subset.refl _) fun _ => Or.inl)).trans
        (hplaced.undisturbed.mono (List.subset_cons_self block hand) (List.Subset.refl _) fun _ => id)
    · rw [hplaced.value x hx, hmoved]
      rfl

/-- The logical block that has the fewest erases goes to another block. -/
theorem Upholds.blockDataMove (hup : Upholds advance kept ready) {newBlock : ℕ}
    (h : Accounted (newBlock :: hand) (kept s) busy s) (herased : ∀ page, s.pages newBlock page = .free)
    (hout : ∀ l, R l → l ∉ s.mappedBlockList) (hready : ready (k + 4) s) :
    Carried kept ready hand busy R k s (blockDataMove advance s newBlock) := by
  rw [SectorStore.blockDataMove]
  cases hlist : s.mappedBlockList with
  | nil => exact ⟨h.drop herased, Undisturbed.refl _ _ _ s, hup.mono (hup.mono (hup.mono (hup.mono hready)))⟩
  | cons index rest =>
    have hlisted : index ∈ s.mappedBlockList := hlist ▸ List.mem_cons_self
    have hbusy := h.listed_busy index hlisted
    have hlt := h.listed_lt index hlisted
    have hindex : ¬ R index := fun hin => hout index hin hlisted
    obtain ⟨block, hmapped⟩ := Option.ne_none_iff_exists'.mp (h.listed_mapped index hlisted)
    have hsub (l : ℕ) (hl : l ∈ rest) : l ∈ s.mappedBlockList := hlist ▸ List.mem_cons_of_mem index hl
    have hcheck := h.checkOut hbusy hmapped
    rw [hlist, List.erase_cons_head] at hcheck
    have haside := Aside.setList (kept s) s rest
    have hfirst : Undisturbed hand busy R s { s with mappedBlockList := rest } :=
      Undisturbed.setList fun l _ hnot hin => hnot (hsub l hin)
    have hmove := hup.blockMove (s := { s with mappedBlockList := rest })
      (by rw [hup.aside_kept haside]; exact hcheck.perm (List.Perm.swap newBlock block hand)) hbusy
      (List.nodup_cons.mp (hlist ▸ h.listed_nodup)).1 hlt (fun l hl hin => hout l hl (hsub l hin)) hindex
      (h.mapped_stored index hbusy block hmapped) herased (hup.aside haside hready)
    obtain ⟨haccounted, hframe, hvalue, hdone⟩ := hmove
    dsimp only
    rw [blockFind_mapped (s := { s with mappedBlockList := rest }) (Nat.mul_div_cancel index (by decide)) hlt hmapped]
    refine ⟨haccounted, ?_, hdone⟩
    refine Undisturbed.settle ((hfirst.mono (List.Subset.refl hand) (List.subset_cons_self index busy) fun _ => id).trans
      hframe) fun x hx => ?_
    rw [value_mapped hx hmapped]
    exact hvalue x hx

/-- A block in hand is erased, and becomes free or takes the sectors of a block with fewer erases. -/
theorem Upholds.retire (hup : Upholds advance kept ready) (h : Accounted (block :: hand) (kept s) busy s)
    (hout : ∀ l, R l → l ∉ s.mappedBlockList) (hready : ready (k + 5) s) :
    Carried kept ready hand busy R k s (retire advance s block) := by
  obtain ⟨haccounted, hframe, herased, hready'⟩ := hup.eraseCounted h hout hready
  have hout' (l : ℕ) (hl : R l) := hframe.unlisted l hl (hout l hl)
  rw [SectorStore.retire]
  split
  · have hmove := hup.blockDataMove haccounted herased hout' hready'
    exact ⟨hmove.accounted, hframe.trans hmove.undisturbed, hmove.ready⟩
  · have hrelease := hup.release haccounted hout' herased (hup.mono (hup.mono (hup.mono hready')))
    exact ⟨hrelease.accounted, hframe.trans hrelease.undisturbed, hrelease.ready⟩

end Moves

end EtherBench.LevelX.Upkeep
