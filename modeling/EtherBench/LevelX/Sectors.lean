import EtherBench.LevelX.Upkeep

/-! # Reads, writes and releases of sectors

A read gives what the latest page of a sector holds. A write and a release change their own sector and no
other, whether they find room in the block of the sector or fill a new one.
-/

namespace EtherBench.LevelX.Sectors
open Nand.Device SectorStore BlockPages Custody Upkeep
open NandFlash (PageType Status pageNumber blockFind findPage lxNandBlockStatusAllocated lxNandBlockStatusFull
  lxNandBlockStatusNonSequential)

variable {hand busy : List ℕ} {R : ℕ → Prop} {s : Store} {block index sector : ℕ}

/-! ## Reads -/

theorem find_none {types : ℕ → PageType} {data : ℕ → PageData} {n : ℕ}
    (h : (List.range n).reverse.find? (fun page => (types page).sector? = some sector) = none) :
    latest types data n sector = allOnes := by
  rw [List.find?_eq_none] at h
  refine latest_of_not_found fun page hpage heq => h page (by simpa using hpage) (by simpa using heq)

theorem blockFind_unmapped (hlt : sector / gd25BlockPages < s.totalBlocks)
    (hmapped : s.blockMappingTable (sector / gd25BlockPages) = none) : blockFind s.toVolume sector = some (none, 0) := by
  rw [blockFind, if_neg (NandFlash.index_in_table hlt), hmapped]

/-- A read searches the block when it is out of order, and else goes to the place of the sector. -/
theorem sectorRead_eq {kept : List ℕ} (h : Accounted hand kept busy s) (hbusy : sector / gd25BlockPages ∉ busy)
    (hlt : sector / gd25BlockPages < s.totalBlocks) : sectorRead s sector = some (value s sector) := by
  rw [sectorRead, value]
  cases hmapped : s.blockMappingTable (sector / gd25BlockPages) with
  | none => rw [blockFind_unmapped hlt hmapped]
  | some block =>
    have hstored := h.mapped_stored _ hbusy block hmapped
    rw [blockFind_mapped rfl hlt hmapped]
    dsimp only
    rw [hstored.availablePages_eq]
    by_cases hflag : s.blockStatusTable block &&& lxNandBlockStatusNonSequential ≠ 0
    · rw [if_pos hflag]
      cases hfind : findPage s.toVolume block (pageNumber (s.blockStatusTable block)) sector with
      | none =>
        dsimp only
        rw [find_none hfind]
      | some page =>
        obtain ⟨-, -, hlatest⟩ := latest_of_find (s.contents block) hfind
        dsimp only
        rw [hlatest]
    · rw [if_neg hflag]
      rw [nonSequential_ne_zero, Bool.not_eq_true] at hflag
      rw [(hstored.inOrder hflag).latest_eq rfl]
      split
      · rfl
      · rfl

section Changes
variable {advance : Store → Store} {kept : Store → List ℕ} {ready : ℕ → Store → Prop} {k : ℕ}

/-! ## Steps of a change -/

/-- The sectors behind the addressed one, to a block that has what comes before. -/
theorem copyRest_spec {newBlock : ℕ} (blockStatus status : BitVec 16) (hne : block ≠ newBlock)
    (hsector : sector / gd25BlockPages = index) (hstored : Stored (s.pages block) (s.contents block) index blockStatus)
    (hnew : Stored (s.pages newBlock) (s.contents newBlock) index status)
    (hroom : pageNumber status ≤ sector % gd25BlockPages + 1)
    (hnone : ∀ x, sector < x → latest (s.pages newBlock) (s.contents newBlock) (pageNumber status) x = allOnes) :
    ∃ types data status',
      copyRest s sector block blockStatus newBlock status = (withBlock s newBlock types data, status') ∧
      Stored types data index status' ∧
      ∀ x, x / gd25BlockPages = index → latest types data (pageNumber status') x =
        if sector < x then latest (s.pages block) (s.contents block) (pageNumber blockStatus) x
        else latest (s.pages newBlock) (s.contents newBlock) (pageNumber status) x := by
  have hplace := sector_eq hsector
  have hoffset : sector % gd25BlockPages < gd25BlockPages := Nat.mod_lt sector (by decide)
  rw [copyRest]
  split
  · rename_i hrest
    have hcopy := dataPageCopy_spec (k := sector % gd25BlockPages + 1)
      (m := gd25BlockPages - 1 - sector % gd25BlockPages) hnew hroom (by omega)
      (fun o ho => hnone _ (by omega)) hne hstored (by omega)
    rw [← Nat.add_assoc, hplace] at hcopy
    obtain ⟨types, data, status', hcopy, hcopied, -, hvalue⟩ := hcopy
    refine ⟨types, data, status', hcopy, hcopied, fun x hx => ?_⟩
    have hend : x < index * gd25BlockPages + gd25BlockPages := by
      have hxplace := sector_eq hx
      have hxlt : x % gd25BlockPages < gd25BlockPages := Nat.mod_lt x (by decide)
      omega
    rw [hvalue]
    exact if_congr (by omega) rfl rfl
  · rename_i hlast
    refine ⟨s.pages newBlock, s.contents newBlock, status, by rw [withBlock_self], hnew, fun x hx => ?_⟩
    have hxplace := sector_eq hx
    have hxlt : x % gd25BlockPages < gd25BlockPages := Nat.mod_lt x (by decide)
    rw [if_neg (by omega)]

/-- All sectors of a logical block but the addressed one, to an erased block. -/
theorem copyOthers_spec {newBlock : ℕ} (hne : block ≠ newBlock) (hsector : sector / gd25BlockPages = index)
    {blockStatus : BitVec 16} (hstored : Stored (s.pages block) (s.contents block) index blockStatus)
    (herased : ∀ page, s.pages newBlock page = .free) :
    ∃ u status types contents status',
      dataPageCopy s (sector - sector % gd25BlockPages) block blockStatus newBlock lxNandBlockStatusAllocated
        (sector % gd25BlockPages) = (u, status) ∧
      copyRest u sector block blockStatus newBlock status = (withBlock s newBlock types contents, status') ∧
      Stored types contents index status' ∧
      ∀ x, x / gd25BlockPages = index → latest types contents (pageNumber status') x =
        if x = sector then allOnes else latest (s.pages block) (s.contents block) (pageNumber blockStatus) x := by
  have hplace := sector_eq hsector
  have hoffset : sector % gd25BlockPages < gd25BlockPages := Nat.mod_lt sector (by decide)
  obtain ⟨types, contents, status, hcopy, hcopied, hroom, hvalue⟩ := dataPageCopy_erased (s := s)
    hne hstored herased hoffset.le
  rw [show index * gd25BlockPages = sector - sector % gd25BlockPages by omega] at hcopy hvalue
  have hrest := copyRest_spec (s := withBlock s newBlock types contents) blockStatus status hne hsector
    (by rwa [withBlock_pages_of_ne hne, withBlock_contents_of_ne hne])
    (by rwa [withBlock_pages_self, withBlock_contents_self]) (by omega) (fun x hx => by
      rw [withBlock_pages_self, withBlock_contents_self, hvalue, if_neg (by omega)])
  simp only [withBlock_withBlock, withBlock_pages_self, withBlock_contents_self, withBlock_pages_of_ne hne,
    withBlock_contents_of_ne hne] at hrest
  obtain ⟨types', contents', status', hcopy', hcopied', hvalue'⟩ := hrest
  refine ⟨_, status, types', contents', status', hcopy, hcopy', hcopied', fun x hx => ?_⟩
  have hfrom := sector_eq hx
  rw [hvalue' x hx, hvalue]
  by_cases heq : x = sector
  · rw [if_neg (by omega), if_neg (by omega), if_pos heq]
  · rw [if_neg heq]
    split
    · rfl
    · rw [if_pos (by omega)]

theorem writeRest_spec {newBlock : ℕ} (hne : block ≠ newBlock) (hsector : sector / gd25BlockPages = index)
    {blockStatus status : BitVec 16} (hstored : Stored (s.pages block) (s.contents block) index blockStatus)
    (hnew : Stored (s.pages newBlock) (s.contents newBlock) index status)
    (hroom : pageNumber status ≤ sector % gd25BlockPages) (data : PageData)
    (hnone : ∀ x, sector < x → latest (s.pages newBlock) (s.contents newBlock) (pageNumber status) x = allOnes) :
    ∃ u status' types contents status'',
      sectorPageWrite s sector data newBlock status = (u, status') ∧
      copyRest u sector block blockStatus newBlock status' = (withBlock s newBlock types contents, status'') ∧
      Stored types contents index status'' ∧
      ∀ x, x / gd25BlockPages = index → latest types contents (pageNumber status'') x =
        if x = sector then data
        else if sector < x then latest (s.pages block) (s.contents block) (pageNumber blockStatus) x
        else latest (s.pages newBlock) (s.contents newBlock) (pageNumber status) x := by
  have hoffset : sector % gd25BlockPages < gd25BlockPages := Nat.mod_lt sector (by decide)
  obtain ⟨types, contents, status', hwrite, hwritten, hnumber, hvalue⟩ :=
    sectorPageWrite_spec hnew (by omega) hsector data
  have hrest := copyRest_spec (s := withBlock s newBlock types contents) blockStatus status' hne hsector
    (by rwa [withBlock_pages_of_ne hne, withBlock_contents_of_ne hne])
    (by rwa [withBlock_pages_self, withBlock_contents_self]) (by omega) (fun x hx => by
      rw [withBlock_pages_self, withBlock_contents_self, hvalue, if_neg hx.ne', hnone x hx])
  simp only [withBlock_withBlock, withBlock_pages_self, withBlock_contents_self, withBlock_pages_of_ne hne,
    withBlock_contents_of_ne hne] at hrest
  obtain ⟨types', contents', status'', hcopy, hcopied, hvalue'⟩ := hrest
  refine ⟨_, status', types', contents', status'', hwrite, hcopy, hcopied, fun x hx => ?_⟩
  rw [hvalue' x hx, hvalue]
  by_cases heq : x = sector
  · rw [if_neg (by omega), if_pos heq, if_pos heq]
  · rw [if_neg heq, if_neg heq]

/-- The status of a block in hand that its logical block is mapped to already. -/
theorem placed_of_status (hup : Upholds advance kept ready) (h : Accounted (block :: hand) (kept s) (index :: busy) s)
    (hmapped : s.blockMappingTable index = some block) (hlisted : index ∉ s.mappedBlockList)
    (hout : ∀ l, R l → l ∉ s.mappedBlockList) {status : BitVec 16}
    (hstored : Stored (s.pages block) (s.contents block) index status) (hready : ready (k + 1) s) :
    Placed kept ready hand busy R k index (latest (s.pages block) (s.contents block) (pageNumber status)) s
        (blockStatusSet advance s block status) ∧
      (blockStatusSet advance s block status).blockMappingTable index = some block := by
  have hblock : block ∈ block :: hand := List.mem_cons_self
  obtain ⟨hset, hsame, hstatus⟩ := hup.setStatus h (R := fun l => R l ∨ l = index)
    (fun l hl => hl.elim (hout l) fun heq => heq ▸ hlisted) status hready
  generalize blockStatusSet advance s block status = t at hset hsame hstatus ⊢
  have hpages : t.pages block = s.pages block := hset.undisturbed.pages block hblock
  have hcontents : t.contents block = s.contents block := hset.undisturbed.contents block hblock
  have hmapped' : t.blockMappingTable index = some block := (hsame.mapping index (Or.inr rfl)).trans hmapped
  refine ⟨⟨hset.accounted.checkIn hmapped' (by rwa [hpages, hcontents, hstatus]), ?_, fun x hx => ?_,
    hsame.unlisted index (Or.inr rfl) hlisted, hset.ready⟩, hmapped'⟩
  · exact hsame.mono (List.Subset.refl hand) (List.Subset.refl _) fun _ => Or.inl
  · rw [value_mapped hx hmapped', hpages, hcontents, hstatus]

/-- A change is complete: what the sectors hold then. -/
structure Changed (hand : List ℕ) (kept : Store → List ℕ) (ready : ℕ → Store → Prop) (content : ℕ → PageData)
    (s t : Store) : Prop where
  accounted : Accounted hand (kept t) [] t
  totalBlocks : t.totalBlocks = s.totalBlocks
  held : ∀ b ∈ hand, t.pages b = s.pages b ∧ t.contents b = s.contents b ∧
    t.blockStatusTable b = s.blockStatusTable b
  value : ∀ x, value t x = content x
  ready : ready 0 t

theorem Changed.of_placed {t : Store} {content : ℕ → PageData} (h : Placed kept ready hand [] R 0 index content s t) :
    Changed hand kept ready (fun x => if x / gd25BlockPages = index then content x else Custody.value s x) s t := by
  refine ⟨h.accounted, h.undisturbed.totalBlocks, fun b => h.undisturbed.held, fun x => ?_, h.ready⟩
  split
  · rename_i hx
    exact h.value x hx
  · rename_i hx
    exact h.undisturbed.value x fun hin => hx (List.mem_singleton.mp hin)

theorem Changed.list (hup : Upholds advance kept ready) {t : Store} {content : ℕ → PageData}
    (h : Changed hand kept ready content s t) (hlt : index < s.totalBlocks) (hunlisted : index ∉ t.mappedBlockList)
    (hmapped : t.blockMappingTable index ≠ none) : Changed hand kept ready content s (mappedBlockListAdd t index) := by
  have haside := Aside.mappedBlockListAdd (kept t) t index
  have hadd : Undisturbed hand [] (fun _ => False) t (mappedBlockListAdd t index) := Undisturbed.mappedBlockListAdd id
  refine ⟨?_, hadd.totalBlocks.trans h.totalBlocks, fun b hb => ?_, fun x => ?_, hup.aside haside h.ready⟩
  · rw [hup.aside_kept haside]
    exact h.accounted.list List.not_mem_nil (h.totalBlocks ▸ hlt) hunlisted hmapped
  · obtain ⟨hpages, hcontents, hstatus⟩ := hadd.held hb
    rw [hpages, hcontents, hstatus]
    exact h.held b hb
  · rw [hadd.value x List.not_mem_nil, h.value]

theorem placed_retire (hup : Upholds advance kept ready) {t : Store} {content : ℕ → PageData}
    (h : Placed kept ready (block :: hand) busy R (k + 5) index content s t) (hbusy : index ∉ busy)
    (hout : ∀ l, R l → l ∉ s.mappedBlockList) :
    Placed kept ready hand busy R k index content s (retire advance t block) ∧
      (retire advance t block).blockMappingTable index = t.blockMappingTable index := by
  have hretire := hup.retire h.accounted (R := fun l => R l ∨ l = index)
    (fun l hl => hl.elim (fun hin => h.undisturbed.unlisted l hin (hout l hin)) fun heq => heq ▸ h.unlisted) h.ready
  refine ⟨⟨hretire.accounted, ?_, fun x hx => ?_, hretire.undisturbed.unlisted index (Or.inr rfl) h.unlisted,
    hretire.ready⟩, hretire.undisturbed.mapping index (Or.inr rfl)⟩
  · exact h.undisturbed.shrink.trans
      (hretire.undisturbed.mono (List.Subset.refl hand) (List.subset_cons_self index busy) fun _ => Or.inl)
  · rw [hretire.undisturbed.value x (hx ▸ hbusy), h.value x hx]

theorem Changed.of_rewrite (hup : Upholds advance kept ready) (h : Accounted hand (kept s) [] s)
    (hsector : sector / gd25BlockPages = index) (hmapped : s.blockMappingTable index = some block)
    {types : ℕ → PageType} {contents : ℕ → PageData} {status : BitVec 16}
    (hstored : Stored types contents index status) {data : PageData}
    (hvalue : ∀ x, latest types contents (pageNumber status) x =
      if x = sector then data else latest (s.pages block) (s.contents block) (pageNumber (s.blockStatusTable block)) x)
    (hready : ready 1 s) :
    Changed hand kept ready (Function.update (Custody.value s) sector data) s
      (blockStatusSet advance (withBlock s block types contents) block status) := by
  have hbusy : index ∉ ([] : List ℕ) := List.not_mem_nil
  have hheld := h.mapped_held index hbusy block hmapped
  have hkept : block ∉ kept s := fun hin => hheld (List.mem_append_right hand hin)
  have haside := Aside.withBlock (s := s) hkept types contents
  have hset := hup.status (s := withBlock s block types contents) (R := fun _ => False) status
    (by rw [hup.aside_kept haside]; exact h.rewrite hbusy hmapped hstored) (fun _ hl => hl.elim)
    (h.mapped_lt index hbusy block hmapped) (by rwa [hup.aside_kept haside]) (hup.aside haside hready)
  refine ⟨hset.accounted, hset.undisturbed.totalBlocks, fun b hb => ?_, fun x => ?_, hset.ready⟩
  · have hne : b ≠ block := fun heq => hheld (List.mem_append_left _ (heq ▸ hb))
    obtain ⟨hpages, hcontents, hstatus⟩ := hset.undisturbed.held hb
    rw [hpages, hcontents, hstatus]
    exact ⟨withBlock_pages_of_ne hne types contents, withBlock_contents_of_ne hne types contents,
      Function.update_of_ne hne _ _⟩
  rw [hset.undisturbed.value x List.not_mem_nil]
  by_cases hindex : x / gd25BlockPages = index
  · rw [value_mapped (s := withStatus (withBlock s block types contents) block status) hindex hmapped]
    simp only [withStatus, withBlock_pages_self, withBlock_contents_self, Function.update_self, hvalue]
    split
    · rename_i hx
      rw [hx, Function.update_self]
    · rename_i hx
      rw [Function.update_of_ne hx, value_mapped hindex hmapped]
  · have hx : x ≠ sector := fun heq => hindex (heq ▸ hsector)
    rw [Function.update_of_ne hx]
    refine value_congr rfl fun b hb => ?_
    have hne : b ≠ block := fun heq => hindex (h.mapped_once _ List.not_mem_nil index hbusy block (heq ▸ hb) hmapped)
    exact ⟨withBlock_pages_of_ne hne types contents, withBlock_contents_of_ne hne types contents,
      Function.update_of_ne hne _ _⟩

/-! ## Writes -/

/-- What a write has to make of the sectors. -/
def written (s : Store) (sector : ℕ) (data : PageData) : ℕ → PageData := Function.update (value s) sector data

/-- The first free block has been taken for a logical block that is not listed meanwhile. -/
def opened (s : Store) (index : ℕ) (rest : List ℕ) : Store :=
  { s with freeBlockList := rest, mappedBlockList := s.mappedBlockList.erase index }

theorem opened_spec (hup : Upholds advance kept ready) (h : Accounted hand (kept s) [] s) {newBlock : ℕ}
    {rest : List ℕ} (hfree : s.freeBlockList = newBlock :: rest) (hmapped : s.blockMappingTable index = some block)
    (hready : ready k { s with freeBlockList := rest }) :
    Accounted (newBlock :: block :: hand) (kept (opened s index rest)) [index] (opened s index rest) ∧
      ready k (opened s index rest) ∧
      Undisturbed (block :: hand) [index] (fun _ => False) s (opened s index rest) ∧
      index ∉ (opened s index rest).mappedBlockList := by
  have hcheck := (h.take hfree).checkOut List.not_mem_nil hmapped
  have hkept : kept (opened s index rest) = kept s := hup.kept_eq rfl rfl
  refine ⟨?_, hup.aside (Aside.setList _ _ _) hready, ?_, fun hin => (h.listed_nodup.mem_erase_iff.mp hin).1 rfl⟩
  · rw [hkept]
    exact hcheck.perm (List.Perm.swap newBlock block hand)
  · exact (Undisturbed.setFree (block :: hand) [index] _ s rest).trans (Undisturbed.setList fun _ hl => hl.elim)

section Write
variable (hup : Upholds advance kept ready) (h : Accounted hand (kept s) [] s)
  (hsector : sector / gd25BlockPages = index) (hlt : index < s.totalBlocks)
include hup h hsector hlt

theorem sectorWrite_unmapped {rest : List ℕ} (hfree : s.freeBlockList = block :: rest)
    (hmapped : s.blockMappingTable index = none) (data : PageData)
    (hready : ready 2 { s with freeBlockList := rest }) :
    (sectorWrite advance s sector data).1 = .success ∧
      Changed hand kept ready (written s sector data) s (sectorWrite advance s sector data).2 := by
  have hblock : block ∈ block :: hand := List.mem_cons_self
  have hlisted : index ∉ s.mappedBlockList := fun hin => h.listed_mapped index hin hmapped
  have hkept : kept { s with freeBlockList := rest } = kept s := hup.kept_eq rfl rfl
  have htake := (h.take hfree).checkOutUnlisted hlisted
  rw [← hkept] at htake
  have herased := h.free_erased block (hfree ▸ List.mem_cons_self)
  have hmap := hup.mapping (s := { s with freeBlockList := rest }) (some block) hsector
    (htake.withMapping List.mem_cons_self (some block)) (R := fun l => l = index) (fun l hl => hl ▸ hlisted) hlt
    (fun b hb => Option.some.inj hb ▸ htake.held_lt block List.mem_cons_self) hready
  rw [sectorWrite, blockFind_unmapped (hsector ▸ hlt) (hsector ▸ hmapped), blockAllocate_cons hfree, hsector]
  dsimp only
  generalize blockMappingSet advance { s with freeBlockList := rest } sector (some block) = t at hmap ⊢
  have hmappedTo : t.blockMappingTable index = some block :=
    (hmap.undisturbed.mapping index rfl).trans (Function.update_self ..)
  have hfresh : block ∉ hand := fun hin => (List.nodup_cons.mp htake.held_nodup).1 (List.mem_append_left _ hin)
  have hempty (page : ℕ) : t.pages block page = .free := by
    rw [hmap.undisturbed.pages block hblock]
    exact herased page
  obtain ⟨types, contents, status, hwrite, hstored, -, hvalue⟩ := sectorPageWrite_spec
    (Stored.allocated hempty (t.contents block) index) (by decide) hsector data
  rw [hwrite]
  dsimp only
  have haside := Aside.withBlock (s := t) (hmap.accounted.hand_kept hblock) types contents
  obtain ⟨hplaced, hplace⟩ := placed_of_status (s := withBlock t block types contents) (R := fun _ => False) hup
    (by rw [hup.aside_kept haside]; exact hmap.accounted.withBlock hblock types contents) hmappedTo
    (hmap.undisturbed.unlisted index rfl hlisted) (fun _ hl => hl.elim)
    (by rwa [withBlock_pages_self, withBlock_contents_self]) (hup.aside haside hmap.ready)
  have hframe : Undisturbed hand [index] (fun _ => False) s (withBlock t block types contents) :=
    ((Undisturbed.setFree hand [index] (fun _ => False) s rest).trans
      (Undisturbed.withMapping List.mem_cons_self id (some block))).trans
      ((hmap.undisturbed.shrink.mono (List.Subset.refl _) (List.Subset.refl _) fun _ hl => hl.elim).trans
        (Undisturbed.withBlock hmap.accounted hblock hfresh types contents))
  have hplaced' : Placed kept ready hand [] (fun _ => False) 0 index _ s _ :=
    { hplaced with undisturbed := hframe.trans hplaced.undisturbed }
  have hchanged := (Changed.of_placed hplaced').list hup hlt hplaced'.unlisted (by simp [hplace])
  refine ⟨rfl, { hchanged with value := fun x => (hchanged.value x).trans ?_ }⟩
  rw [written, withBlock_pages_self, withBlock_contents_self, hvalue]
  by_cases hx : x = sector
  · subst hx
    rw [if_pos hsector, if_pos rfl, Function.update_self]
  · rw [Function.update_of_ne hx, if_neg hx]
    split
    · rename_i hindex
      rw [value, hindex, hmapped]
      rfl
    · rfl

variable (advance) in
omit hup in
theorem sectorWrite_next (hmapped : s.blockMappingTable index = some block)
    (hroom : s.blockStatusTable block &&& lxNandBlockStatusFull = 0) (data : PageData) :
    ∃ types contents status, sectorWrite advance s sector data =
        (.success, blockStatusSet advance (withBlock s block types contents) block status) ∧
      Stored types contents index status ∧ pageNumber status = pageNumber (s.blockStatusTable block) + 1 ∧
      ∀ x, latest types contents (pageNumber status) x = if x = sector then data
        else latest (s.pages block) (s.contents block) (pageNumber (s.blockStatusTable block)) x := by
  have hstored := h.mapped_stored index List.not_mem_nil block hmapped
  obtain ⟨types, contents, status, hwrite, hspec⟩ := sectorPageWrite_spec hstored (hstored.room hroom) hsector data
  refine ⟨types, contents, status, ?_, hspec⟩
  rw [sectorWrite, blockFind_mapped hsector hlt hmapped]
  dsimp only
  rw [if_neg (not_not.mpr hroom), hwrite]

theorem sectorWrite_room (hmapped : s.blockMappingTable index = some block)
    (hroom : s.blockStatusTable block &&& lxNandBlockStatusFull = 0) (data : PageData) (hready : ready 1 s) :
    (sectorWrite advance s sector data).1 = .success ∧
      Changed hand kept ready (written s sector data) s (sectorWrite advance s sector data).2 := by
  obtain ⟨types, contents, status, hwrite, hstored', -, hvalue⟩ :=
    sectorWrite_next advance h hsector hlt hmapped hroom data
  rw [hwrite]
  exact ⟨rfl, Changed.of_rewrite hup h hsector hmapped hstored' hvalue hready⟩

theorem sectorWrite_full {newBlock : ℕ} {rest : List ℕ} (hfree : s.freeBlockList = newBlock :: rest)
    (hmapped : s.blockMappingTable index = some block)
    (hfull : s.blockStatusTable block &&& lxNandBlockStatusFull ≠ 0) (data : PageData)
    (hready : ready 7 { s with freeBlockList := rest }) :
    (sectorWrite advance s sector data).1 = .success ∧
      Changed hand kept ready (written s sector data) s (sectorWrite advance s sector data).2 := by
  obtain ⟨hopened, hready, hframe, hlisted⟩ := opened_spec hup h hfree hmapped hready
  have hstored := h.mapped_stored index List.not_mem_nil block hmapped
  have herased := h.free_erased newBlock (hfree ▸ List.mem_cons_self)
  have hplace := sector_eq hsector
  have hoffset : sector % gd25BlockPages < gd25BlockPages := Nat.mod_lt sector (by decide)
  have hstart : sector - sector % gd25BlockPages = index * gd25BlockPages := by omega
  have hnew : newBlock ∈ (newBlock :: block :: hand) := List.mem_cons_self
  have hold : block ∈ (newBlock :: block :: hand) := List.mem_cons_of_mem _ List.mem_cons_self
  have hfresh : newBlock ∉ block :: hand := fun hin =>
    (List.nodup_cons.mp hopened.held_nodup).1 (List.mem_append_left _ hin)
  have hne : block ≠ newBlock := fun heq => hfresh (heq ▸ List.mem_cons_self)
  rw [sectorWrite, blockFind_mapped hsector hlt hmapped]
  dsimp only
  rw [if_pos hfull, blockAllocate_cons hfree, hsector]
  dsimp only
  rw [show mappedBlockListRemove { s with freeBlockList := rest } index = opened s index rest from rfl, hstart]
  -- The sectors before the addressed one.
  obtain ⟨types, contents, status, hcopy, hcopied, hroom, hvalue⟩ := dataPageCopy_erased (s := opened s index rest)
    hne hstored herased hoffset.le
  rw [hcopy]
  dsimp only
  have haside := Aside.withBlock (s := opened s index rest) (hopened.hand_kept hnew) types contents
  have hcopiedAccounted := hopened.withBlock hnew types contents
  rw [← hup.aside_kept haside] at hcopiedAccounted
  have hmap := hup.mapping (some newBlock) hsector (hcopiedAccounted.withMapping List.mem_cons_self (some newBlock))
    (R := fun l => l = index) (fun l hl => hl ▸ hlisted) hlt
    (fun b hb => Option.some.inj hb ▸ hcopiedAccounted.held_lt newBlock List.mem_cons_self) (hup.aside haside hready)
  generalize blockMappingSet advance (withBlock (opened s index rest) newBlock types contents) sector
    (some newBlock) = t at hmap ⊢
  have hmappedTo : t.blockMappingTable index = some newBlock :=
    (hmap.undisturbed.mapping index rfl).trans (Function.update_self ..)
  have hlisted' : index ∉ t.mappedBlockList := hmap.undisturbed.unlisted index rfl hlisted
  have hnewPages := hmap.undisturbed.pages newBlock hnew
  have hnewContents := hmap.undisturbed.contents newBlock hnew
  have holdPages := hmap.undisturbed.pages block hold
  have holdContents := hmap.undisturbed.contents block hold
  simp only [withMapping, withBlock_pages_self, withBlock_contents_self, withBlock_pages_of_ne hne,
    withBlock_contents_of_ne hne] at hnewPages hnewContents holdPages holdContents
  -- The addressed sector and those behind it.
  have hrest := writeRest_spec (s := t) hne hsector (holdPages ▸ holdContents ▸ hstored)
    (hnewPages ▸ hnewContents ▸ hcopied) hroom data (fun x hx => by
      rw [hnewPages, hnewContents, hvalue, if_neg (by omega)])
  obtain ⟨u, status', types', contents', status'', hwrite, hcopy', hwritten, hvalue'⟩ := hrest
  rw [hwrite]
  dsimp only
  rw [hcopy']
  dsimp only
  have haside' := Aside.withBlock (s := t) (hmap.accounted.hand_kept hnew) types' contents'
  obtain ⟨hplaced, hmappedTo'⟩ := placed_of_status (s := withBlock t newBlock types' contents') (R := fun _ => False) hup
    (by rw [hup.aside_kept haside']; exact hmap.accounted.withBlock hnew types' contents') hmappedTo hlisted'
    (fun _ hl => hl.elim) (by rwa [withBlock_pages_self, withBlock_contents_self]) (hup.aside haside' hmap.ready)
  have hframe' : Undisturbed (block :: hand) [index] (fun _ => False) s (withBlock t newBlock types' contents') := by
    have hfirst : Undisturbed (block :: hand) [index] (fun _ => False) (opened s index rest)
        (withBlock (opened s index rest) newBlock types contents) :=
      Undisturbed.withBlock hopened hnew hfresh types contents
    have hlast : Undisturbed (block :: hand) [index] (fun _ => False) t (withBlock t newBlock types' contents') :=
      Undisturbed.withBlock hmap.accounted hnew hfresh types' contents'
    exact (((hframe.trans hfirst).trans (Undisturbed.withMapping List.mem_cons_self id (some newBlock))).trans
      (hmap.undisturbed.shrink.mono (List.Subset.refl _) (List.Subset.refl _) fun _ hl => hl.elim)).trans hlast
  have hplaced' : Placed kept ready (block :: hand) [] (fun _ => False) 5 index _ s _ :=
    { hplaced with undisturbed := hframe'.trans hplaced.undisturbed }
  obtain ⟨hretired, hkeeps⟩ := placed_retire hup hplaced' List.not_mem_nil fun _ hl => hl.elim
  have hchanged := (Changed.of_placed hretired).list hup hlt hretired.unlisted (by simp [hkeeps, hmappedTo'])
  refine ⟨rfl, { hchanged with value := fun x => (hchanged.value x).trans ?_ }⟩
  rw [written, withBlock_pages_self, withBlock_contents_self]
  by_cases hx : x = sector
  · rw [hx, if_pos hsector, hvalue' sector hsector, if_pos rfl, Function.update_self]
  · rw [Function.update_of_ne hx]
    split
    · rename_i hindex
      have hfrom := sector_eq hindex
      rw [hvalue' x hindex, if_neg hx, holdPages, holdContents, hnewPages, hnewContents, hvalue,
        value_mapped hindex hmapped]
      split
      · rfl
      · rw [if_pos (by omega)]
        rfl
    · rfl

/-- A write takes a free block at most, and fails for want of one only. -/
theorem sectorWrite_spec (data : PageData) (hfree : s.freeBlockList ≠ []) (hready : ready 1 s)
    (hready' : ∀ b rest, s.freeBlockList = b :: rest → ready 7 { s with freeBlockList := rest }) :
    (sectorWrite advance s sector data).1 = .success ∧
      Changed hand kept ready (written s sector data) s (sectorWrite advance s sector data).2 := by
  obtain ⟨newBlock, rest, hlist⟩ := List.exists_cons_of_ne_nil hfree
  have htaken := hready' newBlock rest hlist
  cases hmapped : s.blockMappingTable index with
  | none =>
    exact sectorWrite_unmapped hup h hsector hlt hlist hmapped data
      (hup.mono (hup.mono (hup.mono (hup.mono (hup.mono htaken)))))
  | some block =>
    by_cases hfull : s.blockStatusTable block &&& lxNandBlockStatusFull = 0
    · exact sectorWrite_room hup h hsector hlt hmapped hfull data hready
    · exact sectorWrite_full hup h hsector hlt hlist hmapped hfull data htaken

end Write

/-! ## Releases -/

/-- What a release has to make of the sectors. -/
def released (s : Store) (sector : ℕ) : ℕ → PageData := Function.update (value s) sector allOnes

theorem value_of_not_releasable {kept : List ℕ} (h : Accounted hand kept [] s) (hsector : sector / gd25BlockPages = index)
    (hmapped : s.blockMappingTable index = some block)
    (hreleasable : releasable s sector block (s.blockStatusTable block) = false) : value s sector = allOnes := by
  have hstored := h.mapped_stored index List.not_mem_nil block hmapped
  rw [value_mapped hsector hmapped]
  rw [releasable, hstored.availablePages_eq] at hreleasable
  split at hreleasable
  · cases hfind : findPage s.toVolume block (pageNumber (s.blockStatusTable block)) sector with
    | none => exact find_none hfind
    | some page =>
      obtain ⟨hpage, htype, hlatest⟩ := latest_of_find (s.contents block) hfind
      have hnot : s.pages block page ≠ .userData sector := by
        simpa using List.any_eq_false.mp hreleasable page (List.mem_range.mpr hpage)
      rw [hlatest]
      cases hcase : s.pages block page with
      | userData x => simp_all [PageType.sector?]
      | userDataReleased x => exact hstored.filled.released page hpage x hcase
      | _ => simp [hcase, PageType.sector?] at htype
  · rename_i hflag
    rw [nonSequential_ne_zero, Bool.not_eq_true] at hflag
    rw [(hstored.inOrder hflag).latest_eq hsector, if_neg (by simpa using hreleasable)]

section Release
variable (hup : Upholds advance kept ready) (h : Accounted hand (kept s) [] s)
  (hsector : sector / gd25BlockPages = index) (hlt : index < s.totalBlocks)
include hup h hsector hlt

theorem sectorRelease_room (hmapped : s.blockMappingTable index = some block)
    (hroom : s.blockStatusTable block &&& lxNandBlockStatusFull = 0)
    (hreleasable : releasable s sector block (s.blockStatusTable block) = true) (hready : ready 1 s) :
    (sectorRelease advance s sector).1 = .success ∧
      Changed hand kept ready (released s sector) s (sectorRelease advance s sector).2 := by
  have hstored := h.mapped_stored index List.not_mem_nil block hmapped
  obtain ⟨types, contents, status, hwrite, hstored', -, hvalue⟩ :=
    releasedPageWrite_spec hstored (hstored.room hroom) hsector
  rw [sectorRelease, blockFind_mapped hsector hlt hmapped]
  dsimp only
  rw [if_pos hreleasable, if_neg (not_not.mpr hroom), hwrite]
  exact ⟨rfl, Changed.of_rewrite hup h hsector hmapped hstored' hvalue hready⟩

theorem sectorRelease_full {newBlock : ℕ} {rest : List ℕ} (hfree : s.freeBlockList = newBlock :: rest)
    (hmapped : s.blockMappingTable index = some block)
    (hfull : s.blockStatusTable block &&& lxNandBlockStatusFull ≠ 0)
    (hreleasable : releasable s sector block (s.blockStatusTable block) = true)
    (hready : ready 7 { s with freeBlockList := rest }) :
    (sectorRelease advance s sector).1 = .success ∧
      Changed hand kept ready (released s sector) s (sectorRelease advance s sector).2 := by
  obtain ⟨hopened, hready, hframe, hlisted⟩ := opened_spec hup h hfree hmapped hready
  have hstored := h.mapped_stored index List.not_mem_nil block hmapped
  have herased := h.free_erased newBlock (hfree ▸ List.mem_cons_self)
  have hnew : newBlock ∈ (newBlock :: block :: hand) := List.mem_cons_self
  have hfresh : newBlock ∉ block :: hand := fun hin =>
    (List.nodup_cons.mp hopened.held_nodup).1 (List.mem_append_left _ hin)
  have hne : block ≠ newBlock := fun heq => hfresh (heq ▸ List.mem_cons_self)
  rw [sectorRelease, blockFind_mapped hsector hlt hmapped]
  dsimp only
  rw [if_pos hreleasable, if_pos hfull, blockAllocate_cons hfree, hsector]
  dsimp only
  rw [show mappedBlockListRemove { s with freeBlockList := rest } index = opened s index rest from rfl]
  obtain ⟨u, status, types, contents, status', hcopy, hrest, hcopied, hvalue⟩ := copyOthers_spec
    (s := opened s index rest) hne hsector hstored herased
  rw [hcopy]
  dsimp only
  rw [hrest]
  dsimp only
  have haside := Aside.withBlock (s := opened s index rest) (hopened.hand_kept hnew) types contents
  have haccounted := hopened.withBlock hnew types contents
  rw [← hup.aside_kept haside] at haccounted
  replace hready := hup.aside haside hready
  replace hframe : Undisturbed (block :: hand) [index] (fun _ => False) s (withBlock (opened s index rest) newBlock types contents) :=
    hframe.trans (Undisturbed.withBlock hopened hnew hfresh types contents)
  -- What the change leaves, from what its logical block is left with.
  have hcontent {t : Store} (hchanged : Changed hand kept ready (fun x => if x / gd25BlockPages = index then
      latest types contents (pageNumber status') x else Custody.value s x) s t) :
      Changed hand kept ready (released s sector) s t := by
    refine { hchanged with value := fun x => (hchanged.value x).trans ?_ }
    rw [released]
    by_cases hx : x = sector
    · rw [hx, if_pos hsector, hvalue sector hsector, if_pos rfl, Function.update_self]
    · rw [Function.update_of_ne hx]
      split
      · rename_i hindex
        rw [hvalue x hindex, if_neg hx, value_mapped hindex hmapped]
        rfl
      · rfl
  by_cases hkept : pageNumber status' ≠ 0
  · simp only [hkept, ne_eq, not_false_eq_true, if_true]
    obtain ⟨hplaced, hplace⟩ := hup.place hsector haccounted (R := fun _ => False) hlisted hlt (fun _ hl => hl.elim) id
      (by rwa [withBlock_pages_self, withBlock_contents_self]) (k := 5) hready
    rw [withBlock_pages_self, withBlock_contents_self] at hplaced
    have hplaced' : Placed kept ready (block :: hand) [] (fun _ => False) 5 index _ s _ :=
      { hplaced with undisturbed := hframe.trans hplaced.undisturbed }
    obtain ⟨hretired, hkeeps⟩ := placed_retire hup hplaced' List.not_mem_nil fun _ hl => hl.elim
    have hchanged := (Changed.of_placed hretired).list hup hlt hretired.unlisted (by simp [hkeeps, hplace])
    exact ⟨trivial, hcontent hchanged⟩
  · rw [not_not] at hkept
    simp only [hkept, ne_eq, not_true_eq_false, if_false]
    have hempty (page : ℕ) : (withBlock (opened s index rest) newBlock types contents).pages newBlock page = .free := by
      rw [withBlock_pages_self]
      exact hcopied.filled.rest page (by omega)
    have hgive := haccounted.give hempty
    have hlist := Aside.freeBlockListAdd (kept (withBlock (opened s index rest) newBlock types contents))
      (withBlock (opened s index rest) newBlock types contents) newBlock
    have hall := Undisturbed.freeBlockListAdd (block :: hand) [index] (fun l => l = index)
      (withBlock (opened s index rest) newBlock types contents) newBlock
    rw [← hup.aside_kept hlist] at hgive
    have hplaced := hup.unmap hsector (hall.unlisted index rfl hlisted) (hall.totalBlocks ▸ hlt)
      (R := fun _ => False) (fun _ hl => hl.elim) id hgive (k := 5) (hup.mono (hup.aside hlist hready))
    have hplaced' : Placed kept ready (block :: hand) [] (fun _ => False) 5 index _ s _ :=
      { hplaced with
        undisturbed := (hframe.trans (hall.mono (List.Subset.refl _) (List.Subset.refl _) fun _ hl => hl.elim)).trans
          hplaced.undisturbed }
    obtain ⟨hretired, -⟩ := placed_retire hup hplaced' List.not_mem_nil fun _ hl => hl.elim
    refine ⟨trivial, hcontent ?_⟩
    simpa only [hkept, latest] using Changed.of_placed hretired

/-- A release takes a free block at most, and fails for want of one only. -/
theorem sectorRelease_spec (hfree : s.freeBlockList ≠ []) (hready : ready 1 s)
    (hready' : ∀ b rest, s.freeBlockList = b :: rest → ready 7 { s with freeBlockList := rest }) :
    (sectorRelease advance s sector).1 = .success ∧
      Changed hand kept ready (released s sector) s (sectorRelease advance s sector).2 := by
  -- A sector that holds nothing is left as it is.
  have hsame (hnone : value s sector = allOnes) : Changed hand kept ready (released s sector) s s := by
    refine ⟨h, rfl, fun _ _ => ⟨rfl, rfl, rfl⟩, fun x => ?_, hup.mono hready⟩
    rw [released, ← hnone, Function.update_eq_self]
  cases hmapped : s.blockMappingTable index with
  | none =>
    rw [sectorRelease, blockFind_unmapped (hsector ▸ hlt) (hsector ▸ hmapped)]
    refine ⟨rfl, hsame ?_⟩
    rw [value, hsector, hmapped]
  | some block =>
    by_cases hreleasable : releasable s sector block (s.blockStatusTable block) = true
    · by_cases hfull : s.blockStatusTable block &&& lxNandBlockStatusFull = 0
      · exact sectorRelease_room hup h hsector hlt hmapped hfull hreleasable hready
      · obtain ⟨newBlock, rest, hlist⟩ := List.exists_cons_of_ne_nil hfree
        exact sectorRelease_full hup h hsector hlt hlist hmapped hfull hreleasable (hready' newBlock rest hlist)
    · rw [sectorRelease, blockFind_mapped hsector hlt hmapped]
      dsimp only
      rw [if_neg hreleasable]
      exact ⟨rfl, hsame (value_of_not_releasable h hsector hmapped (by simpa using hreleasable))⟩

end Release

end Changes

end EtherBench.LevelX.Sectors
