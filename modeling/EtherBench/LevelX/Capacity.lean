import EtherBench.LevelX.Service

/-! # The sectors promised to FileX

`fx_app_thread_entry` formats the flash medium with a number of sectors of its own. LevelX has a block for each
logical block that has sectors, and keeps four or more for its metadata, so that the promised sectors do not fit.
-/

namespace EtherBench.LevelX.Capacity
open Nand.Device SectorStore BlockPages Custody Upkeep Sectors MetadataBlocks Remount Format Service
open NandFlash (Status pageNumber lxNandBlockStatusAllocated lxNandBlockStatusFull lxNandBlockStatusNonSequential)

def fxReservedBlocks : ℕ := 32

/-- The argument of `fx_media_format`, computed in `ULONG`. -/
def totalLogicalSectors (totalBlocks : ℕ) : ℕ :=
  (BitVec.ofNat 32 totalBlocks * BitVec.ofNat 32 gd25BlockPages - BitVec.ofNat 32 fxReservedBlocks).toNat

def blocksFor (sectors : ℕ) : ℕ := (sectors + (gd25BlockPages - 1)) / gd25BlockPages

section Writes
variable (advance : Store → Store)

def statuses (s : Store) : List (ℕ × PageData) → List Status
  | [] => []
  | (sector, data) :: rest =>
    (sectorWrite advance s sector data).1 :: statuses (sectorWrite advance s sector data).2 rest

def after (s : Store) : List (ℕ × PageData) → Store
  | [] => s
  | (sector, data) :: rest => after (sectorWrite advance s sector data).2 rest

/-- Every set of sectors that FileX may address can be written, one after the other. -/
def Writable (s : Store) : Prop :=
  ∀ writes : List (ℕ × PageData), (writes.map Prod.fst).Nodup →
    (∀ w ∈ writes, w.1 < totalLogicalSectors s.totalBlocks) → .noBlocks ∉ statuses advance s writes

/-- FileX is promised no more than LevelX can hold. -/
structure Promised (s : Store) : Prop where
  writable : Writable advance s
  data : blocksFor (totalLogicalSectors s.totalBlocks) ≤ s.freeBlockList.length
  reserved : blocksFor (totalLogicalSectors s.totalBlocks) + fxReservedBlocks ≤ s.totalBlocks

theorem statuses_append (s : Store) (writes rest : List (ℕ × PageData)) :
    statuses advance s (writes ++ rest) =
      statuses advance s writes ++ statuses advance (after advance s writes) rest := by
  induction writes generalizing s with
  | nil => rfl
  | cons w writes ih => exact congrArg _ (ih _)

end Writes

variable {hand : List ℕ} {content : ℕ → PageData} {s₀ s t : Store} {l n sector : ℕ}

/-! ## Blocks that are left -/

theorem four_le_metadataBlocks {k : ℕ} (h : Ready k s) : 4 ≤ (metadataBlocks s).length := by
  obtain ⟨number, backupNumber, next, backupNext, pre, backupPre, hs⟩ := h.settled
  rw [metadataBlocks, hs.metadata, hs.backupMetadata]
  simp only [List.length_append, List.length_cons, List.length_nil]
  omega

theorem blocks_le (h : Serves hand s₀ s content) :
    s.freeBlockList.length + (mappedBlocks s).length + 4 ≤ s.totalBlocks := by
  obtain ⟨hnodup, hlt⟩ := h.nodup_blocks
  have hle := (hnodup.subperm fun b hb => List.mem_range.mpr (hlt b hb)).length_le
  have hfour := four_le_metadataBlocks h.ready
  simp only [List.length_append, List.length_range] at hle
  omega

/-- There are fewer blocks for data than logical blocks. -/
theorem exists_unmapped (h : Serves hand s₀ s content) : ∃ l < s.totalBlocks, s.blockMappingTable l = none := by
  by_contra hall
  push Not at hall
  have hlength : (mappedBlocks s).length = s.totalBlocks := by
    rw [mappedBlocks, List.length_filterMap_eq_countP, List.countP_eq_length.mpr, List.length_range]
    exact fun l hl => Option.isSome_iff_ne_none.mpr (hall l (List.mem_range.mp hl))
  have hle := blocks_le h
  omega

/-! ## Writes to a logical block -/

def Used (s : Store) (l n : ℕ) : Prop :=
  ∃ block, s.blockMappingTable l = some block ∧ pageNumber (s.blockStatusTable block) = n

theorem blockMappingSet_room {advance : Store → Store} {block : Option ℕ}
    (hlt : sector / gd25BlockPages < s.totalBlocks) (hpage : s.metadataBlockCurrentPage + 1 < gd25BlockPages) :
    blockMappingSet advance s sector block =
      metadataPageWrite (withMapping s (sector / gd25BlockPages) block)
        (.blockMappingTable (.ofNat (sector / gd25BlockPages * 2 / gd25PageSize))) := by
  rw [blockMappingSet, if_neg (NandFlash.index_in_table hlt)]
  exact metadataWrite_room hpage

theorem blockStatusSet_room {advance : Store → Store} {block : ℕ} {status : BitVec 16}
    (hpage : s.metadataBlockCurrentPage + 1 < gd25BlockPages) :
    blockStatusSet advance s block status =
      metadataPageWrite (withStatus s block status) (.blockStatusTable (.ofNat (block * 2 / gd25PageSize))) :=
  metadataWrite_room hpage

theorem sectorPageWrite_allocated (s : Store) (sector block : ℕ) (data : PageData) :
    ∃ status, sectorPageWrite s sector data block lxNandBlockStatusAllocated =
      (driverPageWrite s block 0 (.userData sector) data, status) ∧ pageNumber status = 1 :=
  ⟨_, rfl, pageNumber_withPageNumber _ (by decide)⟩

theorem firstWrite (nested : Store → Store) (h : Serves hand s₀ s content)
    (hsector : sector / gd25BlockPages = l) (hlt : l < s.totalBlocks) (hmapped : s.blockMappingTable l = none)
    {block : ℕ} {rest : List ℕ} (hfree : s.freeBlockList = block :: rest)
    (hpage : s.metadataBlockCurrentPage + 2 < gd25BlockPages) (data : PageData) :
    let u := (sectorWrite (advanced nested) s sector data).2
    Serves hand s₀ u (Function.update content sector data) ∧
      u.metadataBlockCurrentPage = s.metadataBlockCurrentPage + 2 ∧ u.freeBlockList = rest ∧ Used u l 1 := by
  have hvalue : value s = content := funext h.value
  have hchanged := (sectorWrite_unmapped (advanced_upholds nested) h.accounted hsector hlt hfree hmapped data
    (ready_of_taken h.ready (by decide) (Or.inl hpage))).2
  rw [written, hvalue] at hchanged
  refine ⟨h.then hchanged, ?_⟩
  rw [sectorWrite, blockFind_unmapped (hsector ▸ hlt) (hsector ▸ hmapped), blockAllocate_cons hfree]
  dsimp only
  rw [blockMappingSet_room (s := { s with freeBlockList := rest }) (hsector ▸ hlt) (Nat.lt_of_succ_lt hpage), hsector]
  obtain ⟨status, hwrite, hnumber⟩ := sectorPageWrite_allocated (metadataPageWrite
    (withMapping { s with freeBlockList := rest } l (some block)) (.blockMappingTable (.ofNat (l * 2 / gd25PageSize))))
    sector block data
  rw [hwrite]
  dsimp only
  rw [blockStatusSet_room (by exact hpage), (mappedBlockListAdd_eq _ _).choose_spec]
  refine ⟨rfl, rfl, block, Function.update_self .., ?_⟩
  change pageNumber (Function.update s.blockStatusTable block status block) = 1
  rw [Function.update_self, hnumber]

theorem nextWrite (nested : Store → Store) (h : Serves hand s₀ s content)
    (hsector : sector / gd25BlockPages = l) (hlt : l < s.totalBlocks) (hused : Used s l n)
    (hn : n < gd25BlockPages) (hfree : 2 ≤ s.freeBlockList.length) (data : PageData) :
    let u := (sectorWrite (advanced nested) s sector data).2
    Serves hand s₀ u (Function.update content sector data) ∧
      (s.metadataBlockCurrentPage + 1 < gd25BlockPages → u.metadataBlockCurrentPage = s.metadataBlockCurrentPage + 1 ∧
        u.freeBlockList = s.freeBlockList ∧ Used u l (n + 1)) ∧
      (s.metadataBlockCurrentPage + 1 = gd25BlockPages → u.metadataBlockCurrentPage + 16 < gd25BlockPages) := by
  obtain ⟨block, hmapped, rfl⟩ := hused
  have hvalue : value s = content := funext h.value
  have hstored := h.accounted.mapped_stored l List.not_mem_nil block hmapped
  have hroom : s.blockStatusTable block &&& lxNandBlockStatusFull = 0 := by
    rw [← not_ne_iff, full_ne_zero, hstored.full]
    exact hn.ne
  have hready := ready_of_free h.ready (k := 1) (by decide) hfree
  have hchanged := (sectorWrite_room (advanced_upholds nested) h.accounted hsector hlt hmapped hroom data hready).2
  rw [written, hvalue] at hchanged
  refine ⟨h.then hchanged, ?_⟩
  obtain ⟨types, contents, status, hwrite, hstored', hnumber, -⟩ :=
    sectorWrite_next (advanced nested) h.accounted hsector hlt hmapped hroom data
  rw [hwrite]
  refine ⟨fun hpage => ?_, fun hpage => ?_⟩
  · rw [blockStatusSet_room (by exact hpage)]
    refine ⟨rfl, rfl, block, hmapped, ?_⟩
    change pageNumber (Function.update s.blockStatusTable block status block) = _
    rw [Function.update_self, hnumber]
  · have hkept : block ∉ metadataBlocks s := fun hin =>
      h.accounted.mapped_held l List.not_mem_nil block hmapped (List.mem_append_right _ hin)
    exact advanced_status_page nested (hready.aside (Aside.withBlock hkept types contents)) status
      (h.accounted.rewrite List.not_mem_nil hmapped hstored') (h.accounted.mapped_lt l List.not_mem_nil block hmapped)
      hkept hpage

/-! ## The writes that run out of blocks -/

def zeros : PageData := fun _ => 0

theorem zeros_ne : zeros ≠ allOnes := fun h => absurd (congrFun h 0) (by decide)

def sectorsOf (l first count : ℕ) : List (ℕ × PageData) :=
  (List.range' first count).map fun offset => (l * gd25BlockPages + offset, zeros)

theorem mem_sectorsOf {first count : ℕ} {w : ℕ × PageData} (hw : w ∈ sectorsOf l first count)
    (hend : first + count ≤ gd25BlockPages) :
    w.1 / gd25BlockPages = l ∧ w.1 % gd25BlockPages < first + count := by
  obtain ⟨offset, hoffset, rfl⟩ := List.mem_map.mp hw
  have hlt := (List.mem_range'_1.mp hoffset).2
  rw [gd25BlockPages] at *
  dsimp only
  omega

theorem nodup_sectorsOf (l first count : ℕ) : ((sectorsOf l first count).map Prod.fst).Nodup := by
  rw [sectorsOf, List.map_map]
  exact (List.nodup_range' ..).map fun a b hab => Nat.add_left_cancel hab

/-- What has been written stays. -/
def Keeps (content content' : ℕ → PageData) : Prop := ∀ x, content x ≠ allOnes → content' x ≠ allOnes

theorem keeps_update (content : ℕ → PageData) (sector : ℕ) : Keeps content (Function.update content sector zeros) := by
  intro x hx
  by_cases heq : x = sector
  · rw [heq, Function.update_self]
    exact zeros_ne
  · rwa [Function.update_of_ne heq]

theorem fill (nested : Store → Store) {first : ℕ} (count : ℕ) (h : Serves hand s₀ s content)
    (hlt : l < s.totalBlocks) (hused : Used s l first) (hend : first + (count + 1) ≤ gd25BlockPages)
    (hpage : s.metadataBlockCurrentPage + (count + 1) = gd25BlockPages) (hfree : 2 ≤ s.freeBlockList.length) :
    let u := after (advanced nested) s (sectorsOf l first (count + 1))
    (∃ content', Serves hand s₀ u content' ∧ Keeps content content') ∧
      u.metadataBlockCurrentPage + 16 < gd25BlockPages := by
  induction count generalizing s content first with
  | zero =>
    have hsector : (l * gd25BlockPages + first) / gd25BlockPages = l := by
      rw [gd25BlockPages] at *
      omega
    obtain ⟨hserves, -, hlast⟩ := nextWrite nested h hsector hlt hused (by omega) hfree zeros
    exact ⟨⟨_, hserves, keeps_update content _⟩, hlast hpage⟩
  | succ count ih =>
    have hsector : (l * gd25BlockPages + first) / gd25BlockPages = l := by
      rw [gd25BlockPages] at *
      omega
    obtain ⟨hserves, hroom, -⟩ := nextWrite nested h hsector hlt hused (by omega) hfree zeros
    obtain ⟨hpage', hfree', hused'⟩ := hroom (by omega)
    obtain ⟨⟨content', hserves', hkeeps⟩, hlast⟩ := ih hserves
      (by rwa [hserves.totalBlocks, ← h.totalBlocks]) hused' (by omega) (by omega) (by rwa [hfree'])
    exact ⟨⟨content', hserves', fun x hx => hkeeps x (keeps_update content _ x hx)⟩, hlast⟩

/-- The metadata need not move on before the free blocks have run out, or has three blocks at hand. -/
def Steady (s : Store) : Prop := s.metadataBlockCurrentPage + 2 * min s.freeBlockList.length 2 < gd25BlockPages

/-- A block goes to a logical block that has none, and the metadata moves on where it can. -/
theorem turn (nested : Store → Store) (h : Serves hand s₀ s content) (hsteady : Steady s) (hlt : l < s.totalBlocks)
    (hmapped : s.blockMappingTable l = none) (hfree : s.freeBlockList ≠ []) :
    ∃ count ≤ 5, let u := after (advanced nested) s (sectorsOf l 0 count)
      Steady u ∧ ∃ content', Serves hand s₀ u content' ∧ Keeps content content' ∧
        content' (l * gd25BlockPages) ≠ allOnes := by
  obtain ⟨block, rest, hlist⟩ := List.exists_cons_of_ne_nil hfree
  have hpage := h.ready.page_lt
  rw [Steady, hlist, List.length_cons] at hsteady
  obtain ⟨hserves, hpage', hfree', hused⟩ := firstWrite nested h
    (Nat.mul_div_cancel l (by decide) : l * gd25BlockPages / gd25BlockPages = l) hlt hmapped hlist (by omega) zeros
  have hwritten : Function.update content (l * gd25BlockPages) zeros (l * gd25BlockPages) ≠ allOnes := by
    rw [Function.update_self]
    exact zeros_ne
  by_cases hnext : s.metadataBlockCurrentPage + 2 + 2 * min rest.length 2 < gd25BlockPages
  · refine ⟨1, by decide, ?_, _, hserves, keeps_update content _, hwritten⟩
    change Steady (sectorWrite (advanced nested) s (l * gd25BlockPages) zeros).2
    rwa [Steady, hpage', hfree']
  · have htwo : 2 ≤ rest.length := by omega
    obtain ⟨count, hcount⟩ : ∃ count, s.metadataBlockCurrentPage + 2 + (count + 1) = gd25BlockPages ∧ count + 1 ≤ 4 :=
      ⟨gd25BlockPages - s.metadataBlockCurrentPage - 3, by omega, by omega⟩
    obtain ⟨⟨content', hserves', hkeeps⟩, hlast⟩ := fill nested count hserves
      (by rwa [hserves.totalBlocks, ← h.totalBlocks]) hused (by rw [gd25BlockPages]; omega) (by omega) (by rwa [hfree'])
    refine ⟨count + 2, by omega, ?_, content', hserves', fun x hx => hkeeps x (keeps_update content _ x hx),
      hkeeps _ hwritten⟩
    exact lt_of_le_of_lt (Nat.add_le_add_left (by omega) _) hlast

/-- There is always a logical block left that has no block. -/
theorem exists_new {ls : List ℕ} (h : Serves hand s₀ s content) (hls : ls.Nodup)
    (hwritten : ∀ l ∈ ls, l < s.totalBlocks ∧ content (l * gd25BlockPages) ≠ allOnes) :
    ∃ l < s.totalBlocks, s.blockMappingTable l = none ∧ l ∉ ls ∧ ls.length < s.totalBlocks := by
  obtain ⟨l, hlt, hmapped⟩ := exists_unmapped h
  have hnot : l ∉ ls := fun hin => (hwritten l hin).2 (by
    rw [← h.value, value, Nat.mul_div_cancel l (by decide), hmapped])
  have hsub : l :: ls ⊆ List.range s.totalBlocks := by
    intro l' hl'
    rw [List.mem_range]
    rcases List.mem_cons.mp hl' with rfl | hin
    · exact hlt
    · exact (hwritten l' hin).1
  have hle := ((List.nodup_cons.mpr ⟨hnot, hls⟩).subperm hsub).length_le
  rw [List.length_cons, List.length_range] at hle
  exact ⟨l, hlt, hmapped, hnot, hle⟩

theorem sectorWrite_noBlocks {advance : Store → Store} (hlt : sector / gd25BlockPages < s.totalBlocks)
    (hmapped : s.blockMappingTable (sector / gd25BlockPages) = none) (hfree : s.freeBlockList = []) (data : PageData) :
    (sectorWrite advance s sector data).1 = .noBlocks := by
  rw [sectorWrite, blockFind_unmapped hlt hmapped, blockAllocate, NandFlash.blockAllocate, hfree]
  rfl

/-- Some writes to other logical blocks than the given ones run out of blocks. -/
theorem runs_out (nested : Store → Store) (left : ℕ) {ls : List ℕ} (h : Serves hand s₀ s content)
    (hsteady : Steady s) (hls : ls.Nodup)
    (hwritten : ∀ l ∈ ls, l < s.totalBlocks ∧ content (l * gd25BlockPages) ≠ allOnes)
    (hleft : s.totalBlocks ≤ ls.length + left) :
    ∃ writes, (writes.map Prod.fst).Nodup ∧ (∀ w ∈ writes, w.1 / gd25BlockPages < s.totalBlocks ∧
      w.1 % gd25BlockPages < 5 ∧ w.1 / gd25BlockPages ∉ ls) ∧ .noBlocks ∈ statuses (advanced nested) s writes := by
  induction left generalizing s content ls with
  | zero =>
    obtain ⟨-, -, -, -, hlt⟩ := exists_new h hls hwritten
    omega
  | succ left ih =>
    obtain ⟨l, hlt, hmapped, hnot, -⟩ := exists_new h hls hwritten
    by_cases hfree : s.freeBlockList = []
    · have hindex : l * gd25BlockPages / gd25BlockPages = l := Nat.mul_div_cancel l (by decide)
      refine ⟨[(l * gd25BlockPages, zeros)], List.nodup_singleton _, fun w hw => ?_, ?_⟩
      · obtain rfl := List.mem_singleton.mp hw
        rw [hindex, Nat.mul_mod_left]
        exact ⟨hlt, by decide, hnot⟩
      · rw [statuses, sectorWrite_noBlocks (hindex.symm ▸ hlt) (hindex.symm ▸ hmapped) hfree]
        exact List.mem_cons_self
    · obtain ⟨count, hcount, hsteady', content', hserves, hkeeps, hnew⟩ :=
        turn nested h hsteady hlt hmapped hfree
      have hsame := hserves.totalBlocks.trans h.totalBlocks.symm
      obtain ⟨writes, hnodup, hwrites, hfull⟩ := ih hserves hsteady'
        (List.nodup_cons.mpr ⟨hnot, hls⟩) (fun l' hl' => by
          rw [hsame]
          rcases List.mem_cons.mp hl' with rfl | hin
          · exact ⟨hlt, hnew⟩
          · exact ⟨(hwritten l' hin).1, hkeeps _ (hwritten l' hin).2⟩)
        (by rw [hsame, List.length_cons]; omega)
      rw [hsame] at hwrites
      have hturn {w : ℕ × PageData} (hw : w ∈ sectorsOf l 0 count) := mem_sectorsOf hw (by rw [gd25BlockPages]; omega)
      refine ⟨sectorsOf l 0 count ++ writes, ?_, fun w hw => ?_, ?_⟩
      · rw [List.map_append]
        refine List.nodup_append.mpr ⟨nodup_sectorsOf l 0 count, hnodup, ?_⟩
        rintro sector hin _ hin' rfl
        obtain ⟨w, hw, rfl⟩ := List.mem_map.mp hin
        obtain ⟨w', hw', heq⟩ := List.mem_map.mp hin'
        refine (hwrites w' hw').2.2 ?_
        rw [heq, (hturn hw).1]
        exact List.mem_cons_self
      · rcases List.mem_append.mp hw with hin | hin
        · obtain ⟨hindex, hoffset⟩ := hturn hin
          exact ⟨hindex ▸ hlt, by omega, hindex ▸ hnot⟩
        · obtain ⟨hlt', hoffset, hnot'⟩ := hwrites w hin
          exact ⟨hlt', hoffset, fun hin => hnot' (List.mem_cons_of_mem l hin)⟩
      · rw [statuses_append]
        exact List.mem_append_right _ hfull

/-! ## The promise -/

theorem totalLogicalSectors_eq (hpos : 0 < n) (hmax : n ≤ gd25BlockCountNormal) :
    totalLogicalSectors n = n * gd25BlockPages - fxReservedBlocks := by
  rw [gd25BlockCountNormal] at hmax
  rw [totalLogicalSectors, gd25BlockPages, fxReservedBlocks]
  bv_omega

theorem blocksFor_total (hpos : 0 < n) (hmax : n ≤ gd25BlockCountNormal) :
    blocksFor (totalLogicalSectors n) = n := by
  rw [blocksFor, totalLogicalSectors_eq hpos hmax, gd25BlockPages, fxReservedBlocks]
  omega

theorem lt_totalLogicalSectors (hmax : n ≤ gd25BlockCountNormal) (hlt : sector / gd25BlockPages < n)
    (hoffset : sector % gd25BlockPages < 5) : sector < totalLogicalSectors n := by
  rw [totalLogicalSectors_eq (Nat.zero_lt_of_lt hlt) hmax, gd25BlockPages, fxReservedBlocks]
  rw [gd25BlockPages] at hlt hoffset
  omega

theorem length_goods (n : ℕ) : (goods (fun _ => true) n).length = n := by
  rw [goods, List.filter_true, List.length_range]

/-- FileX is promised more than any volume can hold: the reserve is taken off the sectors, and half a
block of sectors less still needs every block. -/
theorem overpromised (nested : Store → Store) (hclean : s.reprogrammed = false) (hfour : 4 ≤ s.totalBlocks)
    (htotal : s.totalBlocks ≤ gd25BlockCountNormal) : ∃ t, formatted nested (fun _ => true) s = some t ∧
      ¬ Writable (advanced nested) t ∧
      t.freeBlockList.length < blocksFor (totalLogicalSectors t.totalBlocks) ∧
      t.totalBlocks < blocksFor (totalLogicalSectors t.totalBlocks) + fxReservedBlocks := by
  obtain ⟨t, hformatted⟩ := formatted_isSome nested hclean htotal ((length_goods s.totalBlocks).ge.trans' hfour)
  obtain ⟨hserves, hsame, hpage, -⟩ := formatted_serves hclean htotal hformatted
  have hle := blocks_le hserves
  refine ⟨t, hformatted, fun hwritable => ?_, ?_⟩
  · obtain ⟨writes, hnodup, hwrites, hfull⟩ := runs_out nested t.totalBlocks hserves
      (by rw [Steady, hpage, gd25BlockPages]; omega) List.nodup_nil (fun l hl => absurd hl List.not_mem_nil)
      (by rw [List.length_nil, Nat.zero_add])
    refine hwritable writes hnodup (fun w hw => ?_) hfull
    obtain ⟨hlt, hoffset, -⟩ := hwrites w hw
    exact lt_totalLogicalSectors (hsame ▸ htotal) hlt hoffset
  · rw [blocksFor_total (by omega) (hsame ▸ htotal), fxReservedBlocks]
    omega

def fiveBlocks : Store where
  toVolume := NandFlash.initialized 5
  contents _ _ := allOnes
  reprogrammed := false

theorem overpromised_fiveBlocks : ∃ t, formatted id (fun _ => true) fiveBlocks = some t ∧
    ¬ Writable (advanced id) t ∧
    t.freeBlockList.length < blocksFor (totalLogicalSectors t.totalBlocks) ∧
    t.totalBlocks < blocksFor (totalLogicalSectors t.totalBlocks) + fxReservedBlocks :=
  overpromised id rfl (by decide) (by decide)

/-- The second block of data is missing, where FileX is promised five. -/
theorem fiveBlocks_full : ¬ ∀ t, formatted id (fun _ => true) fiveBlocks = some t → Promised (advanced id) t := by
  intro h
  have hwrites : (formatted id (fun _ => true) fiveBlocks).any fun t => t.totalBlocks = 5 ∧
      statuses (advanced id) t [(0, zeros), (gd25BlockPages, zeros)] = [.success, .noBlocks] := by
    decide +kernel
  obtain ⟨t, hformatted, ht⟩ := (Option.any_eq_true _ _).mp hwrites
  obtain ⟨htotal, hstatuses⟩ := of_decide_eq_true ht
  refine (h t hformatted).writable [(0, zeros), (gd25BlockPages, zeros)] (by decide) ?_ ?_
  · rw [htotal]
    decide
  · rw [hstatuses]
    decide

end EtherBench.LevelX.Capacity
