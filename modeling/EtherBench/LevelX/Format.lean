import EtherBench.LevelX.Remount

/-! # A fresh volume

What a format leaves on a chip, whatever has been there before: the first four good blocks are the metadata,
the other good ones are erased, and the bad ones are left alone from then on.
-/

namespace EtherBench.LevelX.Format
open Nand.Device SectorStore BlockPages Custody Upkeep Mount Recording MetadataBlocks Remount
open NandFlash (PageType initialized lxNandBlockStatusFree lxNandBlockStatusBad lxNandBlockStatusAllocated
  lxNandMaxBlockCount)

variable {good : ℕ → Bool} {s : Store}

/-! ## The loop over the blocks -/

def goods (good : ℕ → Bool) (n : ℕ) : List ℕ := (List.range n).filter good

def bads (good : ℕ → Bool) (n : ℕ) : List ℕ := (List.range n).filter fun b => !good b

/-- The store after the first blocks, with the pages that are left. -/
def scanned (good : ℕ → Bool) (s : Store) (n : ℕ) (pages : ℕ → ℕ → PageType) (contents : ℕ → ℕ → PageData) : Store :=
  { s with
    toVolume := { initialized s.totalBlocks with
      blockStatusTable := fun b => if b ∈ bads good n then lxNandBlockStatusBad else lxNandBlockStatusFree
      metadata := ⟨(goods good n)[0]?, (goods good n)[0]?.getD 0, (goods good n)[2]?, []⟩
      backupMetadata := ⟨(goods good n)[1]?, (goods good n)[1]?.getD 0, (goods good n)[3]?, []⟩
      pages := pages }
    contents := contents }

theorem goods_succ (n : ℕ) : goods good (n + 1) = if good n then goods good n ++ [n] else goods good n := by
  rw [goods, List.range_succ, List.filter_append, List.filter_singleton]
  cases good n with
  | true => rfl
  | false => exact List.append_nil _

theorem bads_succ (n : ℕ) : bads good (n + 1) = if good n then bads good n else bads good n ++ [n] := by
  rw [bads, List.range_succ, List.filter_append, List.filter_singleton]
  cases good n with
  | true => exact List.append_nil _
  | false => rfl

theorem formatBlock_bad {n : ℕ} (hgood : good n = false) (pages : ℕ → ℕ → PageType) (contents : ℕ → ℕ → PageData) :
    formatBlock good (scanned good s n pages contents) n = scanned good s (n + 1) pages contents := by
  have hstatus (b : ℕ) : (if b ∈ bads good (n + 1) then lxNandBlockStatusBad else lxNandBlockStatusFree) =
      Function.update (fun b => if b ∈ bads good n then lxNandBlockStatusBad else lxNandBlockStatusFree) n
        lxNandBlockStatusBad b := by
    rw [bads_succ, hgood]
    by_cases hb : b = n
    · simp [hb]
    · simp [hb]
  simp [formatBlock, NandFlash.formatBlock, hgood, scanned, goods_succ, hstatus]

theorem formatBlock_good {n : ℕ} (hgood : good n = true) (pages : ℕ → ℕ → PageType) (contents : ℕ → ℕ → PageData) :
    formatBlock good (scanned good s n pages contents) n =
      scanned good s (n + 1) (Function.update pages n fun _ => .free) (Function.update contents n fun _ => allOnes) := by
  rcases hgoods : goods good n with _ | ⟨a, _ | ⟨b, _ | ⟨c, _ | ⟨d, rest⟩⟩⟩⟩
  all_goals simp [formatBlock, NandFlash.formatBlock, NandFlash.driverBlockErase, hgood, scanned, goods_succ, bads_succ, hgoods]

/-- The loop knows what it has come across: good blocks are erased, bad ones noted and left alone. -/
theorem formatBlocks_eq (good : ℕ → Bool) (s : Store) (n : ℕ) : ∃ pages contents,
    (List.range n).foldl (formatBlock good) (cleared s) = scanned good s n pages contents ∧
      (∀ b ∈ goods good n, ∀ page, pages b page = .free) ∧
      ∀ b, good b = false → pages b = s.pages b ∧ contents b = s.contents b := by
  induction n with
  | zero => exact ⟨s.pages, s.contents, rfl, fun b hb => absurd hb List.not_mem_nil, fun _ _ => ⟨rfl, rfl⟩⟩
  | succ n ih =>
    obtain ⟨pages, contents, hscanned, hfree, hbad⟩ := ih
    rw [List.range_succ, List.foldl_append, List.foldl_cons, List.foldl_nil, hscanned]
    cases hgood : good n with
    | false =>
      refine ⟨pages, contents, formatBlock_bad hgood pages contents, fun b hb => hfree b ?_, hbad⟩
      rwa [goods_succ, hgood] at hb
    | true =>
      refine ⟨_, _, formatBlock_good hgood pages contents, fun b hb page => ?_, fun b hb => ?_⟩
      · by_cases hn : b = n
        · rw [hn, Function.update_self]
        · rw [Function.update_of_ne hn]
          rw [goods_succ, hgood, if_pos rfl, List.mem_append, List.mem_singleton] at hb
          exact hfree b (hb.resolve_right hn) page
      · have hne : b ≠ n := fun heq => Bool.noConfusion ((heq ▸ hb).symm.trans hgood)
        rw [Function.update_of_ne hne, Function.update_of_ne hne]
        exact hbad b hb

/-! ## The metadata -/

section Four
variable {number backupNumber next backupNext : ℕ} {rest : List ℕ}
  (hgoods : goods good s.totalBlocks = number :: backupNumber :: next :: backupNext :: rest)
include hgoods

def prepared (good : ℕ → Bool) (s : Store) (pages : ℕ → ℕ → PageType) (contents : ℕ → ℕ → PageData)
    (number backupNumber next backupNext : ℕ) : Store :=
  let t := scanned good s s.totalBlocks pages contents
  let table := Function.update t.blockStatusTable backupNext lxNandBlockStatusAllocated
  let table := Function.update table next lxNandBlockStatusAllocated
  let table := Function.update table backupNumber (BitVec.ofNat 16 backupNext)
  { t with blockStatusTable := Function.update table number (BitVec.ofNat 16 next) }

omit hgoods in
theorem mem_goods {b : ℕ} : b ∈ goods good s.totalBlocks ↔ b < s.totalBlocks ∧ good b = true := by
  rw [goods, List.mem_filter, List.mem_range]

omit hgoods in
theorem mem_bads {b : ℕ} : b ∈ bads good s.totalBlocks ↔ b < s.totalBlocks ∧ good b = false := by
  rw [bads, List.mem_filter, List.mem_range, Bool.not_eq_true']

theorem four_mem {b : ℕ} (hb : b ∈ [number, backupNumber, next, backupNext]) : b ∈ goods good s.totalBlocks := by
  rw [hgoods]
  simp at hb ⊢
  tauto

theorem four_nodup : (next :: backupNext :: bads good s.totalBlocks ++ [number, backupNumber]).Nodup := by
  have hnodup : (goods good s.totalBlocks).Nodup := List.nodup_range.filter _
  have hbads : (bads good s.totalBlocks).Nodup := List.nodup_range.filter _
  have hout {b : ℕ} (hb : b ∈ goods good s.totalBlocks) : b ∉ bads good s.totalBlocks := fun hin => by
    have hgood := (mem_goods.mp hb).2
    rw [(mem_bads.mp hin).2] at hgood
    exact Bool.noConfusion hgood
  rw [hgoods] at hnodup hout
  simp only [List.nodup_cons, List.mem_cons, not_or] at hnodup
  have h₁ := hout (b := number) (by simp)
  have h₂ := hout (b := backupNumber) (by simp)
  have h₃ := hout (b := next) (by simp)
  have h₄ := hout (b := backupNext) (by simp)
  simp [List.nodup_cons, List.nodup_append]
  grind

theorem prepared_metadata (pages : ℕ → ℕ → PageType) (contents : ℕ → ℕ → PageData) :
    (prepared good s pages contents number backupNumber next backupNext).metadata = ⟨some number, number, some next, []⟩ ∧
      (prepared good s pages contents number backupNumber next backupNext).backupMetadata =
        ⟨some backupNumber, backupNumber, some backupNext, []⟩ := by
  simp [prepared, scanned, hgoods]

theorem accounted_prepared {pages : ℕ → ℕ → PageType} (contents : ℕ → ℕ → PageData)
    (hfree : ∀ b ∈ goods good s.totalBlocks, ∀ page, pages b page = .free) (hclean : s.reprogrammed = false) :
    Accounted (next :: backupNext :: bads good s.totalBlocks) [number, backupNumber] []
      (prepared good s pages contents number backupNumber next backupNext) := by
  obtain ⟨hmetadata, hbackup⟩ := prepared_metadata (s := s) hgoods pages contents
  have hnodup := four_nodup hgoods
  have hfirst (b : ℕ) (hb : b ∈ [number, backupNumber, next, backupNext]) := four_mem hgoods hb
  have herased {b : ℕ} (hlt : b < s.totalBlocks) (hout : b ∉ next :: backupNext :: bads good s.totalBlocks ++
      [number, backupNumber]) (page : ℕ) : pages b page = .free := by
    refine hfree b (mem_goods.mpr ⟨hlt, ?_⟩) page
    rw [← Bool.not_eq_false]
    exact fun hbad => hout (by simp [mem_bads.mpr ⟨hlt, hbad⟩])
  have hempty {l b : ℕ} (hb : (prepared good s pages contents number backupNumber next backupNext).blockMappingTable l =
      some b) : False := by
    simp [prepared, scanned, initialized] at hb
  have hlists : (prepared good s pages contents number backupNumber next backupNext).freeBlockList = [] ∧
      (prepared good s pages contents number backupNumber next backupNext).mappedBlockList = [] := ⟨rfl, rfl⟩
  refine ⟨hnodup, fun b hb => ?_, List.nodup_nil, by simp [hlists], by simp [hlists], by simp [hlists],
    fun _ _ _ hb => (hempty hb).elim, fun _ _ _ hb => (hempty hb).elim, fun _ _ _ hb => (hempty hb).elim,
    fun _ _ _ _ _ hb => (hempty hb).elim, fun _ _ _ hb => (hempty hb).elim, List.nodup_nil, by simp [hlists],
    by simp [hlists], by simp [hlists], fun b hlt hout _ page => herased hlt hout page, fun b hlt hout => ?_, ?_, ?_, ?_,
    fun page _ => ?_, hclean⟩
  · change b < s.totalBlocks
    simp only [List.cons_append, List.mem_cons, List.mem_append, List.not_mem_nil, or_false] at hb
    rcases hb with rfl | rfl | hb | rfl | rfl
    · exact (mem_goods.mp (hfirst b (by simp))).1
    · exact (mem_goods.mp (hfirst b (by simp))).1
    · exact (mem_bads.mp hb).1
    · exact (mem_goods.mp (hfirst b (by simp))).1
    · exact (mem_goods.mp (hfirst b (by simp))).1
  · rw [show (prepared good s pages contents number backupNumber next backupNext).pages b 0 = .free from herased hlt hout 0]
    exact PageType.noConfusion
  · simp [hmetadata]
  · simp [hbackup]
  · rw [hmetadata, hbackup]
    have hkept := (List.nodup_append.mp hnodup).2.1
    simpa using hkept
  · rw [hmetadata, hbackup]
    exact ⟨hfree number (hfirst number (by simp)) page, hfree backupNumber (hfirst backupNumber (by simp)) page⟩

theorem prepared_status (pages : ℕ → ℕ → PageType) (contents : ℕ → ℕ → PageData)
    (htotal : s.totalBlocks ≤ gd25BlockCountNormal) :
    ∀ b ∈ next :: backupNext :: bads good s.totalBlocks ++ [number, backupNumber],
      (prepared good s pages contents number backupNumber next backupNext).blockStatusTable b ≠ lxNandBlockStatusFree := by
  have hlt {b : ℕ} (hb : b ∈ [number, backupNumber, next, backupNext]) : b < gd25BlockCountNormal :=
    lt_of_lt_of_le (mem_goods.mp (four_mem hgoods hb)).1 htotal
  have hnumber {b : ℕ} (hb : b < gd25BlockCountNormal) : BitVec.ofNat 16 b ≠ lxNandBlockStatusFree := by
    intro heq
    have hnat := congrArg BitVec.toNat heq
    rw [BitVec.toNat_ofNat, Nat.mod_eq_of_lt (lt_trans hb (by decide))] at hnat
    exact absurd (hnat ▸ hb) (by decide)
  have hallocated : lxNandBlockStatusAllocated ≠ lxNandBlockStatusFree := by decide
  have hbad : lxNandBlockStatusBad ≠ lxNandBlockStatusFree := by decide
  intro b hb
  by_cases h₁ : b = number
  · simpa [prepared, h₁] using hnumber (hlt (b := next) (by simp))
  by_cases h₂ : b = backupNumber
  · have hne : backupNumber ≠ number := h₂ ▸ h₁
    simpa [prepared, h₂, hne] using hnumber (hlt (b := backupNext) (by simp))
  by_cases h₃ : b = next
  · have hne : next ≠ number ∧ next ≠ backupNumber := ⟨h₃ ▸ h₁, h₃ ▸ h₂⟩
    simpa [prepared, h₃, hne] using hallocated
  by_cases h₄ : b = backupNext
  · have hne : backupNext ≠ number ∧ backupNext ≠ backupNumber ∧ backupNext ≠ next := ⟨h₄ ▸ h₁, h₄ ▸ h₂, h₄ ▸ h₃⟩
    simpa [prepared, h₄, hne] using hallocated
  · have hin : b ∈ bads good s.totalBlocks := by simpa [h₁, h₂, h₃, h₄] using hb
    simpa [prepared, h₁, h₂, h₃, h₄, scanned, hin] using hbad

theorem metadata_written (advance : Store → Store) {pages : ℕ → ℕ → PageType} (contents : ℕ → ℕ → PageData)
    (hfree : ∀ b ∈ goods good s.totalBlocks, ∀ page, pages b page = .free) (hclean : s.reprogrammed = false)
    (htotal : s.totalBlocks ≤ gd25BlockCountNormal) :
    let t := metadataWrite advance (metadataBuild advance
      (prepared good s pages contents number backupNumber next backupNext)) .blockLink
    Mountable (bads good s.totalBlocks) number backupNumber next backupNext [] [] t ∧ t.totalBlocks = s.totalBlocks ∧
      t.metadataBlockCurrentPage = 5 ∧ (∀ x, value t x = allOnes) ∧
      ∀ b ∈ bads good s.totalBlocks, t.pages b = pages b ∧ t.contents b = contents b := by
  have hacc := accounted_prepared hgoods contents hfree hclean
  obtain ⟨hm, hm'⟩ := prepared_metadata (s := s) hgoods pages contents
  have hstatus := prepared_status hgoods pages contents htotal
  have htables : ∀ l, (prepared good s pages contents number backupNumber next backupNext).blockMappingTable l = none :=
    fun _ => rfl
  have hsame : (prepared good s pages contents number backupNumber next backupNext).totalBlocks = s.totalBlocks := rfl
  have hstart : (prepared good s pages contents number backupNumber next backupNext).metadataBlockCurrentPage = 0 := rfl
  have hlinks : ∀ page, (prepared good s pages contents number backupNumber next backupNext).pages next page = .free ∧
      (prepared good s pages contents number backupNumber next backupNext).pages backupNext page = .free := fun page =>
    ⟨hfree next (four_mem hgoods (by simp)) page, hfree backupNext (four_mem hgoods (by simp)) page⟩
  have hpages : (prepared good s pages contents number backupNumber next backupNext).pages = pages ∧
      (prepared good s pages contents number backupNumber next backupNext).contents = contents := ⟨rfl, rfl⟩
  generalize prepared good s pages contents number backupNumber next backupNext = u at *
  have hbounded : Bounded u := ⟨hsame ▸ htotal, fun l b hb => absurd ((htables l).symm.trans hb) (by simp)⟩
  have hbuild : Building _ [] (fun _ => False) number backupNumber u _ 4 (metadataBuild advance u) :=
    metadataBuild_spec hacc hm hm' hstart hbounded
  have hquiet := hbuild.quiet (k := 59) hbounded (fun b hb => hstatus b (List.mem_append_right _ hb)) (by decide)
  rw [hm, hm'] at hquiet
  have hvalue (x : ℕ) : value u x = allOnes := by
    rw [value, htables]
  generalize metadataBuild advance u = v at hbuild hquiet ⊢
  have hpage := hbuild.currentPage
  have hnext : v.metadata.next = some next := by rw [hquiet.metadata]
  have hbackupNext : v.backupMetadata.next = some backupNext := by rw [hquiet.backupMetadata]
  have hin : next ∈ next :: backupNext :: bads good s.totalBlocks := List.mem_cons_self
  have hbackupIn : backupNext ∈ next :: backupNext :: bads good s.totalBlocks :=
    List.mem_cons_of_mem _ List.mem_cons_self
  have hlt {b : ℕ} (hb : b ∈ next :: backupNext :: bads good s.totalBlocks) : b < v.totalBlocks :=
    hbuild.accounted.held_lt b (List.mem_append_left _ hb)
  have hlinked : Recorded [number, backupNumber] number backupNumber ⟨some number, number, some next, [] ++ [number, next]⟩
      ⟨some backupNumber, backupNumber, some backupNext, [] ++ [backupNumber, backupNext]⟩
      (metadataPageWrite v .blockLink) :=
    linkWritten hbuild.accounted (hlt hin) (hlt hbackupIn) (by rw [hpage]; decide) hnext hbackupNext hquiet.recorded
  have hwritten := accounted_metadataPageWrite .blockLink hbuild.accounted
  have hframe := hbuild.undisturbed.trans (undisturbed_metadataPageWrite .blockLink hbuild.accounted)
  have hw : (metadataPageWrite v .blockLink).metadata.current = number := by
    rw [show (metadataPageWrite v .blockLink).metadata = v.metadata from rfl, hquiet.metadata]
  have hw' : (metadataPageWrite v .blockLink).backupMetadata.current = backupNumber := by
    rw [show (metadataPageWrite v .blockLink).backupMetadata = v.backupMetadata from rfl, hquiet.backupMetadata]
  have hwpage : (metadataPageWrite v .blockLink).metadataBlockCurrentPage = 5 := congrArg (· + 1) hpage
  rw [metadataWrite_room (by rw [hpage]; decide)]
  generalize metadataPageWrite v .blockLink = w at hlinked hwritten hframe hw hw' hwpage ⊢
  have hempty (page : ℕ) : w.pages next page = .free ∧ w.pages backupNext page = .free := by
    rw [hframe.pages next hin, hframe.pages backupNext hbackupIn]
    exact hlinks page
  dsimp only
  refine ⟨⟨?_, by omega, by rw [hwpage]; decide, rfl, by decide, hempty, ?_, fun b hb => ?_⟩,
    hframe.totalBlocks.trans hsame, hwpage, fun x => ?_, fun b hb => ?_⟩
  · rw [hw, hw']
    refine hwritten.regroup (List.perm_iff_count.mpr fun b => ?_) (by simp [hw]) (by simp [hw'])
    simp only [List.count_append, List.count_cons, List.count_nil]
    omega
  · rw [hw, hw']
    refine hlinked.grow (by simp) fun b hb hout => ?_
    simp only [List.nil_append, List.cons_append, List.mem_cons, List.not_mem_nil, or_false, not_or] at hb hout
    obtain rfl | rfl : b = next ∨ b = backupNext := by tauto
    · rw [(hempty 0).1, hframe.status b hin]
      exact ⟨PageType.noConfusion, hstatus b (by simp)⟩
    · rw [(hempty 0).2, hframe.status b hbackupIn]
      exact ⟨PageType.noConfusion, hstatus b (by simp)⟩
  · rw [hframe.status b (List.mem_cons_of_mem _ (List.mem_cons_of_mem _ hb))]
    exact hstatus b (by simp [hb])
  · rw [hframe.value x List.not_mem_nil, hvalue]
  · have hhand := List.mem_cons_of_mem next (List.mem_cons_of_mem backupNext hb)
    rw [hframe.pages b hhand, hframe.contents b hhand, hpages.1, hpages.2]
    exact ⟨rfl, rfl⟩

end Four

theorem format_success (advance : Store → Store) (htotal : s.totalBlocks ≤ lxNandMaxBlockCount)
    (hgoods : 4 ≤ (goods good s.totalBlocks).length) : (format advance good s).1 = .success := by
  obtain ⟨pages, contents, hscanned, -⟩ := formatBlocks_eq good s s.totalBlocks
  replace hscanned : (List.range (cleared s).totalBlocks).foldl (formatBlock good) (cleared s) =
    scanned good s s.totalBlocks pages contents := hscanned
  have hmax : ¬ lxNandMaxBlockCount < (cleared s).totalBlocks := Nat.not_lt.mpr htotal
  rw [format]
  dsimp only
  rw [if_neg hmax, hscanned]
  rcases hlist : goods good s.totalBlocks with _ | ⟨number, _ | ⟨backupNumber, _ | ⟨next, _ | ⟨backupNext, rest⟩⟩⟩⟩
  all_goals simp_all [scanned]

/-- A format makes a volume that an open can find, and that has nothing in its sectors. Bad blocks are left alone. -/
theorem format_spec (advance : Store → Store) (hclean : s.reprogrammed = false)
    (htotal : s.totalBlocks ≤ gd25BlockCountNormal) (hsuccess : (format advance good s).1 = .success) :
    ∃ number backupNumber next backupNext,
      Mountable (bads good s.totalBlocks) number backupNumber next backupNext [] [] (format advance good s).2 ∧
      (format advance good s).2.totalBlocks = s.totalBlocks ∧ (format advance good s).2.metadataBlockCurrentPage = 5 ∧
      (∀ x, value (format advance good s).2 x = allOnes) ∧
      ∀ b ∈ bads good s.totalBlocks, (format advance good s).2.pages b = s.pages b ∧
        (format advance good s).2.contents b = s.contents b := by
  obtain ⟨pages, contents, hscanned, hfree, hbad⟩ := formatBlocks_eq good s s.totalBlocks
  have hmax : ¬ lxNandMaxBlockCount < (cleared s).totalBlocks := Nat.not_lt.mpr (le_trans htotal (by decide))
  replace hscanned : (List.range (cleared s).totalBlocks).foldl (formatBlock good) (cleared s) =
    scanned good s s.totalBlocks pages contents := hscanned
  rw [format] at hsuccess ⊢
  dsimp only at hsuccess ⊢
  rw [if_neg hmax, hscanned] at hsuccess ⊢
  rcases hgoods : goods good s.totalBlocks with _ | ⟨number, _ | ⟨backupNumber, _ | ⟨next, _ | ⟨backupNext, rest⟩⟩⟩⟩
  · simp [scanned, hgoods] at hsuccess
  · simp [scanned, hgoods] at hsuccess
  · simp [scanned, hgoods] at hsuccess
  · simp [scanned, hgoods] at hsuccess
  obtain ⟨hmountable, hsame, hpage, hvalue, hheld⟩ := metadata_written hgoods advance contents hfree hclean htotal
  refine ⟨number, backupNumber, next, backupNext, ?_⟩
  have hnumber : (scanned good s s.totalBlocks pages contents).metadata.number = some number := congrArg (·[0]?) hgoods
  have hbackup : (scanned good s s.totalBlocks pages contents).backupMetadata.number = some backupNumber :=
    congrArg (·[1]?) hgoods
  have hnext : (scanned good s s.totalBlocks pages contents).metadata.next = some next := congrArg (·[2]?) hgoods
  have hbackupNext : (scanned good s s.totalBlocks pages contents).backupMetadata.next = some backupNext :=
    congrArg (·[3]?) hgoods
  rw [hnumber, hbackup, hnext, hbackupNext]
  refine ⟨hmountable, hsame, hpage, hvalue, fun b hb => ?_⟩
  obtain ⟨hpages, hcontents⟩ := hbad b (mem_bads.mp hb).2
  rw [← hpages, ← hcontents]
  exact hheld b hb

end EtherBench.LevelX.Format
