import EtherBench.LevelX.Format
import EtherBench.Library.Transition

/-! # A volume in use

A volume is formatted and opened, and from then on asked to write and to release sectors and to be closed and
opened again, in any order. As long as there is room for what it has to do, a sector reads as it was last
written, wherever its pages have gone.
-/

namespace EtherBench.LevelX.Service
open Library.Transition Nand.Device SectorStore BlockPages Custody Sectors Mount MetadataBlocks Remount Format
open NandFlash (PageType lxNandBlockStatusFree)

variable {good : ℕ → Bool} {nested : Store → Store} {hand : List ℕ} {content : ℕ → PageData} {s s₀ t : Store}

inductive Request where
  | write (logicalSector : ℕ) (data : PageData)
  | release (logicalSector : ℕ)
  | remount

def succeeded : NandFlash.Status × Store → Option Store
  | (.success, s) => some s
  | _ => none

def serve (nested : Store → Store) (good : ℕ → Bool) (s : Store) : Request → Option Store
  | .write logicalSector data => succeeded (sectorWrite (advanced nested) s logicalSector data)
  | .release logicalSector => succeeded (sectorRelease (advanced nested) s logicalSector)
  | .remount => openStore good s

/-- What the sectors hold after a request, in the eyes of who makes it. -/
def apply (content : ℕ → PageData) : Request → ℕ → PageData
  | .write logicalSector data => Function.update content logicalSector data
  | .release logicalSector => Function.update content logicalSector allOnes
  | .remount => content

/-- A block for the sectors, and two for the metadata. -/
def Room (s : Store) : Request → Prop
  | .write logicalSector _ | .release logicalSector =>
    logicalSector < s.totalBlocks * gd25BlockPages ∧ 3 ≤ s.freeBlockList.length
  | .remount => True

instance Room.decidable (s : Store) : (request : Request) → Decidable (Room s request)
  | .write _ _ | .release _ => inferInstanceAs (Decidable (_ ∧ _))
  | .remount => .isTrue trivial

def formatted (nested : Store → Store) (good : ℕ → Bool) (s : Store) : Option Store :=
  (succeeded (format (advanced nested) good s)).bind (openStore good)

theorem succeeded_some {result : NandFlash.Status × Store} : succeeded result = some t ↔ result = (.success, t) := by
  obtain ⟨status, u⟩ := result
  cases status <;> simp [succeeded]

/-! ## One request -/

/-- A volume that serves requests, and what its sectors hold. -/
abbrev Serves (hand : List ℕ) (s₀ s : Store) (content : ℕ → PageData) : Prop :=
  Changed hand metadataBlocks Ready content s₀ s

theorem Serves.then {content' : ℕ → PageData} (h : Serves hand s₀ s content)
    (hchanged : Changed hand metadataBlocks Ready content' s t) : Serves hand s₀ t content' where
  accounted := hchanged.accounted
  totalBlocks := hchanged.totalBlocks.trans h.totalBlocks
  held b hb := by
    obtain ⟨hpages, hcontents, hstatus⟩ := hchanged.held b hb
    rw [hpages, hcontents, hstatus]
    exact h.held b hb
  value := hchanged.value
  ready := hchanged.ready

theorem ready_of_free {k : ℕ} (h : Ready 0 s) (hk : k ≤ 16) (hfree : 2 ≤ s.freeBlockList.length) : Ready k s :=
  { h with
    few := hk
    room := Or.inr hfree }

theorem ready_of_taken {k : ℕ} (h : Ready 0 s) (hk : k ≤ 16) {rest : List ℕ}
    (hroom : s.metadataBlockCurrentPage + k < gd25BlockPages ∨ 2 ≤ rest.length) :
    Ready k { s with freeBlockList := rest } := by
  obtain ⟨number, backupNumber, next, backupNext, pre, backupPre, hsettled⟩ := h.settled
  have hrecorded := hsettled.recorded.congr (t := { s with freeBlockList := rest })
    (fun b hb => hsettled.current_mem hb) rfl ⟨rfl, rfl, rfl⟩ ⟨rfl, rfl, rfl⟩ fun _ _ => ⟨rfl, rfl⟩
  exact ⟨hk, h.page_pos, h.page_lt, hroom, number, backupNumber, next, backupNext, pre, backupPre,
    { hsettled with recorded := hrecorded }⟩

theorem ready_of_three {k : ℕ} (h : Ready 0 s) (hk : k ≤ 16) (hfree : 3 ≤ s.freeBlockList.length) (block : ℕ)
    (rest : List ℕ) (hlist : s.freeBlockList = block :: rest) : Ready k { s with freeBlockList := rest } := by
  rw [hlist, List.length_cons] at hfree
  exact ready_of_taken h hk (Or.inr (Nat.le_of_succ_le_succ hfree))

theorem Serves.mountable (h : Serves hand s₀ s content) (hstatus : ∀ b ∈ hand, s₀.blockStatusTable b ≠ lxNandBlockStatusFree) :
    ∃ number backupNumber next backupNext pre backupPre,
      Mountable hand number backupNumber next backupNext pre backupPre s ∧
      Settled number backupNumber next backupNext pre backupPre s := by
  obtain ⟨number, backupNumber, next, backupNext, pre, backupPre, hsettled⟩ := h.ready.settled
  have hkept : metadataBlocks s =
      pre ++ [s.metadata.current, next] ++ (backupPre ++ [s.backupMetadata.current, backupNext]) := by
    rw [metadataBlocks, hsettled.metadata, hsettled.backupMetadata]
  have haccounted := h.accounted
  have hrecorded := hsettled.recorded
  rw [hkept] at haccounted hrecorded
  refine ⟨number, backupNumber, next, backupNext, pre, backupPre, ⟨haccounted, h.ready.page_pos, h.ready.page_lt,
    hsettled.length_eq, hsettled.length_le, hsettled.next_free, ?_, fun b hb => ?_⟩, hsettled⟩
  · rw [← hsettled.metadata, ← hsettled.backupMetadata]
    exact hrecorded
  · rw [(h.held b hb).2.2]
    exact hstatus b hb

theorem sector_index {sector n : ℕ} (hsector : sector < n * gd25BlockPages) : sector / gd25BlockPages < n :=
  Nat.div_lt_of_lt_mul (Nat.mul_comm n gd25BlockPages ▸ hsector)

/-- A request that there is room for does what it is to do. -/
theorem serve_spec (hstatus : ∀ b ∈ hand, s₀.blockStatusTable b ≠ lxNandBlockStatusFree)
    (hgood : ∀ b < s₀.totalBlocks, good b = false ↔ b ∈ hand) (h : Serves hand s₀ s content) {request : Request}
    (hroom : Room s request) : ∃ t, serve nested good s request = some t ∧ Serves hand s₀ t (apply content request) := by
  have hvalue : value s = content := funext h.value
  have hup := advanced_upholds nested
  cases request with
  | write sector data =>
    obtain ⟨hsector, hfree⟩ := hroom
    obtain ⟨hsuccess, hchanged⟩ := sectorWrite_spec hup h.accounted rfl (sector_index hsector) data
      (List.ne_nil_of_length_pos (Nat.lt_of_lt_of_le (by decide) hfree))
      (ready_of_free h.ready (by decide) (Nat.le_of_succ_le hfree)) (ready_of_three h.ready (by decide) hfree)
    rw [written, hvalue] at hchanged
    exact ⟨_, succeeded_some.mpr (Prod.ext hsuccess rfl), h.then hchanged⟩
  | release sector =>
    obtain ⟨hsector, hfree⟩ := hroom
    obtain ⟨hsuccess, hchanged⟩ := sectorRelease_spec hup h.accounted rfl (sector_index hsector)
      (List.ne_nil_of_length_pos (Nat.lt_of_lt_of_le (by decide) hfree))
      (ready_of_free h.ready (by decide) (Nat.le_of_succ_le hfree)) (ready_of_three h.ready (by decide) hfree)
    rw [released, hvalue] at hchanged
    exact ⟨_, succeeded_some.mpr (Prod.ext hsuccess rfl), h.then hchanged⟩
  | remount =>
    obtain ⟨number, backupNumber, next, backupNext, pre, backupPre, hmountable, -⟩ := h.mountable hstatus
    obtain ⟨t, hopen, hchanged, -⟩ := openStore_spec hmountable fun b hb => hgood b (h.totalBlocks ▸ hb)
    rw [hvalue] at hchanged
    exact ⟨t, hopen, h.then hchanged⟩

theorem good_iff_bads (hsame : t.totalBlocks = s.totalBlocks) :
    ∀ b < t.totalBlocks, good b = false ↔ b ∈ bads good s.totalBlocks := fun b hb => by
  rw [mem_bads]
  exact ⟨fun hbad => ⟨hsame ▸ hb, hbad⟩, And.right⟩

/-! ## A run -/

/-- What is mounted first: nothing is in the sectors, and the bad blocks have not been touched. -/
theorem formatted_serves (hclean : s.reprogrammed = false) (htotal : s.totalBlocks ≤ gd25BlockCountNormal)
    (hformatted : formatted nested good s = some t) :
    Serves (bads good s.totalBlocks) t t (fun _ => allOnes) ∧ t.totalBlocks = s.totalBlocks ∧
      t.metadataBlockCurrentPage = 5 ∧ ∀ b ∈ bads good s.totalBlocks, t.blockStatusTable b ≠ lxNandBlockStatusFree ∧ t.pages b = s.pages b ∧
        t.contents b = s.contents b := by
  obtain ⟨u, hformat, hopen⟩ := Option.bind_eq_some_iff.mp hformatted
  replace hformat := succeeded_some.mp hformat
  obtain ⟨number, backupNumber, next, backupNext, hmountable, hsame, hpage, hvalue, hheld⟩ :=
    format_spec (advanced nested) hclean htotal (congrArg Prod.fst hformat)
  rw [hformat] at hmountable hsame hpage hvalue hheld
  obtain ⟨t', hopen', hchanged, hrestored, -⟩ := openStore_spec hmountable (good_iff_bads hsame)
  obtain rfl : t' = t := Option.some.inj (hopen'.symm.trans hopen)
  refine ⟨⟨hchanged.accounted, rfl, fun _ _ => ⟨rfl, rfl, rfl⟩, fun x => ?_, hchanged.ready⟩,
    hchanged.totalBlocks.trans hsame, hrestored.currentPage.trans hpage, fun b hb => ?_⟩
  · rw [hchanged.value, hvalue]
  · obtain ⟨hpages, hcontents, hstatus⟩ := hchanged.held b hb
    rw [hpages, hcontents, hstatus]
    exact ⟨hmountable.hand_status b hb, hheld b hb⟩

/-- Every chip with four good blocks can be formatted and opened. -/
theorem formatted_isSome (nested : Store → Store) (hclean : s.reprogrammed = false)
    (htotal : s.totalBlocks ≤ gd25BlockCountNormal) (hgoods : 4 ≤ (goods good s.totalBlocks).length) :
    ∃ t, formatted nested good s = some t := by
  have hsuccess := format_success (advanced nested) (le_trans htotal (by decide)) hgoods
  obtain ⟨number, backupNumber, next, backupNext, hmountable, hsame, -⟩ :=
    format_spec (advanced nested) hclean htotal hsuccess
  obtain ⟨t, hopen, -⟩ := openStore_spec hmountable (good_iff_bads hsame)
  refine ⟨t, Option.bind_eq_some_iff.mpr ⟨_, succeeded_some.mpr (Prod.ext hsuccess rfl), hopen⟩⟩

/-- As long as there is room, no request fails, and a sector reads as it was last written. -/
theorem run_serves (hclean : s.reprogrammed = false) (htotal : s.totalBlocks ≤ gd25BlockCountNormal)
    (hformatted : formatted nested good s = some t) {requests : List Request}
    (hroom : Guarded (serve nested good) Room t requests) :
    ∃ u, run (serve nested good) t requests = some u ∧
      Serves (bads good s.totalBlocks) t u (requests.foldl apply fun _ => allOnes) := by
  obtain ⟨hserves, hsame, -, hbads⟩ := formatted_serves hclean htotal hformatted
  refine run_simulates (fun v request content hv hrequest => ?_) hserves hroom
  exact serve_spec (fun b hb => (hbads b hb).1) (good_iff_bads hsame) hv hrequest

/-! ## An example

Ten blocks, one of them bad. A sector is written twice and released, another one is written, and the volume is
opened again in between. -/

def tenBlocks : Store where
  toVolume := NandFlash.initialized 10
  contents _ _ := allOnes
  reprogrammed := false

def sixBad : ℕ → Bool := (· ≠ 6)

def someRequests : List Request :=
  [.write 5 fun i => .ofNat i, .remount, .write 5 fun _ => 7, .write 69 fun i => .ofNat (2 * i), .release 5]

theorem tenBlocks_guarded : ∃ t, formatted id sixBad tenBlocks = some t ∧
    Guarded (serve id sixBad) Room t someRequests := by
  have hsome : (formatted id sixBad tenBlocks).any fun t => decide (Guarded (serve id sixBad) Room t someRequests) := by
    decide +kernel
  obtain ⟨t, hformatted, hguarded⟩ := (Option.any_eq_true _ _).mp hsome
  exact ⟨t, hformatted, of_decide_eq_true hguarded⟩

/-! ## What holds in a run -/

/-- Every request succeeds as long as there is room, and a sector reads as it was last written: all ones if it has
not been, or has been released since. -/
theorem reads_last_written (hclean : s.reprogrammed = false) (htotal : s.totalBlocks ≤ gd25BlockCountNormal)
    (hformatted : formatted nested good s = some t) {requests : List Request}
    (hroom : Guarded (serve nested good) Room t requests) :
    ∃ u, run (serve nested good) t requests = some u ∧ ∀ sector < s.totalBlocks * gd25BlockPages,
      sectorRead u sector = some ((requests.foldl apply fun _ => allOnes) sector) := by
  obtain ⟨u, hrun, hserves⟩ := run_serves hclean htotal hformatted hroom
  have hsame := hserves.totalBlocks.trans (formatted_serves hclean htotal hformatted).2.1
  refine ⟨u, hrun, fun sector hsector => ?_⟩
  rw [← hserves.value sector]
  exact sectorRead_eq hserves.accounted List.not_mem_nil (hsame ▸ sector_index hsector)

theorem reads_last_written_tenBlocks : ∃ t, formatted id sixBad tenBlocks = some t ∧
    ∃ u, run (serve id sixBad) t someRequests = some u ∧ ∀ sector < 10 * gd25BlockPages,
      sectorRead u sector = some ((someRequests.foldl apply fun _ => allOnes) sector) := by
  obtain ⟨t, hformatted, hroom⟩ := tenBlocks_guarded
  exact ⟨t, hformatted, reads_last_written rfl (by decide) hformatted hroom⟩

theorem always_serves (hclean : s.reprogrammed = false) (htotal : s.totalBlocks ≤ gd25BlockCountNormal)
    (hformatted : formatted nested good s = some t) {requests : List Request}
    (hroom : Guarded (serve nested good) Room t requests) :
    Always (serve nested good) (fun u => ∃ content, Serves (bads good s.totalBlocks) t u content) t requests := by
  refine always_iff_prefixes.mpr fun done hdone u hu => ?_
  obtain ⟨rest, rfl⟩ := hdone
  obtain ⟨u', hrun, hserves⟩ := run_serves hclean htotal hformatted hroom.prefix
  obtain rfl : u' = u := Option.some.inj (hrun.symm.trans hu)
  exact ⟨_, hserves⟩

/-- No page is programmed that has not been erased, and a bad block is neither programmed nor erased. -/
theorem flash_respected (hclean : s.reprogrammed = false) (htotal : s.totalBlocks ≤ gd25BlockCountNormal)
    (hformatted : formatted nested good s = some t) {requests : List Request}
    (hroom : Guarded (serve nested good) Room t requests) :
    Always (serve nested good) (fun u => u.reprogrammed = false ∧ ∀ b < s.totalBlocks, good b = false →
      u.pages b = s.pages b ∧ u.contents b = s.contents b) t requests := by
  refine (always_serves hclean htotal hformatted hroom).mono fun u ⟨content, hserves⟩ => ?_
  refine ⟨hserves.accounted.clean, fun b hlt hbad => ?_⟩
  have hb := mem_bads.mpr ⟨hlt, hbad⟩
  obtain ⟨hpages, hcontents, -⟩ := hserves.held b hb
  obtain ⟨-, hpages', hcontents'⟩ := (formatted_serves hclean htotal hformatted).2.2.2 b hb
  exact ⟨hpages.trans hpages', hcontents.trans hcontents'⟩

theorem flash_respected_tenBlocks : ∃ t, formatted id sixBad tenBlocks = some t ∧
    Always (serve id sixBad) (fun u => u.reprogrammed = false ∧ ∀ b < 10, sixBad b = false →
      u.pages b = tenBlocks.pages b ∧ u.contents b = tenBlocks.contents b) t someRequests := by
  obtain ⟨t, hformatted, hroom⟩ := tenBlocks_guarded
  exact ⟨t, hformatted, flash_respected rfl (by decide) hformatted hroom⟩

def mappedBlocks (s : Store) : List ℕ := (List.range s.totalBlocks).filterMap s.blockMappingTable

theorem Serves.nodup_blocks (h : Serves hand s₀ s content) :
    (s.freeBlockList ++ mappedBlocks s ++ (hand ++ metadataBlocks s)).Nodup ∧
      ∀ b ∈ s.freeBlockList ++ mappedBlocks s ++ (hand ++ metadataBlocks s), b < s.totalBlocks := by
  refine ⟨List.nodup_append.mpr ⟨nodup_used h.accounted List.nodup_range, h.accounted.held_nodup, ?_⟩, fun b hb => ?_⟩
  · rintro b hb _ hheld rfl
    exact (lt_of_used h.accounted hb).2 hheld
  · rcases List.mem_append.mp hb with hb | hheld
    · exact (lt_of_used h.accounted hb).1
    · exact h.accounted.held_lt b hheld

/-- A block is free, has sectors in it, belongs to the metadata or is bad, and no two of these. -/
theorem blocks_owned_once (hclean : s.reprogrammed = false) (htotal : s.totalBlocks ≤ gd25BlockCountNormal)
    (hformatted : formatted nested good s = some t) {requests : List Request}
    (hroom : Guarded (serve nested good) Room t requests) :
    Always (serve nested good) (fun u =>
      (u.freeBlockList ++ mappedBlocks u ++ (bads good s.totalBlocks ++ metadataBlocks u)).Nodup ∧
      (∀ b ∈ u.freeBlockList ++ mappedBlocks u ++ (bads good s.totalBlocks ++ metadataBlocks u), b < s.totalBlocks) ∧
      ∀ b ∈ u.freeBlockList, ∀ page, u.pages b page = .free) t requests := by
  have hfirst := (formatted_serves hclean htotal hformatted).2.1
  refine (always_serves hclean htotal hformatted hroom).mono fun u ⟨content, hserves⟩ => ?_
  have hsame := hserves.totalBlocks.trans hfirst
  obtain ⟨hnodup, hlt⟩ := hserves.nodup_blocks
  exact ⟨hnodup, fun b hb => hsame ▸ hlt b hb, hserves.accounted.free_erased⟩

theorem blocks_owned_once_tenBlocks : ∃ t, formatted id sixBad tenBlocks = some t ∧
    Always (serve id sixBad) (fun u =>
      (u.freeBlockList ++ mappedBlocks u ++ (bads sixBad 10 ++ metadataBlocks u)).Nodup ∧
      (∀ b ∈ u.freeBlockList ++ mappedBlocks u ++ (bads sixBad 10 ++ metadataBlocks u), b < 10) ∧
      ∀ b ∈ u.freeBlockList, ∀ page, u.pages b page = .free) t someRequests := by
  obtain ⟨t, hformatted, hroom⟩ := tenBlocks_guarded
  exact ⟨t, hformatted, blocks_owned_once rfl (by decide) hformatted hroom⟩

/-- A volume can be closed at any time: an open finds the tables and the metadata as they were, and makes the lists of
the blocks anew. -/
theorem remount_restores (hclean : s.reprogrammed = false) (htotal : s.totalBlocks ≤ gd25BlockCountNormal)
    (hformatted : formatted nested good s = some t) {requests : List Request}
    (hroom : Guarded (serve nested good) Room t requests) :
    Always (serve nested good) (fun u => ∃ v, openStore good u = some v ∧ Restored u v ∧ v.metadata = u.metadata ∧
      v.backupMetadata = u.backupMetadata ∧ ∀ sector < s.totalBlocks * gd25BlockPages,
        sectorRead v sector = sectorRead u sector) t requests := by
  obtain ⟨-, hfirst, -, hbads⟩ := formatted_serves hclean htotal hformatted
  refine (always_serves hclean htotal hformatted hroom).mono fun u ⟨content, hserves⟩ => ?_
  have hsame := hserves.totalBlocks.trans hfirst
  obtain ⟨number, backupNumber, next, backupNext, pre, backupPre, hmountable, hsettled⟩ :=
    hserves.mountable fun b hb => (hbads b hb).1
  obtain ⟨v, hopen, hchanged, hrestored, hmetadata, hbackup⟩ := openStore_spec hmountable (good_iff_bads hsame)
  refine ⟨v, hopen, hrestored, hmetadata.trans hsettled.metadata.symm, hbackup.trans hsettled.backupMetadata.symm,
    fun sector hsector => ?_⟩
  rw [sectorRead_eq hchanged.accounted List.not_mem_nil (hchanged.totalBlocks ▸ hsame ▸ sector_index hsector),
    sectorRead_eq hserves.accounted List.not_mem_nil (hsame ▸ sector_index hsector), hchanged.value]

theorem remount_restores_tenBlocks : ∃ t, formatted id sixBad tenBlocks = some t ∧
    Always (serve id sixBad) (fun u => ∃ v, openStore sixBad u = some v ∧ Restored u v ∧ v.metadata = u.metadata ∧
      v.backupMetadata = u.backupMetadata ∧ ∀ sector < 10 * gd25BlockPages,
        sectorRead v sector = sectorRead u sector) t someRequests := by
  obtain ⟨t, hformatted, hroom⟩ := tenBlocks_guarded
  exact ⟨t, hformatted, remount_restores rfl (by decide) hformatted hroom⟩

end EtherBench.LevelX.Service
