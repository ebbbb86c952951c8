import EtherBench.LevelX.SpareBytes
import EtherBench.Library.Transition
import EtherBench.Nand.PageCopy
import EtherBench.Nand.Partition

/-! # LevelX on the chip

What LevelX hands to the callbacks of a volume, and what the array of the chip makes of it: the pages that
`SectorStore` keeps by type and contents lie in the good blocks of the volume, each with its type among its
spare bytes.
-/

namespace EtherBench.LevelX.OnChip
open Nand.Device Nand.Hal Nand.Driver Nand.Operations Nand.Contracts Nand.PageStore Nand.RoundTrip Nand.PageCopy
  Nand.Readiness
open Library.Effects Library.LittleEndian Library.Memory Library.Transition Library.Triples
open Nand.Partition (Callback Volume)
open NandFlash (PageType)
open SectorStore (Store PageData allOnes)
open SpareBytes

/-! ## The store in the array -/

/-- The columns of a page hold its contents and, in the spare bytes, its type. A free page is all ones. The mark of
a bad block, which comes first among the spare bytes, is left alone. -/
structure Shows (columns : Page) (type : PageType) (data : PageData) : Prop where
  contents : type ≠ .free → ∀ c < gd25PageSize, columns c = data c
  mark : columns gd25PageSize = lxNandGoodBlock
  word : longGet (slice columns gd25PageSize gd25PageOob) gd25SpareBlockOffset = pageTypeWord type
  fits : Fits type
  erased : type = .free → ∀ c < gd25PageTotal, columns c = 0xFF

theorem Shows.congr {columns columns' : Page} {type : PageType} {data : PageData} (h : Shows columns type data)
    (heq : ∀ c < gd25PageTotal, columns' c = columns c) : Shows columns' type data where
  contents hused c hc := (heq c (Nat.lt_of_lt_of_le hc (by decide))).trans (h.contents hused c hc)
  mark := (heq gd25PageSize (by decide)).trans h.mark
  word := by
    rw [slice_congr fun c _ hc => heq c hc]
    exact h.word
  fits := h.fits
  erased hfree c hc := (heq c hc).trans (h.erased hfree c hc)

theorem shows_erased (data : PageData) : Shows erasedPage .free data where
  contents hused := absurd rfl hused
  mark := rfl
  word := by decide
  fits sector hsector := by cases hsector
  erased _ _ _ := rfl

theorem shows_layout {type : PageType} (data : PageData) (number : ℕ) (hfits : Fits type) (hused : type ≠ .free) :
    Shows (layout data (spareBytes number type)) type data where
  contents _ c hc := if_pos hc
  mark := by
    have hspare : layout data (spareBytes number type) (gd25PageSize + 0) = spareBytes number type 0 :=
      layout_spare (by decide)
    exact hspare
  word := by
    have hword : ∀ i < (bytesOf 4 (pageTypeWord type).toNat).length,
        layout data (spareBytes number type) (gd25PageSize + (gd25SpareBlockOffset + i)) =
          (bytesOf 4 (pageTypeWord type).toNat).getD i 0 := by
      intro i hi
      rw [length_bytesOf] at hi
      have hspare : gd25SpareBlockOffset + i < gd25PageOob := by
        rw [gd25SpareBlockOffset, gd25BadBlockSize, gd25PageOob]
        omega
      rw [layout_spare hspare, spareBytes_word number type hi]
    have hlen : gd25SpareBlockOffset + (bytesOf 4 (pageTypeWord type).toNat).length ≤ gd25PageOob := by
      rw [length_bytesOf]
      decide
    have hbytes := drop_take_slice hlen hword
    rw [length_bytesOf] at hbytes
    rw [longGet, hbytes, numberOf_word]
  fits := hfits
  erased hfree := absurd hfree hused

def Volume.row (v : Volume) (block page : ℕ) : ℕ := rowAddr (ulong (block + v.offset)) page

/-- The array holds the store in the good blocks of the volume, and marks of its own in the bad ones. -/
structure Stored (v : Volume) (good : ℕ → Bool) (s : Store) (pages : Pages) : Prop where
  shows : ∀ block < v.nand.totalBlocks, good block = true → ∀ page < gd25BlockPages,
    Shows (pages (Volume.row v block page)) (s.pages block page) (s.contents block page)
  bad : ∀ block < v.nand.totalBlocks, good block = false → pages (Volume.row v block 0) gd25PageSize ≠ lxNandGoodBlock

variable {v : Volume} {good : ℕ → Bool} {s : Store} {pages : Pages} {block page : ℕ}

theorem row_eq (hblock : block < v.nand.totalBlocks) (hpage : page < gd25BlockPages) :
    Volume.row v block page = (block + v.offset) * gd25BlockPages + page := by
  obtain ⟨heq, hlt⟩ := Nand.Partition.physical_block (Nand.Partition.volume_fits v) hblock
  rw [Volume.row, heq, rowAddr_eq hlt hpage]

theorem row_inj {block' page' : ℕ} (hblock : block < v.nand.totalBlocks) (hpage : page < gd25BlockPages)
    (hblock' : block' < v.nand.totalBlocks) (hpage' : page' < gd25BlockPages)
    (h : Volume.row v block page = Volume.row v block' page') : block = block' ∧ page = page' := by
  rw [row_eq hblock hpage, row_eq hblock' hpage'] at h
  simp only [gd25BlockPages] at *
  omega

theorem Stored.program {type : PageType} {data : PageData} {content : Page} (h : Stored v good s pages)
    (hblock : block < v.nand.totalBlocks) (hgood : good block = true) (hpage : page < gd25BlockPages)
    (hfree : s.pages block page = .free) (hcontent : Shows content type data) :
    Stored v good (SectorStore.driverPageWrite s block page type data)
      (programmed pages (Volume.row v block page) content) where
  shows otherBlock hotherBlock hotherGood otherPage hotherPage := by
    have hpages : (SectorStore.driverPageWrite s block page type data).pages =
        Function.update s.pages block (Function.update (s.pages block) page type) := rfl
    have hcontents : (SectorStore.driverPageWrite s block page type data).contents =
        Function.update s.contents block (Function.update (s.contents block) page data) := rfl
    rw [hpages, hcontents, programmed]
    by_cases hsame : otherBlock = block ∧ otherPage = page
    · obtain ⟨rfl, rfl⟩ := hsame
      rw [Function.update_self, Function.update_self, Function.update_self, Function.update_self,
        Function.update_self]
      apply hcontent.congr
      intro c hc
      rw [(h.shows otherBlock hblock hgood otherPage hpage).erased hfree c hc, erased_and]
    · have hrow : Volume.row v otherBlock otherPage ≠ Volume.row v block page := fun heq =>
        hsame (row_inj hotherBlock hotherPage hblock hpage heq)
      rw [Function.update_of_ne hrow]
      have hother := h.shows otherBlock hotherBlock hotherGood otherPage hotherPage
      by_cases hblocks : otherBlock = block
      · have hpages : otherPage ≠ page := fun heq => hsame ⟨hblocks, heq⟩
        rw [hblocks, Function.update_self, Function.update_self, Function.update_of_ne hpages,
          Function.update_of_ne hpages, ← hblocks]
        exact hother
      · rw [Function.update_of_ne hblocks, Function.update_of_ne hblocks]
        exact hother
  bad otherBlock hotherBlock hbad := by
    have hrow : Volume.row v otherBlock 0 ≠ Volume.row v block page := by
      intro heq
      have hsame := (row_inj hotherBlock (by decide) hblock hpage heq).1
      rw [hsame, hgood] at hbad
      cases hbad
    rw [programmed, Function.update_of_ne hrow]
    exact h.bad otherBlock hotherBlock hbad

theorem Stored.erase (h : Stored v good s pages) (hblock : block < v.nand.totalBlocks) (hgood : good block = true) :
    Stored v good (SectorStore.driverBlockErase s block)
      (setBlock pages (Volume.row v block 0 / gd25BlockPages) fun _ => erasedPage) := by
  have hdiv : ∀ otherBlock < v.nand.totalBlocks, ∀ otherPage < gd25BlockPages,
      Volume.row v otherBlock otherPage / gd25BlockPages = Volume.row v block 0 / gd25BlockPages ↔
        otherBlock = block := by
    intro otherBlock hotherBlock otherPage hotherPage
    rw [row_eq hotherBlock hotherPage, row_eq hblock (by decide)]
    simp only [gd25BlockPages] at *
    omega
  constructor
  · intro otherBlock hotherBlock hotherGood otherPage hotherPage
    have hpages : (SectorStore.driverBlockErase s block).pages = Function.update s.pages block fun _ => .free := rfl
    have hcontents : (SectorStore.driverBlockErase s block).contents =
        Function.update s.contents block fun _ => allOnes := rfl
    have hiff := hdiv otherBlock hotherBlock otherPage hotherPage
    rw [hpages, hcontents, setBlock]
    by_cases hsame : otherBlock = block
    · rw [if_pos (hiff.mpr hsame), hsame, Function.update_self, Function.update_self]
      exact shows_erased _
    · rw [if_neg fun heq => hsame (hiff.mp heq), Function.update_of_ne hsame, Function.update_of_ne hsame]
      exact h.shows otherBlock hotherBlock hotherGood otherPage hotherPage
  · intro otherBlock hotherBlock hbad
    have hne : otherBlock ≠ block := by
      rintro rfl
      rw [hgood] at hbad
      cases hbad
    rw [setBlock, if_neg fun heq => hne ((hdiv otherBlock hotherBlock 0 (by decide)).mp heq)]
    exact h.bad otherBlock hotherBlock hbad

/-! ## The calls of the driver -/

theorem reads_contract : Contract (fun c => ∃ row, c = .readToCache row) (At (Writable pages))
    (fun _ => At (Writable pages)) (fun _ => True) where
  buffer _ _ hw := hw
  command c hc := by
    apply command_at
    intro chip buffer r _ _ h
    cases c with
    | writeEnable => exact h
    | programLoadX4 _ _ => exact h
    | readFromCacheQio _ _ => exact h
    | _ => cases hc
  operate c _ hc := by
    obtain ⟨row, rfl⟩ := hc
    exact command_at fun _ _ _ _ _ h => h
  transmit column length data := transmit_at fun _ _ h => h
  receive column length := by
    intro w hw
    have hafter : At (Writable pages) (w.exchange id) := hw.congr (w.exchange_env id) (id_at hw.2)
    change if _ then At (Writable pages) (w.exchange id) else True
    split
    · exact hafter
    · trivial
  dmaDone := getFlashDmaDone_at
  wait _ := waitForComplete_at

theorem blockErase_erases {block : ℕ} :
    Triple (At (Writable pages)) (blockErase block)
      (fun _ => At (Writable (setBlock pages (rowAddr block 0 / gd25BlockPages) fun _ => erasedPage)))
      (fun _ => True) := by
  have henable : Triple (At (Writable pages)) writeEnable
      (fun _ => At fun chip buffer => Writable pages chip buffer ∧ chip.writeEnabled = true) (fun _ => True) :=
    command_at fun _ _ _ _ _ h => ⟨h, rfl⟩
  apply triple_bind henable
  intro _
  have herase : Triple (At fun chip buffer => Writable pages chip buffer ∧ chip.writeEnabled = true)
      (require (halXspiCommand (.blockErase (rowAddr block 0))))
      (fun _ => At (Writable (setBlock pages (rowAddr block 0 / gd25BlockPages) fun _ => erasedPage)))
      (fun _ => True) := by
    apply command_at
    rintro chip buffer r hdamage - ⟨⟨hprotection, hpages⟩, henabled⟩
    rw [Chip.execute, henabled, hprotection, hdamage]
    refine ⟨hprotection, ?_⟩
    rw [← hpages]
    rfl
  apply triple_bind herase
  exact fun _ => waitForComplete_at

theorem pagesWrite_one {block : ℕ} (hpage : page < gd25BlockPages) (data spare : Page) :
    Triple (At (Writable pages)) (pagesWrite block page (some data) (some spare) 1)
      (fun _ => At (Writable (programmed pages (rowAddr block page) (layout data spare)))) (fun _ => True) := by
  have hwrite : Triple (At (Writable pages)) (pagesWrite block page (some data) (some spare) 1) _ _ :=
    pagesWrite_written (some data) (some spare) hpage
  have hone : written pages block page (some data) (some spare) 1 =
      programmed pages (rowAddr block page) (layout data spare) := by
    simp only [written, area, Nat.zero_mul, Nat.zero_add, Nat.add_zero]
  rwa [hone] at hwrite

/-! ## Requests -/

/-- A call of the driver by LevelX. A new page has the number of the metadata block among its spare bytes. -/
inductive Request where
  | write (block page : ℕ) (type : PageType) (data : PageData) (number : ℕ)
  | erase (block eraseCount : ℕ)
  | copy (source sourcePage destination destinationPage count : ℕ)
  | read (block page : ℕ) (mainGiven : Bool)

def Request.callback : Request → Callback
  | .write block page type data number => .pagesWrite block page (some data) (some (spareBytes number type)) 1
  | .erase block eraseCount => .blockErase block eraseCount
  | .copy source sourcePage destination destinationPage count =>
    .pagesCopy source sourcePage destination destinationPage count
  | .read block page mainGiven => .pagesRead block page mainGiven true 1

def apply (s : Store) : Request → Store
  | .write block page type data _ => SectorStore.driverPageWrite s block page type data
  | .erase block _ => SectorStore.driverBlockErase s block
  | .copy source sourcePage destination destinationPage count =>
    SectorStore.driverPagesCopy s source sourcePage destination destinationPage count
  | .read _ _ _ => s

def Request.blocks : Request → List ℕ
  | .write block _ _ _ _ | .erase block _ | .read block _ _ => [block]
  | .copy source _ destination _ _ => [source, destination]

/-- The request keeps to the good blocks of the volume, and a page that is written says what it is. -/
structure Request.Valid (v : Volume) (good : ℕ → Bool) (r : Request) : Prop where
  inside : Nand.Partition.Valid v.nand r.callback
  good : ∀ block ∈ r.blocks, good block = true
  typed : ∀ block page type data number, r = .write block page type data number → type ≠ .free ∧ Fits type

/-- The callback of the volume, where the driver answers `LX_SUCCESS`. -/
def issued (v : Volume) (w : World) (r : Request) : Option World :=
  match v.nand.issue r.callback w with
  | .ok _ t => some t
  | .error _ _ => none

/-- A page is programmed only while it is free. -/
theorem write_clean {type : PageType} {data : PageData} :
    (SectorStore.driverPageWrite s block page type data).reprogrammed = false ↔
      s.reprogrammed = false ∧ s.pages block page = .free := by
  simp [SectorStore.driverPageWrite]

theorem pagesCopy_succ (s : Store) (source sourcePage destination destinationPage count : ℕ) :
    SectorStore.driverPagesCopy s source sourcePage destination destinationPage (count + 1) =
      let t := SectorStore.driverPagesCopy s source sourcePage destination destinationPage count
      SectorStore.driverPageWrite t destination (destinationPage + count) (t.pages source (sourcePage + count))
        (t.contents source (sourcePage + count)) := by
  rw [SectorStore.driverPagesCopy, List.range_succ, List.foldl_append]
  rfl

theorem pagesCopy_clean {source sourcePage destination destinationPage count : ℕ}
    (h : (SectorStore.driverPagesCopy s source sourcePage destination destinationPage count).reprogrammed = false) :
    s.reprogrammed = false := by
  induction count with
  | zero => exact h
  | succ count ih =>
    rw [pagesCopy_succ] at h
    exact ih (write_clean.mp h).1

theorem apply_clean {r : Request} (h : (apply s r).reprogrammed = false) : s.reprogrammed = false := by
  cases r with
  | write block page type data number => exact (write_clean.mp h).1
  | erase block eraseCount => exact h
  | copy source sourcePage destination destinationPage count => exact pagesCopy_clean h
  | read block page mainGiven => exact h

theorem foldl_clean {requests : List Request} (h : (requests.foldl apply s).reprogrammed = false) :
    s.reprogrammed = false := by
  induction requests generalizing s with
  | nil => exact h
  | cons r requests ih => exact apply_clean (ih h)

theorem Stored.copy {source sourcePage destination destinationPage count : ℕ} (h : Stored v good s pages)
    (hsource : source < v.nand.totalBlocks) (hsourceGood : good source = true)
    (hsourcePages : sourcePage + count ≤ gd25BlockPages) (hdestination : destination < v.nand.totalBlocks)
    (hdestinationGood : good destination = true) (hdestinationPages : destinationPage + count ≤ gd25BlockPages)
    (hclean : (SectorStore.driverPagesCopy s source sourcePage destination destinationPage count).reprogrammed =
      false) :
    Stored v good (SectorStore.driverPagesCopy s source sourcePage destination destinationPage count)
      (copied pages (rows (ulong (source + v.offset)) sourcePage)
        (rows (ulong (destination + v.offset)) destinationPage) count) := by
  induction count with
  | zero => exact h
  | succ count ih =>
    rw [pagesCopy_succ] at hclean ⊢
    obtain ⟨hbefore, hfree⟩ := write_clean.mp hclean
    have hstored := ih (by omega) (by omega) hbefore
    exact hstored.program hdestination hdestinationGood (by omega) hfree
      (hstored.shows source hsource hsourceGood _ (by omega))

/-! ## Runs -/

theorem nand_issue (v : Volume) (c : Callback) :
    v.nand.issue c = (Nand.Partition.trampolines v.offset v.nand.totalBlocks).issue c := by
  cases v <;> rfl

/-- The chip has no fault and no protection, and holds the store. -/
def Keeps (v : Volume) (good : ℕ → Bool) (s : Store) (w : World) : Prop :=
  Reliable w ∧ w.chip.protection = 0 ∧ Stored v good s w.chip.page

theorem Keeps.of_at {w : World} (h : At (Writable pages) w) (hstored : Stored v good s pages) : Keeps v good s w := by
  refine ⟨h.1, h.2.1, ?_⟩
  rw [h.2.2]
  exact hstored

/-- What a request does to the array is what it does to the store. -/
theorem request_stores {r : Request} (hvalid : r.Valid v good) (hclean : (apply s r).reprogrammed = false) :
    Triple (Keeps v good s) (v.nand.issue r.callback) (fun _ => Keeps v good (apply s r)) (fun _ => True) := by
  rintro w ⟨hreliable, hprotection, hstored⟩
  have hw : At (Writable w.chip.page) w := ⟨hreliable, hprotection, rfl⟩
  suffices h : Triple (At (Writable w.chip.page)) (v.nand.issue r.callback) (fun _ => Keeps v good (apply s r))
      (fun _ => True) from h w hw
  obtain ⟨hblocks, hgood, htype⟩ := hvalid
  rw [nand_issue]
  cases r with
  | write block page type data number =>
    obtain ⟨hused, hfits⟩ := htype block page type data number rfl
    have hfree := (write_clean.mp hclean).2
    have hafter := hstored.program hblocks.1 (hgood _ List.mem_cons_self) hblocks.2 hfree (shows_layout data number hfits hused)
    exact (pagesWrite_one hblocks.2 data (spareBytes number type)).weaken (fun _ h => h)
      (fun _ _ h => .of_at h hafter) fun _ h => h
  | erase block eraseCount =>
    have hafter := hstored.erase hblocks.1 (hgood _ List.mem_cons_self)
    exact blockErase_erases.weaken (fun _ h => h) (fun _ _ h => .of_at h hafter) fun _ h => h
  | copy source sourcePage destination destinationPage count =>
    have hafter := hstored.copy hblocks.1.1 (hgood _ List.mem_cons_self) hblocks.1.2 hblocks.2.1
      (hgood _ (List.mem_cons_of_mem _ List.mem_cons_self)) hblocks.2.2 hclean
    exact pageCopy_triple.weaken (fun _ h => h) (fun _ _ h => .of_at h hafter) fun _ _ => trivial
  | read block page mainGiven =>
    have hread : Triple (At (Writable w.chip.page)) (pagesRead (ulong (block + v.offset)) page mainGiven true 1)
        (fun _ => At (Writable w.chip.page)) (fun _ => True) :=
      reads_contract.pagesReadLoop (fun _ _ _ => ⟨_, rfl⟩) mainGiven true
    apply triple_bind hread
    exact fun _ => triple_pure () fun _ h => .of_at h hstored

theorem run_keeps {requests : List Request} {w t : World} (hkeeps : Keeps v good s w) (hvalid : ∀ r ∈ requests, r.Valid v good)
    (hclean : (requests.foldl apply s).reprogrammed = false) (hrun : run (issued v) w requests = some t) :
    Keeps v good (requests.foldl apply s) t := by
  induction requests generalizing s w with
  | nil =>
    cases hrun
    exact hkeeps
  | cons r requests ih =>
    obtain ⟨u, hu, hrest⟩ := run_cons_some.mp hrun
    apply ih _ (fun r hr => hvalid r (List.mem_cons_of_mem _ hr)) hclean hrest
    have hstep : Triple (Keeps v good s) (v.nand.issue r.callback) (fun _ => Keeps v good (apply s r)) _ :=
      request_stores (hvalid r List.mem_cons_self) (foldl_clean hclean)
    rw [issued] at hu
    cases hissue : v.nand.issue r.callback w with
    | error status u => simp [hissue] at hu
    | ok _ u =>
      simp only [hissue, Option.some.injEq] at hu
      rw [← hu]
      exact hstep.of_ok hkeeps hissue

/-! ## A bus that does what it is asked -/

theorem erase_ready (row : ℕ) :
    Triple (fun w => Ready w ∧ w.chip.writeEnabled = true) (require (halXspiCommand (.blockErase row)))
      (fun _ => Ready) (fun _ => False) := by
  apply call_ready
  · exact fun w hw => hw.1.accepts
  · rintro w ⟨hw, henabled⟩
    have hexecute : w.chip.execute w.reaction (.blockErase row) = w.chip.erase row none := by
      rw [Chip.execute, henabled, hw.unprotected, World.reaction, (hw.obliging w.time).undamaged]
      rfl
    have hafter : Ready (w.exchange (·.execute w.reaction (.blockErase row))) := by
      apply hw.exchange
      · rw [hexecute]
        rfl
      · rw [hexecute]
        rintro (herase | hprogram)
        · cases herase
        · exact hw.working (Or.inr hprogram)
    exact hafter.congr rfl hafter.idle rfl hafter.working

theorem blockErase_ready (block : ℕ) :
    Triple Ready (blockErase block) (fun _ => Ready) (fun _ => False) := by
  apply triple_bind writeEnable_ready
  intro _
  apply triple_bind (erase_ready _)
  exact fun _ => waitForComplete_ready

theorem pagesRead_ready (block page : ℕ) (mainGiven spareGiven : Bool) (count : ℕ) :
    Triple Ready (pagesRead block page mainGiven spareGiven count) (fun _ => Ready)
      (fun _ => False) :=
  ready_contract.pagesReadLoop (fun _ _ _ => ⟨_, rfl⟩) mainGiven spareGiven

theorem request_ready (v : Volume) (r : Request) :
    Triple Ready (v.nand.issue r.callback) (fun _ => Ready) (fun _ => False) := by
  rw [nand_issue]
  cases r with
  | write block page type data number =>
    exact triple_forRange_kept fun _ _ _ => genericWrite_ready _ _ _ _ _ _ _
  | erase block eraseCount => exact blockErase_ready _
  | copy source sourcePage destination destinationPage count => exact pageCopy_ready
  | read block page mainGiven =>
    exact triple_bind (pagesRead_ready _ _ _ _ _) fun _ => triple_pure () fun _ h => h

theorem run_ready {requests : List Request} {w : World} (hw : Ready w) :
    ∃ t, run (issued v) w requests = some t ∧ Ready t := by
  induction requests generalizing w with
  | nil => exact ⟨w, rfl, hw⟩
  | cons r requests ih =>
    obtain ⟨⟨⟩, u, hissue, hu⟩ := ok_of_triple (request_ready v r) hw
    obtain ⟨t, hrun, ht⟩ := ih hu
    refine ⟨t, run_cons_some.mpr ⟨u, ?_, hrun⟩, ht⟩
    rw [issued, hissue]

/-! ## Reading it back -/

def shown (s : Store) (block page : ℕ) : PageData :=
  if s.pages block page = .free then allOnes else s.contents block page

theorem Shows.columns_eq {columns : Page} (h : Shows columns (s.pages block page) (s.contents block page)) {c : ℕ}
    (hc : c < gd25PageSize) : columns c = shown s block page c := by
  rw [shown]
  split
  · next hfree => exact h.erased hfree c (Nat.lt_of_lt_of_le hc (by decide))
  · next hused => exact h.contents hused c hc

structure Answers (s : Store) (block page : ℕ) (mainGiven : Bool) (read : List UInt8 × List UInt8) : Prop where
  contents : read.1 = if mainGiven then slice (shown s block page) 0 gd25PageSize else []
  word : longGet read.2 gd25SpareBlockOffset = pageTypeWord (s.pages block page)
  type : pageTypeOf (longGet read.2 gd25SpareBlockOffset) = some (s.pages block page)

theorem pagesRead_answers (hblock : block < v.nand.totalBlocks) (hgood : good block = true) (hpage : page < gd25BlockPages) (mainGiven : Bool) :
    Triple (Keeps v good s) (v.nand.pagesRead block page mainGiven true 1)
      (fun read w => Answers s block page mainGiven read ∧ Keeps v good s w) (fun _ => True) := by
  rintro w ⟨hreliable, hprotection, hstored⟩
  have hnand : v.nand.pagesRead block page mainGiven true 1 =
      pagesRead (ulong (block + v.offset)) page mainGiven true 1 := by cases v <;> rfl
  rw [hnand]
  cases hread : pagesRead (ulong (block + v.offset)) page mainGiven true 1 w with
  | error status t => trivial
  | ok read t =>
    have hkept : Triple (At (Writable w.chip.page)) (pagesRead (ulong (block + v.offset)) page mainGiven true 1)
        (fun _ => At (Writable w.chip.page)) (fun _ => True) :=
      reads_contract.pagesReadLoop (fun _ _ _ => ⟨_, rfl⟩) mainGiven true
    have hshows := hstored.shows block hblock hgood page hpage
    rw [pagesRead_readout hreliable hpage hread]
    have hword : longGet (slice (w.chip.page (Volume.row v block page)) gd25PageSize gd25PageOob ++ [])
        gd25SpareBlockOffset = pageTypeWord (s.pages block page) := by
      rw [List.append_nil]
      exact hshows.word
    refine ⟨⟨?_, hword, ?_⟩, .of_at (hkept.of_ok ⟨hreliable, hprotection, rfl⟩ hread) hstored⟩
    · cases mainGiven with
      | false => rfl
      | true =>
        have hcolumns : slice (w.chip.page (Volume.row v block page)) 0 gd25PageSize =
            slice (shown s block page) 0 gd25PageSize :=
          slice_congr fun c _ hc => hshows.columns_eq (by omega)
        rw [← hcolumns]
        exact List.append_nil _
    · rw [← pageTypeOf_pageTypeWord hshows.fits, ← hword]
      rfl

theorem blockStatusGet_marks (hblock : block < v.nand.totalBlocks) :
    Triple (Keeps v good s) (v.nand.blockStatusGet block)
      (fun bytes w => (bytes = [lxNandGoodBlock] ↔ good block = true) ∧ Keeps v good s w) (fun _ => True) := by
  rintro w ⟨hreliable, hprotection, hstored⟩
  have hnand : v.nand.blockStatusGet block = blockStatusGet (ulong (block + v.offset)) := by cases v <;> rfl
  rw [hnand]
  cases hget : blockStatusGet (ulong (block + v.offset)) w with
  | error status t => trivial
  | ok bytes t =>
    have hkept : Triple (At (Writable w.chip.page)) (blockStatusGet (ulong (block + v.offset)))
        (fun _ => At (Writable w.chip.page)) (fun _ => True) := reads_contract.blockStatusGet ⟨_, rfl⟩
    refine ⟨?_, .of_at (hkept.of_ok ⟨hreliable, hprotection, rfl⟩ hget) hstored⟩
    rw [extraBytesGet_slice hreliable (by decide) hget]
    change [w.chip.page (Volume.row v block 0) gd25PageSize] = [lxNandGoodBlock] ↔ good block = true
    rw [List.singleton_inj]
    cases hgood : good block with
    | true => exact iff_of_true (hstored.shows block hblock hgood 0 (by decide)).mark rfl
    | false => exact iff_of_false (hstored.bad block hblock hgood) Bool.false_ne_true

/-- However LevelX writes, copies, erases and reads the pages of the good blocks of a volume, on a chip without a fault
the array holds what LevelX takes it to hold: a page that is read back has its contents and its type, and the good
blocks are told from the bad ones. No request fails on a bus that does what it is asked. -/
theorem chip_holds_store {requests : List Request} {w : World} (hkeeps : Keeps v good s w)
    (hvalid : ∀ r ∈ requests, r.Valid v good) (hclean : (requests.foldl apply s).reprogrammed = false) :
    (∀ t, run (issued v) w requests = some t → ∀ block < v.nand.totalBlocks,
      (∀ bytes u, v.nand.blockStatusGet block t = .ok bytes u → (bytes = [lxNandGoodBlock] ↔ good block = true)) ∧
      (good block = true → ∀ page < gd25BlockPages, ∀ mainGiven read u,
        v.nand.pagesRead block page mainGiven true 1 t = .ok read u →
        Answers (requests.foldl apply s) block page mainGiven read)) ∧
      (Ready w → ∃ t, run (issued v) w requests = some t) := by
  constructor
  · intro t hrun block hblock
    have hend := run_keeps hkeeps hvalid hclean hrun
    constructor
    · intro bytes u hget
      exact ((blockStatusGet_marks hblock).of_ok hend hget).1
    · intro hgood page hpage mainGiven read u hread
      exact ((pagesRead_answers hblock hgood hpage mainGiven).of_ok hend hread).1
  · intro hready
    have hend : ∃ t, run (issued v) w requests = some t ∧ Ready t := run_ready hready
    exact hend.imp fun t => And.left

def imprinted (v : Volume) (good : ℕ → Bool) (s : Store) : World :=
  { fresh fun _ => smooth with
    chip := { (fresh fun _ => smooth).chip with
      page := fun row =>
        let block := row / gd25BlockPages - v.offset
        let type := s.pages block (row % gd25BlockPages)
        if good block = false then fun _ => 0
        else if type = .free then erasedPage
        else layout (s.contents block (row % gd25BlockPages)) (spareBytes 0 type) } }

theorem imprinted_ready : Ready (imprinted v good s) :=
  (fresh_ready fun _ => smooth_obliging).congr rfl rfl rfl (by simp [Failed, imprinted, fresh])

theorem imprinted_keeps
    (hfits : ∀ block < v.nand.totalBlocks, good block = true → ∀ page < gd25BlockPages, Fits (s.pages block page)) :
    Keeps v good s (imprinted v good s) := by
  have hplace : ∀ block < v.nand.totalBlocks, ∀ page < gd25BlockPages,
      Volume.row v block page / gd25BlockPages - v.offset = block ∧ Volume.row v block page % gd25BlockPages = page := by
    intro block hblock page hpage
    rw [row_eq hblock hpage]
    simp only [gd25BlockPages] at *
    omega
  refine ⟨imprinted_ready.reliable, rfl, fun block hblock hgood page hpage => ?_, fun block hblock hbad => ?_⟩
  · obtain ⟨hblock', hpage'⟩ := hplace block hblock page hpage
    dsimp only [imprinted]
    rw [hblock', hpage', if_neg (by simp [hgood])]
    split
    · next hfree =>
      rw [hfree]
      exact shows_erased _
    · next hused => exact shows_layout _ 0 (hfits block hblock hgood page hpage) hused
  · dsimp only [imprinted]
    rw [(hplace block hblock 0 (by decide)).1, if_pos hbad]
    decide

def blank : Store where
  toVolume := NandFlash.initialized 10
  contents _ _ := allOnes
  reprogrammed := false

/-- A sector is written, read, and moved to another block, and its block is erased. -/
def moved : List Request :=
  [.write 3 0 (.userData 5) (fun i => .ofNat i) 0, .read 3 0 true, .copy 3 0 4 7 1, .erase 3 1]

theorem moved_valid : ∀ r ∈ moved, r.Valid .settings (· ≠ 6) := by
  have hinside : ∀ r ∈ moved, Nand.Partition.Valid Volume.settings.nand r.callback := by
    simp only [moved, List.forall_mem_cons]
    exact ⟨⟨by decide, by decide⟩, ⟨by decide, by decide⟩, ⟨⟨by decide, by decide⟩, by decide, by decide⟩,
      ⟨by decide, by decide⟩, List.forall_mem_nil _⟩
  have hgood : ∀ r ∈ moved, ∀ block ∈ r.blocks, decide (block ≠ 6) = true := by
    simp only [moved, List.forall_mem_cons]
    exact ⟨by decide, by decide, by decide, by decide, List.forall_mem_nil _⟩
  intro r hr
  refine ⟨hinside r hr, hgood r hr, fun block page type data number hwrite => ?_⟩
  simp [moved, hwrite] at hr
  obtain ⟨rfl, rfl, rfl, -⟩ := hr
  refine ⟨by decide, fun sector hsector => ?_⟩
  cases hsector
  decide

theorem chip_holds_store_moved :
    ∃ t, run (issued .settings) (imprinted .settings (· ≠ 6) blank) moved = some t ∧
      ∀ mainGiven read u, Volume.settings.nand.pagesRead 4 7 mainGiven true 1 t = .ok read u →
        Answers (moved.foldl apply blank) 4 7 mainGiven read := by
  have hkeeps : Keeps .settings (· ≠ 6) blank (imprinted .settings (· ≠ 6) blank) :=
    imprinted_keeps fun _ _ _ _ _ sector hsector => by cases hsector
  have h := chip_holds_store hkeeps moved_valid (by decide)
  obtain ⟨t, hrun⟩ := h.2 imprinted_ready
  exact ⟨t, hrun, (h.1 t hrun 4 (by decide)).2 (by decide) 7 (by decide)⟩

end EtherBench.LevelX.OnChip
