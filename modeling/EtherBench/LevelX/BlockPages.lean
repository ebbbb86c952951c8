import EtherBench.LevelX.SectorStore
import Mathlib.Algebra.Group.Nat.Defs
import Mathlib.Algebra.Order.Group.Nat

/-! # The pages of a block of user data

So many pages at the start of a block hold sectors of one logical block, the rest are erased, and the
flags of the status tell whether the pages are in order and whether the block is full. A copy takes
over the latest page of each sector.
-/

namespace EtherBench.LevelX.BlockPages
open Nand.Device SectorStore
open NandFlash (PageType pageNumber withPageNumber setAt findPage lxNandBlockStatusFull lxNandBlockStatusAllocated
  lxNandBlockStatusNonSequential lxNandBlockStatusPageNumberMask)

/-! ## Statuses -/

def fullBit : ℕ := 14
def nonSequentialBit : ℕ := 13

theorem and_flag_ne_zero (status : BitVec 16) (bit : ℕ) (hbit : bit < 16) :
    status &&& BitVec.twoPow 16 bit ≠ 0 ↔ status.getLsbD bit = true := by
  rw [BitVec.and_twoPow]
  cases hset : status.getLsbD bit
  · simp
  · refine iff_of_true (fun h => ?_) rfl
    have hget := congrArg (fun x => x.getLsbD bit) h
    simp [hbit] at hget

theorem full_ne_zero (status : BitVec 16) :
    status &&& lxNandBlockStatusFull ≠ 0 ↔ status.getLsbD fullBit = true :=
  and_flag_ne_zero status fullBit (by decide)

theorem nonSequential_ne_zero (status : BitVec 16) :
    status &&& lxNandBlockStatusNonSequential ≠ 0 ↔ status.getLsbD nonSequentialBit = true :=
  and_flag_ne_zero status nonSequentialBit (by decide)

/-- The flags of a status are above its page number. -/
theorem getLsbD_withPageNumber (status : BitVec 16) {page bit : ℕ} (hpage : page < 2 ^ 12)
    (hlow : 12 ≤ bit) (hhigh : bit < 16) : (withPageNumber status page).getLsbD bit = status.getLsbD bit := by
  have hclear : page.testBit bit = false :=
    Nat.testBit_lt_two_pow (lt_of_lt_of_le hpage (Nat.pow_le_pow_right (by decide) hlow))
  have hmask : lxNandBlockStatusPageNumberMask.getLsbD bit = false := by
    obtain rfl | rfl | rfl | rfl : bit = 12 ∨ bit = 13 ∨ bit = 14 ∨ bit = 15 := by omega
    all_goals decide
  rw [withPageNumber, BitVec.getLsbD_or, BitVec.getLsbD_and, BitVec.getLsbD_not, BitVec.getLsbD_ofNat, hclear, hmask]
  simp [hhigh]

theorem pageNumber_withPageNumber (status : BitVec 16) {page : ℕ} (hpage : page < 2 ^ 12) :
    pageNumber (withPageNumber status page) = page := by
  have hmask : (status &&& ~~~lxNandBlockStatusPageNumberMask) &&& lxNandBlockStatusPageNumberMask = 0#16 := by
    rw [BitVec.and_assoc, BitVec.not_and_self]
    exact BitVec.and_zero
  have hpart : BitVec.ofNat 16 page &&& lxNandBlockStatusPageNumberMask = BitVec.ofNat 16 page := by
    apply BitVec.eq_of_toNat_eq
    rw [BitVec.toNat_and, show lxNandBlockStatusPageNumberMask.toNat = 2 ^ 12 - 1 from rfl,
      Nat.and_two_pow_sub_one_eq_mod, BitVec.toNat_ofNat]
    omega
  rw [pageNumber, withPageNumber, BitVec.and_or_distrib_right, hmask, hpart, BitVec.or_zero, BitVec.toNat_ofNat]
  exact Nat.mod_eq_of_lt (by omega)

theorem getLsbD_setAt_full (status : BitVec 16) (on : Bool) :
    (setAt status lxNandBlockStatusFull on).getLsbD fullBit = (status.getLsbD fullBit || on) ∧
      (setAt status lxNandBlockStatusFull on).getLsbD nonSequentialBit = status.getLsbD nonSequentialBit := by
  cases on <;> simp [setAt, lxNandBlockStatusFull, fullBit, nonSequentialBit]

theorem getLsbD_setAt_nonSequential (status : BitVec 16) (on : Bool) :
    (setAt status lxNandBlockStatusNonSequential on).getLsbD nonSequentialBit =
        (status.getLsbD nonSequentialBit || on) ∧
      (setAt status lxNandBlockStatusNonSequential on).getLsbD fullBit = status.getLsbD fullBit := by
  cases on <;> simp [setAt, lxNandBlockStatusNonSequential, fullBit, nonSequentialBit]

theorem pageNumber_setAt_nonSequential (status : BitVec 16) (on : Bool) :
    pageNumber (setAt status lxNandBlockStatusNonSequential on) = pageNumber status := by
  have hclear : lxNandBlockStatusNonSequential &&& lxNandBlockStatusPageNumberMask = 0#16 := by decide
  cases on
  · rfl
  · rw [pageNumber, setAt, if_pos rfl, BitVec.and_or_distrib_right, hclear, BitVec.or_zero, pageNumber]

/-! ## The latest page of a sector -/

/-- What a search from the last of the first pages finds. -/
def latest (types : ℕ → PageType) (data : ℕ → PageData) : ℕ → ℕ → PageData
  | 0, _ => allOnes
  | n + 1, sector => if (types n).sector? = some sector then data n else latest types data n sector

variable {types types' : ℕ → PageType} {data data' : ℕ → PageData} {index n : ℕ}

theorem latest_congr (h : ∀ page < n, types page = types' page ∧ data page = data' page) (sector : ℕ) :
    latest types data n sector = latest types' data' n sector := by
  induction n with
  | zero => rfl
  | succ n ih =>
    obtain ⟨htype, hdata⟩ := h n (Nat.lt_succ_self n)
    rw [latest, latest, htype, hdata, ih fun page hpage => h page (Nat.lt_succ_of_lt hpage)]

theorem latest_append (type : PageType) (content : PageData) (sector : ℕ) :
    latest (Function.update types n type) (Function.update data n content) (n + 1) sector =
      if type.sector? = some sector then content else latest types data n sector := by
  rw [latest, Function.update_self, Function.update_self]
  congr 1
  apply latest_congr
  intro page hpage
  exact ⟨Function.update_of_ne hpage.ne _ _, Function.update_of_ne hpage.ne _ _⟩

theorem latest_of_find (data : ℕ → PageData)
    (h : (List.range n).reverse.find? (fun page => (types page).sector? = some sector) = some page) :
    page < n ∧ (types page).sector? = some sector ∧ latest types data n sector = data page := by
  induction n with
  | zero => simp at h
  | succ n ih =>
    rw [List.range_succ, List.reverse_append, List.reverse_singleton, List.singleton_append, List.find?_cons] at h
    rw [latest]
    by_cases hlast : (types n).sector? = some sector
    · simp only [hlast, decide_true, Option.some.injEq] at h
      subst h
      exact ⟨Nat.lt_succ_self n, hlast, if_pos hlast⟩
    · simp only [hlast, decide_false] at h
      obtain ⟨hpage, hsector, hdata⟩ := ih h
      exact ⟨Nat.lt_succ_of_lt hpage, hsector, (if_neg hlast).trans hdata⟩

theorem latest_of_not_found (h : ∀ page < n, (types page).sector? ≠ some sector) :
    latest types data n sector = allOnes := by
  induction n with
  | zero => rfl
  | succ n ih =>
    rw [latest, if_neg (h n (Nat.lt_succ_self n)), ih fun page hpage => h page (Nat.lt_succ_of_lt hpage)]

/-! ## The pages in use -/

theorem sector_div (index : ℕ) {o : ℕ} (h : o < gd25BlockPages) :
    (index * gd25BlockPages + o) / gd25BlockPages = index := by
  rw [Nat.mul_comm, Nat.mul_add_div (by decide), Nat.div_eq_of_lt h, Nat.add_zero]

theorem sector_mod (index : ℕ) {o : ℕ} (h : o < gd25BlockPages) :
    (index * gd25BlockPages + o) % gd25BlockPages = o := by
  rw [Nat.mul_comm, Nat.mul_add_mod, Nat.mod_eq_of_lt h]

theorem sector_eq {sector index : ℕ} (h : sector / gd25BlockPages = index) :
    index * gd25BlockPages + sector % gd25BlockPages = sector := by
  rw [← h, Nat.mul_comm]
  exact Nat.div_add_mod sector gd25BlockPages

/-- The first pages hold sectors of a logical block, the others nothing. -/
structure Occupied (types : ℕ → PageType) (data : ℕ → PageData) (index n : ℕ) : Prop where
  sector : ∀ page < n, ∃ sector, (types page).sector? = some sector ∧ sector / gd25BlockPages = index
  released : ∀ page < n, ∀ sector, types page = .userDataReleased sector → data page = allOnes
  rest : ∀ page, n ≤ page → types page = .free

/-- Each page holds the sector of its own place. -/
def InOrder (types : ℕ → PageType) (index n : ℕ) : Prop :=
  ∀ page < n, types page = .userData (index * gd25BlockPages + page)

/-- What the status of a block says about its pages. -/
structure Stored (types : ℕ → PageType) (data : ℕ → PageData) (index : ℕ) (status : BitVec 16) : Prop where
  filled : Occupied types data index (pageNumber status)
  le : pageNumber status ≤ gd25BlockPages
  full : status.getLsbD fullBit = true ↔ pageNumber status = gd25BlockPages
  inOrder : status.getLsbD nonSequentialBit = false → InOrder types index (pageNumber status)

theorem Occupied.empty (h : ∀ page, types page = .free) : Occupied types data index 0 :=
  ⟨fun _ h => absurd h (Nat.not_lt_zero _), fun _ h => absurd h (Nat.not_lt_zero _), fun page _ => h page⟩

theorem Occupied.append (h : Occupied types data index n) {type : PageType} {content : PageData} {sector : ℕ}
    (htype : type.sector? = some sector) (hsector : sector / gd25BlockPages = index)
    (hreleased : type = .userDataReleased sector → content = allOnes) :
    Occupied (Function.update types n type) (Function.update data n content) index (n + 1) where
  sector page hpage := by
    by_cases hlast : page = n
    · subst hlast
      exact ⟨sector, by rwa [Function.update_self], hsector⟩
    · rw [Function.update_of_ne hlast]
      exact h.sector page (by omega)
  released page hpage x hx := by
    by_cases hlast : page = n
    · subst hlast
      rw [Function.update_self] at hx ⊢
      subst hx
      obtain rfl := Option.some.inj htype
      exact hreleased rfl
    · rw [Function.update_of_ne hlast] at hx ⊢
      exact h.released page (by omega) x hx
  rest page hpage := by
    rw [Function.update_of_ne (by omega)]
    exact h.rest page (by omega)

theorem InOrder.append (h : InOrder types index n) {type : PageType}
    (htype : type = .userData (index * gd25BlockPages + n)) :
    InOrder (Function.update types n type) index (n + 1) := by
  intro page hpage
  by_cases hlast : page = n
  · subst hlast
    rwa [Function.update_self]
  · rw [Function.update_of_ne hlast]
    exact h page (by omega)

theorem Occupied.latest_foreign (h : Occupied types data index n) {sector : ℕ}
    (hsector : sector / gd25BlockPages ≠ index) : latest types data n sector = allOnes := by
  apply latest_of_not_found
  intro page hpage heq
  obtain ⟨x, hx, hindex⟩ := h.sector page hpage
  rw [hx] at heq
  exact hsector (Option.some.inj heq ▸ hindex)

/-- In order, a sector is found at its own place. -/
theorem InOrder.latest_eq (h : InOrder types index n) {sector : ℕ} (hsector : sector / gd25BlockPages = index) :
    latest types data n sector =
      if sector % gd25BlockPages < n then data (sector % gd25BlockPages) else allOnes := by
  have hplace := sector_eq hsector
  induction n with
  | zero => rfl
  | succ n ih =>
    have hlast : (types n).sector? = some sector ↔ sector % gd25BlockPages = n := by
      rw [h n (Nat.lt_succ_self n), PageType.sector?, Option.some.injEq]
      omega
    rw [latest, ih fun page hpage => h page (Nat.lt_succ_of_lt hpage)]
    by_cases heq : sector % gd25BlockPages = n
    · rw [if_pos (hlast.mpr heq), if_pos (by omega), heq]
    · rw [if_neg (mt hlast.mp heq)]
      by_cases hlt : sector % gd25BlockPages < n
      · rw [if_pos hlt, if_pos (by omega)]
      · rw [if_neg hlt, if_neg (by omega)]

theorem Stored.availablePages_eq {status : BitVec 16} (h : Stored types data index status) :
    availablePages status = pageNumber status := by
  rw [availablePages]
  split
  · rename_i hfull
    exact (h.full.mp ((full_ne_zero status).mp hfull)).symm
  · rfl

theorem Stored.room {status : BitVec 16} (h : Stored types data index status)
    (hroom : status &&& lxNandBlockStatusFull = 0) : pageNumber status < gd25BlockPages := by
  refine lt_of_le_of_ne h.le fun heq => ?_
  rw [← h.full, ← full_ne_zero] at heq
  exact heq hroom

theorem Stored.allocated (h : ∀ page, types page = .free) (data : ℕ → PageData) (index : ℕ) :
    Stored types data index lxNandBlockStatusAllocated := by
  have hzero : pageNumber lxNandBlockStatusAllocated = 0 := by decide
  refine ⟨?_, ?_, ?_, ?_⟩
  · rw [hzero]
    exact Occupied.empty h
  · rw [hzero]
    exact Nat.zero_le _
  · decide
  · intro _ page hpage
    rw [hzero] at hpage
    exact absurd hpage (Nat.not_lt_zero page)

theorem Stored.of_flags (flags : BitVec 16) (hfilled : Occupied types data index n) (hn : n ≤ gd25BlockPages)
    (hfull : flags.getLsbD fullBit = true ↔ n = gd25BlockPages)
    (horder : flags.getLsbD nonSequentialBit = false → InOrder types index n) :
    Stored types data index (withPageNumber flags n) ∧ pageNumber (withPageNumber flags n) = n := by
  have hsmall : n < 2 ^ 12 := lt_of_le_of_lt hn (by decide)
  have hnumber := pageNumber_withPageNumber flags hsmall
  have hbit (bit : ℕ) (hlow : 12 ≤ bit) (hhigh : bit < 16) := getLsbD_withPageNumber flags hsmall hlow hhigh
  refine ⟨⟨?_, ?_, ?_, ?_⟩, hnumber⟩
  · rwa [hnumber]
  · rwa [hnumber]
  · rw [hnumber, hbit fullBit (by decide) (by decide)]
    exact hfull
  · rw [hnumber, hbit nonSequentialBit (by decide) (by decide)]
    exact horder

/-! ## Copies -/

def withBlock (s : Store) (block : ℕ) (types : ℕ → PageType) (data : ℕ → PageData) : Store :=
  { s with
    pages := Function.update s.pages block types
    contents := Function.update s.contents block data }

variable {s : Store} {block : ℕ}

@[simp] theorem withBlock_self (s : Store) (block : ℕ) : withBlock s block (s.pages block) (s.contents block) = s := by
  rw [withBlock, Function.update_eq_self, Function.update_eq_self]

@[simp] theorem withBlock_withBlock (s : Store) (block : ℕ) (types types' : ℕ → PageType)
    (data data' : ℕ → PageData) :
    withBlock (withBlock s block types data) block types' data' = withBlock s block types' data' := by
  simp [withBlock]

@[simp] theorem withBlock_pages_self (s : Store) (block : ℕ) (types : ℕ → PageType) (data : ℕ → PageData) :
    (withBlock s block types data).pages block = types := Function.update_self ..

@[simp] theorem withBlock_contents_self (s : Store) (block : ℕ) (types : ℕ → PageType) (data : ℕ → PageData) :
    (withBlock s block types data).contents block = data := Function.update_self ..

theorem withBlock_pages_of_ne {other : ℕ} (h : other ≠ block) (types : ℕ → PageType) (data : ℕ → PageData) :
    (withBlock s block types data).pages other = s.pages other := Function.update_of_ne h ..

theorem withBlock_contents_of_ne {other : ℕ} (h : other ≠ block) (types : ℕ → PageType) (data : ℕ → PageData) :
    (withBlock s block types data).contents other = s.contents other := Function.update_of_ne h ..

theorem driverPageWrite_free {page : ℕ} (h : s.pages block page = .free) (type : PageType) (data : PageData) :
    driverPageWrite s block page type data =
      withBlock s block (Function.update (s.pages block) page type) (Function.update (s.contents block) page data) := by
  simp [driverPageWrite, NandFlash.driverPageWrite, withBlock, h]

/-- A copy under way: the pages of its destination so far, and the flags that go with them. -/
structure Target (s : Store) (destination index : ℕ) (types : ℕ → PageType) (data : ℕ → PageData)
    (f : Filled) : Prop where
  store : f.store = withBlock s destination types data
  occupied : Occupied types data index f.page
  le : f.page ≤ gd25BlockPages
  full : f.flags.getLsbD fullBit = true ↔ f.page = gd25BlockPages
  inOrder : f.flags.getLsbD nonSequentialBit = false → InOrder types index f.page

section Copy
variable {source destination available : ℕ} {f : Filled}

theorem Target.copyPage (h : Target s destination index types data f) (hne : source ≠ destination)
    (hroom : f.page < gd25BlockPages) {page sector : ℕ} (hpage : s.pages source page = .userData sector)
    (hsector : sector / gd25BlockPages = index) :
    Target s destination index (Function.update types f.page (.userData sector))
      (Function.update data f.page (s.contents source page))
      ⟨driverPagesCopy f.store source page destination f.page 1, f.page + 1,
        setAt (setAt f.flags lxNandBlockStatusNonSequential (f.page ≠ sector % gd25BlockPages))
          lxNandBlockStatusFull (f.page + 1 = gd25BlockPages)⟩ := by
  have hplace := sector_eq hsector
  obtain ⟨hfull, hkeepsOrder⟩ := getLsbD_setAt_full
    (setAt f.flags lxNandBlockStatusNonSequential (f.page ≠ sector % gd25BlockPages)) (f.page + 1 = gd25BlockPages)
  obtain ⟨horder, hkeepsFull⟩ := getLsbD_setAt_nonSequential f.flags (f.page ≠ sector % gd25BlockPages)
  have hnotFull : f.flags.getLsbD fullBit = false := by
    rw [← Bool.not_eq_true, h.full]
    exact hroom.ne
  refine ⟨?_, ?_, hroom, ?_, ?_⟩
  · have hfree : (withBlock s destination types data).pages destination f.page = .free := by
      rw [withBlock_pages_self]
      exact h.occupied.rest f.page le_rfl
    simp only [driverPagesCopy, List.range_one, List.foldl_cons, List.foldl_nil, Nat.add_zero, h.store]
    rw [driverPageWrite_free hfree, withBlock_pages_of_ne hne, withBlock_contents_of_ne hne, hpage]
    simp
  · exact h.occupied.append rfl hsector (by simp)
  · rw [hfull, hkeepsFull, hnotFull]
    simp
  · intro hflag
    rw [hkeepsOrder, horder, Bool.or_eq_false_iff, decide_eq_false_iff_not, not_not] at hflag
    obtain ⟨hold, hsame⟩ := hflag
    exact (h.inOrder hold).append (by rw [hsame, hplace])

theorem Target.latest_copyPage (sector : ℕ) (page : ℕ) (x : ℕ) :
    latest (Function.update types n (.userData sector)) (Function.update data n (s.contents source page)) (n + 1) x =
      if x = sector then s.contents source page else latest types data n x := by
  rw [latest_append]
  simp only [PageType.sector?, Option.some.injEq, eq_comm]

theorem Target.copySector (h : Target s destination index types data f) (hne : source ≠ destination)
    (hsource : Occupied (s.pages source) (s.contents source) index available) (hroom : f.page < gd25BlockPages)
    {sector : ℕ} (hsector : sector / gd25BlockPages = index) (hnew : latest types data f.page sector = allOnes) :
    ∃ types' data', Target s destination index types' data' (copySector source available destination sector f) ∧
      (copySector source available destination sector f).page ≤ f.page + 1 ∧
      ∀ x, latest types' data' (copySector source available destination sector f).page x =
        if x = sector then latest (s.pages source) (s.contents source) available x
        else latest types data f.page x := by
  have hpages : f.store.pages source = s.pages source := by rw [h.store, withBlock_pages_of_ne hne]
  have hsame (hvalue : latest (s.pages source) (s.contents source) available sector = allOnes) (x : ℕ) :
      latest types data f.page x = if x = sector then latest (s.pages source) (s.contents source) available x
        else latest types data f.page x := by
    split
    · rename_i hx
      rw [hx, hnew, hvalue]
    · rfl
  rw [SectorStore.copySector]
  cases hfind : findPage f.store.toVolume source available sector with
  | none =>
    refine ⟨types, data, h, Nat.le_succ _, hsame (latest_of_not_found fun page hpage heq => ?_)⟩
    rw [findPage, List.find?_eq_none, hpages] at hfind
    exact hfind page (by simpa using hpage) (by simpa using heq)
  | some page =>
    rw [findPage, hpages] at hfind
    obtain ⟨hpage, htype, hvalue⟩ := latest_of_find (s.contents source) hfind
    dsimp only
    rw [hpages]
    split
    · rename_i huser
      refine ⟨_, _, h.copyPage hne hroom huser hsector, le_rfl, fun x => ?_⟩
      rw [Target.latest_copyPage]
      by_cases hx : x = sector
      · rw [if_pos hx, if_pos hx, hx, hvalue]
      · rw [if_neg hx, if_neg hx]
    · rename_i huser
      refine ⟨types, data, h, Nat.le_succ _, hsame ?_⟩
      rw [hvalue]
      cases hcase : s.pages source page with
      | userData x => simp_all [PageType.sector?]
      | userDataReleased x => exact hsource.released page hpage x hcase
      | _ => simp [hcase, PageType.sector?] at htype

theorem Target.copySectors (h : Target s destination index types data f) (hne : source ≠ destination)
    (hsource : Occupied (s.pages source) (s.contents source) index available) {k count : ℕ} (hk : f.page ≤ k)
    (hfit : k + count ≤ gd25BlockPages)
    (hnew : ∀ o, k ≤ o → latest types data f.page (index * gd25BlockPages + o) = allOnes) :
    ∃ types' data' f', (List.range count).foldl (fun f i =>
          SectorStore.copySector source available destination (index * gd25BlockPages + k + i) f) f = f' ∧
      Target s destination index types' data' f' ∧ f'.page ≤ k + count ∧
      ∀ x, latest types' data' f'.page x =
        if index * gd25BlockPages + k ≤ x ∧ x < index * gd25BlockPages + (k + count) then
          latest (s.pages source) (s.contents source) available x
        else latest types data f.page x := by
  induction count with
  | zero =>
    refine ⟨types, data, f, rfl, h, hk, fun x => ?_⟩
    rw [if_neg (by omega)]
  | succ count ih =>
    obtain ⟨types', data', f', hfold, htarget, hpage, hvalue⟩ := ih (by omega)
    have hsector : (index * gd25BlockPages + k + count) / gd25BlockPages = index := by
      rw [Nat.add_assoc]
      exact sector_div index (by omega)
    have hnext : latest types' data' f'.page (index * gd25BlockPages + k + count) = allOnes := by
      rw [hvalue, if_neg (by omega), Nat.add_assoc]
      exact hnew _ (Nat.le_add_right k count)
    obtain ⟨types'', data'', htarget', hpage', hvalue'⟩ :=
      htarget.copySector hne hsource (by omega) hsector hnext
    refine ⟨types'', data'', _, rfl, ?_, ?_, fun x => ?_⟩
    · rwa [List.range_succ, List.foldl_append, hfold]
    · rw [List.range_succ, List.foldl_append, hfold]
      exact hpage'.trans (by omega)
    · rw [List.range_succ, List.foldl_append, hfold]
      refine (hvalue' x).trans ?_
      rw [hvalue]
      by_cases hlast : x = index * gd25BlockPages + k + count
      · rw [if_pos hlast, if_pos (by omega)]
      · rw [if_neg hlast]
        exact if_congr (by omega) rfl rfl

theorem Occupied.copyPages (h : Occupied types data index n) (hne : source ≠ destination)
    (hsource : InOrder (s.pages source) index available) {k count : ℕ}
    (havailable : k + count ≤ available) (hfit : available ≤ gd25BlockPages) :
    ∃ types' data',
      driverPagesCopy (withBlock s destination types data) source k destination n count =
        withBlock s destination types' data' ∧
      Occupied types' data' index (n + count) ∧
      (InOrder types index n → k = n → InOrder types' index (n + count)) ∧
      ∀ x, latest types' data' (n + count) x =
        if index * gd25BlockPages + k ≤ x ∧ x < index * gd25BlockPages + (k + count) then
          latest (s.pages source) (s.contents source) available x
        else latest types data n x := by
  induction count with
  | zero =>
    refine ⟨types, data, rfl, h, fun horder _ => horder, fun x => ?_⟩
    rw [if_neg (by omega), Nat.add_zero]
  | succ count ih =>
    obtain ⟨types', data', hcopy, hoccupied, horder, hvalue⟩ := ih (by omega)
    have hpage := hsource (k + count) (by omega)
    have hsector := sector_div index (o := k + count) (by omega)
    have hplace := sector_mod index (o := k + count) (by omega)
    have hfree : (withBlock s destination types' data').pages destination (n + count) = .free := by
      rw [withBlock_pages_self]
      exact hoccupied.rest _ le_rfl
    rw [← Nat.add_assoc n]
    refine ⟨Function.update types' (n + count) (.userData (index * gd25BlockPages + (k + count))),
      Function.update data' (n + count) (s.contents source (k + count)), ?_, ?_, ?_, fun x => ?_⟩
    · rw [driverPagesCopy, List.range_succ, List.foldl_append, ← driverPagesCopy, hcopy, List.foldl_cons,
        List.foldl_nil, driverPageWrite_free hfree, withBlock_pages_of_ne hne, withBlock_contents_of_ne hne, hpage]
      simp
    · exact hoccupied.append rfl hsector (by simp)
    · intro hold hk
      exact (horder hold hk).append (by rw [hk])
    · rw [Target.latest_copyPage]
      by_cases hlast : x = index * gd25BlockPages + (k + count)
      · rw [if_pos hlast, if_pos (by omega), hlast, hsource.latest_eq hsector, hplace, if_pos (by omega)]
      · rw [if_neg hlast, hvalue]
        exact if_congr (by omega) rfl rfl

/-- A copy of the sectors from one offset to another is done: in the destination, each of these is what
it has been in the source. -/
def Copied (s : Store) (source available destination : ℕ) (destinationStatus : BitVec 16) (index first last : ℕ)
    (f : Filled) : Prop :=
  ∃ types data, Target s destination index types data f ∧ f.page ≤ last ∧
    ∀ x, latest types data f.page x =
      if index * gd25BlockPages + first ≤ x ∧ x < index * gd25BlockPages + last then
        latest (s.pages source) (s.contents source) available x
      else latest (s.pages destination) (s.contents destination) (pageNumber destinationStatus) x

section Whole
variable {destinationStatus : BitVec 16} {k m : ℕ}
  (hdestination : Stored (s.pages destination) (s.contents destination) index destinationStatus)
  (hk : pageNumber destinationStatus ≤ k) (hfit : k + m ≤ gd25BlockPages)
  (hnew : ∀ o, k ≤ o → latest (s.pages destination) (s.contents destination) (pageNumber destinationStatus)
    (index * gd25BlockPages + o) = allOnes)
include hdestination hk hfit hnew

theorem copySectors_spec (hne : source ≠ destination)
    (hsource : Occupied (s.pages source) (s.contents source) index available) :
    Copied s source available destination destinationStatus index k (k + m)
      (copySectors s (index * gd25BlockPages + k) source available destination destinationStatus m) := by
  have htarget : Target s destination index (s.pages destination) (s.contents destination)
      ⟨s, pageNumber destinationStatus, destinationStatus⟩ :=
    ⟨(withBlock_self s destination).symm, hdestination.filled, hdestination.le, hdestination.full,
      hdestination.inOrder⟩
  obtain ⟨types, data, f, hfold, hdone⟩ := htarget.copySectors hne hsource hk hfit hnew
  rw [copySectors, hfold]
  exact ⟨types, data, hdone⟩

theorem copyPages_spec (hne : source ≠ destination) (hsource : InOrder (s.pages source) index available)
    (havailable : available ≤ gd25BlockPages) (hinside : k < gd25BlockPages) :
    Copied s source available destination destinationStatus index k (k + m)
      (copyPages s (index * gd25BlockPages + k) source available destination destinationStatus m) := by
  rw [copyPages, sector_mod index hinside]
  dsimp only
  generalize hcopied : (if available < k + m then available - k else m) = copied
  have hcopied_le : copied ≤ m := by
    rw [← hcopied]
    split <;> omega
  have hroom (hpositive : copied ≠ 0) : k + copied ≤ available := by
    rw [← hcopied] at hpositive ⊢
    split at hpositive <;> split <;> omega
  -- The source has no page for the sectors that are left out.
  have hrest (x : ℕ) (hrange : index * gd25BlockPages + k ≤ x ∧ x < index * gd25BlockPages + (k + m))
      (hout : ¬ x < index * gd25BlockPages + (k + copied)) :
      latest (s.pages source) (s.contents source) available x =
        latest (s.pages destination) (s.contents destination) (pageNumber destinationStatus) x := by
    obtain ⟨o, rfl⟩ := Nat.exists_eq_add_of_le (le_trans (Nat.le_add_right _ k) hrange.1)
    have ho : o < gd25BlockPages := by omega
    have hshort : ¬ o < available := by
      rw [← hcopied] at hout
      split at hout <;> omega
    rw [hsource.latest_eq (sector_div index ho), sector_mod index ho, if_neg hshort]
    exact (hnew o (by omega)).symm
  by_cases hzero : copied = 0
  · rw [if_neg (not_not.mpr hzero)]
    refine ⟨s.pages destination, s.contents destination, ⟨(withBlock_self s destination).symm, hdestination.filled,
      hdestination.le, hdestination.full, hdestination.inOrder⟩, by dsimp only; omega, fun x => ?_⟩
    split
    · rename_i hrange
      exact (hrest x hrange (by omega)).symm
    · rfl
  · rw [if_pos hzero]
    obtain ⟨types, data, hcopy, hoccupied, horder, hvalue⟩ :=
      hdestination.filled.copyPages hne hsource (hroom hzero) havailable
    rw [withBlock_self] at hcopy
    obtain ⟨hfull, hkeepsOrder⟩ := getLsbD_setAt_full
      (setAt destinationStatus lxNandBlockStatusNonSequential (k ≠ pageNumber destinationStatus))
      (pageNumber destinationStatus + copied = gd25BlockPages)
    obtain ⟨horderBit, hkeepsFull⟩ := getLsbD_setAt_nonSequential destinationStatus (k ≠ pageNumber destinationStatus)
    have hnotFull : destinationStatus.getLsbD fullBit = false := by
      rw [← Bool.not_eq_true, hdestination.full]
      omega
    refine ⟨types, data, ⟨hcopy, hoccupied, by dsimp only; omega, ?_, ?_⟩, by dsimp only; omega, fun x => ?_⟩
    · rw [hfull, hkeepsFull, hnotFull]
      simp
    · intro hflag
      rw [hkeepsOrder, horderBit, Bool.or_eq_false_iff, decide_eq_false_iff_not, not_not] at hflag
      exact horder (hdestination.inOrder hflag.1) hflag.2
    · rw [hvalue]
      by_cases hrange : index * gd25BlockPages + k ≤ x ∧ x < index * gd25BlockPages + (k + m)
      · rw [if_pos hrange]
        split
        · rfl
        · rename_i hout
          exact (hrest x hrange (by omega)).symm
      · rw [if_neg hrange, if_neg (by omega)]

/-- A copy from one block to another: the destination takes over what the sectors are in the source. -/
theorem dataPageCopy_spec (hne : source ≠ destination) {sourceStatus : BitVec 16}
    (hsource : Stored (s.pages source) (s.contents source) index sourceStatus) (hinside : k < gd25BlockPages) :
    ∃ types data status,
      dataPageCopy s (index * gd25BlockPages + k) source sourceStatus destination destinationStatus m =
        (withBlock s destination types data, status) ∧
      Stored types data index status ∧ pageNumber status ≤ k + m ∧
      ∀ x, latest types data (pageNumber status) x =
        if index * gd25BlockPages + k ≤ x ∧ x < index * gd25BlockPages + (k + m) then
          latest (s.pages source) (s.contents source) (pageNumber sourceStatus) x
        else latest (s.pages destination) (s.contents destination) (pageNumber destinationStatus) x := by
  have hcopied : Copied s source (pageNumber sourceStatus) destination destinationStatus index k (k + m)
      (if sourceStatus &&& lxNandBlockStatusNonSequential ≠ 0 then
        copySectors s (index * gd25BlockPages + k) source (pageNumber sourceStatus) destination destinationStatus m
      else copyPages s (index * gd25BlockPages + k) source (pageNumber sourceStatus) destination destinationStatus
        m) := by
    by_cases hflag : sourceStatus &&& lxNandBlockStatusNonSequential ≠ 0
    · rw [if_pos hflag]
      exact copySectors_spec hdestination hk hfit hnew hne hsource.filled
    · rw [if_neg hflag]
      rw [nonSequential_ne_zero, Bool.not_eq_true] at hflag
      exact copyPages_spec hdestination hk hfit hnew hne (hsource.inOrder hflag) hsource.le hinside
  obtain ⟨types, data, htarget, hpage, hvalue⟩ := hcopied
  obtain ⟨hstored, hnumber⟩ := Stored.of_flags _ htarget.occupied htarget.le htarget.full htarget.inOrder
  rw [dataPageCopy, hsource.availablePages_eq]
  refine ⟨types, data, _, congrArg (·, _) htarget.store, hstored, hnumber.trans_le hpage, ?_⟩
  rwa [hnumber]

end Whole

/-- The first sectors of a block, to an erased one. -/
theorem dataPageCopy_erased (hne : source ≠ destination) {sourceStatus : BitVec 16}
    (hsource : Stored (s.pages source) (s.contents source) index sourceStatus)
    (herased : ∀ page, s.pages destination page = .free) {m : ℕ} (hm : m ≤ gd25BlockPages) :
    ∃ types data status,
      dataPageCopy s (index * gd25BlockPages) source sourceStatus destination lxNandBlockStatusAllocated m =
        (withBlock s destination types data, status) ∧
      Stored types data index status ∧ pageNumber status ≤ m ∧
      ∀ x, latest types data (pageNumber status) x =
        if index * gd25BlockPages ≤ x ∧ x < index * gd25BlockPages + m then
          latest (s.pages source) (s.contents source) (pageNumber sourceStatus) x
        else allOnes := by
  have hzero : pageNumber lxNandBlockStatusAllocated = 0 := by decide
  have hspec := dataPageCopy_spec (k := 0) (m := m)
    (Stored.allocated herased (s.contents destination) index) hzero.le (by omega) (fun o _ => by rw [hzero]; rfl)
    hne hsource (by decide)
  simpa only [Nat.add_zero, Nat.zero_add, hzero, latest] using hspec

theorem dataPageCopy_block (hne : source ≠ destination) {sourceStatus : BitVec 16}
    (hsource : Stored (s.pages source) (s.contents source) index sourceStatus)
    (herased : ∀ page, s.pages destination page = .free) :
    ∃ types data status,
      dataPageCopy s (index * gd25BlockPages) source sourceStatus destination lxNandBlockStatusAllocated
        gd25BlockPages = (withBlock s destination types data, status) ∧
      Stored types data index status ∧
      ∀ x, latest types data (pageNumber status) x =
        latest (s.pages source) (s.contents source) (pageNumber sourceStatus) x := by
  obtain ⟨types, data, status, hcopy, hstored, -, hvalue⟩ := dataPageCopy_erased hne hsource herased le_rfl
  refine ⟨types, data, status, hcopy, hstored, fun x => ?_⟩
  rw [hvalue]
  split
  · rfl
  · rename_i hout
    refine (hsource.filled.latest_foreign fun hindex => hout ?_).symm
    have hplace := sector_eq hindex
    have hlt : x % gd25BlockPages < gd25BlockPages := Nat.mod_lt x (by decide)
    omega

end Copy

/-! ## Single pages -/

section Write
variable {status : BitVec 16} {sector : ℕ}
  (h : Stored (s.pages block) (s.contents block) index status) (hroom : pageNumber status < gd25BlockPages)
  (hsector : sector / gd25BlockPages = index)
include h hroom hsector

/-- The page of a sector behind the pages of its block. -/
theorem sectorPageWrite_spec (data : PageData) :
    ∃ types contents status', sectorPageWrite s sector data block status = (withBlock s block types contents, status') ∧
      Stored types contents index status' ∧ pageNumber status' = pageNumber status + 1 ∧
      ∀ x, latest types contents (pageNumber status') x =
        if x = sector then data else latest (s.pages block) (s.contents block) (pageNumber status) x := by
  obtain ⟨hfull, hkeepsOrder⟩ := getLsbD_setAt_full
    (setAt status lxNandBlockStatusNonSequential (pageNumber status ≠ sector % gd25BlockPages))
    (pageNumber status + 1 = gd25BlockPages)
  obtain ⟨horder, hkeepsFull⟩ := getLsbD_setAt_nonSequential status
    (pageNumber status ≠ sector % gd25BlockPages)
  have hnotFull : status.getLsbD fullBit = false := by
    rw [← Bool.not_eq_true, h.full]
    exact hroom.ne
  have hfilled : Occupied (Function.update (s.pages block) (pageNumber status) (.userData sector))
      (Function.update (s.contents block) (pageNumber status) data) index (pageNumber status + 1) :=
    h.filled.append rfl hsector (by simp)
  obtain ⟨hstored, hnumber⟩ := Stored.of_flags (setAt (setAt status lxNandBlockStatusNonSequential
      (pageNumber status ≠ sector % gd25BlockPages)) lxNandBlockStatusFull (pageNumber status + 1 = gd25BlockPages))
    hfilled hroom
    (by rw [hfull, hkeepsFull, hnotFull]; simp)
    (by
      intro hflag
      rw [hkeepsOrder, horder, Bool.or_eq_false_iff, decide_eq_false_iff_not, not_not] at hflag
      exact (h.inOrder hflag.1).append (by rw [hflag.2, sector_eq hsector]))
  refine ⟨_, _, _, congrArg (·, _) (driverPageWrite_free (h.filled.rest _ le_rfl) _ _), hstored, hnumber, fun x => ?_⟩
  rw [hnumber, latest_append]
  simp only [PageType.sector?, Option.some.injEq, eq_comm]

theorem releasedPageWrite_spec :
    ∃ types contents status', releasedPageWrite s sector block status = (withBlock s block types contents, status') ∧
      Stored types contents index status' ∧ pageNumber status' = pageNumber status + 1 ∧
      ∀ x, latest types contents (pageNumber status') x =
        if x = sector then allOnes else latest (s.pages block) (s.contents block) (pageNumber status) x := by
  obtain ⟨hfull, -⟩ := getLsbD_setAt_full status (pageNumber status + 1 = gd25BlockPages)
  have hnotFull : status.getLsbD fullBit = false := by
    rw [← Bool.not_eq_true, h.full]
    exact hroom.ne
  have hsmall : pageNumber status + 1 < 2 ^ 12 := lt_of_le_of_lt hroom (by decide)
  generalize hflags : withPageNumber (setAt status lxNandBlockStatusFull (pageNumber status + 1 = gd25BlockPages))
    (pageNumber status + 1) = flags
  obtain ⟨hset, hkeepsFull⟩ := getLsbD_setAt_nonSequential flags true
  have hnumber : pageNumber (setAt flags lxNandBlockStatusNonSequential true) = pageNumber status + 1 := by
    rw [pageNumber_setAt_nonSequential, ← hflags, pageNumber_withPageNumber _ hsmall]
  have hstored : Stored (Function.update (s.pages block) (pageNumber status) (.userDataReleased sector))
      (Function.update (s.contents block) (pageNumber status) allOnes) index
      (setAt flags lxNandBlockStatusNonSequential true) := by
    refine ⟨?_, ?_, ?_, ?_⟩
    · rw [hnumber]
      exact h.filled.append rfl hsector fun _ => rfl
    · rw [hnumber]
      exact hroom
    · rw [hnumber, hkeepsFull, ← hflags, getLsbD_withPageNumber _ hsmall (by decide) (by decide), hfull, hnotFull]
      simp
    · intro hflag
      rw [hset, Bool.or_true] at hflag
      exact absurd hflag (by decide)
  rw [releasedPageWrite, h.availablePages_eq, hflags, driverPageWrite_free (h.filled.rest _ le_rfl)]
  refine ⟨_, _, _, rfl, hstored, hnumber, fun x => ?_⟩
  change latest _ _ (pageNumber (setAt flags lxNandBlockStatusNonSequential true)) x = _
  rw [hnumber, latest_append]
  simp only [PageType.sector?, Option.some.injEq, eq_comm]

end Write

end EtherBench.LevelX.BlockPages
