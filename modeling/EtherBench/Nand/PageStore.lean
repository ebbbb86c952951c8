import Mathlib.Tactic.SplitIfs
import EtherBench.Library.Memory
import EtherBench.Nand.Driver

/-! # The array as a store of pages

What the driver makes of the columns of a page: the main area, and behind it the spare area.
Both travel through the start of one staging buffer, and a program only clears bits.
-/

namespace EtherBench.Nand.PageStore
open Device Driver Library.Memory

abbrev Pages := ℕ → Page

/-- A byte of a buffer; all ones when there is no buffer. -/
def area : Source → ℕ → UInt8
  | none, _ => 0xFF
  | some bytes, i => bytes i

/-- A page made of its two areas. -/
def layout (main spare : ℕ → UInt8) : Page := fun c =>
  if c < gd25PageSize then main c
  else if c < gd25PageTotal then spare (c - gd25PageSize)
  else 0xFF

def programmed (pages : Pages) (row : ℕ) (content : Page) : Pages :=
  Function.update pages row fun c => pages row c &&& content c

/-- The array after the program of a row for each page of a range, with consecutive parts of both
buffers. -/
def written (pages : Pages) (block page : ℕ) (mainBuffer spareBuffer : Source) : ℕ → Pages
  | 0 => pages
  | i + 1 => programmed (written pages block page mainBuffer spareBuffer i) (rowAddr block (page + i))
      (layout (fun c => area mainBuffer (i * gd25PageSize + c)) fun c => area spareBuffer (i * gd25PageOob + c))

/-- Some columns of each page of a range, one page after the other. -/
def columns (pages : Pages) (block start len first count : ℕ) : List UInt8 :=
  (List.range' first count).flatMap fun page => slice (pages (rowAddr block page)) start len

theorem columns_succ (pages : Pages) (block start len first count : ℕ) :
    columns pages block start len first (count + 1) =
      slice (pages (rowAddr block first)) start len ++ columns pages block start len (first + 1) count := by
  rw [columns, List.range'_succ, List.flatMap_cons]
  rfl

/-! ## The staging buffer -/

theorem area_advance (source : Source) (n i : ℕ) : area (source.advance n) i = area source (n + i) := by
  cases source with
  | none => rfl
  | some bytes => rfl

theorem overlay_range (page : Page) (column size : ℕ) (f : ℕ → UInt8) (c : ℕ) :
    overlay page column ((List.range size).map f) c =
      if column ≤ c ∧ c < column + size then f (c - column) else page c := by
  rw [overlay]
  by_cases hfrom : column ≤ c
  · rw [if_pos hfrom, List.getD_eq_getElem?_getD, List.getElem?_map]
    by_cases hto : c < column + size
    · rw [if_pos ⟨hfrom, hto⟩, List.getElem?_range (by omega)]
      rfl
    · rw [if_neg fun h => hto h.2, List.getElem?_eq_none (by rw [List.length_range]; omega)]
      rfl
  · rw [if_neg hfrom, if_neg fun h => hfrom h.1]

theorem stage_apply (mainBuffer : Source) (mainSize : ℕ) (spareBuffer : Source) (spareSize i : ℕ) :
    stage mainBuffer mainSize spareBuffer spareSize 0 i =
      if i < mainSize then area mainBuffer i
      else if i < mainSize + spareSize then area spareBuffer (i - mainSize)
      else 0xFF := by
  cases mainBuffer <;> cases spareBuffer <;>
    simp only [stage, overlay_range, area, erasedPage, Nat.add_zero, Nat.zero_le, true_and, Nat.zero_add,
      Nat.sub_zero] <;>
    split_ifs <;> first | rfl | omega

def sizeOf (given : Bool) (size : ℕ) : ℕ := if given then size else 0

theorem sizeOf_le (given : Bool) (size : ℕ) : sizeOf given size ≤ size := by
  cases given with
  | true => exact Nat.le_refl size
  | false => exact Nat.zero_le size

theorem xferSize_eq (mainGiven spareGiven : Bool) {n : ℕ} (hn : n ≤ gd25PageOob) :
    xferSize mainGiven (sizeOf mainGiven gd25PageSize) spareGiven (sizeOf spareGiven n) =
      sizeOf mainGiven gd25PageSize + sizeOf spareGiven n := by
  have hmain := sizeOf_le mainGiven gd25PageSize
  have hspare := sizeOf_le spareGiven n
  have hpage : gd25PageSize + gd25PageOob < 2 ^ 32 := by decide
  have hbound : sizeOf mainGiven gd25PageSize + sizeOf spareGiven n < 2 ^ 32 := by omega
  rw [← ulong_eq hbound, xferSize]
  cases mainGiven <;> cases spareGiven <;> rfl

/-- What a program load leaves in the cache. -/
def loaded (mainBuffer : Source) (mainSize : ℕ) (spareBuffer : Source) (spareSize : ℕ) : Page :=
  overlay erasedPage (startColumn mainBuffer.isSome 0)
    ((List.range (xferSize mainBuffer.isSome mainSize spareBuffer.isSome spareSize)).map
      (stage mainBuffer mainSize spareBuffer spareSize 0))

/-- The same for spare bytes at an offset. -/
def loadedAt (mainBuffer : Source) (mainSize : ℕ) (spareBuffer : Source) (spareSize spareOffset : ℕ) : Page :=
  overlay erasedPage (startColumn mainBuffer.isSome spareOffset)
    ((List.range (xferSize mainBuffer.isSome mainSize spareBuffer.isSome spareSize)).map
      (stage mainBuffer mainSize spareBuffer spareSize spareOffset))

def firstBytes (n : ℕ) (bytes : ℕ → UInt8) (i : ℕ) : UInt8 := if i < n then bytes i else 0xFF

/-- Whatever areas are given, the bytes of each end up in its own columns. -/
theorem loaded_layout (mainBuffer spareBuffer : Source) {n : ℕ} (hn : n ≤ gd25PageOob) :
    loaded mainBuffer (sizeOf mainBuffer.isSome gd25PageSize) spareBuffer (sizeOf spareBuffer.isSome n) =
      layout (area mainBuffer) (firstBytes n (area spareBuffer)) := by
  funext c
  rw [loaded, overlay_range, xferSize_eq _ _ hn, stage_apply, layout, gd25PageTotal]
  cases mainBuffer with
  | none =>
    have hstart : startColumn false 0 = gd25PageSize := rfl
    cases spareBuffer with
    | none =>
      simp only [Option.isSome_none, sizeOf, Bool.false_eq_true, if_false, hstart, firstBytes, area]
      split_ifs <;> rfl
    | some spare =>
      simp only [Option.isSome_none, Option.isSome_some, sizeOf, Bool.false_eq_true, if_false, if_true, hstart,
        firstBytes, area, erasedPage, Nat.not_lt_zero, Nat.zero_add, Nat.sub_zero]
      split_ifs <;> first | omega | rfl
  | some main =>
    have hstart : startColumn true 0 = 0 := rfl
    cases spareBuffer with
    | none =>
      simp only [Option.isSome_none, Option.isSome_some, sizeOf, Bool.false_eq_true, if_false, if_true, hstart,
        firstBytes, area, erasedPage, Nat.zero_add, Nat.sub_zero]
      split_ifs <;> first | omega | rfl
    | some spare =>
      simp only [Option.isSome_some, sizeOf, if_true, hstart, firstBytes, area, erasedPage, Nat.zero_add,
        Nat.sub_zero]
      split_ifs <;> first | omega | rfl

theorem layout_firstBytes (main spare : ℕ → UInt8) :
    layout main (firstBytes gd25PageOob spare) = layout main spare := by
  funext c
  rw [layout, layout]
  by_cases hmain : c < gd25PageSize
  · rw [if_pos hmain, if_pos hmain]
  · rw [if_neg hmain, if_neg hmain]
    by_cases hspare : c < gd25PageTotal
    · have hfirst : c - gd25PageSize < gd25PageOob := by
        rw [gd25PageTotal] at hspare
        omega
      rw [if_pos hspare, if_pos hspare, firstBytes, if_pos hfirst]
    · rw [if_neg hspare, if_neg hspare]

/-- What a read leaves in the staging buffer. -/
def fetched (cache : Page) (column size : ℕ) : Page :=
  overlay erasedPage 0 ((List.range size).map fun i => cache (column + i))

theorem fetched_apply (cache : Page) (column : ℕ) {size i : ℕ} (h : i < size) :
    fetched cache column size i = cache (column + i) := by
  rw [fetched, overlay_range, if_pos ⟨Nat.zero_le i, by omega⟩]
  rfl

/-- What a read takes from the staging buffer when its spare area is at an offset. -/
def taken (cache : Page) (mainGiven : Bool) (mainSize : ℕ) (spareGiven : Bool) (spareSize spareOffset : ℕ) :
    List UInt8 × List UInt8 :=
  let buffer := fetched cache (startColumn mainGiven spareOffset)
    (xferSize mainGiven mainSize spareGiven spareSize)
  (if mainGiven then (List.range mainSize).map buffer else [],
    if spareGiven then (List.range spareSize).map fun i => buffer (mainSize + spareOffset + i) else [])

theorem sizeOf_true (size : ℕ) : sizeOf true size = size := rfl

theorem fetched_main (cache : Page) (mainGiven spareGiven : Bool) {n : ℕ} (hn : n ≤ gd25PageOob) :
    (if mainGiven then (List.range (sizeOf mainGiven gd25PageSize)).map (fetched cache
      (startColumn mainGiven 0)
      (xferSize mainGiven (sizeOf mainGiven gd25PageSize) spareGiven (sizeOf spareGiven n))) else []) =
      if mainGiven then slice cache 0 gd25PageSize else [] := by
  cases mainGiven with
  | false => rw [if_neg Bool.false_ne_true, if_neg Bool.false_ne_true]
  | true =>
    have hstart : startColumn true 0 = 0 := if_pos rfl
    rw [if_pos rfl, if_pos rfl, xferSize_eq _ _ hn, hstart, sizeOf_true, slice]
    apply List.map_congr_left
    intro i hi
    have hlt := List.mem_range.mp hi
    exact fetched_apply cache 0 (Nat.lt_add_right _ hlt)

/-- The spare area, which comes first when the main area is left out. -/
theorem fetched_spare (cache : Page) (mainGiven spareGiven : Bool) {n : ℕ} (hn : n ≤ gd25PageOob) :
    (if spareGiven then (List.range (sizeOf spareGiven n)).map fun i => fetched cache
      (startColumn mainGiven 0)
      (xferSize mainGiven (sizeOf mainGiven gd25PageSize) spareGiven (sizeOf spareGiven n))
        (sizeOf mainGiven gd25PageSize + 0 + i) else []) =
      if spareGiven then slice cache gd25PageSize n else [] := by
  cases spareGiven with
  | false => rw [if_neg Bool.false_ne_true, if_neg Bool.false_ne_true]
  | true =>
    rw [if_pos rfl, if_pos rfl, xferSize_eq _ _ hn, sizeOf_true, slice]
    apply List.map_congr_left
    intro i hi
    have hlt := List.mem_range.mp hi
    have hbound : sizeOf mainGiven gd25PageSize + 0 + i < sizeOf mainGiven gd25PageSize + n := by omega
    rw [fetched_apply _ _ hbound]
    congr 1
    cases mainGiven with
    | true => exact Nat.zero_add _
    | false => exact congrArg (gd25PageSize + ·) (Nat.zero_add i)

/-! ## Pages -/

theorem erased_and (b : UInt8) : (0xFF : UInt8) &&& b = b := UInt8.neg_one_and

theorem and_erased (b : UInt8) : b &&& (0xFF : UInt8) = b := UInt8.and_neg_one

variable {pages : Pages} {block page : ℕ} {mainBuffer spareBuffer : Source}

theorem written_other {count row : ℕ} (h : ∀ i < count, row ≠ rowAddr block (page + i)) :
    written pages block page mainBuffer spareBuffer count row = pages row := by
  induction count with
  | zero => rfl
  | succ count ih =>
    rw [written, programmed, Function.update_of_ne (h count (Nat.lt_succ_self count))]
    exact ih fun i hi => h i (Nat.lt_succ_of_lt hi)

/-- Each page of the range gets its part of both buffers. -/
theorem written_row {count i : ℕ} (hblock : block < gd25BlockCountNormal)
    (hcount : page + count ≤ gd25BlockPages) (hi : i < count) :
    written pages block page mainBuffer spareBuffer count (rowAddr block (page + i)) = fun c =>
      pages (rowAddr block (page + i)) c &&& layout (fun c => area mainBuffer (i * gd25PageSize + c))
        (fun c => area spareBuffer (i * gd25PageOob + c)) c := by
  have hne : ∀ j < count, j ≠ i → rowAddr block (page + i) ≠ rowAddr block (page + j) := by
    intro j hj hji
    rw [rowAddr_eq hblock (by omega), rowAddr_eq hblock (by omega)]
    omega
  induction count with
  | zero => exact absurd hi (Nat.not_lt_zero i)
  | succ count ih =>
    rw [written, programmed]
    by_cases hlast : i = count
    · have hbehind : ∀ j < count, rowAddr block (page + count) ≠ rowAddr block (page + j) := by
        intro j hj
        rw [← hlast]
        exact hne j (by omega) (by omega)
      rw [hlast, Function.update_self, written_other hbehind]
    · rw [Function.update_of_ne (hne count (Nat.lt_succ_self count) (Ne.symm hlast))]
      exact ih (by omega) (by omega) fun j hj => hne j (by omega)

theorem slice_written {count i start len offset : ℕ} {source : Source}
    (hblock : block < gd25BlockCountNormal) (hcount : page + count ≤ gd25BlockPages) (hi : i < count)
    (hcolumns : start + len ≤ gd25PageTotal)
    (herased : ∀ c < gd25PageTotal, pages (rowAddr block (page + i)) c = 0xFF)
    (hlayout : ∀ c < len, layout (fun c => area mainBuffer (i * gd25PageSize + c))
      (fun c => area spareBuffer (i * gd25PageOob + c)) (start + c) = area source (offset + c)) :
    slice (written pages block page mainBuffer spareBuffer count (rowAddr block (page + i))) start len =
      slice (area source) offset len := by
  rw [written_row hblock hcount hi, slice, slice]
  apply List.map_congr_left
  intro c hc
  have hlt := List.mem_range.mp hc
  rw [herased _ (by omega), erased_and, hlayout c hlt]

theorem layout_main {main spare : ℕ → UInt8} {c : ℕ} (hc : c < gd25PageSize) :
    layout main spare (0 + c) = main c := by
  rw [Nat.zero_add]
  exact if_pos hc

theorem layout_spare {main spare : ℕ → UInt8} {c : ℕ} (hc : c < gd25PageOob) :
    layout main spare (gd25PageSize + c) = spare c := by
  have hmain : ¬ gd25PageSize + c < gd25PageSize := by omega
  have hspare : gd25PageSize + c < gd25PageTotal := Nat.add_lt_add_left hc gd25PageSize
  rw [layout, if_neg hmain, if_pos hspare, Nat.add_sub_cancel_left]

/-- Parts of a buffer that follow each other, one for each page of a range. -/
theorem columns_of_slices {stored : Pages} {source : ℕ → UInt8} {count start len : ℕ}
    (h : ∀ i < count, slice (stored (rowAddr block (page + i))) start len = slice source (i * len) len) :
    columns stored block start len page count = slice source 0 (count * len) := by
  have hparts : (List.range' 0 count).flatMap (fun i => slice (stored (rowAddr block (page + i))) start len) =
      (List.range' 0 count).flatMap fun i => slice source (i * len) len := by
    apply List.flatMap_congr
    intro i hi
    exact h i (List.mem_range.mp (List.range_eq_range' ▸ hi))
  rw [columns, List.range'_eq_map_range, List.flatMap_map, List.range_eq_range', hparts, flatMap_slice,
    Nat.zero_mul]

section
variable {count : ℕ} (hblock : block < gd25BlockCountNormal) (hcount : page + count ≤ gd25BlockPages)
  (herased : ∀ i < count, ∀ c < gd25PageTotal, pages (rowAddr block (page + i)) c = 0xFF)
include hblock hcount herased

theorem columns_main :
    columns (written pages block page mainBuffer spareBuffer count) block 0 gd25PageSize page count =
      slice (area mainBuffer) 0 (count * gd25PageSize) := by
  apply columns_of_slices
  intro i hi
  exact slice_written hblock hcount hi (by decide) (herased i hi) fun c hc => layout_main hc

theorem slice_spare {i n : ℕ} (hi : i < count) (hn : n ≤ gd25PageOob) :
    slice (written pages block page mainBuffer spareBuffer count (rowAddr block (page + i))) gd25PageSize n =
      slice (area spareBuffer) (i * gd25PageOob) n := by
  have hcolumns : gd25PageSize + n ≤ gd25PageTotal := Nat.add_le_add_left hn gd25PageSize
  exact slice_written hblock hcount hi hcolumns (herased i hi) fun c hc => layout_spare (Nat.lt_of_lt_of_le hc hn)

theorem columns_spare :
    columns (written pages block page mainBuffer spareBuffer count) block gd25PageSize gd25PageOob page count =
      slice (area spareBuffer) 0 (count * gd25PageOob) := by
  apply columns_of_slices
  intro i hi
  exact slice_spare hblock hcount herased hi (Nat.le_refl gd25PageOob)

end

/-- Spare bytes that are still erased, set to some bytes. -/
def setSpare (pages : Pages) (row n : ℕ) (bytes : ℕ → UInt8) : Pages :=
  Function.update pages row (overlay (pages row) gd25PageSize ((List.range n).map bytes))

theorem programmed_spare {row n : ℕ} (bytes : ℕ → UInt8) (hn : n ≤ gd25PageOob)
    (herased : ∀ i < n, pages row (gd25PageSize + i) = 0xFF) :
    programmed pages row (layout (area none) (firstBytes n bytes)) = setSpare pages row n bytes := by
  rw [programmed, setSpare]
  congr 1
  funext c
  rw [overlay_range, layout, gd25PageTotal]
  by_cases hmain : c < gd25PageSize
  · rw [if_pos hmain, if_neg (by omega), area, and_erased]
  · rw [if_neg hmain]
    by_cases hspare : c < gd25PageSize + n
    · have hcolumn : gd25PageSize + (c - gd25PageSize) = c := by omega
      have hold := herased (c - gd25PageSize) (by omega)
      rw [hcolumn] at hold
      rw [if_pos (by omega), if_pos ⟨by omega, hspare⟩, firstBytes, if_pos (by omega), hold, erased_and]
    · have houtside : ¬ (gd25PageSize ≤ c ∧ c < gd25PageSize + n) := fun h => hspare h.2
      rw [if_neg houtside]
      by_cases htotal : c < gd25PageSize + gd25PageOob
      · rw [if_pos htotal, firstBytes, if_neg (by omega), and_erased]
      · rw [if_neg htotal, and_erased]

theorem columns_setSpare (pages : Pages) (row n : ℕ) (bytes : ℕ → UInt8) (block first count : ℕ) :
    columns (setSpare pages row n bytes) block 0 gd25PageSize first count =
      columns pages block 0 gd25PageSize first count := by
  apply List.flatMap_congr
  intro page _
  rw [setSpare]
  by_cases hrow : rowAddr block page = row
  · rw [hrow, Function.update_self]
    exact slice_write_before (pages row) (Nat.le_of_eq (Nat.zero_add gd25PageSize)) _
  · rw [Function.update_of_ne hrow]

end EtherBench.Nand.PageStore
