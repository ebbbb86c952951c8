import Mathlib.Algebra.Group.Nat.Defs
import Mathlib.Logic.Function.Basic
import Mathlib.Data.List.TakeWhile
import Mathlib.Data.Nat.Notation

/-! # The FileX driver over LevelX

`fx_levelx_nand_driver` of `filex/drivers/src/fx_levelx_driver.c` turns a request of FileX for a
run of sectors into one call of LevelX for each. What LevelX does is up to the environment: a
call that succeeds moves one page of the flash, and one that fails may leave a page of the buffer
or the sectors in any state, as `lx_nand_flash_sector_read` does when it fails in the middle of
its search and `lx_nand_flash_sector_write` once it has changed the mapping.
-/

namespace EtherBench.FileX.LevelxDriver

def lxSuccess : ℕ := 0
def fxSuccess : ℕ := 0x00
def fxIoError : ℕ := 0x90

abbrev Words := ℕ → UInt32

abbrev Sectors := UInt32 → Words

/-- The outcome of a call of LevelX: its status, and what it leaves behind when it fails. -/
structure Outcome where
  status : ℕ
  scribble : Words
  damage : Sectors → Sectors

/-- The sectors, the memory from the driver buffer on, and what LevelX answers. -/
structure World where
  sectors : Sectors
  memory : Words
  env : ℕ → Outcome
  calls : ℕ

/-- `LX_NAND_FLASH`, as far as the driver depends on it. -/
structure Flash where
  wordsPerPage : ℕ

def World.outcome (w : World) : Outcome := w.env w.calls

/-- Some words in place of those from `start` on. -/
def overlay (memory : Words) (start n : ℕ) (words : Words) : Words := fun i =>
  if start ≤ i ∧ i < start + n then words (i - start) else memory i

/-- `lx_nand_flash_sector_read`, with its buffer at a place of the memory. -/
def lxNandFlashSectorRead (flash : Flash) (sector : UInt32) (buffer : ℕ) (w : World) : ℕ × World :=
  let words := if w.outcome.status = lxSuccess then w.sectors sector else w.outcome.scribble
  (w.outcome.status,
    { w with memory := overlay w.memory buffer flash.wordsPerPage words, calls := w.calls + 1 })

def lxNandFlashSectorWrite (flash : Flash) (sector : UInt32) (buffer : ℕ) (w : World) : ℕ × World :=
  let page : Words := overlay (w.sectors sector) 0 flash.wordsPerPage fun i => w.memory (buffer + i)
  let sectors :=
    if w.outcome.status = lxSuccess then Function.update w.sectors sector page
    else w.outcome.damage w.sectors
  (w.outcome.status, { w with sectors := sectors, calls := w.calls + 1 })

/-- The loop over the sectors of a request: the sector number and the pointer move on after each
call that succeeds, and the status of the last call is kept. -/
def transferLoop (call : UInt32 → ℕ → World → ℕ × World) (step : ℕ) :
    ℕ → UInt32 → ℕ → World → ℕ × World
  | 0, _, _, w => (lxSuccess, w)
  | count + 1, sector, buffer, w =>
    let (status, after) := call sector buffer w
    if status ≠ lxSuccess then (status, after)
    else transferLoop call step count (sector + 1) (buffer + step) after

inductive DriverRequest where
  | init
  | uninit
  | read
  | bootRead
  | write
  | bootWrite
  | flush
  | abort
  | other (request : ℕ)

/-- The fields of `FX_MEDIA` that the driver goes by. -/
structure Media where
  driverInfo : Option Flash
  driverRequest : DriverRequest
  driverLogicalSector : UInt32
  driverSectors : UInt32
  bytesPerSector : ℕ

def driverStatus (status : ℕ) : ℕ := if status = lxSuccess then fxSuccess else fxIoError

/-- `fx_levelx_nand_driver`: the status it leaves in the media. -/
def fxLevelxNandDriver (media : Media) (w : World) : ℕ × World :=
  let transfer (call : Flash → UInt32 → ℕ → World → ℕ × World) (flash : Flash) : ℕ × World :=
    let (status, after) := transferLoop (call flash) (media.bytesPerSector / 4) media.driverSectors.toNat
      media.driverLogicalSector 0 w
    (driverStatus status, after)
  match media.driverInfo with
  | none => (fxIoError, w)
  | some flash =>
    match media.driverRequest with
    | .init | .uninit => (fxSuccess, w)
    | .read | .bootRead => transfer lxNandFlashSectorRead flash
    | .write | .bootWrite => transfer lxNandFlashSectorWrite flash
    | .flush | .abort => (fxSuccess, w)
    | .other _ => (fxIoError, w)

/-! ## The calls of a request -/

theorem sector_zero (sector : UInt32) : sector + UInt32.ofNat 0 = sector := UInt32.add_zero sector

theorem sector_succ (sector : UInt32) (i : ℕ) :
    sector + UInt32.ofNat (i + 1) = sector + 1 + UInt32.ofNat i := by
  rw [Nat.add_comm i 1, UInt32.ofNat_add, UInt32.add_assoc]
  rfl

theorem sector_ne {sector : UInt32} {i : ℕ} (hi : i + 1 < 2 ^ 32) : sector ≠ sector + 1 + UInt32.ofNat i := by
  intro heq
  have hnat := congrArg UInt32.toNat heq
  rw [← sector_succ, UInt32.toNat_add, UInt32.toNat_ofNat'] at hnat
  have hlt := sector.toNat_lt
  omega

/-- How many of the next calls succeed before the first that fails. -/
def successfulCalls (w : World) (count : ℕ) : ℕ :=
  ((List.range count).takeWhile fun i => (w.env (w.calls + i)).status = lxSuccess).length

theorem successfulCalls_le (w : World) (count : ℕ) : successfulCalls w count ≤ count := by
  calc successfulCalls w count ≤ (List.range count).length := (List.takeWhile_sublist _).length_le
    _ = count := List.length_range

theorem successfulCalls_ok {w after : World} (hok : w.outcome.status = lxSuccess) (henv : after.env = w.env)
    (hcalls : after.calls = w.calls + 1) (count : ℕ) :
    successfulCalls w (count + 1) = successfulCalls after count + 1 := by
  have hfirst : (w.env w.calls).status = lxSuccess := hok
  rw [successfulCalls, successfulCalls, List.range_succ_eq_map, henv, hcalls]
  simp [hfirst, List.takeWhile_map, Function.comp_def, Nat.add_comm, Nat.add_left_comm]

theorem successfulCalls_failed {w : World} (hfailed : w.outcome.status ≠ lxSuccess) (count : ℕ) :
    successfulCalls w (count + 1) = 0 := by
  have hfirst : (w.env w.calls).status ≠ lxSuccess := hfailed
  rw [successfulCalls, List.range_succ_eq_map]
  simp [hfirst]

theorem successful {w : World} {count i : ℕ} (hi : i < successfulCalls w count) :
    (w.env (w.calls + i)).status = lxSuccess := by
  let ok : ℕ → Bool := fun i => (w.env (w.calls + i)).status = lxSuccess
  have hlen : i < ((List.range count).takeWhile ok).length := hi
  have hget : ((List.range count).takeWhile ok).get ⟨i, hlen⟩ = i := by
    rw [List.get_eq_getElem, (List.takeWhile_prefix ok).getElem hlen, List.getElem_range]
  have hok : ok i = true := List.mem_takeWhile_imp (hget ▸ List.get_mem _ _)
  exact of_decide_eq_true hok

section Loop

/-- A call of LevelX: the environment gives its status. -/
def Answers (call : UInt32 → ℕ → World → ℕ × World) : Prop :=
  ∀ sector buffer w, (call sector buffer w).1 = w.outcome.status ∧
    (call sector buffer w).2.env = w.env ∧ (call sector buffer w).2.calls = w.calls + 1

def afterTurns (call : UInt32 → ℕ → World → ℕ × World) (step : ℕ) : ℕ → UInt32 → ℕ → World → World
  | 0, _, _, w => w
  | n + 1, sector, buffer, w =>
    afterTurns call step n (sector + 1) (buffer + step) (call sector buffer w).2

variable {call : UInt32 → ℕ → World → ℕ × World} (hcall : Answers call) (step : ℕ)
include hcall

theorem afterTurns_env (n : ℕ) (sector : UInt32) (buffer : ℕ) (w : World) :
    (afterTurns call step n sector buffer w).env = w.env ∧
      (afterTurns call step n sector buffer w).calls = w.calls + n := by
  induction n generalizing sector buffer w with
  | zero => exact ⟨rfl, rfl⟩
  | succ n ih =>
    obtain ⟨-, henv, hcalls⟩ := hcall sector buffer w
    obtain ⟨ihEnv, ihCalls⟩ := ih (sector + 1) (buffer + step) (call sector buffer w).2
    refine ⟨ihEnv.trans henv, ihCalls.trans ?_⟩
    omega

/-- The loop makes the calls that succeed, and one more if there is one that fails. -/
theorem transferLoop_eq (count : ℕ) (sector : UInt32) (buffer : ℕ) (w : World) :
    (successfulCalls w count = count →
      transferLoop call step count sector buffer w = (lxSuccess, afterTurns call step count sector buffer w)) ∧
    (successfulCalls w count ≠ count →
      transferLoop call step count sector buffer w =
          call (sector + UInt32.ofNat (successfulCalls w count)) (buffer + successfulCalls w count * step)
            (afterTurns call step (successfulCalls w count) sector buffer w) ∧
        (transferLoop call step count sector buffer w).1 ≠ lxSuccess) := by
  induction count generalizing sector buffer w with
  | zero => exact ⟨fun _ => rfl, fun h => absurd rfl h⟩
  | succ count ih =>
    obtain ⟨hstatus, henv, hcalls⟩ := hcall sector buffer w
    by_cases hok : w.outcome.status = lxSuccess
    · have hturn : transferLoop call step (count + 1) sector buffer w =
          transferLoop call step count (sector + 1) (buffer + step) (call sector buffer w).2 := by
        simp [transferLoop, hstatus, hok]
      have hcount := successfulCalls_ok hok henv hcalls count
      obtain ⟨hall, hstopped⟩ := ih (sector + 1) (buffer + step) (call sector buffer w).2
      rw [hturn, hcount]
      constructor
      · exact fun h => hall (Nat.add_right_cancel h)
      · intro h
        obtain ⟨heq, hne⟩ := hstopped fun h' => h (congrArg (· + 1) h')
        refine ⟨?_, hne⟩
        rw [heq, sector_succ, Nat.succ_mul, Nat.add_assoc, Nat.add_comm step]
        rfl
    · have hturn : transferLoop call step (count + 1) sector buffer w = call sector buffer w := by
        simp only [transferLoop, hstatus, ne_eq, hok, not_false_eq_true, if_true]
        exact Prod.ext hstatus.symm rfl
      rw [hturn, successfulCalls_failed hok, Nat.zero_mul, sector_zero]
      refine ⟨fun h => absurd h (by omega), fun _ => ⟨rfl, ?_⟩⟩
      rw [hstatus]
      exact hok

theorem transferLoop_status (count : ℕ) (sector : UInt32) (buffer : ℕ) (w : World) :
    (transferLoop call step count sector buffer w).1 = lxSuccess ↔ successfulCalls w count = count := by
  obtain ⟨hall, hstopped⟩ := transferLoop_eq hcall step count sector buffer w
  by_cases hcomplete : successfulCalls w count = count
  · rw [hall hcomplete]
    exact iff_of_true rfl hcomplete
  · exact iff_of_false (hstopped hcomplete).2 hcomplete

theorem afterTurns_outcome (n : ℕ) (sector : UInt32) (buffer : ℕ) (w : World) :
    (afterTurns call step n sector buffer w).outcome = w.env (w.calls + n) := by
  obtain ⟨henv, hcalls⟩ := afterTurns_env hcall step n sector buffer w
  rw [World.outcome, henv, hcalls]

theorem transferLoop_world (count : ℕ) (sector : UInt32) (buffer : ℕ) (w : World) :
    (transferLoop call step count sector buffer w).2 =
      if successfulCalls w count = count then afterTurns call step (successfulCalls w count) sector buffer w
      else (call (sector + UInt32.ofNat (successfulCalls w count)) (buffer + successfulCalls w count * step)
        (afterTurns call step (successfulCalls w count) sector buffer w)).2 := by
  obtain ⟨hall, hstopped⟩ := transferLoop_eq hcall step count sector buffer w
  by_cases hcomplete : successfulCalls w count = count
  · rw [if_pos hcomplete, hall hcomplete, hcomplete]
  · rw [if_neg hcomplete, (hstopped hcomplete).1]

/-- Where the loop stops early, the call that it stops at has failed. -/
theorem transferLoop_failed {count : ℕ} (sector : UInt32) (buffer : ℕ) {w : World}
    (hstopped : successfulCalls w count ≠ count) :
    (afterTurns call step (successfulCalls w count) sector buffer w).outcome.status ≠ lxSuccess := by
  obtain ⟨heq, hfailed⟩ := (transferLoop_eq hcall step count sector buffer w).2 hstopped
  rw [heq, (hcall _ _ _).1] at hfailed
  exact hfailed

end Loop

/-! ## The sectors and the chunks of the buffer -/

theorem overlay_at {memory words : Words} {start n j : ℕ} (hj : j < n) :
    overlay memory start n words (start + j) = words j := by
  rw [overlay, if_pos ⟨Nat.le_add_right _ _, by omega⟩, Nat.add_sub_cancel_left]

theorem overlay_off {memory words : Words} {start n p : ℕ} (hp : p < start ∨ start + n ≤ p) :
    overlay memory start n words p = memory p := by
  apply if_neg
  omega

/-- The sectors after the first `k` calls: each holds its page-sized chunk of the buffer. -/
structure Written (words : ℕ) (sector : UInt32) (buffer k : ℕ) (w : World) (sectors : Sectors) : Prop where
  stored : ∀ i < k, ∀ j < words, sectors (sector + UInt32.ofNat i) j = w.memory (buffer + i * words + j)
  others : ∀ other, (∀ i < k, other ≠ sector + UInt32.ofNat i) → sectors other = w.sectors other

/-- The memory after the first `k` calls: each chunk of the buffer holds its sector. -/
structure Filled (words : ℕ) (sector : UInt32) (buffer k : ℕ) (w : World) (memory : Words) : Prop where
  stored : ∀ i < k, ∀ j < words, memory (buffer + i * words + j) = w.sectors (sector + UInt32.ofNat i) j
  others : ∀ p, p < buffer ∨ buffer + k * words ≤ p → memory p = w.memory p

section Turns

variable {words buffer k : ℕ} {sector : UInt32} {w after : World}

theorem Written.cons {sectors : Sectors} (h : Written words (sector + 1) (buffer + words) k after sectors)
    (hk : k + 1 < 2 ^ 32) (hpage : ∀ j < words, after.sectors sector j = w.memory (buffer + j))
    (hothers : ∀ other, other ≠ sector → after.sectors other = w.sectors other)
    (hmemory : after.memory = w.memory) :
    Written words sector buffer (k + 1) w sectors where
  stored i hi j hj := by
    cases i with
    | zero =>
      have hfirst : sectors sector = after.sectors sector := h.others sector fun i hi => sector_ne (by omega)
      rw [sector_zero, hfirst, hpage j hj, Nat.zero_mul, Nat.add_zero]
    | succ i =>
      have hplace : buffer + words + i * words + j = buffer + (i + 1) * words + j := by
        rw [Nat.succ_mul]
        omega
      rw [sector_succ, h.stored i (by omega) j hj, hmemory, hplace]
  others other hother := by
    have hfirst : other ≠ sector := by
      rw [← sector_zero sector]
      exact hother 0 (by omega)
    have hlater : ∀ i < k, other ≠ sector + 1 + UInt32.ofNat i := by
      intro i hi
      rw [← sector_succ]
      exact hother (i + 1) (by omega)
    rw [h.others other hlater, hothers other hfirst]

theorem Filled.cons {memory : Words} (h : Filled words (sector + 1) (buffer + words) k after memory)
    (hpage : ∀ j < words, after.memory (buffer + j) = w.sectors sector j)
    (hothers : ∀ p, p < buffer ∨ buffer + words ≤ p → after.memory p = w.memory p)
    (hsectors : after.sectors = w.sectors) :
    Filled words sector buffer (k + 1) w memory where
  stored i hi j hj := by
    cases i with
    | zero => rw [sector_zero, Nat.zero_mul, Nat.add_zero, h.others _ (by omega), hpage j hj]
    | succ i =>
      have hplace : buffer + (i + 1) * words + j = buffer + words + i * words + j := by
        rw [Nat.succ_mul]
        omega
      rw [sector_succ, hplace, h.stored i (by omega) j hj, hsectors]
  others p hp := by
    rw [Nat.succ_mul] at hp
    rw [h.others p (by omega), hothers p (by omega)]

end Turns

variable {flash : Flash}

theorem write_answers (flash : Flash) : Answers (lxNandFlashSectorWrite flash) := fun _ _ _ => ⟨rfl, rfl, rfl⟩

theorem read_answers (flash : Flash) : Answers (lxNandFlashSectorRead flash) := fun _ _ _ => ⟨rfl, rfl, rfl⟩

theorem afterTurns_written {k : ℕ} (hk : k < 2 ^ 32) (sector : UInt32) (buffer : ℕ) (w : World)
    (hok : ∀ i < k, (w.env (w.calls + i)).status = lxSuccess) :
    Written flash.wordsPerPage sector buffer k w
        (afterTurns (lxNandFlashSectorWrite flash) flash.wordsPerPage k sector buffer w).sectors ∧
      (afterTurns (lxNandFlashSectorWrite flash) flash.wordsPerPage k sector buffer w).memory = w.memory := by
  induction k generalizing sector buffer w with
  | zero => exact ⟨⟨fun i hi => absurd hi (Nat.not_lt_zero i), fun _ _ => rfl⟩, rfl⟩
  | succ k ih =>
    let page : Words := overlay (w.sectors sector) 0 flash.wordsPerPage fun i => w.memory (buffer + i)
    have hfirst : w.outcome.status = lxSuccess := hok 0 (by omega)
    have hcall : (lxNandFlashSectorWrite flash sector buffer w).2.sectors = Function.update w.sectors sector page :=
      if_pos hfirst
    have hlater : ∀ i < k, (w.env (w.calls + 1 + i)).status = lxSuccess := by
      intro i hi
      rw [Nat.add_right_comm]
      exact hok (i + 1) (by omega)
    obtain ⟨hwritten, hmemory⟩ :=
      ih (by omega) (sector + 1) (buffer + flash.wordsPerPage) (lxNandFlashSectorWrite flash sector buffer w).2 hlater
    refine ⟨hwritten.cons hk ?_ ?_ rfl, hmemory⟩
    · intro j hj
      have hword : page (0 + j) = w.memory (buffer + j) := overlay_at hj
      rw [Nat.zero_add] at hword
      rw [hcall, Function.update_self]
      exact hword
    · intro other hother
      rw [hcall]
      exact Function.update_of_ne hother _ _

theorem afterTurns_filled {k : ℕ} (sector : UInt32) (buffer : ℕ) (w : World)
    (hok : ∀ i < k, (w.env (w.calls + i)).status = lxSuccess) :
    Filled flash.wordsPerPage sector buffer k w
        (afterTurns (lxNandFlashSectorRead flash) flash.wordsPerPage k sector buffer w).memory ∧
      (afterTurns (lxNandFlashSectorRead flash) flash.wordsPerPage k sector buffer w).sectors = w.sectors := by
  induction k generalizing sector buffer w with
  | zero => exact ⟨⟨fun i hi => absurd hi (Nat.not_lt_zero i), fun _ _ => rfl⟩, rfl⟩
  | succ k ih =>
    have hfirst : w.outcome.status = lxSuccess := hok 0 (by omega)
    have hcall : (lxNandFlashSectorRead flash sector buffer w).2.memory =
        overlay w.memory buffer flash.wordsPerPage (w.sectors sector) := by
      change overlay _ _ _ (if w.outcome.status = lxSuccess then _ else _) = _
      rw [if_pos hfirst]
    have hlater : ∀ i < k, (w.env (w.calls + 1 + i)).status = lxSuccess := by
      intro i hi
      rw [Nat.add_right_comm]
      exact hok (i + 1) (by omega)
    obtain ⟨hfilled, hsectors⟩ :=
      ih (sector + 1) (buffer + flash.wordsPerPage) (lxNandFlashSectorRead flash sector buffer w).2 hlater
    refine ⟨hfilled.cons ?_ ?_ rfl, hsectors⟩
    · intro j hj
      rw [hcall]
      exact overlay_at hj
    · intro p hp
      rw [hcall]
      exact overlay_off hp

/-! ## The requests -/

/-- What a write request does: the first sectors get their chunks of the buffer, up to the call that
fails, and what that call leaves behind is its own affair. -/
structure WritesSectors (media : Media) (words : ℕ) (w : World) (result : ℕ × World) : Prop where
  status : result.1 = fxSuccess ↔ successfulCalls w media.driverSectors.toNat = media.driverSectors.toNat
  memory : result.2.memory = w.memory
  sectors : ∃ sectors, Written words media.driverLogicalSector 0
      (successfulCalls w media.driverSectors.toNat) w sectors ∧
    result.2.sectors =
      if successfulCalls w media.driverSectors.toNat = media.driverSectors.toNat then sectors
      else (w.env (w.calls + successfulCalls w media.driverSectors.toNat)).damage sectors

/-- What a read request does: the first chunks of the buffer are filled, and only a call that fails
may change its own chunk behind them. -/
structure ReadsSectors (media : Media) (words : ℕ) (w : World) (result : ℕ × World) : Prop where
  status : result.1 = fxSuccess ↔ successfulCalls w media.driverSectors.toNat = media.driverSectors.toNat
  sectors : result.2.sectors = w.sectors
  memory : ∃ memory, Filled words media.driverLogicalSector 0
      (successfulCalls w media.driverSectors.toNat) w memory ∧
    result.2.memory =
      if successfulCalls w media.driverSectors.toNat = media.driverSectors.toNat then memory
      else overlay memory (successfulCalls w media.driverSectors.toNat * words) words
        (w.env (w.calls + successfulCalls w media.driverSectors.toNat)).scribble

theorem driverStatus_success {status : ℕ} : driverStatus status = fxSuccess ↔ status = lxSuccess := by
  unfold driverStatus
  split
  · next h => exact iff_of_true rfl h
  · next h => exact iff_of_false (by decide) h

section Requests

variable {media : Media} (hinfo : media.driverInfo = some flash)
  (hsize : media.bytesPerSector = 4 * flash.wordsPerPage)
include hinfo hsize

/-- The driver makes the transfer in whole pages. -/
theorem driver_write (hrequest : media.driverRequest = .write ∨ media.driverRequest = .bootWrite) (w : World) :
    fxLevelxNandDriver media w =
      (driverStatus (transferLoop (lxNandFlashSectorWrite flash) flash.wordsPerPage media.driverSectors.toNat
        media.driverLogicalSector 0 w).1,
      (transferLoop (lxNandFlashSectorWrite flash) flash.wordsPerPage media.driverSectors.toNat
        media.driverLogicalSector 0 w).2) := by
  have hstep : media.bytesPerSector / 4 = flash.wordsPerPage := by omega
  rcases hrequest with h | h <;> simp only [fxLevelxNandDriver, hinfo, h, hstep]

theorem driver_read (hrequest : media.driverRequest = .read ∨ media.driverRequest = .bootRead) (w : World) :
    fxLevelxNandDriver media w =
      (driverStatus (transferLoop (lxNandFlashSectorRead flash) flash.wordsPerPage media.driverSectors.toNat
        media.driverLogicalSector 0 w).1,
      (transferLoop (lxNandFlashSectorRead flash) flash.wordsPerPage media.driverSectors.toNat
        media.driverLogicalSector 0 w).2) := by
  have hstep : media.bytesPerSector / 4 = flash.wordsPerPage := by omega
  rcases hrequest with h | h <;> simp only [fxLevelxNandDriver, hinfo, h, hstep]

theorem writesSectors (hrequest : media.driverRequest = .write ∨ media.driverRequest = .bootWrite) (w : World) :
    WritesSectors media flash.wordsPerPage w (fxLevelxNandDriver media w) := by
  have hk : successfulCalls w media.driverSectors.toNat < 2 ^ 32 :=
    Nat.lt_of_le_of_lt (successfulCalls_le w _) media.driverSectors.toNat_lt
  have hturns : Written flash.wordsPerPage media.driverLogicalSector 0 _ w _ ∧ _ :=
    afterTurns_written hk media.driverLogicalSector 0 w fun i hi => successful hi
  rw [driver_write hinfo hsize hrequest w]
  refine ⟨driverStatus_success.trans (transferLoop_status (write_answers flash) _ _ _ _ _), ?_, _, hturns.1, ?_⟩
  · rw [transferLoop_world (write_answers flash)]
    split
    · exact hturns.2
    · exact hturns.2
  · rw [transferLoop_world (write_answers flash)]
    by_cases hcomplete : successfulCalls w media.driverSectors.toNat = media.driverSectors.toNat
    · rw [if_pos hcomplete, if_pos hcomplete]
    · rw [if_neg hcomplete, if_neg hcomplete,
        ← afterTurns_outcome (write_answers flash) flash.wordsPerPage _ media.driverLogicalSector 0]
      exact if_neg (transferLoop_failed (write_answers flash) _ _ _ hcomplete)

theorem readsSectors (hrequest : media.driverRequest = .read ∨ media.driverRequest = .bootRead) (w : World) :
    ReadsSectors media flash.wordsPerPage w (fxLevelxNandDriver media w) := by
  have hturns : Filled flash.wordsPerPage media.driverLogicalSector 0
      (successfulCalls w media.driverSectors.toNat) w _ ∧ _ :=
    afterTurns_filled media.driverLogicalSector 0 w fun i hi => successful hi
  rw [driver_read hinfo hsize hrequest w]
  refine ⟨driverStatus_success.trans (transferLoop_status (read_answers flash) _ _ _ _ _), ?_, _, hturns.1, ?_⟩
  · rw [transferLoop_world (read_answers flash)]
    split
    · exact hturns.2
    · exact hturns.2
  · rw [transferLoop_world (read_answers flash)]
    by_cases hcomplete : successfulCalls w media.driverSectors.toNat = media.driverSectors.toNat
    · rw [if_pos hcomplete, if_pos hcomplete]
    · rw [if_neg hcomplete, if_neg hcomplete, Nat.zero_add,
        ← afterTurns_outcome (read_answers flash) flash.wordsPerPage _ media.driverLogicalSector 0]
      exact congrArg (overlay _ _ _) (if_neg (transferLoop_failed (read_answers flash) _ _ _ hcomplete))

omit hinfo hsize in
/-- What was written is what is read: two requests for the same sectors, both successful. -/
theorem round_trip {words : ℕ} {w v : World} {written read : ℕ × World}
    (hwrite : WritesSectors media words w written) (hwriteOk : written.1 = fxSuccess)
    (hread : ReadsSectors media words v read) (hreadOk : read.1 = fxSuccess)
    (hsame : v.sectors = written.2.sectors) {p : ℕ} (hp : p < media.driverSectors.toNat * words) :
    read.2.memory p = w.memory p := by
  obtain ⟨sectors, hwritten, hsectors⟩ := hwrite.sectors
  obtain ⟨memory, hfilled, hmemory⟩ := hread.memory
  rw [hwrite.status.mp hwriteOk] at hwritten hsectors
  rw [hread.status.mp hreadOk] at hfilled hmemory
  rw [if_pos rfl] at hsectors hmemory
  have hwords : 0 < words := Nat.pos_of_ne_zero fun h => by
    subst h
    omega
  have hchunk : p / words < media.driverSectors.toNat := Nat.div_lt_of_lt_mul (Nat.mul_comm words _ ▸ hp)
  have hword : p % words < words := Nat.mod_lt p hwords
  have hplace : 0 + p / words * words + p % words = p := by
    rw [Nat.zero_add, Nat.mul_comm]
    exact Nat.div_add_mod p words
  have hin := hwritten.stored _ hchunk _ hword
  have hout := hfilled.stored _ hchunk _ hword
  rw [hplace] at hin hout
  rw [hmemory, hout, hsame, hsectors, hin]

/-- A media of whole pages over LevelX: each request moves its run of sectors, up to the first call
that fails. -/
theorem sectors_transferred (w : World) :
    (media.driverRequest = .write ∨ media.driverRequest = .bootWrite →
      WritesSectors media flash.wordsPerPage w (fxLevelxNandDriver media w) ∧
        ∀ request, request = .read ∨ request = .bootRead → ∀ v : World,
          v.sectors = (fxLevelxNandDriver media w).2.sectors →
          (fxLevelxNandDriver media w).1 = fxSuccess →
          (fxLevelxNandDriver { media with driverRequest := request } v).1 = fxSuccess →
          ∀ p < media.driverSectors.toNat * flash.wordsPerPage,
            (fxLevelxNandDriver { media with driverRequest := request } v).2.memory p = w.memory p) ∧
    (media.driverRequest = .read ∨ media.driverRequest = .bootRead →
      ReadsSectors media flash.wordsPerPage w (fxLevelxNandDriver media w)) := by
  constructor
  · intro hrequest
    have hwrite := writesSectors hinfo hsize hrequest w
    refine ⟨hwrite, fun request hread v hsame hwriteOk hreadOk p hp => ?_⟩
    let reading : Media := { media with driverRequest := request }
    have hreadInfo : reading.driverInfo = some flash := hinfo
    have hwrites : WritesSectors reading flash.wordsPerPage w (fxLevelxNandDriver media w) :=
      ⟨hwrite.status, hwrite.memory, hwrite.sectors⟩
    exact round_trip hwrites hwriteOk (readsSectors hreadInfo hsize hread v) hreadOk hsame hp
  · exact fun hrequest => readsSectors hinfo hsize hrequest w

end Requests

def willing : World where
  sectors _ _ := 1
  memory i := .ofNat i
  env _ := ⟨lxSuccess, fun _ => 0, id⟩
  calls := 0

/-- A request for three sectors, the second of which is the last one of all. -/
def threeSectors (request : DriverRequest) (bytesPerSector : ℕ) : Media :=
  ⟨some ⟨512⟩, request, 0xFFFFFFFE, 3, bytesPerSector⟩

def threeWritten : World := (fxLevelxNandDriver (threeSectors .write 2048) willing).2

def reread : World := { threeWritten with memory := fun _ => 0 }

theorem sectors_transferred_three :
    WritesSectors (threeSectors .write 2048) 512 willing (fxLevelxNandDriver (threeSectors .write 2048) willing) ∧
    ReadsSectors (threeSectors .read 2048) 512 reread (fxLevelxNandDriver (threeSectors .read 2048) reread) ∧
    ∀ p < 3 * 512, (fxLevelxNandDriver (threeSectors .read 2048) reread).2.memory p = .ofNat p := by
  have hinfo (request : DriverRequest) : (threeSectors request 2048).driverInfo = some ⟨512⟩ := rfl
  obtain ⟨hwrites, hback⟩ := (sectors_transferred (hinfo .write) rfl willing).1 (Or.inl rfl)
  refine ⟨hwrites, (sectors_transferred (hinfo .read) rfl reread).2 (Or.inl rfl), fun p hp => ?_⟩
  exact hback .read (Or.inl rfl) reread rfl (by decide) (by decide) p hp

/-- A read that fills the chunks of its sectors, in sectors of the size of the media, and nothing else. -/
def FillsExactly (media : Media) (w : World) : Prop :=
  media.driverRequest = .read → Filled (media.bytesPerSector / 4) media.driverLogicalSector 0
    (successfulCalls w media.driverSectors.toNat) w (fxLevelxNandDriver media w).2.memory

/-- Smaller sectors than the pages of the flash are overrun by a read, and a read that fails may
have been under way. -/
theorem sectors_overrun :
    (¬ ∀ (media : Media) (flash : Flash) (w : World), media.driverInfo = some flash →
      media.bytesPerSector % 4 = 0 → (∀ call, (w.env call).status = lxSuccess) → FillsExactly media w) ∧
    ¬ ∀ (media : Media) (flash : Flash) (w : World), media.driverInfo = some flash →
      media.bytesPerSector = 4 * flash.wordsPerPage → FillsExactly media w := by
  constructor
  · intro h
    have hfilled := h (threeSectors .read 512) ⟨512⟩ willing rfl rfl (fun _ => rfl) rfl
    have hword := hfilled.others 384 (Or.inr (by decide))
    exact absurd hword (by decide)
  · intro h
    have hfilled := h (threeSectors .read 2048) ⟨512⟩
      { willing with env := fun _ => ⟨1, fun _ => 3, id⟩ } rfl rfl rfl
    have hword := hfilled.others 0 (Or.inr (by decide))
    exact absurd hword (by decide)

end EtherBench.FileX.LevelxDriver
