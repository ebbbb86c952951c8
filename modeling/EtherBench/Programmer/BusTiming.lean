import Mathlib.Algebra.Group.Nat.Defs
import Mathlib.Data.Int.Notation
import EtherBench.Programmer.ProbeController

/-! # The clock of the bus and the delays

`setBusFrequency` and `delayus` of `tasks/programmer/src/ProbeController/ProbeController.cpp`, with
their arithmetic on 32 bits.
-/

namespace EtherBench.Programmer.BusTiming
open ProbeController

def stClock : UInt32 := 250000000
def dividers : List UInt32 := [4, 8, 16, 32, 64, 128, 256]

/-- `LL_SPI_BAUDRATEPRESCALER_DIV4` to `DIV256`, named by their divider. -/
def llDividers : List ℕ := [4, 8, 16, 32, 64, 128, 256]

/-- `st_clock / dividers[index]`, or `none` when the index is out of range. -/
def rateAt (index : ℤ) : Option UInt32 :=
  if index < 0 then none else (dividers[index.toNat]?).map (stClock / ·)

/-- The turns of the loop that are left, with the index before the next one. -/
def searchDiv (frequency : UInt32) : ℕ → ℕ → Option ℕ
  | 0, _ => none
  | turns + 1, currentDiv =>
    (rateAt currentDiv).bind fun rate =>
      if rate > frequency then
        if currentDiv + 1 = 6 then some (currentDiv + 1) else searchDiv frequency turns (currentDiv + 1)
      else some currentDiv

/-- The two rates that `setBusFrequency` chooses from. -/
structure Neighbours where
  currentDiv : ℕ
  hfreq : UInt32
  lfreq : UInt32

def neighbours (frequency : UInt32) : Option Neighbours := do
  let currentDiv ← searchDiv frequency 6 0
  let hfreq ← rateAt (currentDiv - 1)
  let lfreq ← rateAt currentDiv
  return ⟨currentDiv, hfreq, lfreq⟩

def Neighbours.best (n : Neighbours) (frequency : UInt32) : ℕ :=
  let hdelta := n.hfreq - frequency
  let ldelta := frequency - n.lfreq
  if hdelta < ldelta then n.currentDiv - 1 else n.currentDiv

def setPrescaler (divider : ℕ) (i : Interface) : Interface :=
  i.llSpiDisable |>.write (fun s => { s with config.baudRate := divider }) |>.llSpiEnable

/-- The value returned and the hardware afterwards; `none` when an array is read out of range. -/
def setBusFrequency (frequency : UInt32) (h : Hardware) : Option (UInt32 × Hardware) := do
  let n ← neighbours frequency
  let divider ← llDividers[n.best frequency]?
  let rate ← rateAt (n.best frequency)
  return (rate, ⟨setPrescaler divider h.spim, setPrescaler divider h.spis⟩)

/-- How far a divider's rate is from the request, in units of 1/256 Hz: every divider divides 256, so that
the rate is not rounded. -/
def distance (frequency divider : UInt32) : ℕ :=
  (stClock.toNat * (256 / divider.toNat) - 256 * frequency.toNat : ℤ).natAbs

/-- No read is out of range, no difference wraps, and the call is refused or leaves both SPIs with the
divider whose rate is nearest. -/
def SetsNearest (frequency : UInt32) (h : Hardware) : Prop :=
  ∃ n result, neighbours frequency = some n ∧ setBusFrequency frequency h = some result ∧
    n.lfreq ≤ frequency ∧ frequency ≤ n.hfreq ∧
    (result.1 = 0 ∨ ∃ divider ∈ dividers, result.1 = stClock / divider ∧
      result.2.spim.spi.config.baudRate = divider.toNat ∧ result.2.spis.spi.config.baudRate = divider.toNat ∧
      ∀ other ∈ dividers, distance frequency divider ≤ distance frequency other)

/-- The nearest divider, the greater of two that are equally near. -/
def Nearest (frequency divider : UInt32) : Prop :=
  divider ∈ dividers ∧ ∀ other ∈ dividers, distance frequency divider ≤ distance frequency other ∧
    (divider < other → distance frequency divider < distance frequency other)

/-- An SPI whose registers can be written, or have the divider already. -/
def Takes (frequency : UInt32) (i : Interface) : Prop :=
  i.clock = true ∨ ∃ divider, Nearest frequency divider ∧ i.spi.config.baudRate = divider.toNat

/-! ## The table -/

def rate (i : ℕ) : ℕ := 250000000 / 2 ^ (i + 2)

theorem rateAt_eq {i : ℕ} (hi : i < 7) : ∃ r, rateAt i = some r ∧ r.toNat = rate i := by
  have htable : ∀ i : ℕ, i < 7 → (rateAt i).map UInt32.toNat = some (rate i) := by decide
  exact Option.map_eq_some_iff.mp (htable i hi)

theorem dividers_eq {i : ℕ} (hi : i < 7) :
    ∃ d, dividers[i]? = some d ∧ d.toNat = 2 ^ (i + 2) ∧ llDividers[i]? = some d.toNat := by
  have htable : ∀ i < 7, dividers[i]?.map UInt32.toNat = some (2 ^ (i + 2)) ∧
      llDividers[i]? = some (2 ^ (i + 2)) := by decide
  obtain ⟨hdivider, hll⟩ := htable i hi
  obtain ⟨d, hd, hvalue⟩ := Option.map_eq_some_iff.mp hdivider
  exact ⟨d, hd, hvalue, hvalue ▸ hll⟩

theorem rate_antitone {i j : ℕ} (h : i ≤ j) : rate j ≤ rate i :=
  Nat.div_le_div_left (Nat.pow_le_pow_right (by decide) (by omega)) (Nat.two_pow_pos _)

/-- The loop stops at the first rate that is not above the request, at index 6 at the latest. -/
theorem searchDiv_spec {frequency : UInt32} {turns currentDiv : ℕ} (hdiv : currentDiv < 6)
    (hturns : 6 ≤ currentDiv + turns) (habove : ∀ i < currentDiv, frequency.toNat < rate i) :
    ∃ k ≤ 6, searchDiv frequency turns currentDiv = some k ∧ (∀ i < k, frequency.toNat < rate i) ∧
      (k < 6 → rate k ≤ frequency.toNat) := by
  induction turns generalizing currentDiv with
  | zero => omega
  | succ turns ih =>
    obtain ⟨r, hr, hrate⟩ := rateAt_eq (i := currentDiv) (by omega)
    rw [searchDiv, hr, Option.bind_some]
    by_cases hgt : r > frequency
    · have hnext : ∀ i < currentDiv + 1, frequency.toNat < rate i := by
        intro i hi
        rcases Nat.lt_succ_iff_lt_or_eq.mp hi with hlt | rfl
        · exact habove i hlt
        · rw [← hrate]
          exact UInt32.lt_iff_toNat_lt.mp hgt
      rw [if_pos hgt]
      by_cases hlast : currentDiv + 1 = 6
      · exact ⟨6, Nat.le_refl 6, by rw [if_pos hlast, hlast], hlast ▸ hnext, fun h => absurd h (Nat.lt_irrefl 6)⟩
      · rw [if_neg hlast]
        exact ih (by omega) (by omega) hnext
    · rw [if_neg hgt]
      refine ⟨currentDiv, by omega, rfl, habove, fun _ => ?_⟩
      rw [← hrate]
      exact UInt32.le_iff_toNat_le.mp (UInt32.not_lt.mp hgt)

/-! ## The nearer of two rates -/

def fineRate (i : ℕ) : ℕ := 250000000 * 2 ^ (6 - i)

theorem fineRate_antitone {i j : ℕ} (h : i ≤ j) : fineRate j ≤ fineRate i :=
  Nat.mul_le_mul_left _ (Nat.pow_le_pow_right (by decide) (by omega))

theorem fineRate_strict {i j : ℕ} (h : i < j) (hj : j < 7) : fineRate j < fineRate i := by
  have htable : ∀ j < 7, ∀ i < j, fineRate j < fineRate i := by decide
  exact htable j hj i h

theorem fineRate_eq_rate {i : ℕ} (hi : i < 6) : fineRate i = 256 * rate i := by
  have htable : ∀ i < 6, fineRate i = 256 * rate i := by decide
  exact htable i hi

theorem fineRate_bounds {i : ℕ} (hi : i < 7) : 256 * rate i ≤ fineRate i ∧ fineRate i ≤ 256 * rate i + 128 := by
  have htable : ∀ i < 7, 256 * rate i ≤ fineRate i ∧ fineRate i ≤ 256 * rate i + 128 := by decide
  exact htable i hi

/-- Between two neighbours of the table, the nearer one is nearest of all, and nearer than all that are slower. -/
theorem nearest_of_between {f k pick : ℕ} (hk : k < 6) (hhigh : f < rate k) (hlow : rate (k + 1) ≤ f)
    (hpick : (if rate k - f < f - rate (k + 1) then k else k + 1) = pick) : ∀ j < 7,
    (fineRate pick - 256 * f : ℤ).natAbs ≤ (fineRate j - 256 * f : ℤ).natAbs ∧
      (pick < j → (fineRate pick - 256 * f : ℤ).natAbs < (fineRate j - 256 * f : ℤ).natAbs) := by
  have hwhole := fineRate_eq_rate hk
  obtain ⟨hfloor, hceil⟩ := fineRate_bounds (i := k + 1) (by omega)
  have habove : ∀ j ≤ k, (fineRate k - 256 * f : ℤ).natAbs ≤ (fineRate j - 256 * f : ℤ).natAbs := by
    intro j hj
    have hle := fineRate_antitone hj
    omega
  have hbelow : ∀ j < 7, k + 1 < j →
      (fineRate (k + 1) - 256 * f : ℤ).natAbs < (fineRate j - 256 * f : ℤ).natAbs := by
    intro j hj hlt
    have hwhole' := fineRate_eq_rate (i := k + 1) (by omega)
    have hlt' := fineRate_strict hlt hj
    omega
  intro j hj
  rcases Nat.lt_trichotomy j (k + 1) with hjk | rfl | hjk
  · have hfast := habove j (by omega)
    split at hpick <;> subst hpick
    · exact ⟨hfast, fun h => absurd h (by omega)⟩
    · exact ⟨Nat.le_trans (by omega) hfast, fun h => absurd h (by omega)⟩
  · split at hpick <;> subst hpick
    · have hless : (fineRate k - 256 * f : ℤ).natAbs < (fineRate (k + 1) - 256 * f : ℤ).natAbs := by omega
      exact ⟨Nat.le_of_lt hless, fun _ => hless⟩
    · exact ⟨Nat.le_refl _, fun h => absurd h (Nat.lt_irrefl _)⟩
  · have hslow := hbelow j hj hjk
    have hless : (fineRate pick - 256 * f : ℤ).natAbs < (fineRate j - 256 * f : ℤ).natAbs := by
      split at hpick <;> subst hpick
      · omega
      · exact hslow
    exact ⟨Nat.le_of_lt hless, fun _ => hless⟩

/-! ## Which requests are met -/

theorem searchDiv_start (frequency : UInt32) :
    ∃ k ≤ 6, searchDiv frequency 6 0 = some k ∧ (∀ i < k, frequency.toNat < rate i) ∧
      (k < 6 → rate k ≤ frequency.toNat) :=
  searchDiv_spec (by decide) (by decide) fun i hi => absurd hi (Nat.not_lt_zero i)

theorem neighbours_fast {frequency : UInt32} (h : rate 0 ≤ frequency.toNat) : neighbours frequency = none := by
  obtain ⟨k, -, hk, habove, -⟩ := searchDiv_start frequency
  have hzero : k = 0 := by
    by_contra hne
    exact absurd (habove 0 (Nat.pos_of_ne_zero hne)) (Nat.not_lt.mpr h)
  rw [neighbours, hk, hzero]
  rfl

/-- Below the fastest rate there are two rates to choose from. -/
theorem neighbours_some {frequency : UInt32} (h : frequency.toNat < rate 0) :
    ∃ k < 6, ∃ n, neighbours frequency = some n ∧ n.currentDiv = k + 1 ∧ n.hfreq.toNat = rate k ∧
      n.lfreq.toNat = rate (k + 1) ∧ frequency.toNat < rate k ∧
      (rate 6 ≤ frequency.toNat → rate (k + 1) ≤ frequency.toNat) := by
  obtain ⟨k, hk6, hk, habove, hstop⟩ := searchDiv_start frequency
  cases k with
  | zero => exact absurd (hstop (by decide)) (Nat.not_le.mpr h)
  | succ k =>
    obtain ⟨hfreq, hhigh, hhighRate⟩ := rateAt_eq (i := k) (by omega)
    obtain ⟨lfreq, hlow, hlowRate⟩ := rateAt_eq (i := k + 1) (by omega)
    refine ⟨k, hk6, ⟨k + 1, hfreq, lfreq⟩, ?_, rfl, hhighRate, hlowRate, habove k (Nat.lt_succ_self k), ?_⟩
    · simp [neighbours, hk, hhigh] at hlow ⊢
      simp [hlow]
    · intro hslow
      by_cases hlast : k + 1 < 6
      · exact hstop hlast
      · obtain rfl : k = 5 := by omega
        exact hslow

theorem distance_eq {frequency divider : UInt32} {i : ℕ} (hi : i < 7) (h : divider.toNat = 2 ^ (i + 2)) :
    distance frequency divider = (fineRate i - 256 * frequency.toNat : ℤ).natAbs := by
  have htable : ∀ i < 7, 256 / 2 ^ (i + 2) = 2 ^ (6 - i) := by decide
  have hclock : stClock.toNat = 250000000 := rfl
  rw [distance, fineRate, ← htable i hi, hclock, h]
  congr 1

theorem Neighbours.best_eq {n : Neighbours} {frequency : UInt32} (hlow : n.lfreq ≤ frequency)
    (hhigh : frequency ≤ n.hfreq) :
    n.best frequency = if n.hfreq.toNat - frequency.toNat < frequency.toNat - n.lfreq.toNat
      then n.currentDiv - 1 else n.currentDiv := by
  rw [best, ← UInt32.toNat_sub_of_le _ _ hhigh, ← UInt32.toNat_sub_of_le _ _ hlow]
  exact if_congr UInt32.lt_iff_toNat_lt rfl rfl

theorem dividers_strict {i j : ℕ} {d d' : UInt32} (hi : dividers[i]? = some d) (hj : dividers[j]? = some d')
    (h : d < d') : i < j := by
  obtain ⟨hi7, rfl⟩ := List.getElem?_eq_some_iff.mp hi
  obtain ⟨hj7, rfl⟩ := List.getElem?_eq_some_iff.mp hj
  have hsorted : ∀ i : Fin 7, ∀ j : Fin 7, dividers[i] < dividers[j] → i < j := by decide
  exact hsorted ⟨i, hi7⟩ ⟨j, hj7⟩ h

/-- What a call does between the slowest and the fastest rate. -/
theorem setBusFrequency_nearest {frequency : UInt32} (hge : rate 6 ≤ frequency.toNat)
    (hlt : frequency.toNat < rate 0) (h : Hardware) :
    ∃ n divider, neighbours frequency = some n ∧ n.lfreq ≤ frequency ∧ frequency ≤ n.hfreq ∧
      Nearest frequency divider ∧ setBusFrequency frequency h =
        some (stClock / divider, ⟨setPrescaler divider.toNat h.spim, setPrescaler divider.toNat h.spis⟩) := by
  obtain ⟨k, hk, n, hn, hdiv, hhfreq, hlfreq, hhigh, hlow⟩ := neighbours_some hlt
  have hlfreq' : n.lfreq ≤ frequency := by
    rw [UInt32.le_iff_toNat_le, hlfreq]
    exact hlow hge
  have hhfreq' : frequency ≤ n.hfreq := by
    rw [UInt32.le_iff_toNat_le, hhfreq]
    exact Nat.le_of_lt hhigh
  have hbest := n.best_eq hlfreq' hhfreq'
  rw [hhfreq, hlfreq, hdiv, Nat.add_sub_cancel] at hbest
  have hnearest := nearest_of_between hk hhigh (hlow hge) hbest.symm
  have hlt7 : n.best frequency < 7 := by
    rw [hbest]
    split <;> omega
  obtain ⟨divider, hdivider, hvalue, hll⟩ := dividers_eq hlt7
  have hrate : rateAt (n.best frequency) = some (stClock / divider) := by
    rw [rateAt, if_neg (by omega), Int.toNat_natCast, hdivider, Option.map_some]
  refine ⟨n, divider, hn, hlfreq', hhfreq', ⟨List.mem_of_getElem? hdivider, fun other hother => ?_⟩, ?_⟩
  · obtain ⟨j, hj, hother'⟩ := List.mem_iff_getElem.mp hother
    obtain ⟨d, hd, hvalue', -⟩ := dividers_eq hj
    obtain rfl : other = d := by
      rw [List.getElem?_eq_getElem hj, hother'] at hd
      exact Option.some.inj hd
    rw [distance_eq hlt7 hvalue, distance_eq hj hvalue']
    exact ⟨(hnearest j hj).1, fun hgt => (hnearest j hj).2 (dividers_strict hdivider hd hgt)⟩
  · simp [setBusFrequency, hn, hll, hrate]

theorem Nearest.unique {frequency d d' : UInt32} (h : Nearest frequency d) (h' : Nearest frequency d') : d = d' := by
  have hle := (h.2 d' h'.1).1
  have hle' := (h'.2 d h.1).1
  rcases UInt32.lt_or_le d d' with hlt | hge
  · exact absurd ((h.2 d' h'.1).2 hlt) (Nat.not_lt.mpr hle')
  · rcases UInt32.lt_or_eq_of_le hge with hlt | heq
    · exact absurd ((h'.2 d h.1).2 hlt) (Nat.not_lt.mpr hle)
    · exact heq.symm

/-- An SPI whose clock is on runs with its new divider; the write to another one is lost. -/
theorem setPrescaler_baudRate (divider : ℕ) (i : Interface) :
    (setPrescaler divider i).spi.config.baudRate = divider ↔ i.clock = true ∨ i.spi.config.baudRate = divider := by
  cases hclock : i.clock with
  | true => simp [setPrescaler, Interface.llSpiDisable, Interface.llSpiEnable, Interface.write, hclock]
  | false => simp [setPrescaler, Interface.llSpiDisable, Interface.llSpiEnable, Interface.write, hclock]

theorem takes_iff {frequency divider : UInt32} (h : Nearest frequency divider) (i : Interface) :
    Takes frequency i ↔ (setPrescaler divider.toNat i).spi.config.baudRate = divider.toNat := by
  rw [setPrescaler_baudRate, Takes]
  refine or_congr_right ⟨?_, fun hholds => ⟨divider, h, hholds⟩⟩
  rintro ⟨d, hd, hholds⟩
  rw [h.unique hd, hholds]

theorem rate_ne_zero {d : UInt32} (hd : d ∈ dividers) : stClock / d ≠ 0 := by
  simp only [dividers, List.mem_cons, List.not_mem_nil, or_false] at hd
  rcases hd with rfl | rfl | rfl | rfl | rfl | rfl | rfl <;> decide

theorem rate_injective {d d' : UInt32} (hd : d ∈ dividers) (hd' : d' ∈ dividers)
    (hrate : stClock / d = stClock / d') : d = d' := by
  simp only [dividers, List.mem_cons, List.not_mem_nil, or_false] at hd hd'
  rcases hd with rfl | rfl | rfl | rfl | rfl | rfl | rfl <;>
    rcases hd' with rfl | rfl | rfl | rfl | rfl | rfl | rfl <;>
      first | rfl | exact absurd hrate (by decide)

/-- The nearest rate is set exactly from the slowest rate on and below the fastest one, and on SPIs that take it. -/
theorem setsNearest_iff (frequency : UInt32) (h : Hardware) :
    SetsNearest frequency h ↔
      (976562 ≤ frequency ∧ frequency < 62500000) ∧ Takes frequency h.spim ∧ Takes frequency h.spis := by
  have hslow : 976562 ≤ frequency ↔ rate 6 ≤ frequency.toNat := UInt32.le_iff_toNat_le
  have hfast : frequency < 62500000 ↔ frequency.toNat < rate 0 := UInt32.lt_iff_toNat_lt
  rw [hslow, hfast]
  constructor
  · rintro ⟨n, result, hn, hset, hlow, -, hresult⟩
    have hbelow : frequency.toNat < rate 0 := by
      by_contra hge
      rw [neighbours_fast (Nat.not_lt.mp hge)] at hn
      cases hn
    obtain ⟨k, hk, n', hn', -, -, hlfreq, -⟩ := neighbours_some hbelow
    cases hn.symm.trans hn'
    have habove : rate 6 ≤ frequency.toNat := by
      refine Nat.le_trans (rate_antitone (by omega : k + 1 ≤ 6)) ?_
      rw [← hlfreq]
      exact UInt32.le_iff_toNat_le.mp hlow
    obtain ⟨-, d, -, -, -, hd, hset'⟩ := setBusFrequency_nearest habove hbelow h
    cases hset.symm.trans hset'
    obtain ⟨d', hd', hrate, hspim, hspis, -⟩ := hresult.resolve_left (rate_ne_zero hd.1)
    obtain rfl := rate_injective hd.1 hd' hrate
    exact ⟨⟨habove, hbelow⟩, (takes_iff hd _).mpr hspim, (takes_iff hd _).mpr hspis⟩
  · rintro ⟨⟨hge, hlt⟩, hspim, hspis⟩
    obtain ⟨n, d, hn, hlow, hhigh, hd, hset⟩ := setBusFrequency_nearest hge hlt h
    exact ⟨n, _, hn, hset, hlow, hhigh, .inr ⟨d, hd.1, rfl, (takes_iff hd _).mp hspim, (takes_iff hd _).mp hspis,
      fun other hother => (hd.2 other hother).1⟩⟩

/-- 100 kHz is below the slowest rate: the difference to it wraps, and the second slowest is set. -/
theorem slow_not_nearest : ¬ ∀ (frequency : UInt32) (h : Hardware), SetsNearest frequency h := by
  intro h
  let pins : Pins := ⟨.analog, .analog, .analog⟩
  obtain ⟨n, -, hn, -, hlow, -⟩ := h 100000 (probeController pins pins).hardware
  have hn' : neighbours 100000 = some ⟨6, 1953125, 976562⟩ := rfl
  cases hn.symm.trans hn'
  exact absurd hlow (by decide)

/-! ## Delays -/

def delayTicks (us : UInt32) : UInt32 := (1000 * us) / stClock

/-- `cycles` of the 250 MHz clock for each iteration are enough, and no product has been cut off. -/
def Waits (us : UInt32) (cycles : ℕ) : Prop :=
  1000 * us.toNat < 2 ^ 32 ∧ 250 * us.toNat ≤ (delayTicks us).toNat * cycles

theorem delayTicks_le (us : UInt32) : (delayTicks us).toNat ≤ 1000 * us.toNat / 250000000 := by
  have hclock : stClock.toNat = 250000000 := rfl
  have hfactor : (1000 : UInt32).toNat = 1000 := rfl
  rw [delayTicks, UInt32.toNat_div, UInt32.toNat_mul, hclock, hfactor]
  exact Nat.div_le_div_right (Nat.mod_le _ _)

/-- No delay but the empty one is long enough. -/
theorem delayus_waits_iff (us : UInt32) (cycles : ℕ) (hcycles : cycles ≤ 100) :
    Waits us cycles ↔ us = 0 := by
  constructor
  · rintro ⟨-, hlong⟩
    have hticks := Nat.mul_le_mul (delayTicks_le us) hcycles
    have hshort : 1000 * us.toNat / 250000000 * 100 ≤ us.toNat := by omega
    apply UInt32.toNat_inj.mp
    change us.toNat = 0
    omega
  · rintro rfl
    exact ⟨by decide, Nat.zero_le _⟩

theorem delayus_waits_iff_nop : Waits 1000 1 ↔ (1000 : UInt32) = 0 :=
  delayus_waits_iff 1000 1 (by decide)

/-- One microsecond is no turn of the loop at all. -/
theorem one_microsecond_too_short :
    ¬ ∀ (us : UInt32) (cycles : ℕ), 1 ≤ cycles → cycles ≤ 100 → Waits us cycles := by
  intro h
  have hwait := (h 1 100 (by decide) (by decide)).2
  exact absurd hwait (by decide)

end EtherBench.Programmer.BusTiming
