import Mathlib.Data.List.Rotate
import EtherBench.Leds.LedsWS2812

/-! # How the effects move

`effect_spin` on a ring of any size, from the refresh that resets its counter on, with the gamma table that
the build generates; and the period that `set_effect` arms the timer with.
-/

namespace EtherBench.Leds.Animation
open LedsWS2812

/-! ## The table -/

/-- Entry `x` of the table that `generate_gamma_lut.py` generates for a gamma in tenths: the nearest whole
number to `maxval * (x / (size - 1)) ^ gamma`, which is never halfway between two of them. -/
def genGamma (size tenths maxval x : ℕ) : ℕ :=
  (List.range maxval).countP fun y => (2 * y + 1) ^ 10 * (size - 1) ^ tenths ≤ (2 * maxval) ^ 10 * x ^ tenths

/-- `gamma_lut` with the parameters of `gamma_lut.toml`. -/
def gammaTable (x : UInt8) : UInt8 := .ofNat (genGamma 256 23 255 x.toNat)

section Table
variable (size tenths maxval : ℕ)

theorem genGamma_le (x : ℕ) : genGamma size tenths maxval x ≤ maxval := by
  have hlength := List.countP_le_length (l := List.range maxval)
    (p := fun y => (2 * y + 1) ^ 10 * (size - 1) ^ tenths ≤ (2 * maxval) ^ 10 * x ^ tenths)
  rwa [List.length_range] at hlength

theorem genGamma_mono {x y : ℕ} (h : x ≤ y) : genGamma size tenths maxval x ≤ genGamma size tenths maxval y := by
  apply List.countP_mono_left
  intro k _ hk
  rw [decide_eq_true_iff] at hk ⊢
  exact hk.trans (Nat.mul_le_mul_left _ (Nat.pow_le_pow_left h tenths))

theorem genGamma_last : genGamma size tenths maxval (size - 1) = maxval := by
  rw [genGamma, List.countP_eq_length.mpr, List.length_range]
  intro k hk
  rw [decide_eq_true_iff]
  apply Nat.mul_le_mul_right
  apply Nat.pow_le_pow_left
  have hlt := List.mem_range.mp hk
  omega

theorem genGamma_lt {x : ℕ} (hpos : 0 < maxval)
    (hdark : (2 * maxval) ^ 10 * x ^ tenths < (2 * (maxval - 1) + 1) ^ 10 * (size - 1) ^ tenths) :
    genGamma size tenths maxval x < maxval := by
  apply Nat.lt_of_le_of_ne (genGamma_le size tenths maxval x)
  intro hall
  have hcount := hall.trans (List.length_range (n := maxval)).symm
  rw [genGamma] at hcount
  have hlast := List.countP_eq_length.mp hcount (maxval - 1) (List.mem_range.mpr (Nat.sub_one_lt_of_lt hpos))
  rw [decide_eq_true_iff] at hlast
  exact absurd hlast (Nat.not_le.mpr hdark)

theorem gammaTable_ofNat {x : ℕ} (h : x < 256) : (gammaTable (.ofNat x)).toNat = genGamma 256 23 255 x := by
  have hle := genGamma_le 256 23 255 x
  rw [gammaTable, UInt8.toNat_ofNat_of_lt' h, UInt8.toNat_ofNat_of_lt' (Nat.lt_succ_of_le hle)]

end Table

/-! ## The spin effect -/

/-- The effect and `pixel_buffer` of a ring that spins. -/
structure SpinRing where
  effect : PixelEffect
  pixels : List Pixel

section Spin
variable (gammaLut : UInt8 → UInt8) (n : ℕ)

def spinStep (width : UInt8) : ℕ :=
  let remainder := width.toNat % n
  ledCorrMaxval / if remainder = 0 then 1 else remainder

def intensities (width : UInt8) : List UInt8 :=
  (List.range n).map fun tailPos => gammaLut (.ofNat (luminance (spinStep n width) ledCorrMaxval tailPos))

def spinIndex (tick : UInt16) (pixel : ℕ) : ℤ :=
  let index := int8 (pixel - int8 tick.toNat)
  if index < 0 then int8 (index + n) else index

/-- The pixel that is drawn, or `none` when `intensities` is read out of range. -/
def spinPixel (effect : PixelEffect) (pixel : ℕ) : Option Pixel :=
  let index := spinIndex n effect.tick pixel
  if index < 0 then none
  else ((intensities gammaLut n effect.width)[index.toNat]?).map (applyAlpha effect.primary)

def nextTick (tick : UInt16) : UInt16 := if tick.toNat < n then tick + 1 else 0

def effectSpin (effect : PixelEffect) : Option SpinRing :=
  let next := { effect with tick := nextTick n effect.tick }
  ((List.range n).mapM (spinPixel gammaLut n next)).map (SpinRing.mk next)

/-- The ring `count` ticks after the refresh that has reset the effect. -/
def spinAfter (effect : PixelEffect) : ℕ → Option SpinRing
  | 0 => effectSpin gammaLut n { effect with tick := 0, progress := 0 }
  | count + 1 => (spinAfter effect count).bind fun s => effectSpin gammaLut n s.effect

/-- `length` ticks from tick `start` on: no index is out of range, each frame is the one before it turned
on by one pixel, and after `n` ticks the frames repeat. -/
structure Turns (after : ℕ → Option SpinRing) (start length : ℕ) : Prop where
  inRange : ∀ k ≤ start + length, ∃ s, after k = some s ∧ s.pixels.length = n
  turned : ∀ k, start ≤ k → k < start + length →
    ∃ s t, after k = some s ∧ after (k + 1) = some t ∧ t.pixels.rotate 1 = s.pixels
  period : ∀ k, start ≤ k → k + n ≤ start + length →
    ∃ s t, after k = some s ∧ after (k + n) = some t ∧ t.pixels = s.pixels

def tail (effect : PixelEffect) : List Pixel :=
  (intensities gammaLut n effect.width).map (applyAlpha effect.primary)

def frame (effect : PixelEffect) (count : ℕ) : List Pixel :=
  (tail gammaLut n effect).rotate (n - (count + 1) % (n + 1))

@[simp] theorem length_tail (effect : PixelEffect) : (tail gammaLut n effect).length = n := by
  simp [tail, intensities]

variable {n}

theorem spinIndex_eq {tick : UInt16} (hn : n ≤ 100) (htick : tick.toNat ≤ n) {pixel : ℕ} (hpixel : pixel < n) :
    spinIndex n tick pixel = ((pixel + (n - tick.toNat)) % n : ℕ) := by
  have htick8 : int8 tick.toNat = tick.toNat := by
    rw [int8]
    omega
  have hindex : int8 (pixel - tick.toNat) = pixel - tick.toNat := by
    rw [int8]
    omega
  rw [spinIndex, htick8, hindex]
  by_cases hwrap : pixel < tick.toNat
  · have hmod : (pixel + (n - tick.toNat)) % n = pixel + (n - tick.toNat) := Nat.mod_eq_of_lt (by omega)
    rw [if_pos (by omega), hmod, int8]
    omega
  · have hmod : (pixel + (n - tick.toNat)) % n = pixel - tick.toNat := by
      have hsum : pixel + (n - tick.toNat) = pixel - tick.toNat + n := by omega
      rw [hsum, Nat.add_mod_right, Nat.mod_eq_of_lt (by omega)]
    rw [if_neg (by omega), hmod]
    omega

theorem spinPixel_eq {effect : PixelEffect} (hn : n ≤ 100) (htick : effect.tick.toNat ≤ n) {pixel : ℕ}
    (hpixel : pixel < n) :
    spinPixel gammaLut n effect pixel = ((tail gammaLut n effect).rotate (n - effect.tick.toNat))[pixel]? := by
  rw [spinPixel, spinIndex_eq hn htick hpixel, List.getElem?_rotate (by simpa using hpixel), length_tail, tail,
    List.getElem?_map]
  exact if_neg (by omega)

theorem mapM_range {α : Type} {f : ℕ → Option α} {l : List α} (h : ∀ i < l.length, f i = l[i]?) :
    (List.range l.length).mapM f = some l := by
  induction l generalizing f with
  | nil => rfl
  | cons a l ih =>
    have hrest : (List.range l.length).mapM (f ∘ Nat.succ) = some l :=
      ih fun i hi => h (i + 1) (Nat.succ_lt_succ hi)
    rw [List.length_cons, List.range_succ_eq_map, List.mapM_cons, h 0 (Nat.succ_pos _), List.mapM_map]
    simp [Function.comp_def] at hrest ⊢
    simp [hrest]

theorem nextTick_toNat (hn : n ≤ 100) (tick : UInt16) :
    (nextTick n tick).toNat = if tick.toNat < n then tick.toNat + 1 else 0 := by
  rw [nextTick]
  split
  · next hlt =>
    rw [UInt16.toNat_add, UInt16.toNat_one]
    omega
  · rfl

theorem nextTick_le (hn : n ≤ 100) (tick : UInt16) : (nextTick n tick).toNat ≤ n := by
  rw [nextTick_toNat hn]
  split <;> omega

/-- A tick turns the tail to where the counter stands. -/
theorem effectSpin_eq (effect : PixelEffect) (hn : n ≤ 100) :
    effectSpin gammaLut n effect = some ⟨{ effect with tick := nextTick n effect.tick },
      (tail gammaLut n effect).rotate (n - (nextTick n effect.tick).toNat)⟩ := by
  have htick := nextTick_le hn effect.tick
  have hlength : ((tail gammaLut n effect).rotate (n - (nextTick n effect.tick).toNat)).length = n := by simp
  have hpixels := mapM_range (f := spinPixel gammaLut n { effect with tick := nextTick n effect.tick })
    (l := (tail gammaLut n effect).rotate (n - (nextTick n effect.tick).toNat))
    fun i hi => spinPixel_eq gammaLut hn htick (by omega)
  rw [hlength] at hpixels
  rw [effectSpin]
  simp only [hpixels, Option.map_some]

/-- The ring of the board is the one with `LED_RING_PIXEL_NB` pixels. -/
theorem effectSpin_ring (c : Canvas) :
    effectSpin gammaLut ledRingPixelNb c.effect = some ⟨(LedsWS2812.effectSpin gammaLut c).effect,
      (List.range ledRingPixelNb).map (LedsWS2812.effectSpin gammaLut c).pixels⟩ := by
  have hn : ledRingPixelNb ≤ 100 := by decide
  have htick := nextTick_le hn c.effect.tick
  have hdraw : ∀ i < ledRingPixelNb,
      spinPixel gammaLut ledRingPixelNb { c.effect with tick := nextTick ledRingPixelNb c.effect.tick } i =
        some ((LedsWS2812.effectSpin gammaLut c).pixels i) := by
    intro i hi
    have hindex := spinIndex_eq hn htick hi
    have htail : (i + (ledRingPixelNb - (nextTick ledRingPixelNb c.effect.tick).toNat)) % ledRingPixelNb <
        ledRingPixelNb := Nat.mod_lt _ (by decide)
    have hpixel : (LedsWS2812.effectSpin gammaLut c).pixels i = applyAlpha c.effect.primary (gammaLut (.ofNat
        (luminance (spinStep ledRingPixelNb c.effect.width) ledCorrMaxval
          (spinIndex ledRingPixelNb (nextTick ledRingPixelNb c.effect.tick) i).toNat))) := if_pos hi
    rw [hpixel, spinPixel, hindex]
    generalize (i + (ledRingPixelNb - (nextTick ledRingPixelNb c.effect.tick).toNat)) % ledRingPixelNb = head
      at htail
    simp [intensities, htail]
  have hlist := mapM_range (l := (List.range ledRingPixelNb).map (LedsWS2812.effectSpin gammaLut c).pixels)
    (f := spinPixel gammaLut ledRingPixelNb { c.effect with tick := nextTick ledRingPixelNb c.effect.tick })
    (by
      intro i hi
      have hlt : i < ledRingPixelNb := by simpa using hi
      rw [hdraw i hlt, List.getElem?_map, List.getElem?_range hlt, Option.map_some])
  rw [List.length_map, List.length_range] at hlist
  rw [effectSpin]
  simp only [hlist, Option.map_some]
  rfl

theorem effectSpin_frame (effect : PixelEffect) (count : ℕ) (hn : n ≤ 100)
    (htick : effect.tick.toNat = count % (n + 1)) :
    ∃ s, effectSpin gammaLut n effect = some s ∧ s.effect.tick.toNat = (count + 1) % (n + 1) ∧
      tail gammaLut n s.effect = tail gammaLut n effect ∧ s.pixels = frame gammaLut n effect count := by
  have hnext : (nextTick n effect.tick).toNat = (count + 1) % (n + 1) := by
    rw [nextTick_toNat hn, ← Nat.mod_add_mod, ← htick]
    have hle : effect.tick.toNat ≤ n := htick ▸ Nat.le_of_lt_succ (Nat.mod_lt count n.succ_pos)
    split
    · exact (Nat.mod_eq_of_lt (by omega)).symm
    · have hround : effect.tick.toNat + 1 = n + 1 := by omega
      rw [hround, Nat.mod_self]
  refine ⟨_, effectSpin_eq gammaLut effect hn, hnext, rfl, ?_⟩
  rw [frame, ← hnext]

/-- The ring after `count` ticks: the counter has come round every `n + 1` ticks. -/
theorem spinAfter_eq (effect : PixelEffect) (hn : n ≤ 100) (count : ℕ) :
    ∃ s, spinAfter gammaLut n effect count = some s ∧ s.effect.tick.toNat = (count + 1) % (n + 1) ∧
      tail gammaLut n s.effect = tail gammaLut n effect ∧ s.pixels = frame gammaLut n effect count := by
  induction count with
  | zero => exact effectSpin_frame gammaLut { effect with tick := 0, progress := 0 } 0 hn rfl
  | succ count ih =>
    obtain ⟨s, hs, htick, htail, -⟩ := ih
    obtain ⟨t, ht, htick', htail', hpixels⟩ := effectSpin_frame gammaLut s.effect (count + 1) hn htick
    refine ⟨t, ?_, htick', htail'.trans htail, ?_⟩
    · rw [spinAfter, hs]
      exact ht
    · rw [hpixels, frame, htail, frame]

theorem turns_iff_frames (effect : PixelEffect) (hn : n ≤ 100) (start length : ℕ) :
    Turns n (spinAfter gammaLut n effect) start length ↔
      (∀ k, start ≤ k → k < start + length →
        (frame gammaLut n effect (k + 1)).rotate 1 = frame gammaLut n effect k) ∧
      ∀ k, start ≤ k → k + n ≤ start + length →
        frame gammaLut n effect (k + n) = frame gammaLut n effect k := by
  choose ring hring _ _ hframe using spinAfter_eq gammaLut effect hn
  constructor
  · intro hturns
    refine ⟨fun k hfrom hto => ?_, fun k hfrom hto => ?_⟩
    · obtain ⟨s, t, hs, ht, hturned⟩ := hturns.turned k hfrom hto
      cases (hring k).symm.trans hs
      cases (hring (k + 1)).symm.trans ht
      rwa [hframe, hframe] at hturned
    · obtain ⟨s, t, hs, ht, hperiod⟩ := hturns.period k hfrom hto
      cases (hring k).symm.trans hs
      cases (hring (k + n)).symm.trans ht
      rwa [hframe, hframe] at hperiod
  · rintro ⟨hturned, hperiod⟩
    refine ⟨fun k _ => ⟨ring k, hring k, ?_⟩,
      fun k hfrom hto => ⟨ring k, ring (k + 1), hring k, hring (k + 1), ?_⟩,
      fun k hfrom hto => ⟨ring k, ring (k + n), hring k, hring (k + n), ?_⟩⟩
    · rw [hframe, frame, List.length_rotate, length_tail]
    · rw [hframe, hframe, hturned k hfrom hto]
    · rw [hframe, hframe, hperiod k hfrom hto]

/-- What is left of the luminance after `k` steps. -/
theorem luminance_eq (step lum k : ℕ) : luminance step lum k = lum - k * step := by
  induction k with
  | zero => simp [luminance]
  | succ k ih =>
    rw [luminance, ih, Nat.succ_mul]
    split <;> omega

variable (n)

/-- A tail of one brightness. -/
def Flat (width : UInt8) : Prop := ∀ k < n,
  gammaLut (.ofNat (ledCorrMaxval - k * spinStep n width)) = gammaLut (.ofNat ledCorrMaxval)

theorem flat_iff (effect : PixelEffect) :
    Flat gammaLut n effect.width ↔ (tail gammaLut n effect).rotate 1 = tail gammaLut n effect := by
  have hget {k : ℕ} (hk : k < n) : (tail gammaLut n effect)[k]? = some (applyAlpha effect.primary
      (gammaLut (.ofNat (ledCorrMaxval - k * spinStep n effect.width)))) := by
    simp [tail, intensities, luminance_eq, hk]
  have : Nonempty Pixel := ⟨blank⟩
  rw [List.rotate_one_eq_self_iff_eq_replicate, length_tail]
  constructor
  · intro hflat
    refine ⟨applyAlpha effect.primary (gammaLut (.ofNat ledCorrMaxval)), ?_⟩
    apply List.ext_getElem?
    intro k
    by_cases hk : k < n
    · rw [hget hk, hflat k hk, List.getElem?_replicate_of_lt hk]
    · rw [List.getElem?_eq_none (by simpa using hk), List.getElem?_eq_none (by simpa using hk)]
  · rintro ⟨a, ha⟩ k hk
    have hall {i : ℕ} (hi : i < n) : applyAlpha effect.primary
        (gammaLut (.ofNat (ledCorrMaxval - i * spinStep n effect.width))) = a := by
      have hi' := hget hi
      rw [ha, List.getElem?_replicate_of_lt hi] at hi'
      exact (Option.some.inj hi').symm
    have hpixel := (hall hk).trans (hall (Nat.zero_lt_of_lt hk)).symm
    have halpha := congrArg Pixel.alpha hpixel
    rwa [Nat.zero_mul] at halpha

variable {n}

theorem frame_succ_rotate (effect : PixelEffect) {count : ℕ} (h : (count + 1) % (n + 1) < n) :
    (frame gammaLut n effect (count + 1)).rotate 1 = frame gammaLut n effect count := by
  have hnext : (count + 1 + 1) % (n + 1) = (count + 1) % (n + 1) + 1 := by
    rw [Nat.add_mod, Nat.mod_eq_of_lt (by omega : 1 < n + 1), Nat.mod_eq_of_lt (by omega)]
  have hback : n - ((count + 1) % (n + 1) + 1) + 1 = n - (count + 1) % (n + 1) := by omega
  rw [frame, List.rotate_rotate, hnext, hback, frame]

theorem frame_first (effect : PixelEffect) (count : ℕ) (h : (count + 1) % (n + 1) = 0) :
    frame gammaLut n effect count = tail gammaLut n effect := by
  have hround := List.rotate_length (tail gammaLut n effect)
  rw [length_tail] at hround
  rw [frame, h, Nat.sub_zero, hround]

theorem frame_last (effect : PixelEffect) (count : ℕ) (h : (count + 1) % (n + 1) = n) :
    frame gammaLut n effect count = tail gammaLut n effect ∧
      frame gammaLut n effect (count + 1) = tail gammaLut n effect := by
  have hnext : (count + 1 + 1) % (n + 1) = 0 := by
    rw [← Nat.mod_add_mod, h, Nat.mod_self]
  constructor
  · rw [frame, h, Nat.sub_self, List.rotate_zero]
  · exact frame_first gammaLut effect _ hnext

theorem turns_of_counter (effect : PixelEffect) (hn : n ≤ 100) {start length : ℕ}
    (hround : (start + 1) % (n + 1) + length ≤ n) : Turns n (spinAfter gammaLut n effect) start length := by
  rw [turns_iff_frames gammaLut effect hn]
  have hcounter {d : ℕ} (hd : d ≤ length) : (start + d + 1) % (n + 1) = (start + 1) % (n + 1) + d := by
    rw [Nat.add_right_comm, ← Nat.mod_add_mod, Nat.mod_eq_of_lt (by omega)]
  refine ⟨fun k hfrom hto => ?_, fun k hfrom hto => ?_⟩
  · obtain ⟨d, rfl⟩ := Nat.exists_eq_add_of_le hfrom
    apply frame_succ_rotate
    rw [hcounter (by omega)]
    omega
  · -- only a whole round from 0 on is this long
    obtain rfl : k = start := by omega
    have hzero : (k + 1) % (n + 1) = 0 := by omega
    have hend := hcounter (d := n) (by omega)
    rw [(frame_last gammaLut effect _ (by omega)).1, frame_first gammaLut effect _ hzero]

/-- A tail of one brightness looks the same wherever its head is. -/
theorem turns_of_flat (effect : PixelEffect) (hn : n ≤ 100) (hflat : Flat gammaLut n effect.width)
    (start length : ℕ) : Turns n (spinAfter gammaLut n effect) start length := by
  have : Nonempty Pixel := ⟨blank⟩
  rw [flat_iff] at hflat
  have hall := List.rotate_eq_self_iff_eq_replicate.mpr (List.rotate_one_eq_self_iff_eq_replicate.mp hflat)
  rw [turns_iff_frames gammaLut effect hn]
  simp only [frame, hall, implies_true, and_self]

/-- Between the last value of the counter and 0 the same frame is drawn twice. -/
theorem Turns.counter_le {effect : PixelEffect} (hn : n ≤ 100) {start length : ℕ}
    (h : Turns n (spinAfter gammaLut n effect) start length) (hflat : ¬ Flat gammaLut n effect.width) :
    (start + 1) % (n + 1) + length ≤ n := by
  by_contra hlong
  have hlast : (start + 1) % (n + 1) ≤ n := Nat.le_of_lt_succ (Nat.mod_lt _ n.succ_pos)
  have hend : (start + (n - (start + 1) % (n + 1)) + 1) % (n + 1) = n := by
    rw [Nat.add_right_comm, ← Nat.mod_add_mod, Nat.add_sub_cancel' hlast, Nat.mod_eq_of_lt n.lt_succ_self]
  have htwice := frame_last gammaLut effect _ hend
  have hturn := ((turns_iff_frames gammaLut effect hn start length).mp h).1 _ (Nat.le_add_right _ _)
    (by omega : start + (n - (start + 1) % (n + 1)) < start + length)
  rw [htwice.1, htwice.2] at hturn
  exact hflat ((flat_iff gammaLut n effect).mpr hturn)

/-- The counter is at `(start + 1) % (n + 1)` when the run begins. Up to its last value the frames turn;
between this value and 0 the same frame is drawn twice. -/
theorem turns_iff (effect : PixelEffect) (hn : n ≤ 100) (start length : ℕ) :
    Turns n (spinAfter gammaLut n effect) start length ↔
      Flat gammaLut n effect.width ∨ (start + 1) % (n + 1) + length ≤ n := by
  constructor
  · intro h
    by_cases hflat : Flat gammaLut n effect.width
    · exact .inl hflat
    · exact .inr (h.counter_le gammaLut hn hflat)
  · rintro (hflat | hround)
    · exact turns_of_flat gammaLut effect hn hflat start length
    · exact turns_of_counter gammaLut effect hn hround

/-- The first nine ticks of the ring of the board. -/
theorem turns_iff_ring :
    Turns 10 (spinAfter gammaTable 10 ⟨.spin, ⟨255, 255, 255, 255⟩, blank, 1, 4, 0, 0⟩) 0 9 :=
  (turns_iff gammaTable _ (by decide) 0 9).mpr (.inr (by decide))

/-- With the table of the board the tail fades, whatever its width. -/
theorem not_flat_gammaTable (h2 : 2 ≤ n) (hn : n ≤ 100) (width : UInt8) : ¬ Flat gammaTable n width := by
  intro hflat
  obtain ⟨r, hpos, hr, hstep⟩ : ∃ r, 0 < r ∧ r < n ∧ spinStep n width = 255 / r := by
    have hremainder : width.toNat % n < n := Nat.mod_lt _ (by omega)
    refine ⟨if width.toNat % n = 0 then 1 else width.toNat % n, ?_, ?_, rfl⟩
    all_goals split <;> omega
  have hend := congrArg UInt8.toNat (hflat r hr)
  have hlow : ledCorrMaxval - r * (255 / r) = 255 % r := Nat.mod_eq_sub_mul_div.symm
  have hdim : 255 % r ≤ 99 := by
    have hmod := Nat.mod_lt 255 hpos
    omega
  rw [hstep, hlow, gammaTable_ofNat (by omega), gammaTable_ofNat (by decide), ledCorrMaxval,
    genGamma_last 256 23 255] at hend
  have hmono := genGamma_mono 256 23 255 hdim
  have hdark : genGamma 256 23 255 99 < 255 := genGamma_lt 256 23 255 (by decide) (by decide)
  omega

/-- On the board only the counter matters. -/
theorem turns_gammaTable_iff (effect : PixelEffect) (h2 : 2 ≤ n) (hn : n ≤ 100) (start length : ℕ) :
    Turns n (spinAfter gammaTable n effect) start length ↔ (start + 1) % (n + 1) + length ≤ n := by
  constructor
  · exact fun h => h.counter_le gammaTable hn (not_flat_gammaTable h2 hn effect.width)
  · exact turns_of_counter gammaTable effect hn

/-- Tick 10 and tick 0 show a ring of ten pixels the same. -/
theorem spin_stands_still :
    ¬ ∀ n, 2 ≤ n → n ≤ 100 → ∀ (effect : PixelEffect) (start length : ℕ),
      Turns n (spinAfter gammaTable n effect) start length := by
  intro h
  let white : PixelEffect := ⟨.spin, ⟨255, 255, 255, 255⟩, blank, 1, 4, 0, 0⟩
  have hturns := h 10 (by decide) (by decide) white 0 10
  exact absurd ((turns_gammaTable_iff white (by decide) (by decide) 0 10).mp hturns) (by decide)

end Spin

/-! ## The periods -/

/-- The ticks of a timer are a period in milliseconds, up to one tick. -/
def Honoured (ms ticks : ℕ) : Prop :=
  1 ≤ ticks ∧ ticks * 1000 / txTimerTicksPerSecond ≤ ms + 1000 / txTimerTicksPerSecond ∧
    ms ≤ ticks * 1000 / txTimerTicksPerSecond + 1000 / txTimerTicksPerSecond

instance (ms ticks : ℕ) : Decidable (Honoured ms ticks) := inferInstanceAs (Decidable (_ ∧ _ ∧ _))

theorem honoured_iff (ms ticks : ℕ) :
    Honoured ms ticks ↔ 1 ≤ ticks ∧ ticks * 10 ≤ ms + 10 ∧ ms ≤ ticks * 10 + 10 := by
  rw [Honoured, txTimerTicksPerSecond]
  omega

theorem startTimer_ticks {ms : ℕ} (h : ms * txTimerTicksPerSecond < 2 ^ 32) :
    (startTimer (getThreadXTimerCounts ms)).ticks = max 1 ((ms / 10 + 1) / 10) := by
  rw [txTimerTicksPerSecond] at h
  rw [startTimer, getThreadXTimerCounts, txTimerTicksPerSecond]
  by_cases hshort : ms < 10
  · simp [hshort, Nat.div_eq_of_lt hshort]
  · have hproduct : (ms / 10 + 1) * 100 % 2 ^ 32 = (ms / 10 + 1) * 100 := Nat.mod_eq_of_lt (by omega)
    rw [if_neg hshort, hproduct, Nat.mul_div_mul_right (ms / 10 + 1) 10 (by decide : 0 < 100)]

/-- Up to 20 ms the shortest period of the timer is near enough. -/
theorem startTimer_honoured_iff (ms : ℕ) (h : ms * txTimerTicksPerSecond < 2 ^ 32) :
    Honoured ms (startTimer (getThreadXTimerCounts ms)).ticks ↔ ms ≤ 20 := by
  rw [startTimer_ticks h, honoured_iff]
  omega

theorem startTimer_honoured_iff_flash :
    Honoured 200 (startTimer (getThreadXTimerCounts 200)).ticks ↔ 200 ≤ 20 :=
  startTimer_honoured_iff 200 (by decide)

/-- The flash effect asks for 200 ms and is given 20. -/
theorem flash_not_honoured :
    ¬ ∀ ms, ms * txTimerTicksPerSecond < 2 ^ 32 →
      Honoured ms (startTimer (getThreadXTimerCounts ms)).ticks :=
  fun h => absurd (h 200 (by decide)) (by decide)

/-- No effect of the ring runs at its own period. -/
theorem setEffect_not_honoured {s : Ring} {newEffect : PixelEffect} {ms : ℕ}
    (hnew : newEffect.type ≠ s.previousEffect) (hperiod : periodMs newEffect.type = some ms) :
    ¬ Honoured ms (setEffect newEffect s).timer.ticks := by
  have htimer : (setEffect newEffect s).timer = startTimer (getThreadXTimerCounts ms) := by
    rw [setEffect, if_neg hnew]
    simp only [hperiod]
  rw [htimer]
  cases htype : newEffect.type <;> rw [htype] at hperiod <;> cases hperiod <;> decide

end EtherBench.Leds.Animation
