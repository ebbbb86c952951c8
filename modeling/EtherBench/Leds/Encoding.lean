import EtherBench.Leds.LedsWS2812
import EtherBench.Library.Memory

/-! # The words that the ring is sent

`compute_timer_cycles` of `tasks/leds/src/Leds/LedsWS2812.cpp` for a ring of any size: each bit of a
pixel becomes the length of one pulse, and 64 words without a pulse latch the colours.
-/

namespace EtherBench.Leds.Encoding
open LedsWS2812 Library.Memory

def ledRingBitPerPixel : ℕ := 24

structure LedsBuffer where
  /-- counts the words of a buffer in a 32-bit address space, so it does not wrap -/
  dmaIndex : ℕ
  words : ℕ → UInt32
  /-- the indices that have been written, in order -/
  written : List ℕ

def LedsBuffer.store (word : UInt32) (s : LedsBuffer) : LedsBuffer where
  dmaIndex := s.dmaIndex + 1
  words := Function.update s.words s.dmaIndex word
  written := s.written ++ [s.dmaIndex]

def grb (p : Pixel) : UInt32 := (p.g.toUInt32 <<< 16) ||| (p.r.toUInt32 <<< 8) ||| p.b.toUInt32

section Loops
variable (t0h t1h : UInt16) (pixelBuffer : ℕ → Pixel)

def pulse (word : UInt32) (bit : ℕ) : UInt32 :=
  if (word >>> .ofNat bit) &&& 0x01 ≠ 0 then t1h.toUInt32 else t0h.toUInt32

/-- The loop from bit `bits - 1` down to bit 0. -/
def storeBits (word : UInt32) : ℕ → LedsBuffer → LedsBuffer
  | 0, s => s
  | bit + 1, s => storeBits word bit (s.store (pulse t0h t1h word bit))

def storePixels : ℕ → LedsBuffer → LedsBuffer
  | 0, s => s
  | pixel + 1, s => storeBits t0h t1h (grb (pixelBuffer pixel)) 24 (storePixels pixel s)

def storeLatch : ℕ → LedsBuffer → LedsBuffer
  | 0, s => s
  | i + 1, s => (storeLatch i s).store 0

/-- `compute_timer_cycles` of a ring with `n` pixels. -/
def computeTimerCycles (n : ℕ) (ledsBuffer : ℕ → UInt32) : LedsBuffer :=
  storeLatch 64 (storePixels t0h t1h pixelBuffer n ⟨0, ledsBuffer, []⟩)

end Loops

/-- What a pixel takes for a byte: eight pulses, the highest bit first. -/
def decodeByte (t1h : UInt16) (words : ℕ → UInt32) (start : ℕ) : UInt8 :=
  .ofBitVec ((BitVec.ofBoolListBE ((slice words start 8).map (· == t1h.toUInt32))).setWidth 8)

/-- The green, red and blue byte that pixel `p` of the chain takes. -/
def decodePixel (t1h : UInt16) (words : ℕ → UInt32) (p : ℕ) : UInt8 × UInt8 × UInt8 :=
  (decodeByte t1h words (24 * p), decodeByte t1h words (24 * p + 8), decodeByte t1h words (24 * p + 16))

/-- What `compute_timer_cycles` owes a ring with `n` pixels. -/
structure Encodes (t0h t1h : UInt16) (pixelBuffer : ℕ → Pixel) (n : ℕ) (s : LedsBuffer) : Prop where
  once : s.written = List.range (ledRingBitPerPixel * n + 64)
  entry : ∀ p < n, ∀ k < ledRingBitPerPixel, s.words (ledRingBitPerPixel * p + k) =
    if (grb (pixelBuffer p)).toBitVec.getLsbD (23 - k) then t1h.toUInt32 else t0h.toUInt32
  latch : ∀ i < 64, s.words (ledRingBitPerPixel * n + i) = 0
  decoded : ∀ p < n,
    decodePixel t1h s.words p = ((pixelBuffer p).g, (pixelBuffer p).r, (pixelBuffer p).b)

/-! ## Where the words lie -/

def LedsBuffer.fill (count : ℕ) (value : ℕ → UInt32) (s : LedsBuffer) : LedsBuffer where
  dmaIndex := s.dmaIndex + count
  words := fun i => if s.dmaIndex ≤ i ∧ i < s.dmaIndex + count then value (i - s.dmaIndex) else s.words i
  written := s.written ++ List.range' s.dmaIndex count

theorem LedsBuffer.fill_zero (value : ℕ → UInt32) (s : LedsBuffer) : s.fill 0 value = s := by
  cases s with
  | mk dmaIndex words written =>
    simp only [fill, List.range'_zero, List.append_nil, Nat.add_zero, mk.injEq, true_and, and_true]
    funext i
    exact if_neg (by omega)

theorem LedsBuffer.store_eq_fill (word : UInt32) (s : LedsBuffer) : s.store word = s.fill 1 fun _ => word := by
  simp only [store, fill, mk.injEq, List.range'_one, true_and, and_true]
  funext i
  rw [Function.update_apply]
  exact if_congr (by omega) rfl rfl

theorem LedsBuffer.fill_congr {count : ℕ} {value value' : ℕ → UInt32} (h : ∀ j < count, value j = value' j)
    (s : LedsBuffer) : s.fill count value = s.fill count value' := by
  simp only [fill, mk.injEq, true_and, and_true]
  funext i
  split
  · next hi => exact h _ (by omega)
  · rfl

theorem LedsBuffer.fill_fill (a b : ℕ) (first second : ℕ → UInt32) (s : LedsBuffer) :
    (s.fill a first).fill b second =
      s.fill (a + b) fun j => if j < a then first j else second (j - a) := by
  rw [fill, fill, fill, mk.injEq]
  refine ⟨Nat.add_assoc .., ?_, ?_⟩
  · funext i
    change (if s.dmaIndex + a ≤ i ∧ i < s.dmaIndex + a + b then second (i - (s.dmaIndex + a))
      else if s.dmaIndex ≤ i ∧ i < s.dmaIndex + a then first (i - s.dmaIndex) else s.words i) = _
    by_cases hsecond : s.dmaIndex + a ≤ i ∧ i < s.dmaIndex + a + b
    · rw [if_pos hsecond, if_pos (by omega), if_neg (by omega), Nat.sub_add_eq]
    · rw [if_neg hsecond]
      by_cases hfirst : s.dmaIndex ≤ i ∧ i < s.dmaIndex + a
      · rw [if_pos hfirst, if_pos (by omega), if_pos (by omega)]
      · rw [if_neg hfirst, if_neg (by omega)]
  · rw [List.append_assoc, List.range'_append_1]

section Layout
variable (t0h t1h : UInt16) (pixelBuffer : ℕ → Pixel)

theorem storeBits_eq (word : UInt32) (bits : ℕ) (s : LedsBuffer) :
    storeBits t0h t1h word bits s = s.fill bits fun j => pulse t0h t1h word (bits - 1 - j) := by
  induction bits generalizing s with
  | zero => exact (s.fill_zero _).symm
  | succ bit ih =>
    rw [storeBits, ih, s.store_eq_fill, s.fill_fill, Nat.add_comm 1 bit]
    refine s.fill_congr fun j hj => ?_
    split
    · congr 1
      omega
    · congr 1
      omega

theorem storePixels_eq (n : ℕ) (s : LedsBuffer) :
    storePixels t0h t1h pixelBuffer n s =
      s.fill (24 * n) fun j => pulse t0h t1h (grb (pixelBuffer (j / 24))) (23 - j % 24) := by
  induction n with
  | zero => exact (s.fill_zero _).symm
  | succ n ih =>
    rw [storePixels, ih, storeBits_eq, s.fill_fill]
    refine s.fill_congr fun j hj => ?_
    split
    · rfl
    · have hpixel : j / 24 = n := by omega
      have hbit : 24 - 1 - (j - 24 * n) = 23 - j % 24 := by omega
      rw [hpixel, hbit]

theorem storeLatch_eq (count : ℕ) (s : LedsBuffer) : storeLatch count s = s.fill count fun _ => 0 := by
  induction count with
  | zero => exact (s.fill_zero _).symm
  | succ count ih =>
    rw [storeLatch, ih, LedsBuffer.store_eq_fill, s.fill_fill]
    exact s.fill_congr fun j _ => ite_self 0

/-- The pixels and behind them the latch, from the first word on. -/
theorem computeTimerCycles_eq (n : ℕ) (ledsBuffer : ℕ → UInt32) :
    computeTimerCycles t0h t1h pixelBuffer n ledsBuffer =
      LedsBuffer.fill (24 * n + 64)
        (fun j => if j < 24 * n then pulse t0h t1h (grb (pixelBuffer (j / 24))) (23 - j % 24) else 0)
        ⟨0, ledsBuffer, []⟩ := by
  rw [computeTimerCycles, storePixels_eq, storeLatch_eq, LedsBuffer.fill_fill]

theorem computeTimerCycles_written (n : ℕ) (ledsBuffer : ℕ → UInt32) :
    (computeTimerCycles t0h t1h pixelBuffer n ledsBuffer).written = List.range (24 * n + 64) := by
  rw [computeTimerCycles_eq]
  exact List.range_eq_range'.symm

theorem computeTimerCycles_words (n : ℕ) (ledsBuffer : ℕ → UInt32) {i : ℕ} (hi : i < 24 * n + 64) :
    (computeTimerCycles t0h t1h pixelBuffer n ledsBuffer).words i =
      if i < 24 * n then pulse t0h t1h (grb (pixelBuffer (i / 24))) (23 - i % 24) else 0 := by
  have hin : 0 ≤ i ∧ i < 0 + (24 * n + 64) := by omega
  rw [computeTimerCycles_eq]
  exact if_pos hin

end Layout

/-! ## What the pixels read -/

theorem pulse_eq (t0h t1h : UInt16) (word : UInt32) {bit : ℕ} (h : bit < 32) :
    pulse t0h t1h word bit = if word.toBitVec.getLsbD bit then t1h.toUInt32 else t0h.toUInt32 := by
  rw [pulse]
  refine if_congr ?_ rfl rfl
  have hbit : bit % 4294967296 % 32 = bit := by omega
  rw [Ne, ← UInt32.toNat_inj, BitVec.getLsbD, Nat.testBit_eq_decide_div_mod_eq, decide_eq_true_iff]
  simp [hbit, Nat.shiftRight_eq_div_pow]

theorem grb_bit (p : Pixel) {i : ℕ} (h : i < 8) :
    (grb p).toBitVec.getLsbD (16 + i) = p.g.toBitVec.getLsbD i ∧
      (grb p).toBitVec.getLsbD (8 + i) = p.r.toBitVec.getLsbD i ∧
      (grb p).toBitVec.getLsbD i = p.b.toBitVec.getLsbD i := by
  have hwide : 16 + i < 32 ∧ 8 + i < 32 ∧ i < 32 ∧ 8 + i < 16 ∧ i < 16 := by omega
  refine ⟨?_, ?_, ?_⟩
  · have hred : p.r.toBitVec.getLsbD (16 + i - 8) = false := BitVec.getLsbD_of_ge _ _ (by omega)
    have hblue : p.b.toBitVec.getLsbD (16 + i) = false := BitVec.getLsbD_of_ge _ _ (by omega)
    simp [grb, hwide, hred, hblue]
  · simp [grb, hwide]
  · simp [grb, hwide, h]

/-- Pulses of two lengths carry a byte. -/
theorem decodeByte_eq {t0h t1h : UInt16} (hne : t0h ≠ t1h) {words : ℕ → UInt32} {start : ℕ} {byte : UInt8}
    (h : ∀ k < 8, words (start + k) =
      if byte.toBitVec.getLsbD (7 - k) then t1h.toUInt32 else t0h.toUInt32) :
    decodeByte t1h words start = byte := by
  have hread : ∀ k < 8, (words (start + k) == t1h.toUInt32) = byte.toBitVec.getLsbD (7 - k) := by
    intro k hk
    rw [h k hk]
    cases byte.toBitVec.getLsbD (7 - k) with
    | true => exact beq_self_eq_true _
    | false =>
      have hwide : t0h.toUInt32 ≠ t1h.toUInt32 := fun heq => hne (UInt16.toUInt32_inj.mp heq)
      exact beq_eq_false_iff_ne.mpr hwide
  apply UInt8.eq_of_toBitVec_eq
  apply BitVec.eq_of_getLsbD_eq
  intro i hi
  have hindex : 7 - (7 - i) = i := by omega
  rw [decodeByte, UInt8.toBitVec_ofBitVec, BitVec.getLsbD_setWidth, BitVec.getLsbD_ofBoolListBE]
  rw [List.length_map, slice_length, decide_eq_true hi, Bool.true_and, Bool.true_and,
    List.getD_eq_getElem?_getD, List.getElem?_map, slice_getElem?, if_pos (by omega)]
  change (words (start + (7 - i)) == t1h.toUInt32) = byte.toBitVec.getLsbD i
  rw [hread _ (by omega), hindex]

theorem computeTimerCycles_entry (t0h t1h : UInt16) (pixelBuffer : ℕ → Pixel) (ledsBuffer : ℕ → UInt32)
    {n p k : ℕ} (hp : p < n) (hk : k < 24) :
    (computeTimerCycles t0h t1h pixelBuffer n ledsBuffer).words (24 * p + k) =
      if (grb (pixelBuffer p)).toBitVec.getLsbD (23 - k) then t1h.toUInt32 else t0h.toUInt32 := by
  have hpixel : (24 * p + k) / 24 = p := by omega
  have hbit : (24 * p + k) % 24 = k := by omega
  rw [computeTimerCycles_words _ _ _ _ _ (by omega), if_pos (by omega), hpixel, hbit, pulse_eq _ _ _ (by omega)]

theorem computeTimerCycles_decoded {t0h t1h : UInt16} (hne : t0h ≠ t1h) (pixelBuffer : ℕ → Pixel)
    (ledsBuffer : ℕ → UInt32) {n p : ℕ} (hp : p < n) :
    decodePixel t1h (computeTimerCycles t0h t1h pixelBuffer n ledsBuffer).words p =
      ((pixelBuffer p).g, (pixelBuffer p).r, (pixelBuffer p).b) := by
  have hgreen : ∀ k < 8, 23 - k = 16 + (7 - k) := by omega
  have hred : ∀ k < 8, 23 - (8 + k) = 8 + (7 - k) := by omega
  have hblue : ∀ k < 8, 23 - (16 + k) = 7 - k := by omega
  rw [decodePixel, decodeByte_eq hne, decodeByte_eq hne, decodeByte_eq hne]
  · intro k hk
    rw [Nat.add_assoc, computeTimerCycles_entry _ _ _ _ hp (by omega), hblue k hk,
      (grb_bit _ (by omega)).2.2]
  · intro k hk
    rw [Nat.add_assoc, computeTimerCycles_entry _ _ _ _ hp (by omega), hred k hk,
      (grb_bit _ (by omega)).2.1]
  · intro k hk
    rw [computeTimerCycles_entry _ _ _ _ hp (by omega), hgreen k hk, (grb_bit _ (by omega)).1]

/-- Every size of the ring, every picture and every two pulse lengths. -/
theorem computeTimerCycles_encodes (n : ℕ) (t0h t1h : UInt16) (hne : t0h ≠ t1h) (pixelBuffer : ℕ → Pixel)
    (ledsBuffer : ℕ → UInt32) :
    Encodes t0h t1h pixelBuffer n (computeTimerCycles t0h t1h pixelBuffer n ledsBuffer) where
  once := computeTimerCycles_written t0h t1h pixelBuffer n ledsBuffer
  entry := fun _ hp _ hk => computeTimerCycles_entry t0h t1h pixelBuffer ledsBuffer hp hk
  latch := by
    intro i hi
    change (computeTimerCycles t0h t1h pixelBuffer n ledsBuffer).words (24 * n + i) = 0
    rw [computeTimerCycles_words _ _ _ _ _ (by omega), if_neg (by omega)]
  decoded := fun _ hp => computeTimerCycles_decoded hne pixelBuffer ledsBuffer hp

theorem computeTimerCycles_encodes_ring :
    Encodes 80 160 (fun p => ⟨255, .ofNat p, 1, 2⟩) ledRingPixelNb
      (computeTimerCycles 80 160 (fun p => ⟨255, .ofNat p, 1, 2⟩) ledRingPixelNb fun _ => 7) :=
  computeTimerCycles_encodes ledRingPixelNb 80 160 (by decide) _ _

/-- What the ring shows after a refresh is the frame of this refresh. -/
theorem refreshLeds_decoded (gammaLut : UInt8 → UInt8) (s : Ring) {t0h t1h : UInt16} (hne : t0h ≠ t1h)
    (ledsBuffer : ℕ → UInt32) :
    ∃ frame, (refreshLeds gammaLut s).frames = s.frames ++ [frame] ∧
      (List.range ledRingPixelNb).map (decodePixel t1h
        (computeTimerCycles t0h t1h (refreshLeds gammaLut s).canvas.pixels ledRingPixelNb ledsBuffer).words) =
      frame.pixels.map fun p => (p.g, p.r, p.b) := by
  refine ⟨_, rfl, ?_⟩
  rw [List.map_map]
  refine List.map_congr_left fun p hp => ?_
  exact computeTimerCycles_decoded hne _ ledsBuffer (List.mem_range.mp hp)

end EtherBench.Leds.Encoding
