import Mathlib.Algebra.Group.Nat.Defs
import Mathlib.Data.Int.Notation
import Mathlib.Data.Nat.Notation
import EtherBench.Library.Transition

/-! # The LED ring

`LedsWS2812` of `tasks/leds/src/Leds/LedsWS2812.cpp` with the timer of `LedsBase`, once `init` has
been called. The table `gamma_lut` is generated with the build. A frame is what `refresh_leds`
passes on; whether the DMA is free to send it is not modelled.
-/

namespace EtherBench.Leds.LedsWS2812

def ledRingPixelNb : ℕ := 10
def ledRingBreathMax : ℕ := 255
def ledRingBreathLength : ℕ := 600
def ledCorrMaxval : ℕ := 255
def heartbeatSamples : ℕ := 100
def txTimerTicksPerSecond : ℕ := 100

inductive LedsEffects where
  | none
  | flash
  | solid
  | spin
  | breathing
  | progress
  | vuMeter
  | rainbow
  | heartbeat
  deriving DecidableEq

structure Pixel where
  alpha : UInt8
  g : UInt8
  r : UInt8
  b : UInt8
  deriving DecidableEq

structure PixelEffect where
  type : LedsEffects
  primary : Pixel
  secondary : Pixel
  speed : UInt16
  width : UInt8
  progress : UInt8
  tick : UInt16
  deriving DecidableEq

/-- `WS2812_..._PERIOD_MS` of the effects that keep the timer running. -/
def periodMs : LedsEffects → Option ℕ
  | .flash => some (1000 / 5)
  | .spin => some (1000 / 2)
  | .breathing => some (1000 / 30)
  | .progress => some (1000 / 1)
  | .rainbow => some (1000 / 20)
  | .heartbeat => some (1000 / 5)
  | .none | .solid | .vuMeter => none

def getThreadXTimerCounts (ms : ℕ) : ℕ := if ms < 10 then 1 else ms / 10 + 1

structure Timer where
  active : Bool
  /-- the period in ticks -/
  ticks : ℕ
  deriving DecidableEq

/-- `start_timer`, with the product in a `ULONG`. -/
def startTimer (periodMs : ℕ) : Timer where
  active := true
  ticks := max 1 (periodMs * txTimerTicksPerSecond % 2 ^ 32 / 1000)

def Timer.stop (t : Timer) : Timer := { t with active := false }

def heartbeatLut (phase : ℕ) : UInt8 :=
  if phase < 15 then .ofNat (phase * 255 / 15)
  else if phase < 30 then .ofNat (255 - (phase - 15) * 255 / 15)
  else if 40 ≤ phase ∧ phase < 50 then .ofNat ((phase - 40) * 200 / 10)
  else if 50 ≤ phase ∧ phase < 60 then .ofNat (200 - (phase - 50) * 200 / 10)
  else 0

def applyAlpha (input : Pixel) (alpha : UInt8) : Pixel where
  r := .ofNat (input.r.toNat * alpha.toNat / 255)
  g := .ofNat (input.g.toNat * alpha.toNat / 255)
  b := .ofNat (input.b.toNat * alpha.toNat / 255)
  alpha := alpha

/-- The effect that runs and `pixel_buffer`. -/
structure Canvas where
  effect : PixelEffect
  pixels : ℕ → Pixel

section Effects
variable (gammaLut : UInt8 → UInt8) (c : Canvas)

def Canvas.draw (pixelOf : ℕ → Pixel) : ℕ → Pixel := fun i =>
  if i < ledRingPixelNb then pixelOf i else c.pixels i

def effectFlash : Canvas :=
  let tick := if 10 < c.effect.tick + 1 then 0 else c.effect.tick + 1
  let temp := if 5 < tick then c.effect.primary else c.effect.secondary
  { effect := { c.effect with tick := tick }
    pixels := c.draw fun _ => applyAlpha temp (gammaLut temp.alpha) }

def effectSolid : Canvas where
  effect := { c.effect with tick := c.effect.tick + 1 }
  pixels := c.draw fun _ => applyAlpha c.effect.primary (gammaLut c.effect.primary.alpha)

def effectBreathing : Canvas :=
  let tick := c.effect.tick + 1
  let localTick :=
    if tick.toNat ≤ ledRingBreathMax then tick.toNat
    else if tick.toNat ≤ 2 * ledRingBreathMax then 2 * ledRingBreathMax - tick.toNat
    else 0
  let intensity := gammaLut (.ofNat localTick)
  { effect :=
      { c.effect with
        tick := if 2 * ledRingBreathMax < tick.toNat ∧ ledRingBreathLength ≤ tick.toNat then 0 else tick }
    pixels := c.draw fun _ => applyAlpha c.effect.primary intensity }

/-- The luminance that is left after `k` steps down. -/
def luminance (step lum : ℕ) : ℕ → ℕ
  | 0 => lum
  | k + 1 =>
    let before := luminance step lum k
    if step < before then before - step else 0

def int8 (n : ℤ) : ℤ := (n + 128) % 256 - 128

def tailIndex (tick : UInt16) (pixel : ℕ) : ℤ :=
  let index := int8 (pixel - int8 tick.toNat)
  if index < 0 then int8 (index + ledRingPixelNb) else index

def effectSpin : Canvas :=
  let tick := if c.effect.tick.toNat < ledRingPixelNb then c.effect.tick + 1 else 0
  let remainder := c.effect.width.toNat % ledRingPixelNb
  let width := if remainder = 0 then 1 else remainder
  let intensities (tail : ℕ) : UInt8 :=
    gammaLut (.ofNat (luminance (ledCorrMaxval / width) ledCorrMaxval tail))
  { effect := { c.effect with tick := tick }
    pixels := c.draw fun pixel => applyAlpha c.effect.primary (intensities (tailIndex tick pixel).toNat) }

def effectProgress : Canvas :=
  let progress := if 100 < c.effect.progress then 100 else c.effect.progress
  let step := 100 / ledRingPixelNb
  let intensities (pixel : ℕ) : UInt8 :=
    let lum := luminance step progress.toNat pixel
    if step < lum then gammaLut 255 else .ofNat (lum * ledCorrMaxval / step)
  { effect := { c.effect with progress := progress }
    pixels := c.draw fun pixel => applyAlpha c.effect.primary (intensities pixel) }

def effectVuMeter : Canvas :=
  let half := ledRingPixelNb / 2
  let totalBrightness := c.effect.progress.toNat * half
  let pixelAt (pixel : ℕ) : Pixel :=
    let pixelStart := pixel * ledCorrMaxval
    let intensity :=
      if pixelStart + ledCorrMaxval < totalBrightness then ledCorrMaxval else totalBrightness - pixelStart
    applyAlpha c.effect.primary (gammaLut (.ofNat intensity))
  { c with
    pixels := fun i =>
      if half ≤ i ∧ i < half + half then pixelAt (i - half)
      else if 0 < i ∧ i < half then pixelAt (half - i)
      else c.pixels i }

def effectRainbow : Canvas :=
  let tick := c.effect.tick + 1
  let offset : UInt8 := .ofNat (tick.toNat * c.effect.speed.toNat)
  let colorAt (pixel : ℕ) : Pixel :=
    let hue : UInt8 := 255 - (.ofNat (pixel * 256 / ledRingPixelNb) + offset)
    let color :=
      if hue < 85 then { c.effect.primary with r := 255 - hue * 3, g := 0, b := hue * 3 }
      else if hue < 170 then { c.effect.primary with r := 0, g := hue * 3, b := 255 - hue * 3 }
      else { c.effect.primary with r := hue * 3, g := 255 - hue * 3, b := 0 }
    applyAlpha color (gammaLut color.alpha)
  { effect := { c.effect with tick := if offset = 0 then 0 else tick }
    pixels := c.draw colorAt }

def effectHeartbeat : Canvas :=
  let tick := if heartbeatSamples ≤ (c.effect.tick + 1).toNat then 0 else c.effect.tick + 1
  let intensity := gammaLut (heartbeatLut tick.toNat)
  { effect := { c.effect with tick := tick }
    pixels := c.draw fun _ => applyAlpha c.effect.primary intensity }

/-- The update function of the effect that runs. -/
def update : Canvas :=
  match c.effect.type with
  | .flash => effectFlash gammaLut c
  | .solid => effectSolid gammaLut c
  | .spin => effectSpin gammaLut c
  | .breathing => effectBreathing gammaLut c
  | .progress => effectProgress gammaLut c
  | .vuMeter => effectVuMeter gammaLut c
  | .rainbow => effectRainbow gammaLut c
  | .heartbeat => effectHeartbeat gammaLut c
  | .none => c

end Effects

/-- A frame and the effect that it has been rendered from. -/
structure Frame where
  effect : PixelEffect
  pixels : List Pixel

structure Ring where
  canvas : Canvas
  previousEffect : LedsEffects
  timer : Timer
  /-- the frames so far -/
  frames : List Frame

def blank : Pixel := ⟨0, 0, 0, 0⟩

def initial : Ring where
  canvas := ⟨⟨.none, blank, blank, 0, 0, 0, 0⟩, fun _ => blank⟩
  previousEffect := .none
  timer := ⟨false, 1⟩
  frames := []

def refreshLeds (gammaLut : UInt8 → UInt8) (s : Ring) : Ring :=
  let effect :=
    if s.previousEffect ≠ s.canvas.effect.type then { s.canvas.effect with tick := 0, progress := 0 }
    else s.canvas.effect
  let canvas := update gammaLut { s.canvas with effect := effect }
  { s with
    canvas := canvas
    previousEffect := effect.type
    frames := s.frames ++ [⟨canvas.effect, (List.range ledRingPixelNb).map canvas.pixels⟩] }

def setEffect (newEffect : PixelEffect) (s : Ring) : Ring :=
  if newEffect.type = s.previousEffect then s
  else
    { s with
      canvas := { s.canvas with effect := newEffect }
      timer :=
        match periodMs newEffect.type with
        | some period => startTimer (getThreadXTimerCounts period)
        | none => s.timer.stop }

def setEffectProgress (progress : UInt8) (s : Ring) : Ring :=
  { s with canvas := { s.canvas with effect := { s.canvas.effect with progress := progress } } }

inductive Event where
  | setEffect (newEffect : PixelEffect)
  | setEffectProgress (progress : UInt8)
  /-- the timer expires -/
  | tick

def step (gammaLut : UInt8 → UInt8) (s : Ring) : Event → Option Ring
  | .setEffect newEffect => some (setEffect newEffect s)
  | .setEffectProgress progress => some (setEffectProgress progress s)
  | .tick => if s.timer.active then some (refreshLeds gammaLut s) else none

end EtherBench.Leds.LedsWS2812
