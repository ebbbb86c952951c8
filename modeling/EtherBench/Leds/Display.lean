import EtherBench.Leds.LedsWS2812

/-! # The effect that the ring shows

Whether the frames after a call of `set_effect` are those of the effect that it has been given.
-/

namespace EtherBench.Leds.Display
open Library.Transition LedsWS2812

/-- Two effects that only differ in how far they have run. -/
structure SameLook (a b : PixelEffect) : Prop where
  type : a.type = b.type
  primary : a.primary = b.primary
  secondary : a.secondary = b.secondary
  speed : a.speed = b.speed
  width : a.width = b.width

variable (gammaLut : UInt8 → UInt8)

/-- What the update function makes of some canvas with the look of the effect. -/
def RenderedFrom (e : PixelEffect) (frame : Frame) : Prop :=
  ∃ c : Canvas, SameLook c.effect e ∧
    frame = ⟨(update gammaLut c).effect, (List.range ledRingPixelNb).map (update gammaLut c).pixels⟩

def isSetEffect : Event → Bool
  | .setEffect _ => true
  | _ => false

/-- The call of `set_effect` in the given state has its effect shown: the ring is refreshed again, and
every frame until the next call is rendered from this effect. -/
structure Shown (s : Ring) (newEffect : PixelEffect) : Prop where
  refreshed : (setEffect newEffect s).timer.active = true ∨
    s.frames.length < (setEffect newEffect s).frames.length
  rendered : ∀ (events : List Event) (t : Ring), (∀ e ∈ events, isSetEffect e = false) →
    run (step gammaLut) (setEffect newEffect s) events = some t →
    ∀ frame ∈ t.frames.drop s.frames.length, RenderedFrom gammaLut newEffect frame

/-- A new effect that keeps the timer running, or one that the ring is showing already. -/
def Takes (s : Ring) (newEffect : PixelEffect) : Prop :=
  if newEffect.type = s.previousEffect then s.timer.active = true ∧ SameLook s.canvas.effect newEffect
  else (periodMs newEffect.type).isSome = true

theorem SameLook.refl (a : PixelEffect) : SameLook a a := ⟨rfl, rfl, rfl, rfl, rfl⟩

theorem SameLook.symm {a b : PixelEffect} (h : SameLook a b) : SameLook b a :=
  ⟨h.type.symm, h.primary.symm, h.secondary.symm, h.speed.symm, h.width.symm⟩

theorem SameLook.trans {a b c : PixelEffect} (h : SameLook a b) (h' : SameLook b c) : SameLook a c :=
  ⟨h.type.trans h'.type, h.primary.trans h'.primary, h.secondary.trans h'.secondary,
    h.speed.trans h'.speed, h.width.trans h'.width⟩

theorem update_sameLook (c : Canvas) : SameLook (update gammaLut c).effect c.effect := by
  rw [update]
  split <;> exact ⟨rfl, rfl, rfl, rfl, rfl⟩

theorem RenderedFrom.sameLook {e : PixelEffect} {frame : Frame} (h : RenderedFrom gammaLut e frame) :
    SameLook frame.effect e := by
  obtain ⟨c, hlook, rfl⟩ := h
  exact (update_sameLook gammaLut c).trans hlook

theorem refreshLeds_frames (s : Ring) : ∃ frame, (refreshLeds gammaLut s).frames = s.frames ++ [frame] ∧
    RenderedFrom gammaLut s.canvas.effect frame ∧ frame.effect = (refreshLeds gammaLut s).canvas.effect := by
  refine ⟨_, rfl, ⟨_, ?_, rfl⟩, rfl⟩
  change SameLook (if _ then _ else _) _
  split
  · exact ⟨rfl, rfl, rfl, rfl, rfl⟩
  · exact SameLook.refl _

/-- What a step other than a call of `set_effect` leaves: the look of the effect, the timer, and frames
of that look. -/
structure Continues (e : PixelEffect) (count : ℕ) (s : Ring) : Prop where
  effect : SameLook s.canvas.effect e
  frames : ∀ frame ∈ s.frames.drop count, RenderedFrom gammaLut e frame
  count_le : count ≤ s.frames.length

variable {gammaLut}

theorem Continues.step {e : PixelEffect} {count : ℕ} {s t : Ring} {event : Event} (hs : Continues gammaLut e count s)
    (hevent : isSetEffect event = false) (hstep : LedsWS2812.step gammaLut s event = some t) :
    Continues gammaLut e count t := by
  cases event with
  | setEffect newEffect => cases hevent
  | setEffectProgress progress =>
    cases hstep
    exact ⟨⟨hs.effect.type, hs.effect.primary, hs.effect.secondary, hs.effect.speed, hs.effect.width⟩,
      hs.frames, hs.count_le⟩
  | tick =>
    obtain ⟨_, hrefresh⟩ := Option.ite_none_right_eq_some.mp hstep
    cases hrefresh
    obtain ⟨last, hframes, ⟨c, hlook, hlast⟩, heffect⟩ := refreshLeds_frames gammaLut s
    have hrendered : RenderedFrom gammaLut e last := ⟨c, hlook.trans hs.effect, hlast⟩
    refine ⟨heffect ▸ hrendered.sameLook, fun frame hframe => ?_, ?_⟩
    · rw [hframes, List.drop_append_of_le_length hs.count_le] at hframe
      rcases List.mem_append.mp hframe with hold | hnew
      · exact hs.frames frame hold
      · exact List.mem_singleton.mp hnew ▸ hrendered
    · rw [hframes, List.length_append]
      exact Nat.le_add_right_of_le hs.count_le

theorem Continues.run {e : PixelEffect} {count : ℕ} {s t : Ring} {events : List Event}
    (hs : Continues gammaLut e count s) (hevents : ∀ event ∈ events, isSetEffect event = false)
    (hrun : Library.Transition.run (LedsWS2812.step gammaLut) s events = some t) : Continues gammaLut e count t := by
  induction events generalizing s with
  | nil =>
    cases hrun
    exact hs
  | cons event rest ih =>
    obtain ⟨u, hu, hrest⟩ := run_cons_some.mp hrun
    exact ih (hs.step (hevents event List.mem_cons_self) hu)
      (fun q hq => hevents q (List.mem_cons_of_mem event hq)) hrest

theorem setEffect_same {s : Ring} {newEffect : PixelEffect} (h : newEffect.type = s.previousEffect) :
    setEffect newEffect s = s := if_pos h

theorem setEffect_frames (s : Ring) (newEffect : PixelEffect) :
    (setEffect newEffect s).frames = s.frames := by
  rw [setEffect]
  split <;> rfl

/-- `set_effect` never refreshes the ring itself. -/
theorem refreshed_iff (s : Ring) (newEffect : PixelEffect) :
    ((setEffect newEffect s).timer.active = true ∨
        s.frames.length < (setEffect newEffect s).frames.length) ↔
      if newEffect.type = s.previousEffect then s.timer.active = true
      else (periodMs newEffect.type).isSome = true := by
  rw [setEffect_frames, or_iff_left (Nat.lt_irrefl _)]
  by_cases h : newEffect.type = s.previousEffect
  · rw [setEffect_same h, if_pos h]
  · rw [if_neg h, setEffect, if_neg h]
    cases periodMs newEffect.type with
    | none => exact iff_of_false Bool.false_ne_true Bool.false_ne_true
    | some period => exact iff_of_true rfl rfl

theorem rendered_of_sameLook {s t u : Ring} {e : PixelEffect} (hlook : SameLook t.canvas.effect e)
    (hframes : t.frames = s.frames) {events : List Event} (hevents : ∀ event ∈ events, isSetEffect event = false)
    (hrun : run (LedsWS2812.step gammaLut) t events = some u) :
    ∀ frame ∈ u.frames.drop s.frames.length, RenderedFrom gammaLut e frame := by
  have hstart : Continues gammaLut e s.frames.length t := by
    refine ⟨hlook, fun frame hframe => ?_, Nat.le_of_eq (congrArg List.length hframes).symm⟩
    rw [hframes, List.drop_length] at hframe
    cases hframe
  exact (hstart.run hevents hrun).frames

variable (gammaLut)

theorem sameLook_of_rendered {s : Ring} {e : PixelEffect} (hactive : s.timer.active = true)
    (hrendered : ∀ (events : List Event) (t : Ring), (∀ event ∈ events, isSetEffect event = false) →
      run (LedsWS2812.step gammaLut) s events = some t →
      ∀ frame ∈ t.frames.drop s.frames.length, RenderedFrom gammaLut e frame) :
    SameLook s.canvas.effect e := by
  have htick : LedsWS2812.step gammaLut s .tick = some (refreshLeds gammaLut s) := if_pos hactive
  have hrun : run (LedsWS2812.step gammaLut) s [.tick] = some (refreshLeds gammaLut s) := by
    rw [run_cons, htick]
    rfl
  obtain ⟨frame, hframes, hrunning, -⟩ := refreshLeds_frames gammaLut s
  have hlast : frame ∈ (refreshLeds gammaLut s).frames.drop s.frames.length := by
    rw [hframes, List.drop_left]
    exact List.mem_cons_self
  have hframe := hrendered [.tick] _ (by simp [isSetEffect]) hrun frame hlast
  exact hrunning.sameLook.symm.trans hframe.sameLook

/-- Whatever has been set and shown before, an effect is shown exactly when `set_effect` takes it. -/
theorem shown_iff (s : Ring) (newEffect : PixelEffect) : Shown gammaLut s newEffect ↔ Takes s newEffect := by
  rw [Takes]
  by_cases h : newEffect.type = s.previousEffect
  · rw [if_pos h]
    constructor
    · intro hshown
      have hactive := (refreshed_iff s newEffect).mp hshown.refreshed
      rw [if_pos h] at hactive
      have hrendered := hshown.rendered
      rw [setEffect_same h] at hrendered
      exact ⟨hactive, sameLook_of_rendered gammaLut hactive hrendered⟩
    · rintro ⟨hactive, hlook⟩
      refine ⟨(refreshed_iff s newEffect).mpr (by rwa [if_pos h]), fun events t hevents hrun => ?_⟩
      rw [setEffect_same h] at hrun
      exact rendered_of_sameLook hlook rfl hevents hrun
  · rw [if_neg h]
    constructor
    · intro hshown
      have hperiod := (refreshed_iff s newEffect).mp hshown.refreshed
      rwa [if_neg h] at hperiod
    · intro hperiod
      refine ⟨(refreshed_iff s newEffect).mpr (by rwa [if_neg h]), fun events t hevents hrun => ?_⟩
      refine rendered_of_sameLook ?_ (setEffect_frames s newEffect) hevents hrun
      rw [setEffect, if_neg h]
      exact SameLook.refl newEffect

/-- Red after blue with the same type: the ring stays blue. -/
theorem recolour_not_shown :
    ¬ ∀ (gammaLut : UInt8 → UInt8) (events : List Event) (s : Ring),
      run (LedsWS2812.step gammaLut) initial events = some s →
      ∀ newEffect, newEffect.type ≠ .none → newEffect.type ≠ .vuMeter → Shown gammaLut s newEffect := by
  intro h
  let blue : PixelEffect := ⟨.breathing, ⟨255, 0, 0, 255⟩, blank, 1, 1, 0, 0⟩
  let red : PixelEffect := ⟨.breathing, ⟨255, 0, 255, 0⟩, blank, 1, 1, 0, 0⟩
  have hshown := h id [.setEffect blue, .tick] _ rfl red (by decide) (by decide)
  have hlook := sameLook_of_rendered id rfl hshown.rendered
  exact absurd hlook.primary (by decide)

end EtherBench.Leds.Display
