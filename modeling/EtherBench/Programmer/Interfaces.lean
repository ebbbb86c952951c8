import EtherBench.Programmer.Requests

/-! # The two interfaces of the probe

The code never mixes the SPIM with the SPIS, so each has an invariant of its own over the requests.
-/

namespace EtherBench.Programmer.Interfaces
open ProbeController Requests

section Spim

def driven (enabled : Bool) : Spi := ⟨enabled, spimConfig, .low, .high, 1⟩

def spimActive (miso : PinMode) : Interface := ⟨⟨.alternate 5, .alternate 5, miso⟩, true, driven true⟩

variable {mode request : TargetProtocol} {h : Hardware}

theorem leave_spim (hmode : usesSpim mode = false) : (leave mode h).spim = h.spim := by
  cases mode with
  | none | cjag | icsp | spi => rfl
  | swd | swdo | jtag => cases hmode

theorem enter_spim (hrequest : usesSpim request = false) : (enter request h).spim = h.spim := by
  cases request with
  | none | cjag | icsp | spi => rfl
  | swd | swdo | jtag => cases hrequest

/-- Only JTAG leaves the SPIM enabled. -/
theorem leave_spim_active {miso : PinMode} (hmode : usesSpim mode = true) (hspim : h.spim = spimActive miso) :
    (leave mode h).spim = ⟨⟨.analog, .analog, miso⟩, false, driven (mode = .jtag)⟩ := by
  cases h with
  | mk spim spis =>
    cases hspim
    cases mode with
    | swd | swdo | jtag => rfl
    | none | cjag | icsp | spi => cases hmode

/-- It does not matter that `LL_SPI_Init` then refuses to configure it again. -/
theorem enter_spim_active (hrequest : usesSpim request = true)
    (hspi : h.spim.spi = .reset ∨ ∃ enabled, h.spim.spi = driven enabled) :
    (enter request h).spim = spimActive h.spim.pins.miso := by
  cases h with
  | mk spim spis =>
    cases spim with
    | mk pins clock spi =>
      rcases hspi with hspi | ⟨enabled, hspi⟩
      · cases hspi
        cases request with
        | swd | swdo | jtag => rfl
        | none | cjag | icsp | spi => cases hrequest
      · cases hspi
        cases request with
        | swd | swdo | jtag => cases enabled <;> rfl
        | none | cjag | icsp | spi => cases hrequest

/-- The SPIM after the given requests. -/
structure SpimInv (pins : Pins) (requests : List TargetProtocol) (p : Probe) : Prop where
  active : usesSpim p.mode = true → p.hardware.spim = spimActive pins.miso
  unused : (∀ r ∈ requests, usesSpim r = false) → p.hardware.spim = ⟨pins, false, .reset⟩
  used : (∃ r ∈ requests, usesSpim r = true) → ∃ enabled, p.hardware.spim.spi = driven enabled
  miso : p.hardware.spim.pins.miso = pins.miso

variable {pins : Pins} {requests : List TargetProtocol} {p : Probe}

theorem SpimInv.leave_driven (hp : SpimInv pins requests p) (hused : ∃ r ∈ requests, usesSpim r = true) :
    ∃ enabled, (leave p.mode p.hardware).spim.spi = driven enabled := by
  cases hmode : usesSpim p.mode with
  | true =>
    rw [leave_spim_active hmode (hp.active hmode)]
    exact ⟨_, rfl⟩
  | false =>
    rw [leave_spim hmode]
    exact hp.used hused

theorem SpimInv.leave_miso (hp : SpimInv pins requests p) :
    (leave p.mode p.hardware).spim.pins.miso = pins.miso := by
  cases hmode : usesSpim p.mode with
  | true => rw [leave_spim_active hmode (hp.active hmode)]
  | false =>
    rw [leave_spim hmode]
    exact hp.miso

variable (hmode : Current requests p.mode)
include hmode

theorem SpimInv.leave_unused (hp : SpimInv pins requests p) (hunused : ∀ r ∈ requests, usesSpim r = false) :
    (leave p.mode p.hardware).spim = ⟨pins, false, .reset⟩ := by
  rw [leave_spim (hmode.unused rfl hunused)]
  exact hp.unused hunused

theorem SpimInv.configured (hp : SpimInv pins requests p) :
    (leave p.mode p.hardware).spim.spi = .reset ∨
      ∃ enabled, (leave p.mode p.hardware).spim.spi = driven enabled := by
  by_cases hused : ∃ r ∈ requests, usesSpim r = true
  · exact Or.inr (hp.leave_driven hused)
  · refine Or.inl ?_
    rw [hp.leave_unused hmode fun r hr => Bool.eq_false_iff.mpr fun huse => hused ⟨r, hr, huse⟩]

theorem SpimInv.step (hp : SpimInv pins requests p) (request : TargetProtocol) :
    SpimInv pins (requests ++ [request]) (configureMode p request) := by
  rw [configureMode]
  split
  · next hsame =>
    subst hsame
    exact ⟨hp.active, fun hall => hp.unused (unused_before hall), fun hused => hp.used (hmode.used_before rfl hused),
      hp.miso⟩
  · cases huse : usesSpim request with
    | true =>
      have hspim := enter_spim_active huse (hp.configured hmode)
      rw [hp.leave_miso] at hspim
      refine ⟨fun _ => hspim, fun hall => ?_, fun _ => ?_, ?_⟩
      · rw [hall request (List.mem_append_right _ List.mem_cons_self)] at huse
        cases huse
      · exact ⟨true, congrArg Interface.spi hspim⟩
      · exact congrArg (fun i => i.pins.miso) hspim
    | false =>
      have hspim : (enter request (leave p.mode p.hardware)).spim = _ := enter_spim huse
      refine ⟨fun hactive => ?_, fun hall => ?_, ?_, ?_⟩
      · rw [huse] at hactive
        cases hactive
      · rw [hspim, hp.leave_unused hmode (unused_before hall)]
      · intro hused
        rw [hspim]
        exact hp.leave_driven (used_before hused huse)
      · rw [hspim, hp.leave_miso]

omit hmode

theorem after_spimInv (spimPins spisPins : Pins) (requests : List TargetProtocol) :
    SpimInv spimPins requests (after spimPins spisPins requests) := by
  induction requests using List.reverseRecOn with
  | nil =>
    refine ⟨?_, fun _ => rfl, fun ⟨_, hr, _⟩ => absurd hr List.not_mem_nil, rfl⟩
    intro hactive
    cases hactive
  | append_singleton before request ih =>
    rw [after_concat]
    exact ih.step (after_current spimPins spisPins before) request

end Spim

section Spis

def slaved (enabled : Bool) : Spi := ⟨enabled, spisConfig .slave, .low, .low, 1⟩

/-- The registers of the SPIS in a probe that has only been used for SPI. -/
def mastered : Spi := ⟨true, spisConfig .master, .low, .high, 1⟩

def spisPinsActive : Pins := ⟨.alternate 6, .alternate 7, .alternate 6⟩

/-- What leaving a mode does to the registers of the SPIS: JTAG and SPI are too late for it. -/
def left (mode : TargetProtocol) (spi : Spi) : Spi :=
  if mode = .swdo then { spi with enabled := false } else spi

def entered (request : TargetProtocol) (spi : Spi) : Spi :=
  match request with
  | .jtag => { spi.init (spisConfig .slave) with fifoThreshold := 1, enabled := true }
  | .spi => { spi.init (spisConfig .master) with fifoThreshold := 1, enabled := true }
  | _ => spi

def leftPins (mode : TargetProtocol) (pins : Pins) : Pins :=
  match mode with
  | .jtag => { pins with sclk := .analog, mosi := .analog }
  | .spi => ⟨.analog, .analog, .analog⟩
  | .swdo => { pins with miso := .analog }
  | _ => pins

variable {mode request : TargetProtocol} {h : Hardware}

theorem leave_spis (hclock : h.spis.clock = clocksSpis mode) :
    (leave mode h).spis = ⟨leftPins mode h.spis.pins, false, left mode h.spis.spi⟩ := by
  cases h with
  | mk spim spis =>
    cases spis with
    | mk pins clock spi =>
      cases hclock
      cases mode <;> rfl

theorem enter_spis (hclock : h.spis.clock = false) :
    (enter request h).spis =
      ⟨if usesSpis request then spisPinsActive else h.spis.pins, clocksSpis request,
        entered request h.spis.spi⟩ := by
  cases h with
  | mk spim spis =>
    cases spis with
    | mk pins clock spi =>
      cases hclock
      cases request <;> rfl

theorem configureMode_spis {p : Probe} (hne : p.mode ≠ request)
    (hclock : p.hardware.spis.clock = clocksSpis p.mode) :
    (configureMode p request).hardware.spis =
      ⟨if usesSpis request then spisPinsActive else leftPins p.mode p.hardware.spis.pins,
        clocksSpis request, entered request (left p.mode p.hardware.spis.spi)⟩ := by
  have hleft := leave_spis hclock
  rw [configureMode, if_neg hne, enter_spis (congrArg Interface.clock hleft), hleft]

/-- The registers of the SPIS after the given requests. -/
structure SpisInv (requests : List TargetProtocol) (mode : TargetProtocol) (spi : Spi) : Prop where
  unused : (∀ r ∈ requests, usesSpis r = false) → spi = .reset
  used : (∃ r ∈ requests, usesSpis r = true) → spi.config.nss = .soft
  polarity : spi.nssPolarity = .low
  slave : SpiArmed requests → spi = .reset ∨ ∃ enabled, spi = slaved enabled
  armed : SpiArmed requests → armed requests = true → spi = slaved true
  idle : SpiArmed requests → Requests.armed requests = false → mode ≠ .swdo → spi.enabled = false
  raised : ¬ SpiArmed requests → spi.internalSs = .high
  alone : (∀ r ∈ requests, usesSpim r = false) → .spi ∈ requests → spi = mastered

variable {requests : List TargetProtocol} {spi : Spi}

theorem SpisInv.nil : SpisInv [] .none .reset where
  unused _ := rfl
  used := fun ⟨_, hr, _⟩ => absurd hr List.not_mem_nil
  polarity := rfl
  slave _ := Or.inl rfl
  armed _ h := Bool.noConfusion h
  idle _ _ _ := rfl
  raised h := absurd spiArmed_nil h
  alone _ h := absurd h List.not_mem_nil

theorem SpisInv.same (hs : SpisInv requests mode spi) (hmode : Current requests mode) :
    SpisInv (requests ++ [mode]) mode spi := by
  constructor
  · exact fun hall => hs.unused (unused_before hall)
  · exact fun hused => hs.used (hmode.used_before rfl hused)
  · exact hs.polarity
  · exact fun h => hs.slave (spiArmed_concat.mp h).1
  · intro h harmed
    apply hs.armed (spiArmed_concat.mp h).1
    by_cases hjtag : mode = .jtag
    · subst hjtag
      exact hmode.armed
    · rw [armed_concat, decide_eq_false hjtag, Bool.false_or] at harmed
      exact (Bool.and_eq_true_iff.mp harmed).2
  · intro h harmed hne
    refine hs.idle (spiArmed_concat.mp h).1 ?_ hne
    rw [armed_concat, decide_eq_true hne, Bool.true_and] at harmed
    exact (Bool.or_eq_false_iff.mp harmed).2
  · intro h
    apply hs.raised
    intro hold
    apply h
    refine spiArmed_concat.mpr ⟨hold, ?_⟩
    rintro rfl
    exact hmode.armed_spi hold
  · intro hall hspi
    obtain ⟨r, hr, heq⟩ := hmode.used_before (f := fun r => r = .spi) rfl ⟨.spi, hspi, rfl⟩
    exact hs.alone (unused_before hall) (of_decide_eq_true heq ▸ hr)

theorem left_config (mode : TargetProtocol) (spi : Spi) : (left mode spi).config = spi.config := by
  rw [left]
  split <;> rfl

theorem left_polarity (mode : TargetProtocol) (spi : Spi) : (left mode spi).nssPolarity = spi.nssPolarity := by
  rw [left]
  split <;> rfl

theorem left_internalSs (mode : TargetProtocol) (spi : Spi) : (left mode spi).internalSs = spi.internalSs := by
  rw [left]
  split <;> rfl

theorem left_reset (mode : TargetProtocol) : left mode .reset = .reset := by
  rw [left]
  split <;> rfl

theorem SpisInv.left_idle (hs : SpisInv requests mode spi) (h : SpiArmed requests)
    (harmed : Requests.armed requests = false) : (left mode spi).enabled = false := by
  rw [left]
  split
  · rfl
  · next hne => exact hs.idle h harmed hne

theorem SpisInv.left_armed (hs : SpisInv requests mode spi) (hmode : Current requests mode)
    (h : SpiArmed requests) (harmed : Requests.armed requests = true) : left mode spi = slaved true := by
  have hne : mode ≠ .swdo := by
    rintro rfl
    rw [hmode.not_armed] at harmed
    cases harmed
  rw [left, if_neg hne]
  exact hs.armed h harmed

theorem SpisInv.left_slave (hs : SpisInv requests mode spi) (h : SpiArmed requests) :
    left mode spi = .reset ∨ ∃ enabled, left mode spi = slaved enabled := by
  rcases hs.slave h with rfl | ⟨enabled, rfl⟩
  · exact Or.inl (left_reset mode)
  · rw [left]
    split
    · exact Or.inr ⟨false, rfl⟩
    · exact Or.inr ⟨enabled, rfl⟩

theorem SpisInv.left_alone (hs : SpisInv requests mode spi) (hmode : Current requests mode)
    (hall : ∀ r ∈ requests, usesSpim r = false) (hspi : .spi ∈ requests) : left mode spi = mastered := by
  have hne : mode ≠ .swdo := by
    rintro rfl
    have huse := hmode.unused rfl hall
    cases huse
  rw [left, if_neg hne]
  exact hs.alone hall hspi

theorem entered_of_unused (h : usesSpis request = false) (spi : Spi) : entered request spi = spi := by
  cases request with
  | jtag | spi => cases h
  | none | swd | swdo | cjag | icsp => rfl

/-- Whatever the SPIS has been configured for, it selects by software. -/
theorem entered_nss (h : usesSpis request = true) (hspi : spi.enabled = true → spi.config.nss = .soft) :
    (entered request spi).config.nss = .soft := by
  cases spi with
  | mk enabled config nssPolarity internalSs fifoThreshold =>
    cases request with
    | none | swd | swdo | cjag | icsp => cases h
    | jtag | spi =>
      cases enabled with
      | true => exact hspi rfl
      | false => rfl

theorem entered_polarity (request : TargetProtocol) (spi : Spi) :
    (entered request spi).nssPolarity = spi.nssPolarity := by
  cases spi with
  | mk enabled config nssPolarity internalSs fifoThreshold => cases request <;> cases enabled <;> rfl

/-- Nothing lowers the internal select signal. -/
theorem entered_raised (h : spi.internalSs = .high) (request : TargetProtocol) :
    (entered request spi).internalSs = .high := by
  cases spi with
  | mk enabled config nssPolarity internalSs fifoThreshold =>
    cases h
    cases request with
    | jtag | spi =>
      cases enabled with
      | true => rfl
      | false => exact ite_self _
    | none | swd | swdo | cjag | icsp => rfl

theorem entered_spi_raises (hdisabled : spi.enabled = false) (hpolarity : spi.nssPolarity = .low) :
    (entered .spi spi).internalSs = .high := by
  cases spi with
  | mk enabled config nssPolarity internalSs fifoThreshold =>
    cases hdisabled
    cases hpolarity
    rfl

theorem entered_jtag_slave (h : spi = .reset ∨ ∃ enabled, spi = slaved enabled) :
    entered .jtag spi = slaved true := by
  rcases h with rfl | ⟨enabled, rfl⟩
  · rfl
  · cases enabled <;> rfl

theorem SpisInv.left_nss (hs : SpisInv requests mode spi) (henabled : (left mode spi).enabled = true) :
    (left mode spi).config.nss = .soft := by
  by_cases hused : ∃ r ∈ requests, usesSpis r = true
  · rw [left_config]
    exact hs.used hused
  · have hreset := hs.unused fun r hr => Bool.eq_false_iff.mpr fun huse => hused ⟨r, hr, huse⟩
    rw [hreset, left_reset] at henabled
    cases henabled

theorem SpisInv.next_unused (hs : SpisInv requests mode spi) (hmode : Current requests mode)
    (h : usesSpis request = false) : SpisInv (requests ++ [request]) request (left mode spi) := by
  have hspi : request ≠ .spi := by
    rintro rfl
    cases h
  have hjtag : request ≠ .jtag := by
    rintro rfl
    cases h
  constructor
  · intro hall
    rw [hs.unused (unused_before hall), left_reset]
  · intro hused
    rw [left_config]
    exact hs.used (used_before hused h)
  · rw [left_polarity]
    exact hs.polarity
  · exact fun harmed => hs.left_slave (spiArmed_concat.mp harmed).1
  · intro hold harmed
    rw [armed_concat, decide_eq_false hjtag, Bool.false_or] at harmed
    exact hs.left_armed hmode (spiArmed_concat.mp hold).1 (Bool.and_eq_true_iff.mp harmed).2
  · intro hold harmed hne
    rw [armed_concat, decide_eq_true hne, Bool.true_and] at harmed
    exact hs.left_idle (spiArmed_concat.mp hold).1 (Bool.or_eq_false_iff.mp harmed).2
  · intro hbroken
    rw [left_internalSs]
    apply hs.raised
    intro hold
    exact hbroken (spiArmed_concat.mpr ⟨hold, fun heq => absurd heq hspi⟩)
  · intro hall hmem
    refine hs.left_alone hmode (unused_before hall) ?_
    rcases List.mem_append.mp hmem with hmem | hlast
    · exact hmem
    · exact absurd (List.mem_singleton.mp hlast).symm hspi

theorem SpisInv.next_jtag (hs : SpisInv requests mode spi) :
    SpisInv (requests ++ [.jtag]) .jtag (entered .jtag (left mode spi)) := by
  have hlast : TargetProtocol.jtag ∈ requests ++ [.jtag] := List.mem_append_right _ List.mem_cons_self
  have hslave (h : SpiArmed (requests ++ [.jtag])) : entered .jtag (left mode spi) = slaved true :=
    entered_jtag_slave (hs.left_slave (spiArmed_concat.mp h).1)
  constructor
  · exact fun hall => absurd (hall .jtag hlast) (by decide)
  · exact fun _ => entered_nss rfl hs.left_nss
  · rw [entered_polarity, left_polarity]
    exact hs.polarity
  · exact fun h => Or.inr ⟨true, hslave h⟩
  · exact fun h _ => hslave h
  · intro _ harmed
    rw [armed_concat] at harmed
    cases harmed
  · intro hbroken
    apply entered_raised
    rw [left_internalSs]
    apply hs.raised
    intro hold
    refine hbroken (spiArmed_concat.mpr ⟨hold, fun heq => ?_⟩)
    cases heq
  · exact fun hall => absurd (hall .jtag hlast) (by decide)

theorem SpisInv.next_spi (hs : SpisInv requests mode spi) (hmode : Current requests mode) :
    SpisInv (requests ++ [.spi]) .spi (entered .spi (left mode spi)) := by
  have hlast : TargetProtocol.spi ∈ requests ++ [.spi] := List.mem_append_right _ List.mem_cons_self
  have hsame : Requests.armed (requests ++ [.spi]) = Requests.armed requests := armed_concat
  -- the SPIS is still enabled as a slave, so that it is not configured
  have hslave (h : SpiArmed (requests ++ [.spi])) : entered .spi (left mode spi) = slaved true := by
    obtain ⟨hold, harmed⟩ := spiArmed_concat.mp h
    rw [hs.left_armed hmode hold (harmed rfl)]
    rfl
  constructor
  · exact fun hall => absurd (hall .spi hlast) (by decide)
  · exact fun _ => entered_nss rfl hs.left_nss
  · rw [entered_polarity, left_polarity]
    exact hs.polarity
  · exact fun h => Or.inr ⟨true, hslave h⟩
  · exact fun h _ => hslave h
  · intro h harmed
    rw [hsame, (spiArmed_concat.mp h).2 rfl] at harmed
    cases harmed
  · intro hbroken
    by_cases hold : SpiArmed requests
    · apply entered_spi_raises
      · apply hs.left_idle hold
        rw [← Bool.not_eq_true]
        exact fun harmed => hbroken (spiArmed_concat.mpr ⟨hold, fun _ => harmed⟩)
      · rw [left_polarity]
        exact hs.polarity
    · apply entered_raised
      rw [left_internalSs]
      exact hs.raised hold
  · intro hall _
    by_cases hspi : .spi ∈ requests
    · rw [hs.left_alone hmode (unused_before hall) hspi]
      rfl
    · rw [hs.unused, left_reset]
      · rfl
      · intro r hr
        cases r with
        | spi => exact absurd hr hspi
        | jtag => exact absurd (unused_before hall .jtag hr) (by decide)
        | none | swd | swdo | cjag | icsp => rfl

theorem SpisInv.next (hs : SpisInv requests mode spi) (hmode : Current requests mode) (request : TargetProtocol) :
    SpisInv (requests ++ [request]) request (entered request (left mode spi)) := by
  cases h : usesSpis request with
  | false =>
    rw [entered_of_unused h]
    exact hs.next_unused hmode h
  | true =>
    cases request with
    | jtag => exact hs.next_jtag
    | spi => exact hs.next_spi hmode
    | none | swd | swdo | cjag | icsp => cases h

end Spis

end EtherBench.Programmer.Interfaces
