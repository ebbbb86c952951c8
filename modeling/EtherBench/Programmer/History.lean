import EtherBench.Programmer.Interfaces

/-! # What a mode request leaves behind

The hardware after a sequence of requests against the hardware after its last one alone.
-/

namespace EtherBench.Programmer.History
open ProbeController Requests Interfaces

/-- What must have come before a request, so that it leads to the state it leads to alone. -/
def Repeatable (spisPins : Pins) (requests : List TargetProtocol) : TargetProtocol → Prop
  | .jtag => SpiArmed requests
  | .spi => ∀ r ∈ requests, usesSpim r = false
  | .swd =>
    (∀ r ∈ requests, usesSpis r = false) ∧
      (swdoLeft (requests ++ [.swd]) = true → spisPins.miso = .analog)
  | .swdo =>
    (∀ r ∈ requests, usesSpis r = false) ∧
      (swdoLeft (requests ++ [.swdo]) = true → spisPins.miso = .analog)
  | .none | .cjag | .icsp => ∀ r ∈ requests, usesSpim r = false ∧ usesSpis r = false

/-- The pins and the clock of the SPIS after the given requests. -/
structure Wired (pins : Pins) (requests : List TargetProtocol) (p : Probe) : Prop where
  clock : p.hardware.spis.clock = clocksSpis p.mode
  active : usesSpis p.mode = true → p.hardware.spis.pins = spisPinsActive
  unused : (∀ r ∈ requests, usesSpis r = false) →
    p.hardware.spis.pins = { pins with miso := if swdoLeft requests then .analog else pins.miso }

variable {pins : Pins} {requests : List TargetProtocol} {p : Probe}

theorem Wired.step (hp : Wired pins requests p) (hmode : Current requests p.mode) (request : TargetProtocol) :
    Wired pins (requests ++ [request]) (configureMode p request) := by
  by_cases hsame : p.mode = request
  · rw [configureMode, if_pos hsame]
    refine ⟨hp.clock, hp.active, fun hall => ?_⟩
    rw [hp.unused (unused_before hall), ← hsame, hmode.swdoLeft_next]
    exact not_or_of_imp id
  · have hspis := configureMode_spis hsame hp.clock
    refine ⟨?_, ?_, ?_⟩
    · rw [hspis, configureMode_mode]
    · intro huse
      rw [configureMode_mode] at huse
      rw [hspis]
      exact if_pos huse
    · intro hall
      have hrequest : usesSpis request = false := hall request (List.mem_append_right _ List.mem_cons_self)
      have hunused : usesSpis p.mode = false := hmode.unused rfl (unused_before hall)
      rw [hspis, hrequest, hp.unused (unused_before hall)]
      change leftPins p.mode _ = _
      by_cases hswdo : p.mode = .swdo
      · rw [hswdo] at hmode hsame ⊢
        rw [hmode.swdoLeft_leave (Ne.symm hsame)]
        rfl
      · rw [hmode.swdoLeft_next (Or.inl hswdo)]
        cases hp : p.mode with
        | jtag | spi =>
          rw [hp] at hunused
          cases hunused
        | swdo => exact absurd hp hswdo
        | none | swd | cjag | icsp => rfl

theorem after_spis (spimPins pins : Pins) (requests : List TargetProtocol) :
    Wired pins requests (after spimPins pins requests) ∧
      SpisInv requests (after spimPins pins requests).mode (after spimPins pins requests).hardware.spis.spi := by
  induction requests using List.reverseRecOn with
  | nil => exact ⟨⟨rfl, Bool.noConfusion, fun _ => rfl⟩, SpisInv.nil⟩
  | append_singleton before request ih =>
    have hmode := after_current spimPins pins before
    refine ⟨?_, ?_⟩
    · rw [after_concat]
      exact ih.1.step hmode request
    · rw [after_concat, configureMode_mode]
      by_cases hsame : (after spimPins pins before).mode = request
      · rw [configureMode, if_pos hsame, ← hsame]
        exact ih.2.same hmode
      · rw [configureMode_spis hsame ih.1.clock]
        exact ih.2.next hmode request

variable (spimPins spisPins : Pins) (requests : List TargetProtocol) (last : TargetProtocol)

theorem after_mode : (after spimPins spisPins (requests ++ [last])).mode = last := by
  rw [after_concat, configureMode_mode]

theorem spim_active (h : usesSpim last = true) :
    (after spimPins spisPins (requests ++ [last])).hardware.spim = spimActive spimPins.miso := by
  apply (after_spimInv spimPins spisPins (requests ++ [last])).active
  rw [after_mode]
  exact h

theorem spim_repeats (h : usesSpim last = true) :
    (after spimPins spisPins (requests ++ [last])).hardware.spim =
      (after spimPins spisPins [last]).hardware.spim := by
  rw [spim_active spimPins spisPins requests last h]
  exact (spim_active spimPins spisPins [] last h).symm

theorem spim_repeats_unused (h : usesSpim last = false) :
    (after spimPins spisPins (requests ++ [last])).hardware.spim =
        (after spimPins spisPins [last]).hardware.spim ↔ ∀ r ∈ requests, usesSpim r = false := by
  have hp := after_spimInv spimPins spisPins (requests ++ [last])
  have hlast (r : TargetProtocol) (hr : r ∈ [last]) : usesSpim r = false := List.mem_singleton.mp hr ▸ h
  rw [(after_spimInv spimPins spisPins [last]).unused hlast]
  constructor
  · intro heq r hr
    by_contra huse
    obtain ⟨enabled, hdriven⟩ := hp.used ⟨r, List.mem_append_left _ hr, Bool.not_eq_false _ ▸ huse⟩
    rw [heq] at hdriven
    cases hdriven
  · exact fun hall => hp.unused fun r hr => (List.mem_append.mp hr).elim (hall r) (hlast r)

/-- The SPIS in a mode that uses it, but for its registers. -/
theorem spis_active (h : usesSpis last = true) :
    (after spimPins spisPins (requests ++ [last])).hardware.spis =
      ⟨spisPinsActive, true, (after spimPins spisPins (requests ++ [last])).hardware.spis.spi⟩ := by
  obtain ⟨hwired, _⟩ := after_spis spimPins spisPins (requests ++ [last])
  have hmode := after_mode spimPins spisPins requests last
  have hpins := hwired.active (by rwa [hmode])
  have hclock := hwired.clock
  rw [hmode, clocksSpis, h, Bool.true_or] at hclock
  rw [← hpins, ← hclock]

theorem spis_unused (h : ∀ r ∈ requests ++ [last], usesSpis r = false) :
    (after spimPins spisPins (requests ++ [last])).hardware.spis =
      ⟨{ spisPins with miso := if swdoLeft (requests ++ [last]) then .analog else spisPins.miso },
        clocksSpis last, .reset⟩ := by
  obtain ⟨hwired, hregisters⟩ := after_spis spimPins spisPins (requests ++ [last])
  have hclock := hwired.clock
  rw [after_mode] at hclock
  rw [← hwired.unused h, ← hclock, ← hregisters.unused h]

theorem spis_repeats_unused (h : usesSpis last = false) :
    (after spimPins spisPins (requests ++ [last])).hardware.spis =
        (after spimPins spisPins [last]).hardware.spis ↔
      (∀ r ∈ requests, usesSpis r = false) ∧
        (swdoLeft (requests ++ [last]) = true → spisPins.miso = .analog) := by
  have hlast (r : TargetProtocol) (hr : r ∈ [last]) : usesSpis r = false := List.mem_singleton.mp hr ▸ h
  have halone : swdoLeft [last] = false := by cases last <;> rfl
  have hq := spis_unused spimPins spisPins [] last hlast
  rw [List.nil_append, halone] at hq
  by_cases hall : ∀ r ∈ requests, usesSpis r = false
  · have hp := spis_unused spimPins spisPins requests last fun r hr =>
      (List.mem_append.mp hr).elim (hall r) (hlast r)
    rw [hp, hq, and_iff_right hall]
    cases swdoLeft (requests ++ [last]) with
    | true => simp [eq_comm]
    | false => simp
  · obtain ⟨_, hp⟩ := after_spis spimPins spisPins (requests ++ [last])
    refine iff_of_false (fun heq => hall fun r hr => ?_) fun h => hall h.1
    by_contra huse
    have hsoft := hp.used ⟨r, List.mem_append_left _ hr, Bool.not_eq_false _ ▸ huse⟩
    rw [heq, hq] at hsoft
    cases hsoft

theorem spis_repeats_jtag :
    (after spimPins spisPins (requests ++ [.jtag])).hardware.spis =
        (after spimPins spisPins [.jtag]).hardware.spis ↔ SpiArmed requests := by
  obtain ⟨_, hp⟩ := after_spis spimPins spisPins (requests ++ [.jtag])
  have hq : (after spimPins spisPins [.jtag]).hardware.spis = ⟨spisPinsActive, true, slaved true⟩ := rfl
  rw [spis_active spimPins spisPins requests .jtag rfl, hq]
  constructor
  · intro heq
    by_contra hbroken
    have hraised := hp.raised fun h => hbroken (spiArmed_concat.mp h).1
    rw [congrArg Interface.spi heq] at hraised
    cases hraised
  · intro h
    rw [hp.armed (spiArmed_concat.mpr ⟨h, by simp⟩) armed_concat]

theorem spis_repeats_spi (h : ∀ r ∈ requests, usesSpim r = false) :
    (after spimPins spisPins (requests ++ [.spi])).hardware.spis =
      (after spimPins spisPins [.spi]).hardware.spis := by
  obtain ⟨_, hp⟩ := after_spis spimPins spisPins (requests ++ [.spi])
  have hq : (after spimPins spisPins [.spi]).hardware.spis = ⟨spisPinsActive, true, mastered⟩ := rfl
  rw [spis_active spimPins spisPins requests .spi rfl, hq, hp.alone]
  · intro r hr
    rcases List.mem_append.mp hr with hmem | hmem
    · exact h r hmem
    · rw [List.mem_singleton.mp hmem]
      rfl
  · exact List.mem_append_right _ List.mem_cons_self

theorem hardware_eq_iff {h h' : Hardware} : h = h' ↔ h.spim = h'.spim ∧ h.spis = h'.spis := by
  cases h
  cases h'
  simp

/-- A request that uses no interface changes nothing. -/
theorem repeats_idle (hspim : usesSpim last = false) (hspis : usesSpis last = false) :
    (after spimPins spisPins (requests ++ [last])).hardware = (after spimPins spisPins [last]).hardware ↔
      ∀ r ∈ requests, usesSpim r = false ∧ usesSpis r = false := by
  rw [hardware_eq_iff, spim_repeats_unused _ _ _ _ hspim, spis_repeats_unused _ _ _ _ hspis]
  constructor
  · exact fun h r hr => ⟨h.1 r hr, h.2.1 r hr⟩
  · intro h
    refine ⟨fun r hr => (h r hr).1, fun r hr => (h r hr).2, fun hleft => ?_⟩
    have hswdo : .swdo ∉ requests ++ [last] := by
      intro hmem
      rcases List.mem_append.mp hmem with hmem | hmem
      · exact absurd (h .swdo hmem).1 (by decide)
      · rw [← List.mem_singleton.mp hmem] at hspim
        cases hspim
    rw [swdoLeft_of_not_mem hswdo] at hleft
    cases hleft

/-- The hardware after a sequence of requests is that after the last request alone exactly when
nothing that it still shows has come before. -/
theorem independent_iff :
    (after spimPins spisPins (requests ++ [last])).hardware = (after spimPins spisPins [last]).hardware ↔
      Repeatable spisPins requests last := by
  cases last with
  | none | cjag | icsp => exact repeats_idle spimPins spisPins requests _ rfl rfl
  | jtag =>
    rw [hardware_eq_iff, and_iff_right (spim_repeats spimPins spisPins requests .jtag rfl)]
    exact spis_repeats_jtag spimPins spisPins requests
  | swd =>
    rw [hardware_eq_iff, and_iff_right (spim_repeats spimPins spisPins requests .swd rfl)]
    exact spis_repeats_unused spimPins spisPins requests .swd rfl
  | swdo =>
    rw [hardware_eq_iff, and_iff_right (spim_repeats spimPins spisPins requests .swdo rfl)]
    exact spis_repeats_unused spimPins spisPins requests .swdo rfl
  | spi =>
    rw [hardware_eq_iff, spim_repeats_unused _ _ _ _ rfl]
    exact and_iff_left_of_imp (spis_repeats_spi spimPins spisPins requests)

/-- After JTAG, `TARGET_PROTOCOL_NONE` leaves MISO of the SPIS in its alternate function and both
interfaces enabled. -/
theorem jtag_leaves_hardware :
    ¬ ∀ (spimPins spisPins : Pins) (requests : List TargetProtocol) (last : TargetProtocol),
      (after spimPins spisPins (requests ++ [last])).hardware = (after spimPins spisPins [last]).hardware := by
  intro h
  have hnone := h ⟨.analog, .analog, .analog⟩ ⟨.analog, .analog, .analog⟩ [.jtag] .none
  exact absurd hnone (by decide)

end EtherBench.Programmer.History
