import Mathlib.Data.List.Induction
import Mathlib.Data.List.TakeWhile
import EtherBench.Programmer.ProbeController

/-! # Sequences of mode requests

Which interfaces a mode uses, and what of the requests so far the hardware still shows.
-/

namespace EtherBench.Programmer.Requests
open ProbeController

def usesSpim : TargetProtocol → Bool
  | .swd | .swdo | .jtag => true
  | _ => false

def usesSpis : TargetProtocol → Bool
  | .jtag | .spi => true
  | _ => false

/-- SWDO turns on the clock of the SPIS and nothing else of it. -/
def clocksSpis (mode : TargetProtocol) : Bool := usesSpis mode || mode = .swdo

/-- SWDO has been requested, and something else after it. -/
def swdoLeft (requests : List TargetProtocol) : Bool :=
  (requests.dropWhile fun r => r ≠ .swdo).any fun r => r ≠ .swdo

/-- JTAG has been requested, and SWDO not since then. -/
def armed (requests : List TargetProtocol) : Bool :=
  (requests.reverse.takeWhile fun r => r ≠ .swdo).contains .jtag

/-- Every request for SPI comes after one for JTAG, with no request for SWDO between them. -/
def SpiArmed (requests : List TargetProtocol) : Prop :=
  ∀ before, before ++ [.spi] <+: requests → armed before = true

/-- The mode after the given requests. -/
def Current (requests : List TargetProtocol) (mode : TargetProtocol) : Prop :=
  requests = [] ∧ mode = .none ∨ ∃ before, requests = before ++ [mode]

section Requests
variable {requests : List TargetProtocol} {request mode : TargetProtocol}

theorem Current.mem (h : Current requests mode) : mode = .none ∨ mode ∈ requests := by
  rcases h with ⟨_, hnone⟩ | ⟨before, rfl⟩
  · exact Or.inl hnone
  · exact Or.inr (List.mem_append_right _ List.mem_cons_self)

theorem after_current (spimPins spisPins : Pins) (requests : List TargetProtocol) :
    Current requests (after spimPins spisPins requests).mode := by
  rcases List.eq_nil_or_concat requests with rfl | ⟨before, request, rfl⟩
  · exact Or.inl ⟨rfl, rfl⟩
  · rw [List.concat_eq_append, after_concat, configureMode_mode]
    exact Or.inr ⟨before, rfl⟩

theorem armed_concat : armed (requests ++ [request]) =
    (decide (request ≠ .swdo) && (decide (request = .jtag) || armed requests)) := by
  rw [armed, List.reverse_append, List.reverse_singleton, List.singleton_append, List.takeWhile_cons]
  by_cases h : request = .swdo
  · subst h
    rfl
  · rw [if_pos (decide_eq_true h), List.contains_cons, decide_eq_true h, Bool.true_and]
    rw [Bool.beq_comm]
    rfl

theorem spiArmed_nil : SpiArmed [] := by
  intro before h
  have hlength := h.length_le
  simp at hlength

theorem spiArmed_concat :
    SpiArmed (requests ++ [request]) ↔ SpiArmed requests ∧ (request = .spi → armed requests = true) := by
  constructor
  · intro h
    refine ⟨fun before hbefore => h before (hbefore.trans (List.prefix_append _ _)), ?_⟩
    rintro rfl
    exact h requests List.prefix_rfl
  · rintro ⟨hrequests, hlast⟩ before hbefore
    rcases List.prefix_concat_iff.mp hbefore with heq | hprefix
    · obtain ⟨rfl, hspi⟩ := List.append_inj' heq rfl
      exact hlast (List.cons.inj hspi).1.symm
    · exact hrequests before hprefix

theorem dropWhile_of_not_mem (h : .swdo ∉ requests) : requests.dropWhile (fun r => r ≠ .swdo) = [] := by
  apply List.dropWhile_eq_nil_iff.mpr
  intro r hr
  exact decide_eq_true fun heq => h (heq ▸ hr)

theorem swdoLeft_of_not_mem (h : .swdo ∉ requests) : swdoLeft requests = false := by
  rw [swdoLeft, dropWhile_of_not_mem h, List.any_nil]

theorem swdoLeft_concat : swdoLeft (requests ++ [request]) =
    (swdoLeft requests || (requests.contains .swdo && decide (request ≠ .swdo))) := by
  rw [swdoLeft, swdoLeft, List.dropWhile_append]
  by_cases h : .swdo ∈ requests
  · have hfound : requests.dropWhile (fun r => r ≠ .swdo) ≠ [] := by
      intro hnil
      simpa using List.dropWhile_eq_nil_iff.mp hnil .swdo h
    rw [if_neg (by rwa [List.isEmpty_iff]), List.any_append, List.contains_iff_mem.mpr h]
    simp
  · have habsent : requests.contains .swdo = false := by
      rw [← Bool.not_eq_true, List.contains_iff_mem]
      exact h
    rw [dropWhile_of_not_mem h, habsent, List.isEmpty_nil, if_pos rfl, List.any_nil, Bool.false_and, Bool.or_false,
      List.dropWhile_cons]
    split
    · rfl
    · next heq => simpa using heq

theorem Current.unused (h : Current requests mode) {f : TargetProtocol → Bool} (hnone : f .none = false)
    (hunused : ∀ r ∈ requests, f r = false) : f mode = false := by
  rcases h.mem with rfl | hmem
  · exact hnone
  · exact hunused mode hmem

theorem unused_before {f : TargetProtocol → Bool} (h : ∀ r ∈ requests ++ [request], f r = false) :
    ∀ r ∈ requests, f r = false :=
  fun r hr => h r (List.mem_append_left _ hr)

theorem used_before {f : TargetProtocol → Bool} (h : ∃ r ∈ requests ++ [request], f r = true)
    (hlast : f request = false) : ∃ r ∈ requests, f r = true := by
  obtain ⟨r, hr, huse⟩ := h
  rcases List.mem_append.mp hr with hold | hnew
  · exact ⟨r, hold, huse⟩
  · rw [List.mem_singleton.mp hnew, hlast] at huse
    cases huse

theorem Current.used_before (h : Current requests mode) {f : TargetProtocol → Bool} (hnone : f .none = false)
    (hused : ∃ r ∈ requests ++ [mode], f r = true) : ∃ r ∈ requests, f r = true := by
  rcases h.mem with rfl | hmem
  · exact Requests.used_before hused hnone
  · obtain ⟨r, hr, huse⟩ := hused
    rcases List.mem_append.mp hr with hold | hnew
    · exact ⟨r, hold, huse⟩
    · exact ⟨mode, hmem, List.mem_singleton.mp hnew ▸ huse⟩

theorem Current.armed (h : Current requests .jtag) : armed requests = true := by
  rcases h with ⟨_, hnone⟩ | ⟨before, rfl⟩
  · cases hnone
  · exact armed_concat

theorem Current.not_armed (h : Current requests .swdo) : Requests.armed requests = false := by
  rcases h with ⟨_, hnone⟩ | ⟨before, rfl⟩
  · cases hnone
  · exact armed_concat

theorem Current.armed_spi (h : Current requests .spi) (hspi : SpiArmed requests) :
    Requests.armed requests = true := by
  rcases h with ⟨_, hnone⟩ | ⟨before, rfl⟩
  · cases hnone
  · rw [armed_concat]
    exact (spiArmed_concat.mp hspi).2 rfl

theorem Current.swdoLeft (h : Current requests mode) (hmode : mode ≠ .swdo) (hmem : .swdo ∈ requests) :
    swdoLeft requests = true := by
  rcases h with ⟨rfl, _⟩ | ⟨before, rfl⟩
  · cases hmem
  · rw [swdoLeft_concat]
    rcases List.mem_append.mp hmem with hbefore | hlast
    · rw [List.contains_iff_mem.mpr hbefore, decide_eq_true hmode, Bool.and_self, Bool.or_true]
    · exact absurd (List.mem_singleton.mp hlast).symm hmode

/-- Only a request that ends SWDO counts. -/
theorem Current.swdoLeft_next (h : Current requests mode) (hkeep : mode ≠ .swdo ∨ request = .swdo) :
    Requests.swdoLeft (requests ++ [request]) = Requests.swdoLeft requests := by
  rw [swdoLeft_concat]
  rcases hkeep with hmode | hrequest
  · by_cases hmem : .swdo ∈ requests
    · rw [h.swdoLeft hmode hmem, Bool.true_or]
    · simp [swdoLeft_of_not_mem hmem, hmem]
  · rw [decide_eq_false (not_not.mpr hrequest), Bool.and_false, Bool.or_false]

theorem Current.swdoLeft_leave (h : Current requests .swdo) (hrequest : request ≠ .swdo) :
    Requests.swdoLeft (requests ++ [request]) = true := by
  have hmem : .swdo ∈ requests := h.mem.resolve_left (by decide)
  rw [swdoLeft_concat, List.contains_iff_mem.mpr hmem, decide_eq_true hrequest, Bool.and_self, Bool.or_true]

end Requests

end EtherBench.Programmer.Requests
