import Mathlib.Tactic.IntervalCases
import EtherBench.Muxer.Message

/-! # The fan-out loop of the router

`muxer_task` walks the set bits of a destination mask and reads the table `outputs` at each
of them. The table, the bits of `muxerDestination_t` and the count that `create_message`
stores are maintained apart; this module compares them.
-/

namespace EtherBench.Muxer.Routing
open Message Library.Bits

inductive TxQueue where
  | parserInput
  | sequencerInput
  | boardInput
  | hardwareInput
  | routerInput
  | programmerInput
  | argbInput
  deriving DecidableEq

open TxQueue in
/-- The table `outputs`; a null pointer is `none`. -/
def outputs : List (Option TxQueue) :=
  [none, some parserInput, none, none, some sequencerInput, none, some boardInput, some hardwareInput,
    some routerInput, some programmerInput, some argbInput]

/-- The named values of `muxerDestination_t`, the broadcast apart. -/
inductive MuxerDestination where
  | logger
  | parser
  | network
  | usb
  | sequencer
  | file
  | board
  | hardware
  | router
  | programmer
  | argb
  deriving DecidableEq

namespace MuxerDestination

def bit : MuxerDestination → ℕ
  | logger => 1
  | parser => 2
  | network => 3
  | usb => 4
  | sequencer => 5
  | file => 6
  | board => 7
  | hardware => 8
  | router => 9
  | programmer => 10
  | argb => 11

/-- The input queue of the task behind a destination, when it has one. -/
def queue : MuxerDestination → Option TxQueue
  | parser => some .parserInput
  | sequencer => some .sequencerInput
  | board => some .boardInput
  | hardware => some .hardwareInput
  | router => some .routerInput
  | programmer => some .programmerInput
  | argb => some .argbInput
  | logger | network | usb | file => none

end MuxerDestination

/-- What one turn of the outer loop did: the indexes it read `outputs` at, and its `count`. -/
structure Routed where
  targets : List ℕ
  count : ℕ

/-- The loop over the set bits; `none` when it has not ended after `fuel` turns. -/
def routeLoop : ℕ → BitVec 32 → Routed → Option Routed
  | 0, destMask, r => if destMask = 0#32 then some r else none
  | fuel + 1, destMask, r =>
    if destMask = 0#32 then some r
    else
      let target := destMask.ctz.toNat
      routeLoop fuel (destMask &&& ~~~(1#32 <<< target)) ⟨r.targets ++ [target], r.count + 1⟩

/-- One turn of `muxer_task` on a message with this destination. -/
def route (destination : BitVec 16) : Option Routed := routeLoop 32 (destination.setWidth 32) ⟨[], 0⟩

/-- The loop ends, having visited the set bits in ascending order. -/
theorem routeLoop_eq {fuel : ℕ} {destMask : BitVec 32} (hfuel : destMask.cpop.toNat ≤ fuel) (r : Routed) :
    routeLoop fuel destMask r =
      some ⟨r.targets ++ scanBits fuel destMask, r.count + destMask.cpop.toNat⟩ := by
  induction fuel generalizing destMask r with
  | zero =>
    rw [cpop_eq_zero.mp (Nat.le_zero.mp hfuel)]
    simp [routeLoop]
  | succ fuel ih =>
    by_cases hm : destMask = 0#32
    · simp [hm, routeLoop]
    · have hless := cpop_clearBit (BitVec.getLsbD_true_ctz_of_ne_zero hm)
      rw [routeLoop, if_neg hm, scanBits, if_neg hm]
      change routeLoop fuel (clearBit destMask destMask.ctz.toNat) _ = _
      rw [ih (by omega), Option.some.injEq, Routed.mk.injEq]
      constructor
      · simp
      · change r.count + 1 + _ = _
        omega

/-- The targets of a routed message, as many as its mask has bits. -/
def targets (destination : BitVec 16) : List ℕ := scanBits 32 (destination.setWidth 32)

theorem route_eq (destination : BitVec 16) :
    route destination = some ⟨targets destination, destination.cpop.toNat⟩ := by
  rw [route, routeLoop_eq (BitVec.toNat_cpop_le _), cpop_setWidth]
  simp [targets]

theorem mem_targets {destination : BitVec 16} {i : ℕ} :
    i ∈ targets destination ↔ destination.getLsbD i = true := by
  rw [targets, mem_scanBits (BitVec.toNat_cpop_le _), BitVec.getLsbD_setWidth]
  constructor
  · intro h
    simpa using (Bool.and_eq_true_iff.mp h).2
  · intro h
    have hi := BitVec.lt_of_getLsbD h
    simp [h]
    omega

/-- The queue that a target selects: null, and so skipped, or a client. -/
def client (target : ℕ) : Option TxQueue := (outputs[target]?).join

/-- Routing and reference count agree on a destination mask. -/
structure Agrees (destination : BitVec 16) (r : Routed) : Prop where
  inside : ∀ target ∈ r.targets, target < outputs.length
  ownQueue : ∀ d : MuxerDestination, destination.getLsbD d.bit = true →
    d.bit ∈ r.targets ∧ outputs[d.bit]? = some d.queue
  counted : (r.targets.filterMap client).length = (destinationCount destination).toNat

/-- Every queue of the table stands at the bit of a destination that is not its own. -/
theorem client_displaced {i : ℕ} {q : TxQueue} (h : client i = some q) :
    ∃ d : MuxerDestination, d.bit = i ∧ outputs[d.bit]? ≠ some d.queue := by
  have hi : i < outputs.length := by
    by_contra hout
    rw [client, List.getElem?_eq_none (by omega)] at h
    cases h
  change i < 11 at hi
  interval_cases i
  · cases h
  · exact ⟨.logger, rfl, by decide⟩
  · cases h
  · cases h
  · exact ⟨.usb, rfl, by decide⟩
  · cases h
  · exact ⟨.file, rfl, by decide⟩
  · exact ⟨.board, rfl, by decide⟩
  · exact ⟨.hardware, rfl, by decide⟩
  · exact ⟨.router, rfl, by decide⟩
  · exact ⟨.programmer, rfl, by decide⟩

/-- A mask with any bit fails: a bit with a client selects another task's queue, and without
clients the count is too large. -/
theorem agrees_iff {destination : BitVec 16} {r : Routed} (hroute : route destination = some r) :
    Agrees destination r ↔ destination = 0 := by
  rw [route_eq, Option.some.injEq] at hroute
  subst hroute
  constructor
  · intro h
    have hnone : (targets destination).filterMap client = [] := by
      rw [List.filterMap_eq_nil_iff]
      intro i hi
      cases hq : client i with
      | none => rfl
      | some q =>
        obtain ⟨d, rfl, hwrong⟩ := client_displaced hq
        exact absurd (h.ownQueue d (mem_targets.mp hi)).2 hwrong
    have hcounted := h.counted
    rw [hnone] at hcounted
    by_contra hne
    have hpos := destinationCount_pos hne
    simp only [List.length_nil] at hcounted
    omega
  · rintro rfl
    constructor
    · simp [targets]
    · simp
    · simp [targets, destinationCount_toNat]

/-- Fan-out and count agree along a run of messages exactly when no message has a destination. -/
theorem routed_agrees_iff (destinations : List (BitVec 16)) :
    (∀ destination ∈ destinations, ∃ r, route destination = some r ∧ Agrees destination r) ↔
      ∀ destination ∈ destinations, destination = 0 := by
  constructor
  · intro h destination hmem
    obtain ⟨r, hroute, hagrees⟩ := h destination hmem
    exact (agrees_iff hroute).mp hagrees
  · intro h destination hmem
    exact ⟨_, route_eq destination, (agrees_iff (route_eq destination)).mpr (h destination hmem)⟩

/-- A message for the parser alone finds a null pointer at the parser's bit. -/
theorem parser_not_routed :
    ¬ ∀ destinations : List (BitVec 16), ∀ destination ∈ destinations,
      ∃ r, route destination = some r ∧ Agrees destination r := by
  intro h
  obtain ⟨r, _, hagrees⟩ := h [4#16] 4#16 List.mem_cons_self
  exact absurd (hagrees.ownQueue .parser (by decide)).2 (by decide)

end EtherBench.Muxer.Routing
