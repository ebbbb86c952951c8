import Mathlib.Logic.Function.Basic
import EtherBench.Library.Bits
import EtherBench.ThreadX.Objects

/-! # Router messages and their two pools

`create_message`, `consume_message` and `create_response_message` of
`muxer/src/task_muxer.cpp`. A pointer is the block it points to, and a buffer that the
caller passes is the bytes found from its address on.
-/

namespace EtherBench.Muxer.Message
open ThreadX

/-- `ROUTER_TYPICAL_PAYLOAD`, the size of a block of `router_payloads`. -/
def routerTypicalPayload : ℕ := 512

inductive MuxerMessageType where
  | muxerCommand
  | muxerBuffer
  | muxerRequest
  deriving DecidableEq

/-- `muxerInput_t`. `muxerSource_t` and `muxerDestination_t` are masks of 16 bits. -/
structure MuxerInput where
  source : BitVec 16
  destination : BitVec 16
  type : MuxerMessageType
  info : BitVec 16
  count : BitVec 16
  payload : Option ℕ
  payloadSize : ℕ

/-- The arguments of `create_message`; a null payload is `none`. -/
structure Request where
  dest : BitVec 16
  src : BitVec 16
  type : MuxerMessageType
  info : BitVec 16
  payload : Option (ℕ → UInt8)
  payloadSize : ℕ

/-- The bytes that `create_message` copies, when the request carries any. -/
def Request.copied (r : Request) : Option (ℕ → UInt8) := if r.payloadSize = 0 then none else r.payload

/-- `router_pool` and `router_payloads` with the memory of their blocks. -/
structure Heap where
  routerPool : BlockPool ℕ
  routerPayloads : BlockPool ℕ
  messages : ℕ → MuxerInput
  payloads : ℕ → ℕ → UInt8

def builtinPopcount (x : BitVec 32) : ℕ := x.cpop.toNat

/-- What `create_message` stores in the 16 bits of `count`. -/
def destinationCount (dest : BitVec 16) : BitVec 16 := BitVec.ofNat 16 (builtinPopcount (dest.setWidth 32))

theorem cpop_setWidth (dest : BitVec 16) : (dest.setWidth 32).cpop.toNat = dest.cpop.toNat := by
  rw [BitVec.toNat_cpop, BitVec.toNat_cpop, BitVec.cpopNatRec_setWidth_of_le _ (Nat.le_refl 32)]
  exact BitVec.cpopNatRec_of_le 16 16 (Nat.le_refl 16)

theorem destinationCount_toNat (dest : BitVec 16) : (destinationCount dest).toNat = dest.cpop.toNat := by
  have hle := BitVec.toNat_cpop_le dest
  rw [destinationCount, builtinPopcount, cpop_setWidth, BitVec.toNat_ofNat, Nat.mod_eq_of_lt]
  omega

theorem destinationCount_pos {dest : BitVec 16} (h : dest ≠ 0) : 0 < (destinationCount dest).toNat := by
  rw [destinationCount_toNat, Nat.pos_iff_ne_zero]
  exact mt Library.Bits.cpop_eq_zero.mp h

def memcpy (dst src : ℕ → UInt8) (size : ℕ) : ℕ → UInt8 := fun k => if k < size then src k else dst k

namespace Heap

def updateMessage (h : Heap) (msg : ℕ) (f : MuxerInput → MuxerInput) : Heap :=
  { h with messages := Function.update h.messages msg (f (h.messages msg)) }

def fillMessage (h : Heap) (msg : ℕ) (r : Request) : Heap :=
  h.updateMessage msg fun m =>
    { m with destination := r.dest, source := r.src, type := r.type, info := r.info }

/-- The `memcpy` into the payload block and the two fields that name it. -/
def fillPayload (h : Heap) (msg p : ℕ) (bytes : ℕ → UInt8) (size : ℕ) : Heap :=
  { h with payloads := Function.update h.payloads p (memcpy (h.payloads p) bytes size) }.updateMessage
    msg fun m => { m with payload := some p, payloadSize := size }

def clearPayload (h : Heap) (msg : ℕ) : Heap :=
  h.updateMessage msg fun m => { m with payload := none, payloadSize := 0 }

def setCount (h : Heap) (msg : ℕ) (dest : BitVec 16) : Heap :=
  h.updateMessage msg fun m => { m with count := destinationCount dest }

/-- `__sync_fetch_and_sub(&msg->count, 1)`. -/
def fetchAndSub (h : Heap) (msg : ℕ) : BitVec 16 × Heap :=
  ((h.messages msg).count, h.updateMessage msg fun m => { m with count := m.count - 1 })

def releasePayload (h : Heap) (msg : ℕ) : Heap :=
  match (h.messages msg).payload with
  | none => h
  | some p => { h with routerPayloads := h.routerPayloads.txBlockRelease p }.clearPayload msg

def releaseMessage (h : Heap) (msg : ℕ) : Heap :=
  { h with routerPool := h.routerPool.txBlockRelease msg }

end Heap

def createMessage (h : Heap) (r : Request) : Option ℕ × Heap :=
  if routerTypicalPayload < r.payloadSize then (none, h)
  else
    match h.routerPool.txBlockAllocate with
    | none => (none, h)
    | some (msg, pool) =>
      let h := { h with routerPool := pool }.fillMessage msg r
      match r.copied with
      | none => (some msg, (h.clearPayload msg).setCount msg r.dest)
      | some bytes =>
        match h.routerPayloads.txBlockAllocate with
        | none => (none, h.releaseMessage msg)
        | some (p, pool) =>
          let h := { h with routerPayloads := pool }.fillPayload msg p bytes r.payloadSize
          (some msg, h.setCount msg r.dest)

theorem createMessage_some {h : Heap} {r : Request} {msg : ℕ} (hsome : (createMessage h r).1 = some msg) :
    (∃ pool, r.copied = none ∧
        (createMessage h r).2 =
          (({ h with routerPool := pool }.fillMessage msg r).clearPayload msg).setCount msg r.dest) ∨
      ∃ pool bytes p payloads, r.copied = some bytes ∧
        (createMessage h r).2 =
          ({ { h with routerPool := pool }.fillMessage msg r with routerPayloads := payloads }.fillPayload
            msg p bytes r.payloadSize).setCount msg r.dest := by
  unfold createMessage at hsome ⊢
  by_cases hsize : routerTypicalPayload < r.payloadSize
  · simp [hsize] at hsome
  · rw [if_neg hsize] at hsome ⊢
    cases halloc : h.routerPool.txBlockAllocate with
    | none => simp [halloc] at hsome
    | some taken =>
      obtain ⟨b, pool⟩ := taken
      simp only [halloc] at hsome ⊢
      cases hcopied : r.copied with
      | none =>
        simp only [hcopied, Option.some.injEq] at hsome ⊢
        subst hsome
        exact Or.inl ⟨pool, trivial, rfl⟩
      | some bytes =>
        simp only [hcopied] at hsome ⊢
        cases hpayload : h.routerPayloads.txBlockAllocate with
        | none => simp [Heap.fillMessage, Heap.updateMessage, hpayload] at hsome
        | some taken =>
          obtain ⟨p, payloads⟩ := taken
          have hfilled : ({ h with routerPool := pool }.fillMessage b r).routerPayloads.txBlockAllocate =
              some (p, payloads) := hpayload
          simp only [hfilled, Option.some.injEq] at hsome ⊢
          subst hsome
          exact Or.inr ⟨pool, bytes, p, payloads, rfl, rfl⟩

theorem createMessage_header {h : Heap} {r : Request} {msg : ℕ} (hsome : (createMessage h r).1 = some msg) :
    ((createMessage h r).2.messages msg).destination = r.dest ∧
      ((createMessage h r).2.messages msg).count = destinationCount r.dest := by
  rcases createMessage_some hsome with ⟨pool, -, hheap⟩ | ⟨pool, bytes, p, payloads, -, hheap⟩
  · rw [hheap]
    simp [Heap.setCount, Heap.clearPayload, Heap.fillMessage, Heap.updateMessage]
  · rw [hheap]
    simp [Heap.setCount, Heap.fillPayload, Heap.fillMessage, Heap.updateMessage]

theorem createMessage_payload {h : Heap} {r : Request} {msg : ℕ} {bytes : ℕ → UInt8}
    (hsome : (createMessage h r).1 = some msg) (hcopied : r.copied = some bytes) :
    ((createMessage h r).2.messages msg).payloadSize = r.payloadSize ∧
      ∃ p, ((createMessage h r).2.messages msg).payload = some p ∧
        ∀ k < r.payloadSize, (createMessage h r).2.payloads p k = bytes k := by
  rcases createMessage_some hsome with ⟨pool, hnone, -⟩ | ⟨pool, bytes', p, payloads, hsome', hheap⟩
  · rw [hcopied] at hnone
    cases hnone
  · rw [hcopied] at hsome'
    cases hsome'
    rw [hheap]
    refine ⟨?_, p, ?_, fun k hk => ?_⟩
    · simp [Heap.setCount, Heap.fillPayload, Heap.updateMessage]
    · simp [Heap.setCount, Heap.fillPayload, Heap.updateMessage]
    · simp [Heap.setCount, Heap.fillPayload, Heap.updateMessage, memcpy, hk]

/-- A message with a payload is created exactly when both pools have a block for it. -/
theorem createMessage_ne_none_iff {h : Heap} {r : Request} {bytes : ℕ → UInt8}
    (hsize : r.payloadSize ≤ routerTypicalPayload) (hcopied : r.copied = some bytes) :
    (createMessage h r).1 ≠ none ↔
      h.routerPool.availableList ≠ [] ∧ h.routerPayloads.availableList ≠ [] := by
  rw [createMessage, if_neg (Nat.not_lt.mpr hsize)]
  rcases hpool : h.routerPool.availableList with _ | ⟨b, bs⟩
  · simp [BlockPool.txBlockAllocate, hpool]
  · rcases hpayload : h.routerPayloads.availableList with _ | ⟨p, ps⟩
    · simp [BlockPool.txBlockAllocate, hpool, hpayload, hcopied, Heap.fillMessage, Heap.updateMessage]
    · simp [BlockPool.txBlockAllocate, hpool, hpayload, hcopied, Heap.fillMessage, Heap.updateMessage]

/-- `consume_message`. Releasing a block of an existing pool succeeds, so it always returns
`TX_SUCCESS`. -/
def consumeMessage (h : Heap) : Option ℕ → Heap
  | none => h
  | some msg =>
    let taken := h.fetchAndSub msg
    if taken.1 = 1 then (taken.2.releasePayload msg).releaseMessage msg else taken.2

/-- The request that the answer to a message is created from. -/
def responseRequest (m : MuxerInput) (info : BitVec 16) (payload : Option (ℕ → UInt8))
    (payloadSize : ℕ) : Request :=
  ⟨m.source, m.destination, m.type, info, payload, payloadSize⟩

def createResponseMessage (h : Heap) (msg : Option ℕ) (info : BitVec 16)
    (payload : Option (ℕ → UInt8)) (payloadSize : ℕ) : Option ℕ × Heap :=
  match msg with
  | none => (none, h)
  | some m =>
    let created := createMessage h (responseRequest (h.messages m) info payload payloadSize)
    (created.1, consumeMessage created.2 (some m))

/-- A creation that answers with a null pointer leaves both pools as they were. -/
theorem createMessage_null {h : Heap} {r : Request} (hnull : (createMessage h r).1 = none) :
    (createMessage h r).2.routerPool = h.routerPool ∧
      (createMessage h r).2.routerPayloads = h.routerPayloads := by
  unfold createMessage at hnull ⊢
  by_cases hsize : routerTypicalPayload < r.payloadSize
  · rw [if_pos hsize]
    exact ⟨rfl, rfl⟩
  · rw [if_neg hsize] at hnull ⊢
    cases halloc : h.routerPool.txBlockAllocate with
    | none => exact ⟨rfl, rfl⟩
    | some taken =>
      obtain ⟨msg, pool⟩ := taken
      simp only [halloc] at hnull ⊢
      cases hcopied : r.copied with
      | none => simp [hcopied] at hnull
      | some bytes =>
        simp only [hcopied] at hnull ⊢
        cases hpayload : h.routerPayloads.txBlockAllocate with
        | none =>
          simp only [Heap.fillMessage, Heap.updateMessage, hpayload] at hnull ⊢
          exact ⟨BlockPool.txBlockRelease_allocate halloc, rfl⟩
        | some taken => simp [Heap.fillMessage, Heap.updateMessage, hpayload] at hnull

end EtherBench.Muxer.Message
