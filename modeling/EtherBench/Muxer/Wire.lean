import EtherBench.Library.Transition
import EtherBench.Muxer.Message

/-! # What crosses the router queue

`router_input` carries one 32-bit word a message. The bridge task hands it the address of the
message, so the first word of the message crosses; the line-state callback hands it the address
of its pointer, so the pointer crosses; and `muxer_task` stores the word into the first word of
a message of its own.
-/

namespace EtherBench.Muxer.Wire
open ThreadX Message Library.Transition

/-- How the compiler stores an enumeration: in the bytes its values need, or as an `int`. -/
inductive EnumAbi where
  | short
  | int
  deriving DecidableEq

def firstWord : EnumAbi → MuxerInput → BitVec 32
  | .short, m => m.destination ++ m.source
  | .int, m => m.source.setWidth 32

/-- A `muxerInput_t` after a word was stored at its address; the rest of it stays. -/
def storeFirstWord : EnumAbi → MuxerInput → BitVec 32 → MuxerInput
  | .short, m, word => { m with source := word.setWidth 16, destination := (word >>> 16).setWidth 16 }
  | .int, m, word => { m with source := word.setWidth 16 }

theorem storeFirstWord_rest (abi : EnumAbi) (m : MuxerInput) (word : BitVec 32) :
    (storeFirstWord abi m word).count = m.count ∧ (storeFirstWord abi m word).payload = m.payload := by
  cases abi <;> exact ⟨rfl, rfl⟩

def zeroMessage : MuxerInput := ⟨0, 0, .muxerCommand, 0, 0, none, 0⟩

def hardwareDestination : BitVec 16 := 1 <<< 8
def usbSource : BitVec 16 := 1 <<< 4

def routerCommandFifoDepth : ℕ := 64

/-- The router with what the run has to remember: each word in the queue and each routed message
stand beside the message that their sender created. -/
structure Router where
  heap : Heap
  routerInput : List (BitVec 32 × MuxerInput)
  cmd : MuxerInput
  routed : List (MuxerInput × MuxerInput)

inductive Action where
  | usbxBridgeRecvTask (buffer : ℕ → UInt8) (currentLength : ℕ)
  | usbxUsartBridgeChange (payload : ℕ → UInt8)
  | muxerTask
  | others (heap : Heap)

/-- `tx_queue_send` of a word, and `consume_message` when the queue refuses it. -/
def sendWord (s : Router) (msg : ℕ) (word : BitVec 32) : Router :=
  match txQueueSend routerCommandFifoDepth s.routerInput (word, s.heap.messages msg) with
  | some queue => { s with routerInput := queue }
  | none => { s with heap := consumeMessage s.heap (some msg) }

/-- A sender creates a message and, when there is one, hands the queue a word for it. -/
def createAndSend (s : Router) (r : Request) (word : ℕ → MuxerInput → BitVec 32) : Router :=
  let created := createMessage s.heap r
  match created.1 with
  | none => { s with heap := created.2 }
  | some msg => sendWord { s with heap := created.2 } msg (word msg (created.2.messages msg))

/-- `create_message(..., &usbx_bridge_buffer, current_length)` and `tx_queue_send(.., cmd, ..)`. -/
def usbxBridgeRecvTask (abi : EnumAbi) (s : Router) (buffer : ℕ → UInt8) (currentLength : ℕ) : Router :=
  if currentLength = 0 then s
  else
    createAndSend s ⟨hardwareDestination, usbSource, .muxerCommand, 0, some buffer, currentLength⟩
      fun _ m => firstWord abi m

/-- `create_message(..., &payload, sizeof(payload))` and `tx_queue_send(.., &command, ..)`. -/
def usbxUsartBridgeChange (address : ℕ → BitVec 32) (s : Router) (payload : ℕ → UInt8) : Router :=
  createAndSend s ⟨hardwareDestination, usbSource, .muxerBuffer, 0, some payload, 16⟩
    fun msg _ => address msg

/-- `tx_queue_receive(&router_input, &cmd, ..)`; the task then routes by `cmd`. -/
def muxerTask (abi : EnumAbi) (s : Router) : Option Router :=
  (txQueueReceive s.routerInput).map fun received =>
    let cmd := storeFirstWord abi s.cmd received.1.1
    { s with
      routerInput := received.2
      cmd := cmd
      routed := s.routed ++ [(received.1.2, cmd)] }

variable (abi : EnumAbi) (address : ℕ → BitVec 32)

def step (s : Router) : Action → Option Router
  | .usbxBridgeRecvTask buffer currentLength => some (usbxBridgeRecvTask abi s buffer currentLength)
  | .usbxUsartBridgeChange payload => some (usbxUsartBridgeChange address s payload)
  | .muxerTask => muxerTask abi s
  | .others heap => some { s with heap := heap }

def init (heap : Heap) : Router := ⟨heap, [], zeroMessage, []⟩

/-- The router works with the message that its sender created. -/
structure Agrees (created worked : MuxerInput) : Prop where
  destination : worked.destination = created.destination
  payload : worked.payload = created.payload
  count : worked.count = created.count

/-- Every created message counts one client, and the router's own message never leaves zero. -/
structure Inv (s : Router) : Prop where
  queued : ∀ entry ∈ s.routerInput, entry.2.count = 1
  cmd : s.cmd.count = 0
  routed : ∀ entry ∈ s.routed, entry.1.count = 1 ∧ entry.2.count = 0

theorem init_inv (heap : Heap) : Inv (init heap) := by
  constructor
  · simp [init]
  · rfl
  · simp [init]

theorem sendWord_inv {s : Router} (h : Inv s) (msg : ℕ) (word : BitVec 32)
    (hcount : (s.heap.messages msg).count = 1) : Inv (sendWord s msg word) := by
  unfold sendWord
  cases hsend : txQueueSend routerCommandFifoDepth s.routerInput (word, s.heap.messages msg) with
  | none => exact ⟨h.queued, h.cmd, h.routed⟩
  | some queue =>
    obtain ⟨_, rfl⟩ := txQueueSend_eq_some.mp hsend
    refine ⟨?_, h.cmd, h.routed⟩
    intro entry hentry
    rcases List.mem_append.mp hentry with hold | hnew
    · exact h.queued entry hold
    · rw [List.mem_singleton.mp hnew]
      exact hcount

theorem createAndSend_inv {s : Router} (h : Inv s) {r : Request} (hdest : r.dest = hardwareDestination)
    (word : ℕ → MuxerInput → BitVec 32) : Inv (createAndSend s r word) := by
  unfold createAndSend
  cases hmsg : (createMessage s.heap r).1 with
  | none =>
    simp only [hmsg]
    exact ⟨h.queued, h.cmd, h.routed⟩
  | some msg =>
    have hcreated : Inv { s with heap := (createMessage s.heap r).2 } := ⟨h.queued, h.cmd, h.routed⟩
    have hcount : ((createMessage s.heap r).2.messages msg).count = 1 := by
      rw [(createMessage_header hmsg).2, hdest]
      decide
    simp only [hmsg]
    exact sendWord_inv hcreated msg _ hcount

theorem muxerTask_inv {s s' : Router} (h : Inv s) (hstep : muxerTask abi s = some s') : Inv s' := by
  obtain ⟨⟨entry, rest⟩, hreceive, rfl⟩ := Option.map_eq_some_iff.mp hstep
  have hqueue := txQueueReceive_eq_some.mp hreceive
  have hcmd : (storeFirstWord abi s.cmd entry.1).count = 0 := by
    rw [(storeFirstWord_rest abi s.cmd entry.1).1]
    exact h.cmd
  constructor
  · intro e he
    apply h.queued
    rw [hqueue]
    exact List.mem_cons_of_mem _ he
  · exact hcmd
  · intro e he
    rcases List.mem_append.mp he with hold | hnew
    · exact h.routed e hold
    · rw [List.mem_singleton.mp hnew]
      refine ⟨h.queued entry ?_, hcmd⟩
      rw [hqueue]
      exact List.mem_cons_self

theorem step_inv (s : Router) (a : Action) (s' : Router) (h : Inv s)
    (hstep : step abi address s a = some s') : Inv s' := by
  cases a with
  | usbxBridgeRecvTask buffer currentLength =>
    cases hstep
    unfold usbxBridgeRecvTask
    split
    · exact h
    · exact createAndSend_inv h rfl _
  | usbxUsartBridgeChange payload =>
    cases hstep
    exact createAndSend_inv h rfl _
  | muxerTask => exact muxerTask_inv abi h hstep
  | others heap =>
    cases hstep
    exact ⟨h.queued, h.cmd, h.routed⟩

/-- No message that any run routes agrees with the one its sender created. -/
theorem routed_disagrees {heap : Heap} {actions : List Action} {s : Router}
    (hrun : run (step abi address) (init heap) actions = some s)
    {created worked : MuxerInput} (hrouted : (created, worked) ∈ s.routed) : ¬ Agrees created worked := by
  intro hagrees
  have hinv := run_invariant (step_inv abi address) (init_inv heap) hrun
  have hcounts := hinv.routed _ hrouted
  have hone := hagrees.count
  rw [hcounts.1, hcounts.2] at hone
  exact absurd hone (by decide)

def oneBlockHeap : Heap := ⟨⟨[0]⟩, ⟨[0]⟩, fun _ => zeroMessage, fun _ _ => 0⟩

/-- One byte from the bridge, created, sent and received. -/
def bridgeByte : List Action := [.usbxBridgeRecvTask (fun _ => 7) 1, .muxerTask]

theorem bridgeByte_disagrees :
    ∃ s created worked, run (step .short fun _ => 0) (init oneBlockHeap) bridgeByte = some s ∧
      (created, worked) ∈ s.routed ∧ ¬ Agrees created worked := by
  have hrun : run (step .short fun _ => 0) (init oneBlockHeap) bridgeByte = some _ := rfl
  exact ⟨_, _, _, hrun, List.mem_cons_self, routed_disagrees _ _ hrun List.mem_cons_self⟩

theorem bridgeByte_lost :
    ¬ ∀ (abi : EnumAbi) (address : ℕ → BitVec 32) (heap : Heap) (actions : List Action) (s : Router),
      run (step abi address) (init heap) actions = some s →
        ∀ created worked, (created, worked) ∈ s.routed → Agrees created worked := by
  intro h
  have hrun : run (step .short fun _ => 0) (init oneBlockHeap) bridgeByte = some _ := rfl
  have hagrees := h _ _ _ _ _ hrun _ _ List.mem_cons_self
  exact absurd hagrees.count (by decide)

/-- With enumerations in two bytes, the bridge task's destination is all that arrives. -/
theorem firstWord_destination (m cmd : MuxerInput) :
    (storeFirstWord .short cmd (firstWord .short m)).destination = m.destination := by
  have hhigh : ((m.destination ++ m.source) >>> 16).setWidth 16 = m.destination := by
    ext i hi
    rw [BitVec.getElem_setWidth, BitVec.getLsbD_ushiftRight, BitVec.getLsbD_append]
    simp [hi]
  exact hhigh

end EtherBench.Muxer.Wire
