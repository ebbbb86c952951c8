import EtherBench.Library.Transition
import EtherBench.Muxer.Message

/-! # Runs of the message functions

Any number of calls of `create_message`, `consume_message` and `create_response_message` run at
once. A call of a pool service and the atomic decrement are one step each; what a call does to
memory that only it can reach goes with the step before it. A message that was created is
remembered as an instance, with the consumptions that its mask still allows.
-/

namespace EtherBench.Muxer.Lifetime
open ThreadX Message Library.Transition Library.Holders

/-- A message that `create_message` returned, and what has become of it. `rights` counts the
set bits of its mask that no call has consumed it for yet. -/
structure Instance where
  request : Request
  block : ℕ
  payload : Option ℕ
  rights : ℕ
  blockReleases : ℕ
  payloadReleases : ℕ

/-- Where a call stands: creating a message in `msg`, or consuming instance `k`. -/
inductive Phase where
  | check (r : Request)
  | attach (r : Request) (msg : ℕ)
  | undo (r : Request) (msg : ℕ)
  | count (r : Request) (msg : ℕ) (payload : Option ℕ)
  | consume (k : ℕ)
  | freePayload (k : ℕ)
  | freeMessage (k : ℕ)
  | returned

/-- A call. `consumes` is the message that a response still has to consume, `result` what
`create_message` answered in it, and the lists are the blocks that its creation took and gave
back. -/
structure Call where
  phase : Phase
  consumes : Option ℕ
  result : Option (Option ℕ)
  taken : List ℕ
  givenBack : List ℕ
  payloadsTaken : List ℕ

structure State where
  heap : Heap
  calls : List Call
  instances : List Instance

inductive Action where
  | createMessage (r : Request)
  | consumeMessage (k : ℕ)
  | createResponseMessage (k : ℕ) (info : BitVec 16) (payload : Option (ℕ → UInt8)) (payloadSize : ℕ)
  | advance (i : ℕ)

namespace Call

def begin (phase : Phase) (consumes : Option ℕ) : Call := ⟨phase, consumes, none, [], [], []⟩

/-- `create_message` returns; a response goes on to `consume_message`. -/
def finishCreate (c : Call) (result : Option ℕ) : Call :=
  { c with
    phase := match c.consumes with
      | none => .returned
      | some k => .consume k
    consumes := none
    result := some result }

def message (c : Call) : Option ℕ :=
  match c.phase with
  | .attach _ msg | .undo _ msg | .count _ msg _ => some msg
  | _ => none

def payload (c : Call) : Option ℕ :=
  match c.phase with
  | .count _ _ payload => payload
  | _ => none

/-- The instance that the call will still decrement. -/
def right (c : Call) : Option ℕ :=
  match c.phase with
  | .consume k => some k
  | _ => c.consumes

/-- The instance that the call, as its last consumer, will release. -/
def duty (c : Call) : Option ℕ :=
  match c.phase with
  | .freePayload k | .freeMessage k => some k
  | _ => none

/-- The instance whose payload the last consumer has not handled yet. -/
def payloadDuty (c : Call) : Option ℕ :=
  match c.phase with
  | .freePayload k => some k
  | _ => none

end Call

namespace Instance

def liveBlock (inst : Instance) : Option ℕ := if inst.blockReleases = 0 then some inst.block else none

def livePayload (inst : Instance) : Option ℕ := if inst.payloadReleases = 0 then inst.payload else none

end Instance

def setCall (s : State) (i : ℕ) (c : Call) : State := { s with calls := s.calls.set i c }

def setInstance (s : State) (k : ℕ) (inst : Instance) : State := { s with instances := s.instances.set k inst }

/-- The size check and the allocation of the message block. -/
def checkStep (s : State) (i : ℕ) (c : Call) (r : Request) : State :=
  if routerTypicalPayload < r.payloadSize then setCall s i (c.finishCreate none)
  else
    match s.heap.routerPool.txBlockAllocate with
    | none => setCall s i (c.finishCreate none)
    | some (msg, pool) =>
      setCall { s with heap := { s.heap with routerPool := pool }.fillMessage msg r } i
        { c with phase := .attach r msg, taken := msg :: c.taken }

/-- The allocation of the payload block, when the request needs one. -/
def attachStep (s : State) (i : ℕ) (c : Call) (r : Request) (msg : ℕ) : State :=
  match r.copied with
  | none => setCall { s with heap := s.heap.clearPayload msg } i { c with phase := .count r msg none }
  | some bytes =>
    match s.heap.routerPayloads.txBlockAllocate with
    | none => setCall s i { c with phase := .undo r msg }
    | some (p, pool) =>
      let heap := { s.heap with routerPayloads := pool }.fillPayload msg p bytes r.payloadSize
      setCall { s with heap := heap } i
        { c with phase := .count r msg (some p), payloadsTaken := p :: c.payloadsTaken }

/-- The message block goes back after its payload could not be allocated. -/
def undoStep (s : State) (i : ℕ) (c : Call) (msg : ℕ) : State :=
  setCall { s with heap := s.heap.releaseMessage msg } i
    ({ c with givenBack := msg :: c.givenBack }.finishCreate none)

/-- The count is stored and the message returned: from here on it is an instance. -/
def countStep (s : State) (i : ℕ) (c : Call) (r : Request) (msg : ℕ) (payload : Option ℕ) : State :=
  let inst : Instance := ⟨r, msg, payload, (destinationCount r.dest).toNat, 0, 0⟩
  setCall { s with heap := s.heap.setCount msg r.dest, instances := s.instances ++ [inst] } i
    (c.finishCreate (some s.instances.length))

/-- The atomic decrement; who takes the last count becomes the last consumer. -/
def consumeStep (s : State) (i : ℕ) (c : Call) (k : ℕ) (inst : Instance) : State :=
  let taken := s.heap.fetchAndSub inst.block
  setCall { s with heap := taken.2 } i
    { c with phase := if taken.1 = 1 then .freePayload k else .returned }

def freePayloadStep (s : State) (i : ℕ) (c : Call) (k : ℕ) (inst : Instance) : State :=
  match (s.heap.messages inst.block).payload with
  | none => setCall s i { c with phase := .freeMessage k }
  | some _ =>
    setCall (setInstance { s with heap := s.heap.releasePayload inst.block } k
      { inst with payloadReleases := inst.payloadReleases + 1 }) i { c with phase := .freeMessage k }

def freeMessageStep (s : State) (i : ℕ) (c : Call) (k : ℕ) (inst : Instance) : State :=
  setCall (setInstance { s with heap := s.heap.releaseMessage inst.block } k
    { inst with blockReleases := inst.blockReleases + 1 }) i { c with phase := .returned }

def advance (s : State) (i : ℕ) (c : Call) : Option State :=
  match c.phase with
  | .check r => some (checkStep s i c r)
  | .attach r msg => some (attachStep s i c r msg)
  | .undo _ msg => some (undoStep s i c msg)
  | .count r msg payload => some (countStep s i c r msg payload)
  | .consume k => s.instances[k]?.map fun inst => consumeStep s i c k inst
  | .freePayload k => s.instances[k]?.map fun inst => freePayloadStep s i c k inst
  | .freeMessage k => s.instances[k]?.map fun inst => freeMessageStep s i c k inst
  | .returned => none

/-- A call on instance `k` begins, on one of the consumptions that its mask allows. -/
def beginOn (s : State) (k : ℕ) (inst : Instance) (c : Call) : Option State :=
  if inst.rights = 0 then none
  else
    some { setInstance s k { inst with rights := inst.rights - 1 } with calls := s.calls ++ [c] }

/-- The request a response creates its message from, read from the message it answers. -/
def answerRequest (s : State) (inst : Instance) (info : BitVec 16) (payload : Option (ℕ → UInt8))
    (payloadSize : ℕ) : Request :=
  responseRequest (s.heap.messages inst.block) info payload payloadSize

/-- One step. Every message has a non-zero mask and is consumed once for each bit of it. -/
def step (s : State) : Action → Option State
  | .createMessage r =>
    if r.dest = 0 then none else some { s with calls := s.calls ++ [.begin (.check r) none] }
  | .consumeMessage k => s.instances[k]?.bind fun inst => beginOn s k inst (.begin (.consume k) none)
  | .createResponseMessage k info payload payloadSize =>
    s.instances[k]?.bind fun inst =>
      let r := answerRequest s inst info payload payloadSize
      if r.dest = 0 then none else beginOn s k inst (.begin (.check r) (some k))
  | .advance i => s.calls[i]?.bind fun c => advance s i c

/-- Two pools of free blocks of any content, no call and no message. -/
def init (routerBlocks payloadBlocks : ℕ) (messages : ℕ → MuxerInput) (payloads : ℕ → ℕ → UInt8) : State :=
  ⟨⟨⟨List.range routerBlocks⟩, ⟨List.range payloadBlocks⟩, messages, payloads⟩, [], []⟩

/-- The consumptions of an instance that have not reached their decrement. -/
def outstanding (s : State) (k : ℕ) (inst : Instance) : ℕ := inst.rights + holders Call.right s.calls k

/-- The block `msg` names the payload block and holds, through it, the bytes of the request. -/
structure Carries (h : Heap) (r : Request) (msg : ℕ) (payload : Option ℕ) : Prop where
  field : (h.messages msg).payload = payload
  size : (h.messages msg).payloadSize = if payload.isSome then r.payloadSize else 0
  copied : payload.isSome = r.copied.isSome
  bytes : ∀ p, payload = some p → ∀ src, r.copied = some src → ∀ n < r.payloadSize, h.payloads p n = src n

theorem Carries.frame {h h' : Heap} {r : Request} {msg : ℕ} {payload : Option ℕ}
    (hc : Carries h r msg payload)
    (hfield : (h'.messages msg).payload = (h.messages msg).payload)
    (hsize : (h'.messages msg).payloadSize = (h.messages msg).payloadSize)
    (hbytes : ∀ p, payload = some p → h'.payloads p = h.payloads p) : Carries h' r msg payload where
  field := hfield.trans hc.field
  size := hsize.trans hc.size
  copied := hc.copied
  bytes := by
    intro p hp src hsrc n hn
    rw [hbytes p hp]
    exact hc.bytes p hp src hsrc n hn

/-- Blocks that calls hold or that live instances occupy. -/
def inUse (held : Call → Option ℕ) (live : Instance → Option ℕ) (s : State) : ℕ :=
  s.calls.countP (fun c => (held c).isSome) + s.instances.countP fun inst => (live inst).isSome

/-- Reference counting keeps what it promises in a state. -/
structure Sound (routerBlocks payloadBlocks : ℕ) (s : State) : Prop where
  /-- While a consumption is outstanding nothing is released, and the payload is the one given. -/
  kept : ∀ (k : ℕ) (inst : Instance), s.instances[k]? = some inst → 0 < outstanding s k inst →
    inst.blockReleases = 0 ∧ inst.payloadReleases = 0 ∧
      Carries s.heap inst.request inst.block inst.payload
  /-- At most one call is the last consumer of an instance, and none before the last decrement. -/
  oneLast : ∀ (k : ℕ) (inst : Instance), s.instances[k]? = some inst →
    holders Call.duty s.calls k ≤ if outstanding s k inst = 0 then 1 else 0
  /-- Once all have consumed and the last of them has returned, both releases happened once. -/
  released : ∀ (k : ℕ) (inst : Instance), s.instances[k]? = some inst → outstanding s k inst = 0 →
    holders Call.duty s.calls k = 0 →
      inst.blockReleases = 1 ∧ inst.payloadReleases = if inst.payload.isSome then 1 else 0
  atMostOnce : ∀ inst ∈ s.instances, inst.blockReleases ≤ 1 ∧ inst.payloadReleases ≤ 1
  messages : s.heap.routerPool.availableList.length + inUse Call.message Instance.liveBlock s = routerBlocks
  payloads :
    s.heap.routerPayloads.availableList.length + inUse Call.payload Instance.livePayload s = payloadBlocks
  /-- A creation that answered with a null pointer gave back what it took. -/
  null : ∀ c ∈ s.calls, c.result = some none → c.givenBack = c.taken ∧ c.payloadsTaken = []

end EtherBench.Muxer.Lifetime
