import EtherBench.Library.Memory
import EtherBench.Muxer.Wire
import EtherBench.Usb.Callbacks

/-! # The line coding of the USB-USART bridge

The callbacks `USBX_USARTBridgeEnable`, `USBX_USARTBridgeChange` and `USBX_USARTBridgeDisable` of
`usbx/app/src/app_usbx_status.c`, beside those of the terminal. The message that a change of the
bridge sends to the router is filled from `usbx_terminal`.
-/

namespace EtherBench.Usb.BridgeCallbacks
open Library.Transition Library.Memory Muxer Message Callbacks

structure LineCoding where
  baudrate : UInt32
  stopBit : UInt8
  parity : UInt8
  dataBit : UInt8
  deriving DecidableEq

def LineCoding.payload (c : LineCoding) : List UInt32 :=
  [c.baudrate, c.dataBit.toUInt32, c.stopBit.toUInt32, c.parity.toUInt32]

theorem toUInt32_inj {a b : UInt8} (h : a.toUInt32 = b.toUInt32) : a = b := by
  have hnat := congrArg UInt32.toNat h
  simpa [UInt8.toNat_inj] using hnat

theorem payload_inj {c d : LineCoding} (h : c.payload = d.payload) : c = d := by
  rcases c with ⟨baudrate, stopBit, parity, dataBit⟩
  rcases d with ⟨baudrate', stopBit', parity', dataBit'⟩
  simp only [LineCoding.payload, List.cons.injEq, and_true] at h
  obtain ⟨rfl, hdata, hstop, hparity⟩ := h
  rw [toUInt32_inj hdata, toUInt32_inj hstop, toUInt32_inj hparity]

def cdcUsbUsartConnected : BitVec 32 := 0x1000
def cdcUsbUsartChangeRequired : BitVec 32 := 0x2000

/-- What the two families of callbacks work on. The flags are those of the terminal's state. -/
structure State (ι : Type*) where
  terminal : Callbacks.State ι
  usbxBridge : Option ι
  lastDtrState : UInt8
  router : Wire.Router

variable {ι : Type*}

def State.setFlags (s : State ι) (f : BitVec 32 → BitVec 32) : State ι :=
  { s with terminal := { s.terminal with usbxAppFlags := f s.terminal.usbxAppFlags } }

def usbxUsartBridgeDisable (cdcInstance : ι) (s : State ι) : State ι :=
  { s with usbxBridge := some cdcInstance }.setFlags fun flags => flags &&& ~~~cdcUsbUsartConnected

def usbxUsartBridgeEnable (cdcInstance : ι) (s : State ι) : State ι :=
  { s with usbxBridge := some cdcInstance }.setFlags fun flags => flags ||| cdcUsbUsartConnected

/-- The initializer of `payload`, which reads `usbx_terminal`: `none` when that is null. -/
def configPayload (coding : ι → LineCoding) (s : State ι) : Option (List UInt32) :=
  s.terminal.usbxTerminal.map fun terminal => (coding terminal).payload

/-- The arguments of `create_message(..., &payload, sizeof(payload))`. -/
def configRequest (payload : List UInt32) : Request :=
  ⟨Wire.hardwareDestination, Wire.usbSource, .muxerBuffer, 0, some (storeWords payload), 16⟩

/-- `USBX_USARTBridgeChange`, where `dtr` is the DTR state that the instance holds. `none` is the
dereference of a null handle. -/
def usbxUsartBridgeChange (address : ℕ → BitVec 32) (coding : ι → LineCoding) (cdcInstance : Option ι)
    (dtr : UInt8) (s : State ι) : Option (State ι) :=
  let t := { s with usbxBridge := cdcInstance }.setFlags fun flags => flags ||| cdcUsbUsartChangeRequired
  match cdcInstance with
  | none => some t
  | some _ =>
    let t := if dtr ≠ s.lastDtrState then { t with lastDtrState := dtr } else t
    (configPayload coding t).map fun payload =>
      { t with router := Wire.usbxUsartBridgeChange address t.router (storeWords payload) }

/-- The four words that a created message carries. -/
def carried (h : Heap) (msg : ℕ) : List UInt32 :=
  match (h.messages msg).payload with
  | none => []
  | some p => loadWords (h.payloads p) ((h.messages msg).payloadSize / 4)

def configMessage (h : Heap) (payload : List UInt32) : Option (List UInt32) :=
  let created := createMessage h (configRequest payload)
  created.1.map (carried created.2)

theorem usbxUsartBridgeChange_sends (address : ℕ → BitVec 32) (r : Wire.Router) (payload : List UInt32) :
    Wire.usbxUsartBridgeChange address r (storeWords payload) =
      Wire.createAndSend r (configRequest payload) fun msg _ => address msg := rfl

def HasBlocks (h : Heap) : Prop := h.routerPool.availableList ≠ [] ∧ h.routerPayloads.availableList ≠ []

theorem configMessage_eq (h : Heap) {payload : List UInt32} (hlength : payload.length = 4) :
    (HasBlocks h ∧ configMessage h payload = some payload) ∨ (¬ HasBlocks h ∧ configMessage h payload = none) := by
  have hcopied : (configRequest payload).copied = some (storeWords payload) := rfl
  have hsize : (configRequest payload).payloadSize = 16 := rfl
  have hfits : 16 ≤ routerTypicalPayload := by decide
  rw [HasBlocks, ← createMessage_ne_none_iff (hsize.le.trans hfits) hcopied, configMessage]
  cases hcreated : (createMessage h (configRequest payload)).1 with
  | none => exact Or.inr ⟨by simp, rfl⟩
  | some msg =>
    obtain ⟨hfour, p, hp, hbytes⟩ := createMessage_payload hcreated hcopied
    have hwords : carried (createMessage h (configRequest payload)).2 msg = payload := by
      rw [carried, hp, hfour, hsize]
      have hload := loadWords_storeWords payload
      rw [hlength] at hload
      exact (loadWords_congr hbytes).trans hload
    exact Or.inl ⟨by simp, congrArg some hwords⟩

/-- The callbacks of the two interfaces, the requests of the host that set a line coding, and
whatever else the firmware does to the router. -/
inductive Event (ι : Type*) where
  | terminal (e : Callbacks.Event ι)
  | enable (cdcInstance : ι)
  | change (cdcInstance : Option ι) (dtr : UInt8)
  | disable (cdcInstance : ι)
  | setLineCoding (cdcInstance : ι) (coding : LineCoding)
  | others (router : Wire.Router)

/-- The program, the line codings of the instances, the configuration messages that were built
beside the line coding each of them should carry, and whether a null handle was dereferenced. -/
structure System (ι : Type*) where
  code : State ι
  coding : ι → LineCoding
  built : List (LineCoding × List UInt32)
  faulted : Bool

def start (coding : ι → LineCoding) (router : Wire.Router) : System ι :=
  ⟨⟨Callbacks.initial, none, uxFalse, router⟩, coding, [], false⟩

def messages (s : System ι) (cdc : ι) : List (LineCoding × List UInt32) :=
  match (configPayload s.coding s.code).bind (configMessage s.code.router.heap) with
  | none => []
  | some words => [(s.coding cdc, words)]

variable [DecidableEq ι]

def step (address : ℕ → BitVec 32) (s : System ι) : Event ι → Option (System ι)
  | .terminal e => some { s with code := { s.code with terminal := callback s.code.terminal e } }
  | .enable cdc => some { s with code := usbxUsartBridgeEnable cdc s.code }
  | .change cdc dtr =>
    match usbxUsartBridgeChange address s.coding cdc dtr s.code with
    | none => some { s with faulted := true }
    | some code => some { s with code := code, built := s.built ++ cdc.toList.flatMap (messages s) }
  | .disable cdc => some { s with code := usbxUsartBridgeDisable cdc s.code }
  | .setLineCoding cdc coding => some { s with coding := Function.update s.coding cdc coding }
  | .others router => some { s with code := { s.code with router := router } }

/-- Every message carries the line coding of the bridge that changed, and no null handle was used. -/
structure Reports (s : System ι) : Prop where
  own : ∀ m ∈ s.built, m.2 = m.1.payload
  safe : s.faulted = false

/-- A change of the bridge that goes well: the terminal's handle is there, and where a message is
built, the terminal happens to have the line coding of the bridge. -/
def SameCoding (s : System ι) : Event ι → Prop
  | .change (some cdc) _ => ∃ terminal, s.code.terminal.usbxTerminal = some terminal ∧
      (HasBlocks s.code.router.heap → s.coding terminal = s.coding cdc)
  | _ => True

section Change

variable (s : System ι) (cdc : ι)

omit [DecidableEq ι] in
/-- A change of the bridge builds a message with the line coding of the terminal. -/
theorem messages_eq {terminal : ι} (hterminal : s.code.terminal.usbxTerminal = some terminal) :
    (HasBlocks s.code.router.heap ∧ messages s cdc = [(s.coding cdc, (s.coding terminal).payload)]) ∨
      (¬ HasBlocks s.code.router.heap ∧ messages s cdc = []) := by
  have hpayload : configPayload s.coding s.code = some (s.coding terminal).payload := by
    rw [configPayload, hterminal, Option.map_some]
  have hlength : (s.coding terminal).payload.length = 4 := rfl
  rw [messages, hpayload, Option.bind_some]
  rcases configMessage_eq s.code.router.heap hlength with ⟨hblocks, h⟩ | ⟨hblocks, h⟩
  · exact Or.inl ⟨hblocks, by rw [h]⟩
  · exact Or.inr ⟨hblocks, by rw [h]⟩

omit [DecidableEq ι] in
theorem usbxUsartBridgeChange_eq_none (address : ℕ → BitVec 32) (dtr : UInt8) :
    usbxUsartBridgeChange address s.coding (some cdc) dtr s.code = none ↔
      s.code.terminal.usbxTerminal = none := by
  simp only [usbxUsartBridgeChange, Option.map_eq_none_iff, configPayload]
  split <;> exact Iff.rfl

end Change

variable {address : ℕ → BitVec 32} {s t : System ι}

omit [DecidableEq ι] in
theorem reports_append (hs : Reports s) (code : State ι) (cdc : ι) :
    Reports { s with code := code, built := s.built ++ messages s cdc } ↔
      ∀ m ∈ messages s cdc, m.2 = m.1.payload := by
  constructor
  · exact fun h m hm => h.own m (List.mem_append_right _ hm)
  · refine fun h => ⟨fun m hm => ?_, hs.safe⟩
    rcases List.mem_append.mp hm with hold | hnew
    · exact hs.own m hold
    · exact h m hnew

omit [DecidableEq ι] in
theorem messages_own_iff {terminal cdc : ι} (hterminal : s.code.terminal.usbxTerminal = some terminal) :
    (∀ m ∈ messages s cdc, m.2 = m.1.payload) ↔
      (HasBlocks s.code.router.heap → s.coding terminal = s.coding cdc) := by
  rcases messages_eq s cdc hterminal with ⟨hblocks, h⟩ | ⟨hblocks, h⟩
  · rw [h, List.forall_mem_singleton]
    exact ⟨fun hpayload _ => payload_inj hpayload, fun hcoding => congrArg LineCoding.payload (hcoding hblocks)⟩
  · rw [h]
    exact iff_of_true (List.forall_mem_nil _) fun hsome => absurd hsome hblocks

/-- One callback keeps the reports right exactly when the two line codings agree. -/
theorem reports_step {e : Event ι} (hs : Reports s) (hstep : step address s e = some t) :
    Reports t ↔ SameCoding s e := by
  match e with
  | .terminal _ | .enable _ | .disable _ | .setLineCoding _ _ | .others _ =>
    cases hstep
    exact iff_of_true ⟨hs.own, hs.safe⟩ trivial
  | .change none dtr =>
    cases hstep
    refine iff_of_true ⟨?_, hs.safe⟩ trivial
    simpa using hs.own
  | .change (some cdc) dtr =>
    have hnull := usbxUsartBridgeChange_eq_none s cdc address dtr
    have hbuilt : (some cdc).toList.flatMap (messages s) = messages s cdc := List.flatMap_singleton ..
    simp only [step, hbuilt] at hstep
    cases hchange : usbxUsartBridgeChange address s.coding (some cdc) dtr s.code with
    | none =>
      rw [hchange] at hstep
      cases hstep
      refine iff_of_false (fun h => absurd h.safe (by simp)) ?_
      rintro ⟨terminal, hterminal, -⟩
      rw [hnull.mp hchange] at hterminal
      cases hterminal
    | some code =>
      rw [hchange] at hstep
      cases hstep
      have hthere : s.code.terminal.usbxTerminal ≠ none := fun h => by simp [hnull.mpr h] at hchange
      obtain ⟨terminal, hterminal⟩ := Option.ne_none_iff_exists'.mp hthere
      rw [reports_append hs, messages_own_iff hterminal, SameCoding, hterminal]
      simp

/-- The bridge reports its own line coding through a history exactly when each of its changes
finds the terminal there with the same one. -/
theorem reports_iff (address : ℕ → BitVec 32) (coding : ι → LineCoding) (router : Wire.Router)
    (events : List (Event ι)) :
    Always (step address) Reports (start coding router) events ↔
      Along (step address) SameCoding (start coding router) events := by
  apply always_iff_along fun s (h : Reports s) => h
  · intro s e t hs hsame hstep
    exact (reports_step hs hstep).mpr hsame
  · intro s e t hs hdiffer hstep hreports
    exact hdiffer ((reports_step hs hstep).mp hreports)
  · exact ⟨by simp [start], rfl⟩

def defaultCoding : LineCoding := ⟨115200, 1, 0, 8⟩

/-- Two idle instances, and a router with blocks for one message. -/
def twoInstances : System ℕ := start (fun _ => defaultCoding) (Wire.init Wire.oneBlockHeap)

/-- Where the terminal was never enabled, the change of the bridge uses a null handle. Where it was,
the message tells the line coding of the terminal. -/
theorem bridge_misreported :
    ¬ Always (step fun _ => 0) Reports twoInstances [.change (some 1) uxTrue] ∧
      ¬ Always (step fun _ => 0) Reports twoInstances
        [.terminal (.enable 0), .setLineCoding 1 ⟨9600, 1, 0, 8⟩, .change (some 1) uxTrue] := by
  constructor
  · intro h
    cases (h.last rfl).safe
  · intro h
    have hown := (h.last rfl).own _ List.mem_cons_self
    exact absurd hown (by decide)

end EtherBench.Usb.BridgeCallbacks
