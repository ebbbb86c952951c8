import Mathlib.Data.Fin.Basic
import EtherBench.Library.Memory
import EtherBench.Library.Transition

/-! # The deferred logger

`add_log` and `logger_task` of `tasks/logger/src/task_logger.cpp`, with the DMA transfer that
`HAL_UART_Transmit_DMA` starts and the interrupt at its end. `add_log` may run between any two
steps of the task, also before its first one. A token of `dma_tx_done` carries the number of
the transfer that has put it.
-/

namespace EtherBench.Logger.TaskLogger
open Library.Memory Library.Transition

def logBufferSize : ℕ := 1024
def logBufferThreshold : ℕ := 768
def logMaxLength : ℕ := 256

/-- There are two buffers. -/
scoped instance neZeroTwo : NeZero 2 := ⟨Nat.succ_ne_zero 1⟩

/-- What `add_log` formats. Callers keep to `LOG_MAX_LENGTH`, the line end and the terminator
included. -/
structure Message where
  text : List UInt8
  fits : text.length + 3 ≤ logMaxLength

def Message.bytes (m : Message) : List UInt8 := m.text ++ [10, 13]

structure Transfer where
  id : ℕ
  buffer : Fin 2
  size : ℕ
  sent : ℕ

inductive Phase where
  /-- `memset` of `log_buffer`, `cleared` bytes of it done -/
  | clearBuffers (cleared : ℕ)
  /-- `memset` of `buffer_size`, `cleared` words of it done -/
  | clearSizes (cleared : ℕ)
  | clearActive
  | wait
  | drain
  | swap
  | transmit (bufferToSend : Fin 2) (sizeToSend : ℕ)
  | await
  | abort
  deriving DecidableEq

structure State where
  logBuffer : Fin 2 → ℕ → UInt8
  bufferSize : Fin 2 → ℕ
  activeBuffer : Fin 2
  dmaTrigger : ℕ
  dmaTxDone : List ℕ
  phase : Phase
  dma : Option Transfer
  /-- transfers started so far -/
  started : ℕ
  /-- bytes that have left through the UART -/
  transmitted : List UInt8
  /-- messages that fitted -/
  accepted : List UInt8
  /-- tokens taken, each with the transfer that was waited for -/
  consumed : List (ℕ × ℕ)
  /-- whether a store has hit the range of a running transfer -/
  overwritten : Bool

def initial : State where
  logBuffer _ _ := 0
  bufferSize _ := 0
  activeBuffer := 0
  dmaTrigger := 0
  dmaTxDone := []
  phase := .clearBuffers 0
  dma := none
  started := 0
  transmitted := []
  accepted := []
  consumed := []
  overwritten := false

inductive Action where
  | addLog (m : Message)
  /-- one store of the three statements before the loop -/
  | clear
  /-- the wait of 25 ticks ends, with a token or without -/
  | wake
  | drain
  | swap
  /-- `HAL_UART_Transmit_DMA` starts the transfer -/
  | transmit
  /-- it does not -/
  | refuse
  /-- the DMA moves a byte to the UART -/
  | send
  /-- the interrupt at the end of a transfer -/
  | complete
  | takeDone
  /-- 200 ticks without a token -/
  | timeout
  | abort

def State.reading (s : State) (buffer : Fin 2) (start len : ℕ) : Bool :=
  s.dma.any fun t => t.buffer = buffer ∧ start < t.size ∧ 0 < len

def State.store (s : State) (buffer : Fin 2) (start : ℕ) (bytes : List UInt8) : State :=
  { s with
    logBuffer := Function.update s.logBuffer buffer (write (s.logBuffer buffer) start bytes)
    overwritten := s.overwritten || s.reading buffer start bytes.length }

/-- A message that fits goes behind the others, and the task is woken at the threshold. -/
def stored (s : State) (m : Message) : State :=
  { s.store s.activeBuffer (s.bufferSize s.activeBuffer) m.bytes with
    bufferSize :=
      Function.update s.bufferSize s.activeBuffer (s.bufferSize s.activeBuffer + m.bytes.length)
    dmaTrigger :=
      if s.bufferSize s.activeBuffer < logBufferThreshold ∧
          logBufferThreshold ≤ s.bufferSize s.activeBuffer + m.bytes.length then s.dmaTrigger + 1
      else s.dmaTrigger
    accepted := s.accepted ++ m.bytes }

/-- The critical section of `add_log`. -/
def addLog (s : State) (m : Message) : State :=
  if s.bufferSize s.activeBuffer + m.bytes.length < logBufferSize then stored s m else s

/-- The buffer in which the `k`-th byte of `log_buffer` lies. -/
def bufferOf (k : ℕ) : Fin 2 := Fin.ofNat 2 (k / logBufferSize)

/-- One store of the three statements that `logger_task` starts with. -/
def clear (s : State) : Option State :=
  match s.phase with
  | .clearBuffers k =>
    some { s.store (bufferOf k) (k % logBufferSize) [0] with
      phase := if k + 1 < 2 * logBufferSize then .clearBuffers (k + 1) else .clearSizes 0 }
  | .clearSizes k =>
    some { s with
      bufferSize := Function.update s.bufferSize (Fin.ofNat 2 k) 0
      phase := if k + 1 < 2 then .clearSizes (k + 1) else .clearActive }
  | .clearActive => some { s with activeBuffer := 0, phase := .wait }
  | _ => none

/-- The critical section of the loop. -/
def swap (s : State) : State :=
  let bufferToSend := s.activeBuffer
  let sizeToSend := s.bufferSize bufferToSend
  if 0 < sizeToSend then
    { s with
      activeBuffer := 1 - bufferToSend
      bufferSize := Function.update s.bufferSize (1 - bufferToSend) 0
      phase := .transmit bufferToSend sizeToSend }
  else { s with phase := .wait }

def step (s : State) : Action → Option State
  | .addLog m => some (addLog s m)
  | .clear => clear s
  | .wake =>
    if s.phase = .wait then some { s with dmaTrigger := s.dmaTrigger - 1, phase := .drain } else none
  | .drain =>
    if s.phase = .drain then
      if 0 < s.dmaTrigger then some { s with dmaTrigger := s.dmaTrigger - 1 }
      else some { s with phase := .swap }
    else none
  | .swap => if s.phase = .swap then some (swap s) else none
  | .transmit =>
    -- the HAL is busy as long as a transfer is running
    match s.phase, s.dma with
    | .transmit buffer size, none =>
      some { s with dma := some ⟨s.started + 1, buffer, size, 0⟩, started := s.started + 1, phase := .await }
    | _, _ => none
  | .refuse =>
    match s.phase with
    | .transmit _ _ => some { s with phase := .abort }
    | _ => none
  | .send =>
    match s.dma with
    | some t =>
      if t.sent < t.size then
        some { s with
          dma := some { t with sent := t.sent + 1 }
          transmitted := s.transmitted ++ [s.logBuffer t.buffer t.sent] }
      else none
    | none => none
  | .complete =>
    match s.dma with
    | some t =>
      if t.sent = t.size then some { s with dma := none, dmaTxDone := s.dmaTxDone ++ [t.id] } else none
    | none => none
  | .takeDone =>
    match s.phase, s.dmaTxDone with
    | .await, token :: rest =>
      some { s with dmaTxDone := rest, consumed := s.consumed ++ [(token, s.started)], phase := .wait }
    | _, _ => none
  | .timeout => if s.phase = .await ∧ s.dmaTxDone = [] then some { s with phase := .abort } else none
  -- `HAL_UART_AbortTransmit`
  | .abort => if s.phase = .abort then some { s with dma := none, phase := .wait } else none

/-- Everything that one step can do. -/
inductive Moves (s : State) : Action → State → Prop where
  | stored {m} (hfit : s.bufferSize s.activeBuffer + m.bytes.length < logBufferSize) :
    Moves s (.addLog m) (stored s m)
  | dropped {m} : Moves s (.addLog m) s
  | clearByte {k} (hphase : s.phase = .clearBuffers k) : Moves s .clear
    { s.store (bufferOf k) (k % logBufferSize) [0] with
      phase := if k + 1 < 2 * logBufferSize then .clearBuffers (k + 1) else .clearSizes 0 }
  | clearSize {k} (hphase : s.phase = .clearSizes k) : Moves s .clear
    { s with
      bufferSize := Function.update s.bufferSize (Fin.ofNat 2 k) 0
      phase := if k + 1 < 2 then .clearSizes (k + 1) else .clearActive }
  | clearActive (hphase : s.phase = .clearActive) :
    Moves s .clear { s with activeBuffer := 0, phase := .wait }
  | wake (hphase : s.phase = .wait) : Moves s .wake { s with dmaTrigger := s.dmaTrigger - 1, phase := .drain }
  | drain (hphase : s.phase = .drain) : Moves s .drain { s with dmaTrigger := s.dmaTrigger - 1 }
  | drained (hphase : s.phase = .drain) : Moves s .drain { s with phase := .swap }
  | swap (hphase : s.phase = .swap) (hsize : 0 < s.bufferSize s.activeBuffer) : Moves s .swap
    { s with
      activeBuffer := 1 - s.activeBuffer
      bufferSize := Function.update s.bufferSize (1 - s.activeBuffer) 0
      phase := .transmit s.activeBuffer (s.bufferSize s.activeBuffer) }
  | empty (hphase : s.phase = .swap) : Moves s .swap { s with phase := .wait }
  | transmit {buffer size} (hphase : s.phase = .transmit buffer size) (hdma : s.dma = none) :
    Moves s .transmit
    { s with dma := some ⟨s.started + 1, buffer, size, 0⟩, started := s.started + 1, phase := .await }
  | refuse {buffer size} (hphase : s.phase = .transmit buffer size) :
    Moves s .refuse { s with phase := .abort }
  | send {r} (hdma : s.dma = some r) (hmore : r.sent < r.size) : Moves s .send
    { s with
      dma := some { r with sent := r.sent + 1 }
      transmitted := s.transmitted ++ [s.logBuffer r.buffer r.sent] }
  | complete {r} (hdma : s.dma = some r) (hdone : r.sent = r.size) :
    Moves s .complete { s with dma := none, dmaTxDone := s.dmaTxDone ++ [r.id] }
  | takeDone {token rest} (hphase : s.phase = .await) (htokens : s.dmaTxDone = token :: rest) :
    Moves s .takeDone
    { s with dmaTxDone := rest, consumed := s.consumed ++ [(token, s.started)], phase := .wait }
  | timeout (hphase : s.phase = .await) (htokens : s.dmaTxDone = []) :
    Moves s .timeout { s with phase := .abort }
  | abort (hphase : s.phase = .abort) : Moves s .abort { s with dma := none, phase := .wait }

theorem addLog_moves (s : State) (m : Message) : Moves s (.addLog m) (addLog s m) := by
  rw [addLog]
  split
  · next hfit => exact .stored hfit
  · exact .dropped

theorem clear_moves {s t : State} (h : clear s = some t) : Moves s .clear t := by
  rw [clear] at h
  split at h
  · next hphase =>
    cases h
    exact .clearByte hphase
  · next hphase =>
    cases h
    exact .clearSize hphase
  · next hphase =>
    cases h
    exact .clearActive hphase
  · cases h

theorem swap_moves {s : State} (hphase : s.phase = .swap) : Moves s .swap (swap s) := by
  rw [swap]
  split
  · next hsize => exact .swap hphase hsize
  · exact .empty hphase

theorem step_moves {s t : State} {a : Action} (h : step s a = some t) : Moves s a t := by
  cases a with
  | addLog m =>
    cases h
    exact addLog_moves s m
  | clear => exact clear_moves h
  | wake =>
    obtain ⟨hphase, h⟩ := Option.ite_none_right_eq_some.mp h
    cases h
    exact .wake hphase
  | drain =>
    obtain ⟨hphase, h⟩ := Option.ite_none_right_eq_some.mp h
    split at h
    · cases h
      exact .drain hphase
    · cases h
      exact .drained hphase
  | swap =>
    obtain ⟨hphase, h⟩ := Option.ite_none_right_eq_some.mp h
    cases h
    exact swap_moves hphase
  | transmit =>
    simp only [step] at h
    split at h
    · next hphase hdma =>
      cases h
      exact .transmit hphase hdma
    · cases h
  | refuse =>
    simp only [step] at h
    split at h
    · next hphase =>
      cases h
      exact .refuse hphase
    · cases h
  | send =>
    simp only [step] at h
    split at h
    · next hdma =>
      obtain ⟨hmore, h⟩ := Option.ite_none_right_eq_some.mp h
      cases h
      exact .send hdma hmore
    · cases h
  | complete =>
    simp only [step] at h
    split at h
    · next hdma =>
      obtain ⟨hdone, h⟩ := Option.ite_none_right_eq_some.mp h
      cases h
      exact .complete hdma hdone
    · cases h
  | takeDone =>
    simp only [step] at h
    split at h
    · next hphase htokens =>
      cases h
      exact .takeDone hphase htokens
    · cases h
  | timeout =>
    obtain ⟨⟨hphase, htokens⟩, h⟩ := Option.ite_none_right_eq_some.mp h
    cases h
    exact .timeout hphase htokens
  | abort =>
    obtain ⟨hphase, h⟩ := Option.ite_none_right_eq_some.mp h
    cases h
    exact .abort hphase

/-- The state in which the loop starts when nothing has been logged before. -/
def ready : State := { initial with phase := .wait }

def boot : List Action := List.replicate (2 * logBufferSize + 3) .clear

theorem write_zero (start : ℕ) : write (fun _ => (0 : UInt8)) start [0] = fun _ => 0 := by
  funext i
  rw [write]
  split
  · cases i - start <;> rfl
  · rfl

theorem clear_initial (k : ℕ) : step { initial with phase := .clearBuffers k } .clear =
    some { initial with
      phase := if k + 1 < 2 * logBufferSize then .clearBuffers (k + 1) else .clearSizes 0 } := by
  have hmemory : Function.update initial.logBuffer (bufferOf k)
      (write (initial.logBuffer (bufferOf k)) (k % logBufferSize) [0]) = initial.logBuffer := by
    rw [show initial.logBuffer (bufferOf k) = fun _ => 0 from rfl, write_zero]
    exact Function.update_eq_self (bufferOf k) initial.logBuffer
  simp only [step, clear, State.store, hmemory]
  rfl

theorem run_clearBuffers (n k : ℕ) (h : k + n + 1 = 2 * logBufferSize) :
    run step { initial with phase := .clearBuffers k } (List.replicate (n + 1) .clear) =
      some { initial with phase := .clearSizes 0 } := by
  induction n generalizing k with
  | zero =>
    rw [List.replicate_one, run_cons, clear_initial, if_neg (by omega)]
    rfl
  | succ n ih =>
    rw [List.replicate_succ, run_cons, clear_initial, if_pos (by omega)]
    exact ih (k + 1) (by omega)

theorem clear_sizes : step { initial with phase := .clearSizes 0 } .clear =
      some { initial with phase := .clearSizes 1 } ∧
    step { initial with phase := .clearSizes 1 } .clear = some { initial with phase := .clearActive } := by
  constructor
  · simp only [step, clear]
    rw [show Function.update initial.bufferSize (Fin.ofNat 2 0) 0 = initial.bufferSize from
      Function.update_eq_self (Fin.ofNat 2 0) initial.bufferSize]
    rfl
  · simp only [step, clear]
    rw [show Function.update initial.bufferSize (Fin.ofNat 2 1) 0 = initial.bufferSize from
      Function.update_eq_self (Fin.ofNat 2 1) initial.bufferSize]
    rfl

theorem run_boot : run step initial boot = some ready := by
  have hbuffers := run_clearBuffers (2 * logBufferSize - 1) 0 rfl
  have hsplit : boot = List.replicate (2 * logBufferSize - 1 + 1) .clear ++ [.clear, .clear, .clear] := by
    rw [show [Action.clear, .clear, .clear] = List.replicate 3 .clear from rfl, List.replicate_append_replicate]
    rfl
  rw [hsplit]
  refine (run_append hbuffers _).trans ?_
  rw [run_cons, clear_sizes.1, Option.bind_some, run_cons, clear_sizes.2, Option.bind_some]
  rfl

end EtherBench.Logger.TaskLogger
