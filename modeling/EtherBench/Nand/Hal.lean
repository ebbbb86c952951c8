import Mathlib.Data.List.Basic
import EtherBench.Library.Triples
import EtherBench.Nand.Device

/-! # The bus under the NAND driver

Every call into the HAL, and every wait for a semaphore that an interrupt gives, takes one
reaction of the environment. Any of them may fail. The status-match interrupt of a running
poll fires between two calls or never; until it does the HAL is busy and refuses commands.
The commands handed to the HAL are kept, newest first, and so is a record of every exchange.
-/

namespace EtherBench.Nand.Hal
open Device Library.Effects Library.Triples

inductive HalCall where
  | command (c : Command)
  | transmit (c : Command)
  | receive (c : Command)
  | autoPollingIt
  | drainFlashWip
  | getFlashWip
  | getFlashDmaDone
  deriving DecidableEq

/-- One exchange: the call, whether the status-match interrupt came just before it, whether the
call succeeded, the chip before and after, whether the exchange before it was a wait that has
got its token, and the last command on the array of the chip that had been accepted. -/
structure Exchange where
  call : HalCall
  matched : Bool
  ok : Bool
  before : Chip
  after : Chip
  afterWait : Bool
  operation : Option Command

def Exchange.gotFlashWip (e : Exchange) : Bool := e.call = .getFlashWip ∧ e.ok

/-- The command of an exchange, if it was accepted and is about the array. -/
def Exchange.operation? (e : Exchange) : Option Command :=
  match e.call with
  | .command c => if e.ok ∧ c.row?.isSome then some c else none
  | _ => none

/-- The chip, the environment, the commands issued so far, the staging buffer that all
operations of the driver share, whether a poll is running, the count of `flash_wip`, and the
exchanges so far. -/
structure World where
  chip : Chip
  env : ℕ → Reaction
  time : ℕ
  issued : List Command
  buffer : Page
  polling : Bool
  flashWip : ℕ
  exchanges : List Exchange := []

/-- A function of the driver: a value, or a status other than `LX_SUCCESS`. -/
abbrev Driver (α : Type) := EStateM ℕ World α

def lxError : ℕ := 1

def World.reaction (w : World) : Reaction := w.env w.time

/-- `flash_polling_complete` runs if the poll in progress matches now. -/
def World.interrupted (w : World) : World :=
  if w.polling && w.reaction.matched then { w with polling := false, flashWip := w.flashWip + 1 }
  else w

/-- The HAL is ready and the call succeeds. -/
def World.accepts (w : World) : Bool := !w.interrupted.polling && w.reaction.ok

/-- The environment moves on, and the chip changes if the call reaches it. -/
def World.exchange (w : World) (effect : Chip → Chip) : World :=
  { w.interrupted with
    chip :=
      if !w.interrupted.polling && (w.reaction.ok || w.reaction.reached) then effect w.chip else w.chip
    time := w.time + 1 }

def World.newExchange (w : World) (call : HalCall) (ok : Bool) (after : Chip) : Exchange where
  call := call
  matched := w.polling && w.reaction.matched
  ok := ok
  before := w.chip
  after := after
  afterWait := w.exchanges.head?.any Exchange.gotFlashWip
  operation := w.exchanges.findSome? Exchange.operation?

def World.record (w : World) (call : HalCall) (ok : Bool) (after : World) : World :=
  { after with exchanges := w.newExchange call ok after.chip :: w.exchanges }

/-- `HAL_XSPI_Command`; the answer is whether it was `HAL_OK`. -/
def halXspiCommand (c : Command) : Driver Bool := fun w =>
  .ok w.accepts <| w.record (.command c) w.accepts
    { w.exchange (·.execute w.reaction c) with issued := c :: w.issued }

/-- `HAL_XSPI_Transmit` and `HAL_XSPI_Transmit_DMA`, from the staging buffer or a variable. -/
def halXspiTransmit (c : Command) (data : List UInt8) : Driver Bool := fun w =>
  .ok w.accepts <| w.record (.transmit c) w.accepts (w.exchange (·.take data c))

/-- `HAL_XSPI_Receive` and `HAL_XSPI_Receive_DMA`: the bytes received, when it succeeds. -/
def halXspiReceive (c : Command) : Driver (Option (List UInt8)) := fun w =>
  .ok (if w.accepts then some (w.chip.give c) else none) <|
    w.record (.receive c) w.accepts (w.exchange id)

/-- `HAL_XSPI_AutoPolling_IT`. -/
def halXspiAutoPollingIt : Driver Bool := fun w =>
  .ok w.accepts <| w.record .autoPollingIt w.accepts
    { w.exchange id with polling := w.interrupted.polling || w.reaction.ok }

/-- The loop that takes every token of `flash_wip`. -/
def drainFlashWip : Driver Unit := fun w =>
  .ok () <| w.record .drainFlashWip true { w.exchange id with flashWip := 0 }

/-- `tx_semaphore_get(&flash_wip, 10000)`: a token, or the wait ends without one. -/
def getFlashWip : Driver Bool := fun w =>
  .ok (w.interrupted.flashWip ≠ 0) <| w.record .getFlashWip (w.interrupted.flashWip ≠ 0)
    { w.exchange id with flashWip := w.interrupted.flashWip - 1 }

/-- `tx_semaphore_get(&flash_dma_done, TX_WAIT_FOREVER)`. -/
def getFlashDmaDone : Driver Bool := fun w =>
  .ok w.reaction.ok <| w.record .getFlashDmaDone w.reaction.ok (w.exchange id)

/-- `if (call != HAL_OK) return LX_ERROR;`. -/
def require (call : Driver Bool) : Driver Unit := do
  let ok ← call
  if ok then pure () else throw lxError

variable {I : World → Prop}

theorem preserves_require {call : Driver Bool} (h : Preserves I call) : Preserves I (require call) :=
  preserves_bind h fun _ => preserves_ite (preserves_pure I ()) (preserves_throw I lxError)

/-- A checked call: which way it goes depends on its answer. -/
theorem triple_require {P Q E : World → Prop} {call : Driver Bool}
    (h : Triple P call (fun ok w => if ok = true then Q w else E w) E) :
    Triple P (require call) (fun _ => Q) E := by
  apply triple_bind h
  intro ok
  cases ok with
  | true => exact triple_pure () fun _ hw => hw
  | false => exact triple_throw lxError fun _ hw => hw

theorem triple_exchange {P Q E : World → Prop} {call : HalCall} {answer : World → Bool}
    {after : World → World}
    (hok : ∀ w, P w → answer w = true → Q (w.record call true (after w)))
    (hrefused : ∀ w, P w → answer w = false → E (w.record call false (after w))) :
    Triple P (require fun w => .ok (answer w) (w.record call (answer w) (after w))) (fun _ => Q) E := by
  apply triple_require
  intro w hw
  change if answer w = true then Q (w.record call (answer w) (after w))
    else E (w.record call (answer w) (after w))
  cases hanswer : answer w with
  | true => exact hok w hw hanswer
  | false => exact hrefused w hw hanswer

theorem triple_command {P Q E : World → Prop} {c : Command}
    (h : ∀ w, P w → Q (w.record (.command c) w.accepts
      { w.exchange (·.execute w.reaction c) with issued := c :: w.issued })) :
    Triple P (halXspiCommand c) (fun ok w => if ok = true then Q w else Q w) E := by
  intro w hw
  change if w.accepts = true then Q _ else Q _
  rw [ite_self]
  exact h w hw

theorem triple_receive {P Q E : World → Prop} {c : Command}
    (h : ∀ w, P w → Q (w.record (.receive c) w.accepts (w.exchange id))) :
    Triple P (halXspiReceive c) (fun received w => if received.isSome then Q w else Q w) E := by
  intro w hw
  change if _ then Q _ else Q _
  rw [ite_self]
  exact h w hw

@[simp] theorem World.interrupted_issued (w : World) : w.interrupted.issued = w.issued := by
  rw [World.interrupted]
  split <;> rfl

@[simp] theorem World.interrupted_buffer (w : World) : w.interrupted.buffer = w.buffer := by
  rw [World.interrupted]
  split <;> rfl

@[simp] theorem World.exchange_buffer (w : World) (effect : Chip → Chip) :
    (w.exchange effect).buffer = w.buffer := w.interrupted_buffer

@[simp] theorem World.interrupted_env (w : World) : w.interrupted.env = w.env := by
  rw [World.interrupted]
  split <;> rfl

@[simp] theorem World.exchange_env (w : World) (effect : Chip → Chip) :
    (w.exchange effect).env = w.env := w.interrupted_env

theorem World.exchange_id_chip (w : World) : (w.exchange id).chip = w.chip := ite_self w.chip

theorem World.exchange_of_accepts {w : World} (h : w.accepts = true) (effect : Chip → Chip) :
    (w.exchange effect).chip = effect w.chip := by
  rw [World.accepts, Bool.and_eq_true] at h
  apply if_pos
  rw [h.1, h.2]
  rfl

end EtherBench.Nand.Hal
