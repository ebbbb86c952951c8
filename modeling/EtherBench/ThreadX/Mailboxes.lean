import EtherBench.ThreadX.Queues

/-! # What a queue is for

A mailbox holds messages in an order, and threads that wait: with a message for its front, with a message for its
back, or for a message.
-/

namespace EtherBench.ThreadX.Mailboxes
open Library.Circular Library.Memory Queues

abbrev Message := List UInt32

structure Mailbox where
  capacity : ℕ
  front : List (ℕ × Message)
  stored : List Message
  back : List (ℕ × Message)
  receivers : List ℕ

namespace Mailbox

/-- All messages, in the order in which they are received. -/
def contents (b : Mailbox) : List Message := b.front.map Prod.snd ++ b.stored ++ b.back.map Prod.snd

/-- The threads that wait, those that are resumed first in front. -/
def waiting (b : Mailbox) : List ℕ := b.front.map Prod.fst ++ b.back.map Prod.fst ++ b.receivers

end Mailbox

inductive Call where
  | send (thread : ℕ) (source : ℕ → UInt32) (preemptDisable waitOption : ℕ)
  | frontSend (thread : ℕ) (source : ℕ → UInt32) (preemptDisable waitOption : ℕ)
  | receive (thread preemptDisable waitOption : ℕ)
  | flush
  | cleanup (thread : ℕ) (terminated : Bool)

/-- What the callers see: the status of the call, the message that it has received, and the threads that
it resumes, with their statuses and messages. -/
structure Outcome where
  returned : Option Status
  received : Option Message
  resumed : List (ℕ × Status × Option Message)

def canWait (preemptDisable waitOption : ℕ) : Prop := waitOption ≠ txNoWait ∧ preemptDisable = 0

instance (preemptDisable waitOption : ℕ) : Decidable (canWait preemptDisable waitOption) := by
  unfold canWait; infer_instance

namespace Mailbox

/-- A message is for the thread that has waited longest, or is kept, or its sender waits. -/
def deliver (b : Mailbox) (message : Message) (kept : Mailbox) (waits : Option Mailbox) : Outcome × Mailbox :=
  match b.receivers with
  | receiver :: receivers =>
    (⟨some .success, none, [(receiver, .success, some message)]⟩, { b with receivers := receivers })
  | [] =>
    if b.stored.length < b.capacity then (⟨some .success, none, []⟩, kept)
    else
      match waits with
      | some waits => (⟨none, none, []⟩, waits)
      | none => (⟨some .queueFull, none, []⟩, b)

section Deliver
variable {b : Mailbox} {message : Message} {kept : Mailbox} {waits : Option Mailbox}

theorem deliver_wanted {receiver : ℕ} {receivers : List ℕ} (h : b.receivers = receiver :: receivers) :
    b.deliver message kept waits =
      (⟨some .success, none, [(receiver, .success, some message)]⟩, { b with receivers := receivers }) := by
  simp [deliver, h]

theorem deliver_kept (h : b.receivers = []) (hroom : b.stored.length < b.capacity) :
    b.deliver message kept waits = (⟨some .success, none, []⟩, kept) := by
  simp [deliver, h, hroom]

theorem deliver_waits (h : b.receivers = []) (hroom : ¬ b.stored.length < b.capacity) {c : Mailbox} :
    b.deliver message kept (some c) = (⟨none, none, []⟩, c) := by
  simp [deliver, h, hroom]

theorem deliver_refused (h : b.receivers = []) (hroom : ¬ b.stored.length < b.capacity) :
    b.deliver message kept none = (⟨some .queueFull, none, []⟩, b) := by
  simp [deliver, h, hroom]

end Deliver

def receive (b : Mailbox) (thread : ℕ) (wait : Prop) [Decidable wait] : Outcome × Mailbox :=
  match b.front, b.stored, b.back with
  | (sender, message) :: front, _, _ =>
    (⟨some .success, some message, [(sender, .success, some message)]⟩, { b with front := front })
  | [], message :: stored, (sender, next) :: back =>
    (⟨some .success, some message, [(sender, .success, some next)]⟩, { b with stored := stored ++ [next], back := back })
  | [], message :: stored, [] => (⟨some .success, some message, []⟩, { b with stored := stored })
  | [], [], _ =>
    if wait then (⟨none, none, []⟩, { b with receivers := b.receivers ++ [thread] })
    else (⟨some .queueEmpty, none, []⟩, b)

section Receive
variable {b : Mailbox} {thread sender : ℕ} {message next : Message} {front back : List (ℕ × Message)}
  {stored : List Message} {wait : Prop} [Decidable wait]

theorem receive_front (hfront : b.front = (sender, message) :: front) : b.receive thread wait =
    (⟨some .success, some message, [(sender, .success, some message)]⟩, { b with front := front }) := by
  simp [receive, hfront]

theorem receive_back (hfront : b.front = []) (hstored : b.stored = message :: stored)
    (hback : b.back = (sender, next) :: back) : b.receive thread wait =
      (⟨some .success, some message, [(sender, .success, some next)]⟩,
        { b with stored := stored ++ [next], back := back }) := by
  simp [receive, hfront, hstored, hback]

theorem receive_stored (hfront : b.front = []) (hstored : b.stored = message :: stored) (hback : b.back = []) :
    b.receive thread wait = (⟨some .success, some message, []⟩, { b with stored := stored }) := by
  simp [receive, hfront, hstored, hback]

theorem receive_empty (hfront : b.front = []) (hstored : b.stored = []) : b.receive thread wait =
    if wait then (⟨none, none, []⟩, { b with receivers := b.receivers ++ [thread] })
    else (⟨some .queueEmpty, none, []⟩, b) := by
  simp [receive, hfront, hstored]

end Receive

def leave (b : Mailbox) (thread : ℕ) : Mailbox :=
  { b with
    front := b.front.filter fun p => p.1 ≠ thread
    back := b.back.filter fun p => p.1 ≠ thread
    receivers := b.receivers.filter fun t => t ≠ thread }

/-- Messages are so many words long. -/
def call (size : ℕ) (b : Mailbox) : Call → Outcome × Mailbox
  | .send thread source preemptDisable waitOption =>
    let message := slice source 0 size
    b.deliver message { b with stored := b.stored ++ [message] }
      (if canWait preemptDisable waitOption then some { b with back := b.back ++ [(thread, message)] } else none)
  | .frontSend thread source preemptDisable waitOption =>
    let message := slice source 0 size
    b.deliver message { b with stored := message :: b.stored }
      (if canWait preemptDisable waitOption then some { b with front := (thread, message) :: b.front } else none)
  | .receive thread preemptDisable waitOption => b.receive thread (canWait preemptDisable waitOption)
  | .flush =>
    if b.stored = [] then (⟨some .success, none, []⟩, b)
    else
      (⟨some .success, none, (b.front ++ b.back).map fun p => (p.1, .success, some p.2)⟩,
        { b with front := [], stored := [], back := [] })
  | .cleanup thread terminated =>
    if thread ∈ b.waiting then
      (⟨none, none, if terminated then [] else [(thread, if b.stored = [] then .queueEmpty else .queueFull, none)]⟩,
        b.leave thread)
    else (⟨none, none, []⟩, b)

end Mailbox

end EtherBench.ThreadX.Mailboxes
