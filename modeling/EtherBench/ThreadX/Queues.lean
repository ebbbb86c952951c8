import EtherBench.Library.Circular
import EtherBench.Library.Memory

/-! # The message queues of ThreadX

`tx_queue_create.c`, `tx_queue_send.c`, `tx_queue_front_send.c`, `tx_queue_receive.c`, `tx_queue_flush.c` and
`tx_queue_cleanup.c`: the messages come round in an area of words, and the threads that wait are in a circular
list. Pointers into the area are places in it, and the memory that a caller has passed a pointer to is its `buffer`.
Every critical section is one step, and so is a flush, which goes through the threads with preemption disabled.
-/

namespace EtherBench.ThreadX.Queues
open Library.Circular

inductive Status where
  | success
  | queueEmpty
  | queueFull
  deriving DecidableEq

structure Thread where
  suspendOption : Bool
  suspendStatus : Status
  /-- The cleanup routine is that of the queues. -/
  waiting : Bool
  buffer : ℕ → UInt32

structure Queue where
  messageSize : ℕ
  capacity : ℕ
  area : ℕ → UInt32
  queueEnd : ℕ
  read : ℕ
  write : ℕ
  enqueued : ℕ
  availableStorage : ℕ
  suspensionList : Option ℕ
  suspendedCount : ℕ
  links : Links ℕ
  thread : ℕ → Thread

def txNoWait : ℕ := 0

/-- `tx_queue_create`, for an area of so many bytes. -/
def queueCreate (messageSize queueSize : ℕ) (area : ℕ → UInt32) (links : Links ℕ) (thread : ℕ → Thread) : Queue where
  messageSize := messageSize
  capacity := queueSize / (messageSize * 4)
  area := area
  queueEnd := queueSize / (messageSize * 4) * messageSize
  read := 0
  write := 0
  enqueued := 0
  availableStorage := queueSize / (messageSize * 4)
  suspensionList := none
  suspendedCount := 0
  links := links
  thread := thread

/-! ## Messages -/

def copyWords (source : ℕ → UInt32) (s : ℕ) (destination : ℕ → UInt32) (d : ℕ) : ℕ → ℕ → UInt32
  | 0 => destination
  | n + 1 => copyWords source (s + 1) (Function.update destination d (source s)) (d + 1) n

/-- `TX_QUEUE_MESSAGE_COPY`, which copies a word before it looks at the size. -/
def messageCopy (source : ℕ → UInt32) (s : ℕ) (destination : ℕ → UInt32) (d size : ℕ) : ℕ → UInt32 :=
  copyWords source s destination d (if 1 < size then size else 1)

def Queue.behind (q : Queue) (place : ℕ) : ℕ :=
  let place := place + if 1 < q.messageSize then q.messageSize else 1
  if place = q.queueEnd then 0 else place

def Queue.put (q : Queue) (source : ℕ → UInt32) : Queue :=
  { q with
    area := messageCopy source 0 q.area q.write q.messageSize
    write := q.behind q.write }

/-- The message that is read next goes to the memory of a thread. -/
def Queue.get (q : Queue) (thread : ℕ) : Queue :=
  let t := q.thread thread
  { q with
    thread := Function.update q.thread thread { t with buffer := messageCopy q.area q.read t.buffer 0 q.messageSize }
    read := q.behind q.read }

@[simp] theorem Queue.get_buffer (q : Queue) (thread : ℕ) : ((q.get thread).thread thread).buffer =
    messageCopy q.area q.read (q.thread thread).buffer 0 q.messageSize := by
  simp [Queue.get]

@[simp] theorem Queue.get_messageSize (q : Queue) (thread : ℕ) : (q.get thread).messageSize = q.messageSize := rfl

/-- From the memory of a caller to that of a thread that has waited. -/
def Queue.hand (q : Queue) (source : ℕ → UInt32) (thread : ℕ) : Queue :=
  let t := q.thread thread
  { q with
    thread := Function.update q.thread thread { t with buffer := messageCopy source 0 t.buffer 0 q.messageSize } }

/-! ## The threads that wait -/

/-- The caller joins the circular list, last or, for a message that goes to the front, first. -/
def Queue.suspend (q : Queue) (thread : ℕ) (buffer : ℕ → UInt32) (front : Bool) : Queue :=
  let t := q.thread thread
  let q' := { q with
    thread := Function.update q.thread thread { t with buffer := buffer, suspendOption := front, waiting := true }
    suspendedCount := q.suspendedCount + 1 }
  if q.suspendedCount = 0 then { q' with suspensionList := some thread, links := alone q.links thread }
  else
    match q.suspensionList with
    | none => q'
    | some head =>
      { q' with
        suspensionList := some (if front then thread else head)
        links := linkBefore q.links head thread }

def Queue.unsuspend (q : Queue) (thread : ℕ) : Queue :=
  if q.suspendedCount - 1 = 0 then { q with suspensionList := none, suspendedCount := q.suspendedCount - 1 }
  else
    { q with
      suspensionList := some (q.links.next thread)
      links := unlink q.links thread
      suspendedCount := q.suspendedCount - 1 }

def Queue.left (q : Queue) (thread : ℕ) : Queue :=
  let q' := { q with
    thread := Function.update q.thread thread { q.thread thread with waiting := false }
    suspendedCount := q.suspendedCount - 1 }
  if q.suspendedCount - 1 = 0 then { q' with suspensionList := none }
  else
    { q' with
      links := unlink q.links thread
      suspensionList := if q.suspensionList = some thread then some (q.links.next thread) else q.suspensionList }

theorem Queue.suspend_eq (q : Queue) (thread : ℕ) (buffer : ℕ → UInt32) (front : Bool) : ∃ suspensionList links,
    q.suspend thread buffer front = { q with
      thread := Function.update q.thread thread
        { q.thread thread with buffer := buffer, suspendOption := front, waiting := true }
      suspendedCount := q.suspendedCount + 1
      suspensionList := suspensionList
      links := links } := by
  rw [Queue.suspend]
  split
  · exact ⟨_, _, rfl⟩
  · split
    · exact ⟨q.suspensionList, q.links, rfl⟩
    · exact ⟨_, _, rfl⟩

theorem Queue.unsuspend_eq (q : Queue) (thread : ℕ) : ∃ suspensionList links, q.unsuspend thread = { q with
    suspensionList := suspensionList
    links := links
    suspendedCount := q.suspendedCount - 1 } := by
  rw [Queue.unsuspend]
  split
  · exact ⟨none, q.links, rfl⟩
  · exact ⟨_, _, rfl⟩

theorem Queue.left_eq (q : Queue) (thread : ℕ) : ∃ suspensionList links, q.left thread = { q with
    suspensionList := suspensionList
    links := links
    suspendedCount := q.suspendedCount - 1
    thread := Function.update q.thread thread { q.thread thread with waiting := false } } := by
  rw [Queue.left]
  split
  · exact ⟨none, q.links, rfl⟩
  · exact ⟨_, _, rfl⟩

/-- The thread is told the status, and waits no more. -/
def Queue.resume (q : Queue) (thread : ℕ) (status : Status) : Queue :=
  { q with thread := Function.update q.thread thread { q.thread thread with waiting := false, suspendStatus := status } }

/-- The status that a call returns, `none` while its caller waits, and the threads that are resumed by it. -/
structure Result where
  status : Option Status
  resumed : List ℕ
  queue : Queue

/-- The end of a call that finds no room, or no message. -/
def Queue.waitOr (q : Queue) (status : Status) (preemptDisable waitOption thread : ℕ) (buffer : ℕ → UInt32)
    (front : Bool) : Result :=
  if waitOption ≠ txNoWait then
    if preemptDisable ≠ 0 then ⟨some status, [], q⟩ else ⟨none, [], q.suspend thread buffer front⟩
  else ⟨some status, [], q⟩

/-! ## The calls -/

section Calls
variable (q : Queue) (preemptDisable thread : ℕ)

def queueSend (source : ℕ → UInt32) (waitOption : ℕ) : Result :=
  if q.availableStorage ≠ 0 then
    if q.suspendedCount = 0 then
      ⟨some .success, [],
        { q.put source with availableStorage := q.availableStorage - 1, enqueued := q.enqueued + 1 }⟩
    else
      match q.suspensionList with
      | none => ⟨some .success, [], q⟩
      | some head => ⟨some .success, [head], ((q.unsuspend head).hand source head).resume head .success⟩
  else q.waitOr .queueFull preemptDisable waitOption thread source false

def queueFrontSend (source : ℕ → UInt32) (waitOption : ℕ) : Result :=
  if q.availableStorage ≠ 0 then
    if q.suspendedCount = 0 then
      let read := (if q.read = 0 then q.queueEnd else q.read) - q.messageSize
      ⟨some .success, [],
        { q with
          read := read
          area := messageCopy source 0 q.area read q.messageSize
          availableStorage := q.availableStorage - 1
          enqueued := q.enqueued + 1 }⟩
    else
      match q.suspensionList with
      | none => ⟨some .success, [], q⟩
      | some head => ⟨some .success, [head], ((q.unsuspend head).hand source head).resume head .success⟩
  else q.waitOr .queueFull preemptDisable waitOption thread source true

def queueReceive (waitOption : ℕ) : Result :=
  if q.enqueued ≠ 0 then
    if q.suspendedCount = 0 then
      ⟨some .success, [],
        { q.get thread with availableStorage := q.availableStorage + 1, enqueued := q.enqueued - 1 }⟩
    else
      match q.suspensionList with
      | none => ⟨some .success, [], q⟩
      | some head =>
        if (q.thread head).suspendOption then
          ⟨some .success, [head], ((q.hand (q.thread head).buffer thread).unsuspend head).resume head .success⟩
        else
          -- The queue is full: the message of the first thread takes the place of the one received.
          let q := q.get thread
          ⟨some .success, [head], ((q.put (q.thread head).buffer).unsuspend head).resume head .success⟩
  else q.waitOr .queueEmpty preemptDisable waitOption thread (q.thread thread).buffer false

/-- The threads of the list one after the other, each told of success. -/
def flushLoop : ℕ → ℕ → Queue → List ℕ × Queue
  | 0, _, q => ([], q)
  | n + 1, thread, q =>
    let next := q.links.next thread
    let (resumed, t) := flushLoop n next (q.resume thread .success)
    (q.links.previous next :: resumed, t)

def queueFlush : Result :=
  if q.enqueued ≠ 0 then
    let flushed := { q with enqueued := 0, availableStorage := q.capacity, read := 0, write := 0 }
    if q.suspendedCount ≠ 0 then
      match q.suspensionList with
      | none => ⟨some .success, [], { flushed with suspensionList := none, suspendedCount := 0 }⟩
      | some head =>
        let (resumed, t) := flushLoop q.suspendedCount head { flushed with suspensionList := none, suspendedCount := 0 }
        ⟨some .success, resumed, t⟩
    else ⟨some .success, [], flushed⟩
  else ⟨some .success, [], q⟩

/-- `tx_queue_cleanup`: the wait of a thread ends by a timeout or, without a status, by its termination. -/
def queueCleanup (terminated : Bool) : Result :=
  if (q.thread thread).waiting ∧ q.suspendedCount ≠ 0 then
    if terminated then ⟨none, [], q.left thread⟩
    else ⟨none, [thread], (q.left thread).resume thread (if q.enqueued ≠ 0 then .queueFull else .queueEmpty)⟩
  else ⟨none, [], q⟩

end Calls

end EtherBench.ThreadX.Queues
