import EtherBench.ThreadX.Mailboxes

/-! # A queue is a mailbox

The area, the places in it and the circular list of threads come to no more than a mailbox does, whatever calls are
made in whatever order.
-/

namespace EtherBench.ThreadX.Delivery
open Library.Circular Library.Memory Queues Mailboxes

/-! ## One call, as the code carries it out -/

def invoke (q : Queue) : Call → Result
  | .send thread source preemptDisable waitOption => queueSend q preemptDisable thread source waitOption
  | .frontSend thread source preemptDisable waitOption => queueFrontSend q preemptDisable thread source waitOption
  | .receive thread preemptDisable waitOption => queueReceive q preemptDisable thread waitOption
  | .flush => queueFlush q
  | .cleanup thread terminated => queueCleanup q thread terminated

def messageOf (q : Queue) (thread : ℕ) : Message := slice (q.thread thread).buffer 0 q.messageSize

def outcome (result : Result) (call : Call) : Outcome where
  returned := result.status
  received :=
    match call with
    | .receive thread _ _ => if result.status = some .success then some (messageOf result.queue thread) else none
    | _ => none
  resumed := result.resumed.map fun t =>
    let status := (result.queue.thread t).suspendStatus
    (t, status, if status = .success then some (messageOf result.queue t) else none)

variable {q : Queue} {b : Mailbox} {size capacity : ℕ} {stored : List Message} {waiting : List ℕ}

/-! ## Messages in the area -/

theorem copyWords_eq (source : ℕ → UInt32) (s : ℕ) (destination : ℕ → UInt32) (d n : ℕ) :
    copyWords source s destination d n = write destination d (slice source s n) := by
  induction n generalizing s destination d with
  | zero =>
    funext i
    simp [copyWords, write]
  | succ n ih =>
    have hfirst : write destination d [source s] = Function.update destination d (source s) := by
      funext i
      rcases Nat.lt_trichotomy i d with hlt | rfl | hgt
      · rw [write_before _ hlt, Function.update_of_ne (Nat.ne_of_lt hlt)]
      · simp [write]
      · rw [write_after _ hgt, Function.update_of_ne (Nat.ne_of_gt hgt)]
    rw [copyWords, ih, slice_succ, ← List.singleton_append, write_append, hfirst]
    rfl

theorem messageCopy_eq (hsize : 0 < size) (source : ℕ → UInt32) (s : ℕ) (destination : ℕ → UInt32) (d : ℕ) :
    messageCopy source s destination d size = write destination d (slice source s size) := by
  have hcount : (if 1 < size then size else 1) = size := by split <;> omega
  rw [messageCopy, hcount, copyWords_eq]

theorem slice_messageCopy (hsize : 0 < size) (source : ℕ → UInt32) (s : ℕ) (destination : ℕ → UInt32) (d : ℕ) :
    slice (messageCopy source s destination d size) d size = slice source s size := by
  have hwritten := slice_write destination d (slice source s size)
  rwa [slice_length, ← messageCopy_eq hsize] at hwritten

def slot (size : ℕ) (area : ℕ → UInt32) (k : ℕ) : Message := slice area (k * size) size

theorem slot_messageCopy (hsize : 0 < size) (source area : ℕ → UInt32) {k n : ℕ} (hne : k ≠ n) :
    slot size (messageCopy source 0 area (n * size) size) k = slot size area k := by
  rw [messageCopy_eq hsize]
  refine slice_congr fun i hlow hhigh => ?_
  rcases Nat.lt_or_gt_of_ne hne with hlt | hgt
  · have hle : (k + 1) * size ≤ n * size := Nat.mul_le_mul_right size hlt
    rw [Nat.succ_mul] at hle
    exact write_before _ (by omega) _
  · have hle : (n + 1) * size ≤ k * size := Nat.mul_le_mul_right size hgt
    rw [Nat.succ_mul] at hle
    exact write_after _ (by rw [slice_length]; omega)

theorem slot_messageCopy_self (hsize : 0 < size) (source area : ℕ → UInt32) (k : ℕ) :
    slot size (messageCopy source 0 area (k * size) size) k = slice source 0 size :=
  slice_messageCopy hsize source 0 area (k * size)

structure Area (size : ℕ) (area : ℕ → UInt32) (queueEnd read write capacity : ℕ) (stored : List Message) : Prop where
  size_pos : 0 < size
  capacity_pos : 0 < capacity
  queueEnd_eq : queueEnd = capacity * size
  window_eq : ∃ r < capacity, read = r * size ∧ write = (r + stored.length) % capacity * size ∧
    window (slot size area) capacity r stored.length = stored

theorem behind_eq (hsize : 0 < q.messageSize) (hend : q.queueEnd = capacity * q.messageSize) {k : ℕ} (hk : k < capacity) :
    q.behind (k * q.messageSize) = (k + 1) % capacity * q.messageSize := by
  have hcount : (if 1 < q.messageSize then q.messageSize else 1) = q.messageSize := by split <;> omega
  rw [Queue.behind, hcount, ← Nat.succ_mul, hend]
  rcases Nat.eq_or_lt_of_le (Nat.succ_le_of_lt hk) with heq | hlt
  · rw [if_pos (by rw [heq]), show k + 1 = capacity from heq, Nat.mod_self, Nat.zero_mul]
  · rw [if_neg fun heq => Nat.ne_of_lt hlt (Nat.eq_of_mul_eq_mul_right hsize heq), Nat.mod_eq_of_lt hlt]

theorem Area.put (h : Area q.messageSize q.area q.queueEnd q.read q.write capacity stored) (hroom : stored.length < capacity)
    (source : ℕ → UInt32) : Area q.messageSize (q.put source).area q.queueEnd q.read (q.put source).write capacity
      (stored ++ [slice source 0 q.messageSize]) := by
  obtain ⟨hsize, hcapacity, hend, r, hr, hread, hwrite, hwindow⟩ := h
  refine ⟨hsize, hcapacity, hend, r, hr, hread, ?_, ?_⟩
  · rw [Queue.put, hwrite]
    dsimp only
    rw [behind_eq hsize hend (Nat.mod_lt _ hcapacity), List.length_append, List.length_singleton, Nat.mod_add_mod,
      Nat.add_assoc]
  · rw [List.length_append, List.length_singleton, window_succ, Queue.put, hwrite]
    dsimp only
    rw [slot_messageCopy_self hsize, window_congr fun i hi => slot_messageCopy hsize source q.area (slot_ne hi hroom),
      hwindow]

theorem Area.get (h : Area q.messageSize q.area q.queueEnd q.read q.write capacity (message :: stored)) (thread : ℕ) :
    slice ((q.get thread).thread thread).buffer 0 q.messageSize = message ∧
      Area q.messageSize q.area q.queueEnd (q.get thread).read q.write capacity stored := by
  obtain ⟨hsize, hcapacity, hend, r, hr, hread, hwrite, hwindow⟩ := h
  rw [List.length_cons, window_cons, Nat.mod_eq_of_lt hr] at hwindow
  obtain ⟨hfirst, hrest⟩ := List.cons.inj hwindow
  constructor
  · rw [Queue.get_buffer, slice_messageCopy hsize, hread]
    exact hfirst
  · refine ⟨hsize, hcapacity, hend, (r + 1) % capacity, Nat.mod_lt _ hcapacity, ?_, ?_, hrest⟩
    · rw [Queue.get, hread]
      exact behind_eq hsize hend hr
    · rw [hwrite, List.length_cons, Nat.mod_add_mod, Nat.add_assoc, Nat.add_comm 1]

theorem Area.putFront (h : Area q.messageSize q.area q.queueEnd q.read q.write capacity stored)
    (hroom : stored.length < capacity) (source : ℕ → UInt32) :
    let read := (if q.read = 0 then q.queueEnd else q.read) - q.messageSize
    Area q.messageSize (messageCopy source 0 q.area read q.messageSize) q.queueEnd read q.write capacity
      (slice source 0 q.messageSize :: stored) := by
  obtain ⟨hsize, hcapacity, hend, r, hr, hread, hwrite, hwindow⟩ := h
  have hplace : ∃ k < capacity, (k + 1) % capacity = r ∧
      (if q.read = 0 then q.queueEnd else q.read) - q.messageSize = k * q.messageSize := by
    cases r with
    | zero =>
      refine ⟨capacity - 1, by omega, ?_, ?_⟩
      · rw [Nat.sub_add_cancel hcapacity, Nat.mod_self]
      · rw [if_pos (by rw [hread, Nat.zero_mul]), hend, Nat.sub_one_mul]
    | succ k =>
      refine ⟨k, by omega, Nat.mod_eq_of_lt hr, ?_⟩
      have hpos : q.read ≠ 0 := by
        rw [hread]
        exact Nat.ne_of_gt (Nat.mul_pos (Nat.succ_pos k) hsize)
      rw [if_neg hpos, hread, Nat.succ_mul, Nat.add_sub_cancel]
  obtain ⟨k, hk, hnext, hplace⟩ := hplace
  dsimp only
  rw [hplace]
  have hout (i : ℕ) (hi : i < stored.length) : (r + i) % capacity ≠ k := by
    intro heq
    have hcount : (r + i + 1) % capacity = (r + 0) % capacity := by
      rw [← Nat.mod_add_mod, heq, hnext, Nat.add_zero, Nat.mod_eq_of_lt hr]
    rw [Nat.add_assoc] at hcount
    exact slot_ne (Nat.succ_pos i) (by omega) hcount.symm
  refine ⟨hsize, hcapacity, hend, k, hk, rfl, ?_, ?_⟩
  · rw [hwrite, List.length_cons, ← hnext, Nat.mod_add_mod, Nat.add_assoc, Nat.add_comm 1]
  · rw [List.length_cons, window_cons, Nat.mod_eq_of_lt hk, slot_messageCopy_self hsize, hnext,
      window_congr fun i hi => slot_messageCopy hsize source q.area (hout i hi), hwindow]

/-! ## Threads in the list -/

structure Lists (q : Queue) (waiting : List ℕ) : Prop where
  ring : IsRing q.links waiting
  head : q.suspensionList = waiting.head?
  count : q.suspendedCount = waiting.length
  flag : ∀ t, (q.thread t).waiting = true ↔ t ∈ waiting

section Lists
variable {q' : Queue} {thread : ℕ} {rest : List ℕ}

theorem Lists.congr (h : Lists q waiting) (hlinks : q'.links = q.links) (hhead : q'.suspensionList = q.suspensionList)
    (hcount : q'.suspendedCount = q.suspendedCount) (hflag : ∀ t, (q'.thread t).waiting = (q.thread t).waiting) :
    Lists q' waiting :=
  ⟨hlinks ▸ h.ring, hhead ▸ h.head, hcount ▸ h.count, fun t => by rw [hflag t, h.flag t]⟩

theorem Lists.put (h : Lists q waiting) (source : ℕ → UInt32) : Lists (q.put source) waiting :=
  h.congr rfl rfl rfl fun _ => rfl

theorem update_waiting (q : Queue) (thread : ℕ) (buffer : ℕ → UInt32) (t : ℕ) :
    (Function.update q.thread thread { q.thread thread with buffer := buffer } t).waiting = (q.thread t).waiting := by
  by_cases ht : t = thread
  · rw [ht, Function.update_self]
  · rw [Function.update_of_ne ht]

theorem Lists.get (h : Lists q waiting) (thread : ℕ) : Lists (q.get thread) waiting :=
  h.congr rfl rfl rfl (update_waiting q thread _)

theorem Lists.hand (h : Lists q waiting) (source : ℕ → UInt32) (thread : ℕ) : Lists (q.hand source thread) waiting :=
  h.congr rfl rfl rfl (update_waiting q thread _)

theorem Lists.suspend (h : Lists q waiting) (hout : thread ∉ waiting) (buffer : ℕ → UInt32) (front : Bool) :
    Lists (q.suspend thread buffer front) (if front then thread :: waiting else waiting ++ [thread]) := by
  obtain ⟨_, _, hsame⟩ := q.suspend_eq thread buffer front
  have hflag (t : ℕ) : ((q.suspend thread buffer front).thread t).waiting = true ↔ t = thread ∨ t ∈ waiting := by
    rw [hsame]
    by_cases ht : t = thread
    · simp [ht]
    · simp [ht, h.flag t]
  have hcount : (q.suspend thread buffer front).suspendedCount = waiting.length + 1 := by rw [hsame, h.count]
  have hmem (t : ℕ) : t ∈ (if front then thread :: waiting else waiting ++ [thread]) ↔ t = thread ∨ t ∈ waiting := by
    cases front <;> simp [or_comm]
  have hlength : (if front then thread :: waiting else waiting ++ [thread]).length = waiting.length + 1 := by
    cases front <;> simp
  cases waiting with
  | nil =>
    have hnone : q.suspendedCount = 0 := h.count
    refine ⟨?_, ?_, hcount.trans hlength.symm, fun t => (hflag t).trans (hmem t).symm⟩
    · rw [Queue.suspend, if_pos hnone]
      cases front <;> exact isRing_alone q.links thread
    · rw [Queue.suspend, if_pos hnone]
      cases front <;> rfl
  | cons head rest =>
    have hsome : q.suspendedCount ≠ 0 := by
      rw [h.count]
      exact Nat.succ_ne_zero _
    refine ⟨?_, ?_, hcount.trans hlength.symm, fun t => (hflag t).trans (hmem t).symm⟩
    · have hring := h.ring.linkBefore hout
      rw [Queue.suspend, if_neg hsome, h.head]
      cases front with
      | true => exact hring
      | false => exact isRing_append_comm.mpr hring
    · rw [Queue.suspend, if_neg hsome, h.head]
      cases front <;> rfl

theorem Lists.release (h : Lists q (thread :: rest)) (status : Status) :
    Lists ((q.unsuspend thread).resume thread status) rest := by
  have hnodup := List.nodup_cons.mp h.ring.nodup
  have hcount : q.suspendedCount - 1 = rest.length := by rw [h.count, List.length_cons, Nat.add_sub_cancel]
  have hflag (t : ℕ) : (((q.unsuspend thread).resume thread status).thread t).waiting = true ↔ t ∈ rest := by
    obtain ⟨_, _, hsame⟩ := q.unsuspend_eq thread
    rw [hsame, Queue.resume]
    by_cases ht : t = thread
    · simp [ht, hnodup.1]
    · simp [ht, h.flag t]
  cases rest with
  | nil =>
    rw [List.length_nil] at hcount
    rw [Queue.unsuspend, if_pos hcount] at hflag ⊢
    exact ⟨trivial, rfl, hcount, hflag⟩
  | cons next rest =>
    rw [Queue.unsuspend, if_neg (by rw [hcount]; exact Nat.succ_ne_zero _)] at hflag ⊢
    exact ⟨h.ring.unlink_head, congrArg some h.ring.next_head, hcount, hflag⟩

end Lists

/-! ## The calls -/

/-- A thread waits with a message, for the front or for the back. -/
def Offers (q : Queue) (front : Bool) (p : ℕ × Message) : Prop :=
  (q.thread p.1).suspendOption = front ∧ messageOf q p.1 = p.2

structure Represents (q : Queue) (b : Mailbox) : Prop where
  area : Area q.messageSize q.area q.queueEnd q.read q.write b.capacity b.stored
  capacity : q.capacity = b.capacity
  enqueued : q.enqueued = b.stored.length
  available : q.availableStorage + b.stored.length = b.capacity
  lists : Lists q b.waiting
  front : ∀ p ∈ b.front, Offers q true p
  back : ∀ p ∈ b.back, Offers q false p
  /-- A sender waits for room only. -/
  full : b.front ≠ [] ∨ b.back ≠ [] → b.stored.length = b.capacity
  /-- A receiver waits for a message only. -/
  empty : b.receivers ≠ [] → b.stored = []

theorem Represents.no_senders (h : Represents q b) (hroom : b.stored.length < b.capacity) : b.front = [] ∧ b.back = [] := by
  by_contra hsenders
  exact Nat.ne_of_lt hroom (h.full (by tauto))

theorem Represents.no_receivers (h : Represents q b) (hstored : b.stored ≠ []) : b.receivers = [] := by
  by_contra hreceivers
  exact hstored (h.empty hreceivers)

theorem Offers.congr {q' : Queue} {front : Bool} {p : ℕ × Message} (h : Offers q front p)
    (hthread : q'.thread p.1 = q.thread p.1) (hsize : q'.messageSize = q.messageSize) : Offers q' front p := by
  rw [Offers, messageOf, hthread, hsize]
  exact h

theorem mem_waiting_front {p : ℕ × Message} (hp : p ∈ b.front) : p.1 ∈ b.waiting := by
  rw [Mailbox.waiting, List.mem_append, List.mem_append]
  exact Or.inl (Or.inl (List.mem_map_of_mem hp))

theorem mem_waiting_back {p : ℕ × Message} (hp : p ∈ b.back) : p.1 ∈ b.waiting := by
  rw [Mailbox.waiting, List.mem_append, List.mem_append]
  exact Or.inl (Or.inr (List.mem_map_of_mem hp))

/-! ### Waits -/

section Waits
variable {thread : ℕ}

theorem offers_suspended (q : Queue) (thread : ℕ) (source : ℕ → UInt32) (front : Bool) :
    Offers (q.suspend thread source front) front (thread, slice source 0 q.messageSize) := by
  obtain ⟨_, _, hsame⟩ := q.suspend_eq thread source front
  rw [hsame]
  simp [Offers, messageOf]

variable (hout : thread ∉ b.waiting)
include hout

theorem Offers.suspend {p : ℕ × Message} {front : Bool} (hp : Offers q front p) (hwaits : p.1 ∈ b.waiting)
    (buffer : ℕ → UInt32) (front' : Bool) : Offers (q.suspend thread buffer front') front p := by
  obtain ⟨_, _, hsame⟩ := q.suspend_eq thread buffer front'
  have hne : p.1 ≠ thread := fun heq => hout (heq ▸ hwaits)
  rw [hsame]
  exact hp.congr (Function.update_of_ne hne _ _) rfl

theorem waits_back (h : Represents q b) (hfull : b.stored.length = b.capacity) (source : ℕ → UInt32) :
    Represents (q.suspend thread source false)
      { b with back := b.back ++ [(thread, slice source 0 q.messageSize)] } := by
  have hstored : b.stored ≠ [] := List.ne_nil_of_length_pos (hfull ▸ h.area.capacity_pos)
  have hreceivers := h.no_receivers hstored
  have hlists := h.lists.suspend hout source false
  have hoffers := offers_suspended q thread source false
  have hfront := fun p hp => (h.front p hp).suspend hout (mem_waiting_front hp) source false
  have hback := fun p hp => (h.back p hp).suspend hout (mem_waiting_back hp) source false
  obtain ⟨_, _, hsame⟩ := q.suspend_eq thread source false
  rw [hsame] at hlists hoffers hfront hback ⊢
  refine ⟨h.area, h.capacity, h.enqueued, h.available, ?_, hfront, fun p hp => ?_, fun _ => hfull, h.empty⟩
  · simpa [Mailbox.waiting, hreceivers] using hlists
  · rcases List.mem_append.mp hp with hp | hp
    · exact hback p hp
    · exact List.mem_singleton.mp hp ▸ hoffers

theorem waits_front (h : Represents q b) (hfull : b.stored.length = b.capacity) (source : ℕ → UInt32) :
    Represents (q.suspend thread source true)
      { b with front := (thread, slice source 0 q.messageSize) :: b.front } := by
  have hlists := h.lists.suspend hout source true
  have hoffers := offers_suspended q thread source true
  have hfront := fun p hp => (h.front p hp).suspend hout (mem_waiting_front hp) source true
  have hback := fun p hp => (h.back p hp).suspend hout (mem_waiting_back hp) source true
  obtain ⟨_, _, hsame⟩ := q.suspend_eq thread source true
  rw [hsame] at hlists hoffers hfront hback ⊢
  refine ⟨h.area, h.capacity, h.enqueued, h.available, hlists, fun p hp => ?_, hback, fun _ => hfull, h.empty⟩
  rcases List.mem_cons.mp hp with rfl | hp
  · exact hoffers
  · exact hfront p hp

theorem waits_receiver (h : Represents q b) (hstored : b.stored = []) (buffer : ℕ → UInt32) :
    Represents (q.suspend thread buffer false) { b with receivers := b.receivers ++ [thread] } := by
  obtain ⟨hfront, hback⟩ := h.no_senders (by rw [hstored]; exact h.area.capacity_pos)
  have hlists := h.lists.suspend hout buffer false
  obtain ⟨_, _, hsame⟩ := q.suspend_eq thread buffer false
  rw [hsame] at hlists ⊢
  refine ⟨h.area, h.capacity, h.enqueued, h.available, ?_, by simp [hfront], by simp [hback], h.full, fun _ => hstored⟩
  simpa [Mailbox.waiting] using hlists

end Waits

theorem waitOr_eq (q : Queue) (status : Status) (preemptDisable waitOption thread : ℕ) (buffer : ℕ → UInt32) (front : Bool) :
    q.waitOr status preemptDisable waitOption thread buffer front =
      if canWait preemptDisable waitOption then ⟨none, [], q.suspend thread buffer front⟩ else ⟨some status, [], q⟩ := by
  by_cases hwait : canWait preemptDisable waitOption
  · rw [if_pos hwait, Queue.waitOr, if_pos hwait.1, if_neg (not_not.mpr hwait.2)]
  · rw [if_neg hwait, Queue.waitOr]
    by_cases hoption : waitOption = txNoWait
    · rw [if_neg (not_not.mpr hoption)]
    · rw [if_pos hoption, if_pos fun hpreempt => hwait ⟨hoption, hpreempt⟩]

/-! ### Messages that are sent -/

section Sends
variable (h : Represents q b)
include h

/-- The message goes to the first thread that waits for one. -/
theorem handed {receiver : ℕ} {receivers : List ℕ} (hreceivers : b.receivers = receiver :: receivers)
    (source : ℕ → UInt32) :
    let t := ((q.unsuspend receiver).hand source receiver).resume receiver .success
    (t.thread receiver).suspendStatus = .success ∧ messageOf t receiver = slice source 0 q.messageSize ∧
      Represents t { b with receivers := receivers } ∧ t.messageSize = q.messageSize := by
  have hstored := h.empty (by simp [hreceivers])
  obtain ⟨hfront, hback⟩ := h.no_senders (by rw [hstored]; exact h.area.capacity_pos)
  have hlists : Lists (((q.hand source receiver).unsuspend receiver).resume receiver .success) receivers := by
    refine Lists.release (Lists.hand ?_ source receiver) .success
    have hwaiting := h.lists
    rwa [Mailbox.waiting, hfront, hback, hreceivers] at hwaiting
  have hcomm : (q.unsuspend receiver).hand source receiver = (q.hand source receiver).unsuspend receiver := by
    have hcount : (q.hand source receiver).suspendedCount = q.suspendedCount := rfl
    rw [Queue.unsuspend, Queue.unsuspend, hcount]
    split <;> rfl
  rw [← hcomm] at hlists
  obtain ⟨_, _, hsame⟩ := q.unsuspend_eq receiver
  rw [hsame] at hlists ⊢
  refine ⟨by simp [Queue.resume], ?_, ⟨h.area, h.capacity, h.enqueued, h.available, ?_, by simp [hfront], by simp [hback],
    h.full, fun _ => hstored⟩, rfl⟩
  · simp [messageOf, Queue.resume, Queue.hand, slice_messageCopy h.area.size_pos]
  · simpa [Mailbox.waiting, hfront, hback] using hlists

theorem Represents.wanted {receiver : ℕ} {receivers : List ℕ} (hreceivers : b.receivers = receiver :: receivers) :
    q.availableStorage ≠ 0 ∧ q.suspendedCount ≠ 0 ∧ q.suspensionList = some receiver := by
  have hstored := h.empty (by simp [hreceivers])
  obtain ⟨hfront, hback⟩ := h.no_senders (by rw [hstored]; exact h.area.capacity_pos)
  have hcapacity := h.area.capacity_pos
  have havailable := h.available
  have hwaiting : b.waiting = receiver :: receivers := by simp [Mailbox.waiting, hfront, hback, hreceivers]
  rw [hstored, List.length_nil] at havailable
  refine ⟨by omega, ?_, ?_⟩
  · rw [h.lists.count, hwaiting]
    exact Nat.succ_ne_zero _
  · rw [h.lists.head, hwaiting]
    rfl

theorem Represents.idle (hroom : b.stored.length < b.capacity) (hreceivers : b.receivers = []) :
    b.front = [] ∧ b.back = [] ∧ q.suspendedCount = 0 ∧ q.availableStorage ≠ 0 := by
  obtain ⟨hfront, hback⟩ := h.no_senders hroom
  have hwaiting : b.waiting = [] := by simp [Mailbox.waiting, hfront, hback, hreceivers]
  have havailable := h.available
  refine ⟨hfront, hback, ?_, by omega⟩
  rw [h.lists.count, hwaiting, List.length_nil]

theorem put_spec (hroom : b.stored.length < b.capacity) (hreceivers : b.receivers = []) (source : ℕ → UInt32) :
    Represents { q.put source with availableStorage := q.availableStorage - 1, enqueued := q.enqueued + 1 }
      { b with stored := b.stored ++ [slice source 0 q.messageSize] } := by
  obtain ⟨hfront, hback, -, -⟩ := h.idle hroom hreceivers
  have havailable := h.available
  refine ⟨h.area.put hroom source, h.capacity, ?_, ?_, ?_, by simp [hfront], by simp [hback], by simp [hfront, hback],
    fun hne => absurd hreceivers hne⟩
  · simp [h.enqueued]
  · simp only [List.length_append, List.length_singleton]
    omega
  · exact h.lists.congr rfl rfl rfl fun _ => rfl

theorem putFront_spec (hroom : b.stored.length < b.capacity) (hreceivers : b.receivers = []) (source : ℕ → UInt32) :
    let read := (if q.read = 0 then q.queueEnd else q.read) - q.messageSize
    Represents { q with
        read := read
        area := messageCopy source 0 q.area read q.messageSize
        availableStorage := q.availableStorage - 1
        enqueued := q.enqueued + 1 }
      { b with stored := slice source 0 q.messageSize :: b.stored } := by
  obtain ⟨hfront, hback, -, -⟩ := h.idle hroom hreceivers
  have havailable := h.available
  refine ⟨h.area.putFront hroom source, h.capacity, ?_, ?_, ?_, by simp [hfront], by simp [hback],
    by simp [hfront, hback], fun hne => absurd hreceivers hne⟩
  · simp [h.enqueued]
  · simp only [List.length_cons]
    omega
  · exact h.lists.congr rfl rfl rfl fun _ => rfl

end Sends

/-! ### Every call -/

/-- What the callers see, and what is left, is what the mailbox makes of the call. -/
def Follows (q : Queue) (b : Mailbox) (call : Call) : Prop :=
  outcome (invoke q call) call = (b.call q.messageSize call).1 ∧
    Represents (invoke q call).queue (b.call q.messageSize call).2 ∧ (invoke q call).queue.messageSize = q.messageSize

section Calls
variable (h : Represents q b) {thread : ℕ} (hout : thread ∉ b.waiting) (source : ℕ → UInt32)
  (preemptDisable waitOption : ℕ)
include h hout

theorem send_follows : Follows q b (.send thread source preemptDisable waitOption) := by
  rw [Follows, invoke, Mailbox.call, queueSend]
  by_cases hreceivers : b.receivers = []
  case neg =>
    obtain ⟨receiver, receivers, hreceivers⟩ := List.exists_cons_of_ne_nil hreceivers
    obtain ⟨havailable, hcount, hhead⟩ := h.wanted hreceivers
    obtain ⟨hstatus, hmessage, hrepresents, hsize⟩ := handed h hreceivers source
    rw [if_pos havailable, if_neg hcount, hhead, Mailbox.deliver_wanted hreceivers]
    exact ⟨by simp [outcome, hstatus, hmessage], hrepresents, hsize⟩
  case pos =>
    by_cases hroom : b.stored.length < b.capacity
    · obtain ⟨-, -, hcount, havailable⟩ := h.idle hroom hreceivers
      rw [if_pos havailable, if_pos hcount, Mailbox.deliver_kept hreceivers hroom]
      exact ⟨rfl, put_spec h hroom hreceivers source, rfl⟩
    · have havailable := h.available
      have hnone : ¬ q.availableStorage ≠ 0 := by omega
      rw [if_neg hnone, waitOr_eq]
      by_cases hwait : canWait preemptDisable waitOption
      · obtain ⟨_, _, hsame⟩ := q.suspend_eq thread source false
        rw [if_pos hwait, if_pos hwait, Mailbox.deliver_waits hreceivers hroom]
        exact ⟨rfl, waits_back hout h (by omega) source, by rw [hsame]⟩
      · rw [if_neg hwait, if_neg hwait, Mailbox.deliver_refused hreceivers hroom]
        exact ⟨rfl, h, rfl⟩

theorem frontSend_follows : Follows q b (.frontSend thread source preemptDisable waitOption) := by
  rw [Follows, invoke, Mailbox.call, queueFrontSend]
  by_cases hreceivers : b.receivers = []
  case neg =>
    obtain ⟨receiver, receivers, hreceivers⟩ := List.exists_cons_of_ne_nil hreceivers
    obtain ⟨havailable, hcount, hhead⟩ := h.wanted hreceivers
    obtain ⟨hstatus, hmessage, hrepresents, hsize⟩ := handed h hreceivers source
    rw [if_pos havailable, if_neg hcount, hhead, Mailbox.deliver_wanted hreceivers]
    exact ⟨by simp [outcome, hstatus, hmessage], hrepresents, hsize⟩
  case pos =>
    by_cases hroom : b.stored.length < b.capacity
    · obtain ⟨-, -, hcount, havailable⟩ := h.idle hroom hreceivers
      rw [if_pos havailable, if_pos hcount, Mailbox.deliver_kept hreceivers hroom]
      exact ⟨rfl, putFront_spec h hroom hreceivers source, rfl⟩
    · have havailable := h.available
      have hnone : ¬ q.availableStorage ≠ 0 := by omega
      rw [if_neg hnone, waitOr_eq]
      by_cases hwait : canWait preemptDisable waitOption
      · obtain ⟨_, _, hsame⟩ := q.suspend_eq thread source true
        rw [if_pos hwait, if_pos hwait, Mailbox.deliver_waits hreceivers hroom]
        exact ⟨rfl, waits_front hout h (by omega) source, by rw [hsame]⟩
      · rw [if_neg hwait, if_neg hwait, Mailbox.deliver_refused hreceivers hroom]
        exact ⟨rfl, h, rfl⟩

end Calls

/-! ### Messages that are received -/

section Receives
variable (h : Represents q b) {thread sender : ℕ} (hout : thread ∉ b.waiting)
include h

theorem Represents.crowded {rest : List ℕ} (hwaiting : b.waiting = sender :: rest)
    (hsenders : b.front ≠ [] ∨ b.back ≠ []) :
    q.enqueued ≠ 0 ∧ q.suspendedCount ≠ 0 ∧ q.suspensionList = some sender ∧ b.receivers = [] := by
  have hfull := h.full hsenders
  have hcapacity := h.area.capacity_pos
  refine ⟨by rw [h.enqueued, hfull]; exact Nat.ne_of_gt hcapacity, ?_, ?_, h.no_receivers ?_⟩
  · rw [h.lists.count, hwaiting]
    exact Nat.succ_ne_zero _
  · rw [h.lists.head, hwaiting]
    rfl
  · exact List.ne_nil_of_length_pos (hfull ▸ hcapacity)

include hout

theorem Represents.still_offers (q' : Queue) {rest : List ℕ} {front : Bool} {p : ℕ × Message} (hwaiting : b.waiting = sender :: rest)
    (hsize : q'.messageSize = q.messageSize) (hsame : ∀ t ≠ thread, q'.thread t = q.thread t) (hp : Offers q front p)
    (hrest : p.1 ∈ rest) : Offers ((q'.unsuspend sender).resume sender .success) front p := by
  have hnodup := List.nodup_cons.mp (hwaiting ▸ h.lists.ring.nodup)
  have hsender : p.1 ≠ sender := fun heq => hnodup.1 (heq ▸ hrest)
  have hthread : p.1 ≠ thread := fun heq => hout (by simp [hwaiting, ← heq, hrest])
  obtain ⟨_, _, hreleased⟩ := q'.unsuspend_eq sender
  rw [hreleased]
  exact hp.congr ((Function.update_of_ne hsender _ _).trans (hsame p.1 hthread)) hsize

/-- The message of the first sender is for the front, and goes to the caller. -/
theorem received_front {message : Message} {front : List (ℕ × Message)} (hfront : b.front = (sender, message) :: front) :
    let t := ((q.hand (q.thread sender).buffer thread).unsuspend sender).resume sender .success
    (t.thread sender).suspendStatus = .success ∧ messageOf t sender = message ∧ messageOf t thread = message ∧
      Represents t { b with front := front } ∧ t.messageSize = q.messageSize := by
  have hwaiting : b.waiting = sender :: (front.map Prod.fst ++ b.back.map Prod.fst ++ b.receivers) := by
    simp [Mailbox.waiting, hfront]
  have hfull := h.full (Or.inl (by simp [hfront]))
  have hne : thread ≠ sender := fun heq => hout (by simp [hwaiting, heq])
  have hmessage : messageOf q sender = message := (h.front (sender, message) (by simp [hfront])).2
  have hlists : Lists (((q.hand (q.thread sender).buffer thread).unsuspend sender).resume sender .success)
      (front.map Prod.fst ++ b.back.map Prod.fst ++ b.receivers) :=
    Lists.release (hwaiting ▸ h.lists.hand _ thread) .success
  have hothers {side : Bool} {p : ℕ × Message} (hp : Offers q side p) (hrest : p ∈ front ∨ p ∈ b.back) :=
    h.still_offers hout (q.hand (q.thread sender).buffer thread) hwaiting rfl
      (fun t ht => Function.update_of_ne ht _ _) hp (by
        rcases hrest with hrest | hrest
        · simp [List.mem_map_of_mem hrest]
        · simp [List.mem_map_of_mem hrest])
  obtain ⟨_, _, hsame⟩ := (q.hand (q.thread sender).buffer thread).unsuspend_eq sender
  dsimp only
  rw [hsame] at hlists hothers ⊢
  refine ⟨by simp [Queue.resume], ?_, ?_, ⟨h.area, h.capacity, h.enqueued, h.available, hlists, fun p hp => ?_,
    fun p hp => ?_, fun _ => hfull, h.empty⟩, rfl⟩
  · rw [← hmessage]
    simp [messageOf, Queue.resume, Queue.hand, hne.symm]
  · rw [← hmessage]
    simp [messageOf, Queue.resume, Queue.hand, hne, slice_messageCopy h.area.size_pos]
  · exact hothers (h.front p (by simp [hfront, hp])) (Or.inl hp)
  · exact hothers (h.back p hp) (Or.inr hp)

/-- The message of the first sender takes the place of the one that the caller receives. -/
theorem received_back {message next : Message} {stored : List Message} {back : List (ℕ × Message)}
    (hfront : b.front = []) (hstored : b.stored = message :: stored) (hback : b.back = (sender, next) :: back) :
    let t := (((q.get thread).put ((q.get thread).thread sender).buffer).unsuspend sender).resume sender .success
    (t.thread sender).suspendStatus = .success ∧ messageOf t sender = next ∧ messageOf t thread = message ∧
      Represents t { b with stored := stored ++ [next], back := back } ∧ t.messageSize = q.messageSize := by
  have hwaiting : b.waiting = sender :: (back.map Prod.fst ++ b.receivers) := by simp [Mailbox.waiting, hfront, hback]
  have hfull := h.full (Or.inr (by simp [hback]))
  have hne : thread ≠ sender := fun heq => hout (by simp [hwaiting, heq])
  have hbuffer : (q.get thread).thread sender = q.thread sender := Function.update_of_ne hne.symm _ _
  have hnext : messageOf q sender = next := (h.back (sender, next) (by simp [hback])).2
  obtain ⟨hreceived, harea⟩ := Area.get (hstored ▸ h.area) thread
  have hroom : stored.length < b.capacity := by
    rw [← hfull, hstored, List.length_cons]
    exact Nat.lt_succ_self _
  have harea := Area.put (q := q.get thread) harea hroom (q.thread sender).buffer
  have hlists := Lists.release (hwaiting ▸ (h.lists.get thread).put (q.thread sender).buffer) .success
  have hothers {p : ℕ × Message} (hp : p ∈ back) :=
    h.still_offers hout ((q.get thread).put (q.thread sender).buffer) hwaiting rfl
      (fun t ht => Function.update_of_ne ht _ _) (h.back p (by simp [hback, hp])) (by simp [List.mem_map_of_mem hp])
  obtain ⟨_, _, hsame⟩ := ((q.get thread).put (q.thread sender).buffer).unsuspend_eq sender
  dsimp only
  rw [hbuffer]
  rw [hsame] at hlists hothers ⊢
  refine ⟨by simp [Queue.resume], ?_, ?_, ⟨hnext ▸ harea, h.capacity, ?_, ?_, ?_, by simp [hfront],
    fun p hp => hothers hp, fun _ => ?_, ?_⟩, rfl⟩
  · rw [← hnext]
    simp [messageOf, Queue.resume, Queue.put, hbuffer]
  · rw [← hreceived]
    simp [messageOf, Queue.resume, Queue.put, hne]
  · simp [Queue.resume, Queue.put, Queue.get, h.enqueued, hstored]
  · simpa [Queue.resume, Queue.put, Queue.get, hstored] using h.available
  · simpa [Mailbox.waiting, hfront] using hlists
  · simpa [hstored] using hfull
  · exact fun hreceivers => absurd (h.no_receivers (by simp [hstored])) hreceivers

omit hout in
theorem received_stored (thread : ℕ) {message : Message} {stored : List Message} (hfront : b.front = [])
    (hstored : b.stored = message :: stored) (hback : b.back = []) :
    let t := { q.get thread with availableStorage := q.availableStorage + 1, enqueued := q.enqueued - 1 }
    q.suspendedCount = 0 ∧ messageOf t thread = message ∧ Represents t { b with stored := stored } := by
  have hreceivers := h.no_receivers (by simp [hstored])
  have hwaiting : b.waiting = [] := by simp [Mailbox.waiting, hfront, hback, hreceivers]
  obtain ⟨hmessage, harea⟩ := Area.get (hstored ▸ h.area) thread
  have havailable := h.available
  refine ⟨by simp [h.lists.count, hwaiting], hmessage, harea, h.capacity, ?_, ?_,
    (h.lists.get thread).congr rfl rfl rfl fun _ => rfl, by simp [hfront], by simp [hback], by simp [hfront, hback],
    by simp [hreceivers]⟩
  · simp [h.enqueued, hstored]
  · simp only [hstored, List.length_cons] at havailable ⊢
    omega

theorem receive_follows (preemptDisable waitOption : ℕ) : Follows q b (.receive thread preemptDisable waitOption) := by
  rw [Follows, invoke, Mailbox.call, queueReceive]
  cases hfront : b.front with
  | cons p front =>
    obtain ⟨sender, message⟩ := p
    have hwaiting : b.waiting = sender :: (front.map Prod.fst ++ b.back.map Prod.fst ++ b.receivers) := by
      simp [Mailbox.waiting, hfront]
    obtain ⟨henqueued, hcount, hhead, -⟩ := h.crowded hwaiting (Or.inl (by simp [hfront]))
    have hoption : (q.thread sender).suspendOption = true := (h.front (sender, message) (by simp [hfront])).1
    obtain ⟨hstatus, hsender, hthread, hrepresents, hsize⟩ := received_front h hout hfront
    rw [if_pos henqueued, if_neg hcount, hhead, Mailbox.receive_front hfront]
    dsimp only
    rw [if_pos hoption]
    exact ⟨by simp [outcome, hstatus, hsender, hthread], hrepresents, hsize⟩
  | nil =>
    cases hstored : b.stored with
    | nil =>
      have henqueued : ¬ q.enqueued ≠ 0 := by simp [h.enqueued, hstored]
      rw [if_neg henqueued, waitOr_eq, Mailbox.receive_empty hfront hstored]
      by_cases hwait : canWait preemptDisable waitOption
      · obtain ⟨_, _, hsame⟩ := q.suspend_eq thread (q.thread thread).buffer false
        rw [if_pos hwait, if_pos hwait]
        exact ⟨rfl, by simpa only [hfront, hstored] using waits_receiver hout h hstored (q.thread thread).buffer,
          by rw [hsame]⟩
      · rw [if_neg hwait, if_neg hwait]
        exact ⟨rfl, h, rfl⟩
    | cons message stored =>
      cases hback : b.back with
      | nil =>
        have henqueued : q.enqueued ≠ 0 := by simp [h.enqueued, hstored]
        obtain ⟨hcount, hmessage, hrepresents⟩ := received_stored h thread hfront hstored hback
        rw [if_pos henqueued, if_pos hcount, Mailbox.receive_stored hfront hstored hback]
        exact ⟨by simpa [outcome] using hmessage, by simpa only [hfront, hback] using hrepresents, rfl⟩
      | cons p back =>
        obtain ⟨sender, next⟩ := p
        have hwaiting : b.waiting = sender :: (back.map Prod.fst ++ b.receivers) := by
          simp [Mailbox.waiting, hfront, hback]
        obtain ⟨henqueued, hcount, hhead, -⟩ := h.crowded hwaiting (Or.inr (by simp [hback]))
        have hoption : (q.thread sender).suspendOption = false := (h.back (sender, next) (by simp [hback])).1
        obtain ⟨hstatus, hsender, hthread, hrepresents, hsize⟩ := received_back h hout hfront hstored hback
        rw [if_pos henqueued, if_neg hcount, hhead, Mailbox.receive_back hfront hstored hback]
        dsimp only
        rw [if_neg (by simp [hoption])]
        exact ⟨by simp [outcome, hstatus, hsender, hthread], hrepresents, hsize⟩

end Receives

/-! ### Messages that are lost, and threads that leave -/

def Queue.resumeAll (q : Queue) (threads : List ℕ) (status : Status) : Queue :=
  { q with thread := fun t =>
      if t ∈ threads then { q.thread t with waiting := false, suspendStatus := status } else q.thread t }

theorem resumeAll_cons (q : Queue) (thread : ℕ) (threads : List ℕ) (status : Status) :
    Queue.resumeAll (q.resume thread status) threads status = Queue.resumeAll q (thread :: threads) status := by
  rw [Queue.resumeAll, Queue.resumeAll, Queue.resume]
  congr 1
  funext t
  by_cases ht : t = thread
  · simp [ht]
  · simp [ht]

theorem flushLoop_eq (q : Queue) {threads : List ℕ} {thread last : ℕ} (hchain : (threads ++ [last]).IsChain (Linked q.links))
    (hthread : (threads ++ [last]).head? = some thread) :
    flushLoop threads.length thread q = (threads, Queue.resumeAll q threads .success) := by
  induction threads generalizing q thread with
  | nil => simp [flushLoop, Queue.resumeAll]
  | cons first threads ih =>
    obtain rfl : first = thread := by simpa using hthread
    obtain ⟨next, hnext⟩ : ∃ next, (threads ++ [last]).head? = some next := by
      cases threads <;> simp
    obtain ⟨hlink, hrest⟩ := List.isChain_cons.mp hchain
    obtain ⟨hforward, hbackward⟩ := hlink next hnext
    rw [List.length_cons, flushLoop, hforward, ih (q.resume first .success) hrest hnext, resumeAll_cons]
    simp only [hbackward]

theorem Represents.flushed (h : Represents q b) : Area q.messageSize q.area q.queueEnd 0 0 b.capacity [] := by
  obtain ⟨hsize, hcapacity, hend, -⟩ := h.area
  exact ⟨hsize, hcapacity, hend, 0, hcapacity, by simp, by simp, by simp [window]⟩

def Queue.drained (q : Queue) : Queue :=
  { q with
    enqueued := 0
    availableStorage := q.capacity
    read := 0
    write := 0
    suspensionList := none
    suspendedCount := 0 }

theorem queueFlush_eq (h : Lists q waiting) (henqueued : q.enqueued ≠ 0) :
    queueFlush q = ⟨some .success, waiting, Queue.resumeAll (Queue.drained q) waiting .success⟩ := by
  rw [queueFlush, if_pos henqueued]
  dsimp only
  cases waiting with
  | nil =>
    have hcount : ¬ q.suspendedCount ≠ 0 := by simp [h.count]
    have hhead : q.suspensionList = none := h.head
    rw [if_neg hcount]
    simp [Queue.resumeAll, Queue.drained, hhead, h.count]
  | cons head rest =>
    have hcount : q.suspendedCount ≠ 0 := by simp [h.count]
    have hhead : q.suspensionList = some head := h.head
    have hloop : flushLoop (head :: rest).length head (Queue.drained q) =
        (head :: rest, Queue.resumeAll (Queue.drained q) (head :: rest) .success) := flushLoop_eq _ h.ring.2 rfl
    rw [Queue.drained] at hloop ⊢
    rw [if_pos hcount, hhead, h.count]
    dsimp only
    rw [hloop]

theorem flush_follows (h : Represents q b) : Follows q b .flush := by
  rw [Follows, invoke, Mailbox.call]
  by_cases hstored : b.stored = []
  · have henqueued : ¬ q.enqueued ≠ 0 := by simp [h.enqueued, hstored]
    rw [queueFlush, if_neg henqueued, if_pos hstored]
    exact ⟨rfl, h, rfl⟩
  · have henqueued : q.enqueued ≠ 0 := by simp [h.enqueued, hstored]
    have hreceivers := h.no_receivers hstored
    have hwaiting : b.waiting = (b.front ++ b.back).map Prod.fst := by simp [Mailbox.waiting, hreceivers]
    rw [queueFlush_eq h.lists henqueued, if_neg hstored]
    refine ⟨?_, ⟨h.flushed, h.capacity, rfl, h.capacity, ?_, by simp, by simp, by simp, by simp⟩, rfl⟩
    · have hmessage (p : ℕ × Message) (hp : p ∈ b.front ++ b.back) : messageOf q p.1 = p.2 := by
        rcases List.mem_append.mp hp with hp | hp
        · exact (h.front p hp).2
        · exact (h.back p hp).2
      simp only [outcome, hwaiting, List.map_map]
      congr 1
      refine List.map_congr_left fun p hp => ?_
      have hin : p.1 ∈ (b.front ++ b.back).map Prod.fst := List.mem_map_of_mem hp
      rw [← hmessage p hp]
      simp only [Function.comp_apply, messageOf, Queue.resumeAll, if_pos hin, Queue.drained]
      simp
    · have hempty : Mailbox.waiting { b with front := [], stored := [], back := [] } = [] := by
        simp [Mailbox.waiting, hreceivers]
      rw [hempty]
      refine ⟨trivial, rfl, rfl, fun t => ?_⟩
      by_cases ht : t ∈ b.waiting
      · simp [Queue.resumeAll, ht]
      · simpa [Queue.resumeAll, Queue.drained, ht] using h.lists.flag t

theorem Lists.left {thread : ℕ} (h : Lists q waiting) (hwaits : thread ∈ waiting) :
    Lists (q.left thread) (waiting.filter fun t => t ≠ thread) := by
  obtain ⟨before, behind, rfl⟩ := List.append_of_mem hwaits
  have hnodup := h.ring.nodup
  have hrest : (before ++ thread :: behind).filter (fun t => t ≠ thread) = before ++ behind := by
    have hout : thread ∉ before ++ behind := (List.nodup_cons.mp (List.perm_middle.nodup_iff.mp hnodup)).1
    rw [List.filter_append, List.filter_cons_of_neg (by simp), ← List.filter_append, List.filter_eq_self]
    exact fun t ht => by simpa using fun heq : t = thread => hout (heq ▸ ht)
  have hflag (t : ℕ) : ((q.left thread).thread t).waiting = true ↔ t ∈ before ++ behind := by
    obtain ⟨_, _, hsame⟩ := q.left_eq thread
    rw [← hrest, hsame]
    by_cases ht : t = thread
    · simp [ht]
    · simpa [ht] using h.flag t
  have hcount : q.suspendedCount - 1 = (before ++ behind).length := by
    rw [h.count, List.length_append, List.length_append, List.length_cons]
    omega
  rw [hrest]
  by_cases hlast : before ++ behind = []
  · rw [hlast, List.length_nil] at hcount
    rw [Queue.left] at hflag ⊢
    dsimp only at hflag ⊢
    rw [if_pos hcount] at hflag ⊢
    rw [hlast] at hflag ⊢
    exact ⟨trivial, rfl, hcount, hflag⟩
  · have hmore : q.suspendedCount - 1 ≠ 0 := by
      rw [hcount]
      exact fun hnone => hlast (List.length_eq_zero_iff.mp hnone)
    rw [Queue.left] at hflag ⊢
    dsimp only at hflag ⊢
    rw [if_neg hmore] at hflag ⊢
    refine ⟨h.ring.unlink hlast, ?_, hcount, hflag⟩
    cases before with
    | nil =>
      cases behind with
      | nil => exact absurd rfl hlast
      | cons next behind => simp [h.head, h.ring.next_head]
    | cons first before =>
      have hne : first ≠ thread := by
        rintro rfl
        simp at hnodup
      simp [h.head, hne]

theorem waiting_leave (b : Mailbox) (thread : ℕ) :
    (b.leave thread).waiting = b.waiting.filter fun t => t ≠ thread := by
  simp [Mailbox.waiting, Mailbox.leave, List.filter_map, Function.comp_def]

theorem Represents.left (h : Represents q b) {thread : ℕ} (hwaits : thread ∈ b.waiting) :
    Represents (q.left thread) (b.leave thread) := by
  have hlists := h.lists.left hwaits
  rw [← waiting_leave] at hlists
  obtain ⟨_, _, hsame⟩ := q.left_eq thread
  have hothers {front : Bool} {p : ℕ × Message} (hp : Offers q front p) (hne : p.1 ≠ thread) :
      Offers (q.left thread) front p := by
    rw [hsame]
    exact hp.congr (Function.update_of_ne hne _ _) rfl
  rw [hsame] at hlists hothers ⊢
  refine ⟨h.area, h.capacity, h.enqueued, h.available, hlists, fun p hp => ?_, fun p hp => ?_,
    fun hsenders => h.full ?_, fun hreceivers => h.empty ?_⟩
  · have hp := List.mem_filter.mp hp
    exact hothers (h.front p hp.1) (by simpa using hp.2)
  · have hp := List.mem_filter.mp hp
    exact hothers (h.back p hp.1) (by simpa using hp.2)
  · refine hsenders.imp (fun hne heq => hne ?_) fun hne heq => hne ?_
    · simp [Mailbox.leave, heq]
    · simp [Mailbox.leave, heq]
  · intro heq
    exact hreceivers (by simp [Mailbox.leave, heq])

theorem Represents.resume (h : Represents q b) {thread : ℕ} (hout : thread ∉ b.waiting) (status : Status) :
    Represents (q.resume thread status) b := by
  have hothers {front : Bool} {p : ℕ × Message} (hp : Offers q front p) (hwaits : p.1 ∈ b.waiting) :
      Offers (q.resume thread status) front p := by
    have hne : p.1 ≠ thread := fun heq => hout (heq ▸ hwaits)
    exact hp.congr (Function.update_of_ne hne _ _) rfl
  refine ⟨h.area, h.capacity, h.enqueued, h.available, ⟨h.lists.ring, h.lists.head, h.lists.count, fun t => ?_⟩,
    fun p hp => hothers (h.front p hp) (mem_waiting_front hp), fun p hp => hothers (h.back p hp) (mem_waiting_back hp),
    h.full, h.empty⟩
  by_cases ht : t = thread
  · simp [Queue.resume, ht, hout]
  · simpa [Queue.resume, ht] using h.lists.flag t

theorem cleanup_follows (h : Represents q b) (thread : ℕ) (terminated : Bool) : Follows q b (.cleanup thread terminated) := by
  rw [Follows, invoke, Mailbox.call, queueCleanup]
  by_cases hwaits : thread ∈ b.waiting
  · have hcondition : (q.thread thread).waiting ∧ q.suspendedCount ≠ 0 := by
      refine ⟨(h.lists.flag thread).mpr hwaits, ?_⟩
      rw [h.lists.count]
      exact Nat.ne_of_gt (List.length_pos_of_mem hwaits)
    rw [if_pos hcondition, if_pos hwaits]
    have hleft := h.left hwaits
    obtain ⟨_, _, hsame⟩ := q.left_eq thread
    have hsize : (q.left thread).messageSize = q.messageSize := by rw [hsame]
    cases terminated with
    | true => exact ⟨rfl, hleft, hsize⟩
    | false =>
      have hout : thread ∉ (b.leave thread).waiting := by simp [waiting_leave]
      refine ⟨?_, hleft.resume hout _, hsize⟩
      by_cases hstored : b.stored = []
      · have henqueued : ¬ q.enqueued ≠ 0 := by simp [h.enqueued, hstored]
        rw [if_neg henqueued]
        simp [outcome, Queue.resume, hstored]
      · have henqueued : q.enqueued ≠ 0 := by simp [h.enqueued, hstored]
        rw [if_pos henqueued]
        simp [outcome, Queue.resume, hstored]
  · have hcondition : ¬ ((q.thread thread).waiting ∧ q.suspendedCount ≠ 0) :=
      fun hcondition => hwaits ((h.lists.flag thread).mp hcondition.1)
    rw [if_neg hcondition, if_neg hwaits]
    exact ⟨rfl, h, rfl⟩

end EtherBench.ThreadX.Delivery
