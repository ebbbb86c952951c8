import EtherBench.Library.Transition
import EtherBench.ThreadX.Delivery
import EtherBench.ThreadX.Objects

/-! # A queue in use

Threads send, receive, give up waiting and flush, in any order. What they see is what a mailbox would have shown
them, so that messages are received in the order in which they were sent.
-/

namespace EtherBench.ThreadX.Histories
open Library.Memory Library.Transition Queues Mailboxes Delivery

abbrev History := List (Call × Outcome)

def caller : Call → Option ℕ
  | .send thread _ _ _ | .frontSend thread _ _ _ | .receive thread _ _ => some thread
  | .flush | .cleanup _ _ => none

/-- A thread that waits makes no calls. -/
def serve (s : Queue × History) (call : Call) : Option (Queue × History) :=
  if ∀ t ∈ caller call, (s.1.thread t).waiting = false then
    some ((invoke s.1 call).queue, s.2 ++ [(call, outcome (invoke s.1 call) call)])
  else none

/-- The same for a mailbox. -/
def answer (size : ℕ) (s : Mailbox × History) (call : Call) : Mailbox × History :=
  ((s.1.call size call).2, s.2 ++ [(call, (s.1.call size call).1)])

def empty (capacity : ℕ) : Mailbox := ⟨capacity, [], [], [], []⟩

variable {messageSize queueSize : ℕ} {area : ℕ → UInt32} {links : Library.Circular.Links ℕ} {thread : ℕ → Thread}
  {q : Queue} {b : Mailbox} {calls : List Call} {history : History}

/-! ## Every run -/

theorem invoke_follows (h : Represents q b) (call : Call) (hfree : ∀ t ∈ caller call, (q.thread t).waiting = false) :
    Follows q b call := by
  have hout (t : ℕ) (ht : t ∈ caller call) : t ∉ b.waiting := by
    rw [← h.lists.flag, hfree t ht]
    exact Bool.false_ne_true
  cases call with
  | send thread source preemptDisable waitOption => exact send_follows h (hout thread rfl) source preemptDisable waitOption
  | frontSend thread source preemptDisable waitOption =>
    exact frontSend_follows h (hout thread rfl) source preemptDisable waitOption
  | receive thread preemptDisable waitOption => exact receive_follows h (hout thread rfl) preemptDisable waitOption
  | flush => exact flush_follows h
  | cleanup thread terminated => exact cleanup_follows h thread terminated

theorem represents_created (hsize : 0 < messageSize) (hroom : messageSize * 4 ≤ queueSize)
    (hidle : ∀ t, (thread t).waiting = false) : Represents (queueCreate messageSize queueSize area links thread)
      (empty (queueSize / (messageSize * 4))) := by
  have hcapacity : 0 < queueSize / (messageSize * 4) := Nat.div_pos hroom (by omega)
  refine ⟨⟨hsize, hcapacity, rfl, 0, hcapacity, ?_, ?_, rfl⟩, rfl, rfl, rfl, ⟨trivial, rfl, rfl, fun t => ?_⟩, ?_, ?_, ?_, ?_⟩
  · simp [queueCreate]
  · simp [queueCreate, empty]
  · simp [queueCreate, hidle t, Mailbox.waiting, empty]
  all_goals simp [empty]

/-- The queue and what was seen of it, as a mailbox has it. -/
def Agrees (size : ℕ) (s : Queue × History) (x : Mailbox × History) : Prop :=
  Represents s.1 x.1 ∧ s.1.messageSize = size ∧ s.2 = x.2

theorem serve_agrees {size : ℕ} (s : Queue × History) (call : Call) (t : Queue × History) (x : Mailbox × History)
    (h : Agrees size s x) (hserve : serve s call = some t) : Agrees size t (answer size x call) := by
  obtain ⟨hrepresents, hsize, hhistory⟩ := h
  rw [serve] at hserve
  split at hserve
  · next hfree =>
    obtain ⟨houtcome, hnext, hkept⟩ := invoke_follows hrepresents call hfree
    cases hserve
    rw [hsize] at houtcome hnext
    exact ⟨hnext, hkept.trans hsize, by rw [answer, houtcome, hhistory]⟩
  · cases hserve

/-- Whatever calls are made in whatever order, the callers see the outcomes that a mailbox would have shown them. -/
theorem queue_refines_mailbox (hsize : 0 < messageSize) (hroom : messageSize * 4 ≤ queueSize)
    (hidle : ∀ t, (thread t).waiting = false)
    (hrun : run serve (queueCreate messageSize queueSize area links thread, []) calls = some (q, history)) :
    ∃ b, calls.foldl (answer messageSize) (empty (queueSize / (messageSize * 4)), []) = (b, history) ∧
      Represents q b := by
  have hstart : Agrees messageSize (queueCreate messageSize queueSize area links thread, [])
      (empty (queueSize / (messageSize * 4)), []) := ⟨represents_created hsize hroom hidle, rfl, rfl⟩
  obtain ⟨hrepresents, -, hhistory⟩ := run_refines serve_agrees hstart hrun
  exact ⟨_, Prod.ext rfl hhistory.symm, hrepresents⟩

/-- Room for two messages of two words, and threads that do not wait. -/
def twoMessages : Queue := queueCreate 2 16 (fun _ => 0) ⟨id, id⟩ fun _ => ⟨false, .success, false, fun _ => 0⟩

/-- The third sender waits for room, and is resumed when the first message is received. -/
def someSends : List Call :=
  [.send 1 (fun _ => 10) 0 0, .send 2 (fun _ => 20) 0 0, .send 3 (fun _ => 30) 0 5, .receive 4 0 0, .receive 4 0 0]

/-- One message overtakes the others, one is withdrawn, and what is left is flushed. -/
def someCalls : List Call :=
  someSends ++ [.send 1 (fun _ => 40) 0 0, .frontSend 2 (fun _ => 50) 0 5, .send 3 (fun _ => 60) 0 5,
    .cleanup 3 false, .flush, .receive 4 0 5, .send 1 (fun _ => 70) 0 0]

theorem queue_refines_mailbox_twoMessages : ∃ q history b, run serve (twoMessages, []) someCalls = some (q, history) ∧
    someCalls.foldl (answer 2) (empty (16 / (2 * 4)), []) = (b, history) ∧ Represents q b := by
  have hsome : (run serve (twoMessages, []) someCalls).isSome := by decide +kernel
  obtain ⟨⟨q, history⟩, hrun⟩ := Option.isSome_iff_exists.mp hsome
  obtain ⟨b, hanswers, hrepresents⟩ := queue_refines_mailbox (by decide) (by decide) (fun _ => rfl) hrun
  exact ⟨q, history, b, hrun, hanswers, hrepresents⟩

/-! ## The order of the messages -/

/-- The messages that a call leaves to the queue, at once or as soon as there is room. -/
def accepted (size : ℕ) : Call × Outcome → List Message
  | (.send _ source _ _, outcome) | (.frontSend _ source _ _, outcome) =>
    if outcome.returned = some .queueFull then [] else [slice source 0 size]
  | _ => []

/-- The messages that reach their receivers with a call: its caller, or threads that have waited. -/
def delivered : Call × Outcome → List Message
  | (.receive _ _ _, outcome) => outcome.received.toList
  | (.send _ _ _ _, outcome) | (.frontSend _ _ _ _, outcome) => outcome.resumed.filterMap fun resumed => resumed.2.2
  | _ => []

/-- How many messages the queue and the senders that wait still hold. -/
def pending (q : Queue) : ℕ := q.enqueued + if q.enqueued = 0 then 0 else q.suspendedCount

theorem Represents.contents_length (h : Represents q b) : b.contents.length = pending q := by
  have hcount := h.lists.count
  rw [pending, h.enqueued, hcount]
  by_cases hstored : b.stored = []
  · obtain ⟨hfront, hback⟩ := h.no_senders (by rw [hstored]; exact h.area.capacity_pos)
    simp [Mailbox.contents, hstored, hfront, hback]
  · have hreceivers := h.no_receivers hstored
    simp [Mailbox.contents, Mailbox.waiting, hstored, hreceivers]
    omega

/-- What a call accepts goes behind what there is, and what it delivers comes from its front. -/
def Orderly (size : ℕ) (b : Mailbox) (call : Call) : Prop :=
  b.contents ++ accepted size (call, (b.call size call).1) =
      delivered (call, (b.call size call).1) ++ (b.call size call).2.contents ∧
    (b.call size call).2.front = []

theorem send_orderly (h : Represents q b) (hfront : b.front = []) (size thread : ℕ) (source : ℕ → UInt32)
    (preemptDisable waitOption : ℕ) : Orderly size b (.send thread source preemptDisable waitOption) := by
  rw [Orderly, Mailbox.call]
  by_cases hreceivers : b.receivers = []
  case neg =>
    have hstored := h.empty hreceivers
    obtain ⟨-, hback⟩ := h.no_senders (by rw [hstored]; exact h.area.capacity_pos)
    obtain ⟨receiver, receivers, hreceivers⟩ := List.exists_cons_of_ne_nil hreceivers
    rw [Mailbox.deliver_wanted hreceivers]
    simp [Mailbox.contents, accepted, delivered, hfront, hstored, hback]
  case pos =>
    by_cases hroom : b.stored.length < b.capacity
    · obtain ⟨-, hback⟩ := h.no_senders hroom
      rw [Mailbox.deliver_kept hreceivers hroom]
      simp [Mailbox.contents, accepted, delivered, hfront, hback]
    · by_cases hwait : canWait preemptDisable waitOption
      · rw [if_pos hwait, Mailbox.deliver_waits hreceivers hroom]
        simp [Mailbox.contents, accepted, delivered, hfront]
      · rw [if_neg hwait, Mailbox.deliver_refused hreceivers hroom]
        simp [accepted, delivered, hfront]

theorem receive_orderly (h : Represents q b) (hfront : b.front = []) (size thread preemptDisable waitOption : ℕ) :
    Orderly size b (.receive thread preemptDisable waitOption) := by
  rw [Orderly, Mailbox.call]
  cases hstored : b.stored with
  | nil =>
    obtain ⟨-, hback⟩ := h.no_senders (by rw [hstored]; exact h.area.capacity_pos)
    rw [Mailbox.receive_empty hfront hstored]
    split <;> simp [Mailbox.contents, accepted, delivered, hfront, hstored, hback]
  | cons message stored =>
    cases hback : b.back with
    | nil =>
      rw [Mailbox.receive_stored hfront hstored hback]
      simp [Mailbox.contents, accepted, delivered, hfront, hstored, hback]
    | cons p back =>
      obtain ⟨sender, next⟩ := p
      rw [Mailbox.receive_back hfront hstored hback]
      simp [Mailbox.contents, accepted, delivered, hfront, hstored, hback]

/-- Calls that leave no message for the front. -/
def forBack : Call → Bool
  | .frontSend _ _ _ _ => false
  | _ => true

/-- Calls that lose no message. -/
def plain : Call → Bool
  | .send _ _ _ _ | .receive _ _ _ => true
  | _ => false

/-- What the history and the queue say about the messages: those that were delivered and those that are pending,
against those that were accepted. -/
def Accounts (R : List Message → List Message → Prop) (size : ℕ) (s : Queue × History) : Prop :=
  ∃ b, Represents s.1 b ∧ s.1.messageSize = size ∧ b.front = [] ∧
    R (s.2.flatMap delivered ++ b.contents) (s.2.flatMap (accepted size))

section Accounts
variable {R : List Message → List Message → Prop} {size : ℕ} {s t : Queue × History} {call : Call}

theorem Accounts.serve (h : Accounts R size s) (hserve : serve s call = some t)
    (hcall : ∀ b, Represents s.1 b → b.front = [] → R (s.2.flatMap delivered ++ b.contents) (s.2.flatMap (accepted size)) →
      (b.call size call).2.front = [] ∧ R (s.2.flatMap delivered ++ (delivered (call, (b.call size call).1) ++
        (b.call size call).2.contents)) (s.2.flatMap (accepted size) ++ accepted size (call, (b.call size call).1))) :
    Accounts R size t := by
  obtain ⟨b, hrepresents, hsize, hfront, hR⟩ := h
  obtain ⟨hcallFront, hcallR⟩ := hcall b hrepresents hfront hR
  rw [Histories.serve] at hserve
  split at hserve
  · next hfree =>
    obtain ⟨houtcome, hnext, hkept⟩ := invoke_follows hrepresents call hfree
    cases hserve
    rw [hsize] at houtcome hnext
    refine ⟨_, hnext, hkept.trans hsize, hcallFront, ?_⟩
    rw [houtcome, List.flatMap_append, List.flatMap_append, List.append_assoc]
    simpa using hcallR
  · cases hserve

theorem Accounts.orderly (hR : ∀ xs ys zs, R xs ys → R (xs ++ zs) (ys ++ zs)) (h : Accounts R size s)
    (hserve : Histories.serve s call = some t) (hplain : plain call) : Accounts R size t := by
  refine h.serve hserve fun b hrepresents hfront hbefore => ?_
  have horderly : Orderly size b call := by
    cases call with
    | send thread source preemptDisable waitOption =>
      exact send_orderly hrepresents hfront size thread source preemptDisable waitOption
    | receive thread preemptDisable waitOption =>
      exact receive_orderly hrepresents hfront size thread preemptDisable waitOption
    | frontSend thread source preemptDisable waitOption => exact absurd hplain Bool.false_ne_true
    | flush => exact absurd hplain Bool.false_ne_true
    | cleanup thread terminated => exact absurd hplain Bool.false_ne_true
  refine ⟨horderly.2, ?_⟩
  rw [← horderly.1, ← List.append_assoc]
  exact hR _ _ _ hbefore

theorem Accounts.dropped (h : Accounts List.Sublist size s) (hserve : Histories.serve s call = some t)
    (hcall : ∀ b : Mailbox, b.front = [] → (b.call size call).2.front = [] ∧ ((b.call size call).2.contents).Sublist b.contents ∧
      accepted size (call, (b.call size call).1) = [] ∧ delivered (call, (b.call size call).1) = []) :
    Accounts List.Sublist size t := by
  refine h.serve hserve fun b _ hfront hbefore => ?_
  obtain ⟨hfront, hcontents, haccepted, hdelivered⟩ := hcall b hfront
  refine ⟨hfront, ?_⟩
  rw [haccepted, hdelivered, List.nil_append, List.append_nil]
  exact ((List.Sublist.refl _).append hcontents).trans hbefore

end Accounts

theorem flush_drops (b : Mailbox) (size : ℕ) (hfront : b.front = []) :
    (b.call size .flush).2.front = [] ∧ ((b.call size .flush).2.contents).Sublist b.contents := by
  rw [Mailbox.call]
  split
  · exact ⟨hfront, List.Sublist.refl _⟩
  · exact ⟨rfl, List.nil_sublist _⟩

theorem cleanup_drops (b : Mailbox) (size thread : ℕ) (terminated : Bool) (hfront : b.front = []) :
    (b.call size (.cleanup thread terminated)).2.front = [] ∧
      ((b.call size (.cleanup thread terminated)).2.contents).Sublist b.contents := by
  rw [Mailbox.call]
  split
  · refine ⟨by simp [Mailbox.leave, hfront], ?_⟩
    simp only [Mailbox.contents, Mailbox.leave, hfront, List.filter_nil]
    exact (List.Sublist.refl _).append (List.filter_sublist.map _)
  · exact ⟨hfront, List.Sublist.refl _⟩

/-- The accounts of a queue, from its creation on. -/
theorem accounts_run {R : List Message → List Message → Prop} {P : Call → Bool} (hnil : R [] [])
    (hstep : ∀ s call t, Accounts R messageSize s → P call → serve s call = some t → Accounts R messageSize t)
    (hsize : 0 < messageSize) (hroom : messageSize * 4 ≤ queueSize) (hidle : ∀ t, (thread t).waiting = false)
    (hcalls : ∀ call ∈ calls, P call)
    (hrun : run serve (queueCreate messageSize queueSize area links thread, []) calls = some (q, history)) :
    ∃ b, Represents q b ∧ b.front = [] ∧ b.contents.length = pending q ∧
      R (history.flatMap delivered ++ b.contents) (history.flatMap (accepted messageSize)) := by
  have hstart : Accounts R messageSize (queueCreate messageSize queueSize area links thread, []) :=
    ⟨_, represents_created hsize hroom hidle, rfl, rfl, hnil⟩
  have halong : Along serve (fun _ call => P call) (queueCreate messageSize queueSize area links thread, []) calls :=
    along_of_mem fun call hcall _ => hcalls call hcall
  obtain ⟨b, hrepresents, -, hfront, hR⟩ := (always_of_along hstep hstart halong).last hrun
  exact ⟨b, hrepresents, hfront, Represents.contents_length hrepresents, hR⟩

/-- Messages are received in the order in which they were accepted, none twice, whoever gives up or flushes. -/
theorem received_in_order (hsize : 0 < messageSize) (hroom : messageSize * 4 ≤ queueSize)
    (hidle : ∀ t, (thread t).waiting = false) (hcalls : ∀ call ∈ calls, forBack call)
    (hrun : run serve (queueCreate messageSize queueSize area links thread, []) calls = some (q, history)) :
    ∃ b, Represents q b ∧ b.front = [] ∧ b.contents.length = pending q ∧
      (history.flatMap delivered ++ b.contents).Sublist (history.flatMap (accepted messageSize)) := by
  refine accounts_run (List.Sublist.refl []) (fun s call t h hback hserve => ?_) hsize hroom hidle hcalls hrun
  by_cases hplain : plain call
  · exact h.orderly (fun xs ys zs hxs => hxs.append (List.Sublist.refl zs)) hserve hplain
  · cases call with
    | flush =>
      refine h.dropped hserve fun b hfront => ?_
      obtain ⟨hnext, hcontents⟩ := flush_drops b messageSize hfront
      exact ⟨hnext, hcontents, rfl, rfl⟩
    | cleanup thread terminated =>
      refine h.dropped hserve fun b hfront => ?_
      obtain ⟨hnext, hcontents⟩ := cleanup_drops b messageSize thread terminated hfront
      exact ⟨hnext, hcontents, rfl, rfl⟩
    | frontSend thread source preemptDisable waitOption => exact absurd hback Bool.false_ne_true
    | send thread source preemptDisable waitOption => exact absurd rfl hplain
    | receive thread preemptDisable waitOption => exact absurd rfl hplain

theorem received_in_order_twoMessages : ∃ q history b,
    run serve (twoMessages, []) (someSends ++ [.flush, .receive 4 0 5]) = some (q, history) ∧ Represents q b ∧
      b.front = [] ∧ b.contents.length = pending q ∧
      (history.flatMap delivered ++ b.contents).Sublist (history.flatMap (accepted 2)) := by
  have hsome : (run serve (twoMessages, []) (someSends ++ [.flush, .receive 4 0 5])).isSome := by decide +kernel
  obtain ⟨⟨q, history⟩, hrun⟩ := Option.isSome_iff_exists.mp hsome
  obtain ⟨b, hheld⟩ := received_in_order (by decide) (by decide) (fun _ => rfl) (by decide +kernel) hrun
  exact ⟨q, history, b, hrun, hheld⟩

/-- Between threads that only send and receive no message is lost either: those that were accepted and not received
are held by the queue, and by the senders that wait. -/
theorem none_lost (hsize : 0 < messageSize) (hroom : messageSize * 4 ≤ queueSize)
    (hidle : ∀ t, (thread t).waiting = false) (hcalls : ∀ call ∈ calls, plain call)
    (hrun : run serve (queueCreate messageSize queueSize area links thread, []) calls = some (q, history)) :
    ∃ b, Represents q b ∧ b.front = [] ∧ b.contents.length = pending q ∧
      history.flatMap delivered ++ b.contents = history.flatMap (accepted messageSize) :=
  accounts_run rfl (fun _ _ _ h hplain hserve => h.orderly (fun _ _ zs hxs => congrArg (· ++ zs) hxs) hserve hplain)
    hsize hroom hidle hcalls hrun

theorem none_lost_twoMessages : ∃ q history b, run serve (twoMessages, []) someSends = some (q, history) ∧
    Represents q b ∧ b.front = [] ∧ b.contents.length = pending q ∧
      history.flatMap delivered ++ b.contents = history.flatMap (accepted 2) := by
  have hsome : (run serve (twoMessages, []) someSends).isSome := by decide +kernel
  obtain ⟨⟨q, history⟩, hrun⟩ := Option.isSome_iff_exists.mp hsome
  obtain ⟨b, hheld⟩ := none_lost (by decide) (by decide) (fun _ => rfl) (by decide +kernel) hrun
  exact ⟨q, history, b, hrun, hheld⟩

/-! ## Callers that never wait -/

section NoWait
variable (h : Represents q b) (hwaiting : b.waiting = []) (thread preemptDisable : ℕ)
include h hwaiting

/-- What the modules that share a queue take it for, as long as nobody waits. -/
theorem send_noWait (source : ℕ → UInt32) :
    match txQueueSend b.capacity b.stored (slice source 0 q.messageSize) with
    | some stored => (queueSend q preemptDisable thread source txNoWait).status = some .success ∧
        Represents (queueSend q preemptDisable thread source txNoWait).queue { b with stored := stored }
    | none => queueSend q preemptDisable thread source txNoWait = ⟨some .queueFull, [], q⟩ := by
  have hreceivers : b.receivers = [] := (List.append_eq_nil_iff.mp hwaiting).2
  have hnoWait : ¬ canWait preemptDisable txNoWait := fun hwait => hwait.1 rfl
  obtain ⟨houtcome, hrepresents, -⟩ := send_follows h (hwaiting ▸ List.not_mem_nil) source preemptDisable txNoWait
  rw [Mailbox.call] at houtcome hrepresents
  rw [txQueueSend]
  by_cases hroom : b.stored.length < b.capacity
  · rw [Mailbox.deliver_kept hreceivers hroom] at houtcome hrepresents
    rw [if_pos hroom]
    exact ⟨congrArg Outcome.returned houtcome, hrepresents⟩
  · have havailable := h.available
    have hnone : ¬ q.availableStorage ≠ 0 := by omega
    rw [if_neg hroom, queueSend, if_neg hnone, waitOr_eq, if_neg hnoWait]

theorem receive_noWait :
    match txQueueReceive b.stored with
    | some (message, stored) =>
      (outcome (queueReceive q preemptDisable thread txNoWait) (.receive thread preemptDisable txNoWait)).received =
          some message ∧
        Represents (queueReceive q preemptDisable thread txNoWait).queue { b with stored := stored }
    | none => queueReceive q preemptDisable thread txNoWait = ⟨some .queueEmpty, [], q⟩ := by
  obtain ⟨hsenders, -⟩ := List.append_eq_nil_iff.mp hwaiting
  obtain ⟨hfront, hback⟩ := List.append_eq_nil_iff.mp hsenders
  have hfront : b.front = [] := List.map_eq_nil_iff.mp hfront
  have hback : b.back = [] := List.map_eq_nil_iff.mp hback
  have hnoWait : ¬ canWait preemptDisable txNoWait := fun hwait => hwait.1 rfl
  obtain ⟨houtcome, hrepresents, -⟩ := receive_follows h (hwaiting ▸ List.not_mem_nil) preemptDisable txNoWait
  rw [Mailbox.call] at houtcome hrepresents
  cases hstored : b.stored with
  | nil =>
    have henqueued : ¬ q.enqueued ≠ 0 := by simp [h.enqueued, hstored]
    rw [txQueueReceive, queueReceive, if_neg henqueued, waitOr_eq, if_neg hnoWait]
  | cons message stored =>
    rw [Mailbox.receive_stored hfront hstored hback] at houtcome hrepresents
    exact ⟨congrArg Outcome.received houtcome, hrepresents⟩

end NoWait

end EtherBench.ThreadX.Histories
