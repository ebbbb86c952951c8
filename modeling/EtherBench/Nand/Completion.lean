import EtherBench.Library.Transition
import EtherBench.Nand.Contracts

/-! # Completions are of the poll that was just started

A poll may outlive the wait that started it, and its interrupt gives a token whenever it comes.
Such a token is never taken for the completion of a later operation: the HAL accepts the command
on the array, which comes before every wait, only when no poll is running any more, and the wait
takes the tokens that are left before it starts its own poll.
-/

namespace EtherBench.Nand.Completion
open Device Hal Driver Operations Contracts Library.Effects Library.Transition Library.Triples

def StartedPoll (e : Exchange) : Prop := e.call = .autoPollingIt ∧ e.ok = true

/-- Every wait that got a token got it from the poll started just before: the status has matched
since. -/
def Genuine : List Exchange → Prop
  | [] => True
  | e :: older =>
    (e.gotFlashWip = true → e.matched = true ∧ ∃ poll ∈ older.head?, StartedPoll poll) ∧ Genuine older

theorem genuine_iff {log : List Exchange} : Genuine log ↔
    ∀ e older, e :: older <:+ log → e.gotFlashWip = true →
      e.matched = true ∧ ∃ poll ∈ older.head?, StartedPoll poll := by
  induction log with
  | nil =>
    refine iff_of_true trivial fun e older hsuffix => ?_
    exact absurd (List.suffix_nil.mp hsuffix) (List.cons_ne_nil e older)
  | cons e log ih =>
    rw [Genuine, ih]
    constructor
    · rintro ⟨hnew, hold⟩ d older hsuffix
      rcases List.suffix_cons_iff.mp hsuffix with heq | hsuffix
      · cases heq
        exact hnew
      · exact hold d older hsuffix
    · intro h
      constructor
      · exact h e log List.suffix_rfl
      · exact fun d older hsuffix => h d older (hsuffix.trans (List.suffix_cons e log))

/-- The log of a world whose completions have all been genuine. -/
def Kept (w : World) : Prop := Genuine w.exchanges

def Idle (w : World) : Prop := Kept w ∧ w.polling = false

def Drained (w : World) : Prop := Idle w ∧ w.flashWip = 0

/-- A poll has just been started, and no token was left. -/
def Polling (w : World) : Prop :=
  Kept w ∧ w.flashWip = 0 ∧ ∃ poll ∈ w.exchanges.head?, StartedPoll poll

variable {w : World} {call : HalCall} {ok : Bool} {after : World}

theorem Kept.record (h : Kept w) (hcall : call ≠ .getFlashWip) : Kept (w.record call ok after) := by
  refine ⟨fun hgot => ?_, h⟩
  exact absurd (of_decide_eq_true hgot).1 hcall

theorem call_kept {answer : World → Bool} {after : World → World} (hcall : call ≠ .getFlashWip) :
    Triple Kept (require fun w => .ok (answer w) (w.record call (answer w) (after w)))
      (fun _ => Kept) Kept :=
  triple_exchange (fun _ hw _ => hw.record hcall) fun _ hw _ => hw.record hcall

theorem interrupted_idle (h : w.polling = false) : w.interrupted = w := by
  rw [World.interrupted, h]
  rfl

theorem idle_of_accepts (h : w.accepts = true) : w.interrupted.polling = false := by
  rw [World.accepts, Bool.and_eq_true, Bool.not_eq_true'] at h
  exact h.1

theorem operate_idle (c : Command) :
    Triple Kept (require (halXspiCommand c)) (fun _ => Idle) Kept := by
  apply triple_exchange
  · intro w hw haccepts
    exact ⟨hw.record HalCall.noConfusion, idle_of_accepts haccepts⟩
  · exact fun w hw _ => hw.record HalCall.noConfusion

theorem drainFlashWip_drained : Triple Idle drainFlashWip (fun _ => Drained) Kept := by
  intro w hw
  refine ⟨⟨hw.1.record HalCall.noConfusion, ?_⟩, rfl⟩
  change w.interrupted.polling = false
  rw [interrupted_idle hw.2]
  exact hw.2

theorem statusCommand_drained :
    Triple Drained (require (halXspiCommand statusCommand)) (fun _ => Drained) Kept := by
  apply triple_exchange
  · intro w hw haccepts
    refine ⟨⟨hw.1.1.record HalCall.noConfusion, idle_of_accepts haccepts⟩, ?_⟩
    change w.interrupted.flashWip = 0
    rw [interrupted_idle hw.1.2]
    exact hw.2
  · exact fun w hw _ => hw.1.1.record HalCall.noConfusion

theorem autoPollingIt_polling :
    Triple Drained (require halXspiAutoPollingIt) (fun _ => Polling) Kept := by
  apply triple_exchange
  · intro w hw _
    refine ⟨hw.1.1.record HalCall.noConfusion, ?_, _, rfl, rfl, rfl⟩
    change w.interrupted.flashWip = 0
    rw [interrupted_idle hw.1.2]
    exact hw.2
  · exact fun w hw _ => hw.1.1.record HalCall.noConfusion

/-- With no token left, one comes only from an interrupt. -/
theorem matched_of_token (h : w.flashWip = 0) (hgot : w.interrupted.flashWip ≠ 0) :
    (w.polling && w.reaction.matched) = true := by
  by_contra hnone
  apply hgot
  rw [World.interrupted, if_neg hnone]
  exact h

theorem getFlashWip_kept : Triple Polling (require getFlashWip) (fun _ => Kept) Kept := by
  apply triple_exchange
  · intro w hw hgot
    refine ⟨fun _ => ⟨?_, hw.2.2⟩, hw.1⟩
    exact matched_of_token hw.2.1 (of_decide_eq_true hgot)
  · intro w hw _
    refine ⟨fun hgot => ?_, hw.1⟩
    exact Bool.noConfusion (of_decide_eq_true hgot).2

theorem reset_kept : Preserves Kept reset :=
  preserves_bind (fun _ hw => Kept.record hw HalCall.noConfusion) fun _ => preserves_pure _ ()

theorem checkStatus_kept : Triple Kept checkStatus (fun _ => Kept) Kept := by
  apply triple_checkStatus_kept
  · exact fun w hw => hw.record HalCall.noConfusion
  · exact fun w ok hw => hw.record HalCall.noConfusion
  · exact fun w hw _ => hw.record HalCall.noConfusion
  · exact reset_kept

theorem waitForComplete_kept : Triple Idle waitForComplete (fun _ => Kept) Kept := by
  apply triple_bind drainFlashWip_drained
  intro _
  apply triple_bind statusCommand_drained
  intro _
  apply triple_bind autoPollingIt_polling
  intro _
  apply triple_bind getFlashWip_kept
  exact fun _ => checkStatus_kept

theorem kept_contract : Contract (fun _ => True) Kept (fun _ => Idle) Kept where
  buffer _ _ hw := hw
  command _ _ := call_kept HalCall.noConfusion
  operate c _ _ := operate_idle c
  transmit _ _ _ := call_kept HalCall.noConfusion
  receive _ _ := triple_receive fun _ hw => hw.record HalCall.noConfusion
  dmaDone := call_kept HalCall.noConfusion
  wait _ := waitForComplete_kept

/-- An operation, whatever its outcome, on a bus and a chip that react in any way. -/
def step (w : World) (op : Operation) : Option World := some (final op.perform w)

theorem step_kept {op : Operation} (hw : Kept w) : Kept (final op.perform w) :=
  (kept_contract.perform op fun _ _ h => h).final_of hw

/-- The log of `w` starts with a wait that has got a token from a log `past` on. -/
def Awaited (past : List Exchange) (w : World) : Prop :=
  ∃ got poll first drain, got :: poll :: first :: drain :: past <:+ w.exchanges ∧
    got.gotFlashWip = true ∧ StartedPoll poll

theorem Awaited.record {past : List Exchange} (h : Awaited past w) :
    Awaited past (w.record call ok after) := by
  obtain ⟨got, poll, first, drain, hsuffix, hgot⟩ := h
  exact ⟨got, poll, first, drain, hsuffix.trans (List.suffix_cons _ w.exchanges), hgot⟩

theorem checkStatus_awaited (past : List Exchange) :
    Triple (Awaited past) checkStatus (fun _ => Awaited past) (fun _ => True) := by
  apply triple_checkStatus_kept
  · exact fun w hw => hw.record
  · exact fun w ok hw => hw.record
  · exact fun _ _ _ => trivial
  · exact preserves_bind (fun _ _ => trivial) fun _ => preserves_pure _ ()

/-- A wait that returns `LX_SUCCESS` has got a token right after it has started its poll. -/
theorem waitForComplete_awaited (past : List Exchange) :
    Triple (fun w => w.exchanges = past) waitForComplete (fun _ => Awaited past) (fun _ => True) := by
  have hdrain : Triple (fun w => w.exchanges = past) drainFlashWip
      (fun _ w => ∃ drain, w.exchanges = drain :: past) (fun _ => True) :=
    fun w hw => ⟨_, congrArg _ hw⟩
  apply triple_bind hdrain
  intro _
  have hfirst : Triple (fun w => ∃ drain, w.exchanges = drain :: past)
      (require (halXspiCommand statusCommand))
      (fun _ w => ∃ first drain, w.exchanges = first :: drain :: past) (fun _ => True) :=
    triple_exchange (fun _ ⟨drain, hw⟩ _ => ⟨_, drain, congrArg _ hw⟩) fun _ _ _ => trivial
  apply triple_bind hfirst
  intro _
  have hpoll : Triple (fun w => ∃ first drain, w.exchanges = first :: drain :: past)
      (require halXspiAutoPollingIt)
      (fun _ w => ∃ poll first drain, w.exchanges = poll :: first :: drain :: past ∧ StartedPoll poll)
      (fun _ => True) :=
    triple_exchange (fun _ ⟨first, drain, hw⟩ _ => ⟨_, first, drain, congrArg _ hw, rfl, rfl⟩)
      fun _ _ _ => trivial
  apply triple_bind hpoll
  intro _
  have hgot : Triple
      (fun w => ∃ poll first drain, w.exchanges = poll :: first :: drain :: past ∧ StartedPoll poll)
      (require getFlashWip) (fun _ => Awaited past) (fun _ => True) := by
    apply triple_exchange
    · rintro w ⟨poll, first, drain, hw, hpoll⟩ -
      have hsuffix : w.newExchange .getFlashWip true (w.exchange id).chip :: poll :: first :: drain :: past <:+
          w.newExchange .getFlashWip true (w.exchange id).chip :: w.exchanges := by
        rewrite [hw]
        exact List.suffix_rfl
      exact ⟨_, poll, first, drain, hsuffix, rfl, hpoll⟩
    · exact fun _ _ _ => trivial
  apply triple_bind hgot
  exact fun _ => checkStatus_awaited past

/-- In every run of operations, whatever interrupts and time-outs come, each wait that returns
`LX_SUCCESS` has started a poll and then got a token, and each token that a wait has got is
from a match of the poll started just before. -/
theorem completions_genuine (operations : List Operation) (w : World) :
    Always step (fun s => Genuine s.exchanges) (watch w) operations ∧
      ∀ v t, waitForComplete v = .ok () t → Awaited v.exchanges t := by
  constructor
  · have hsteps : Along step (fun _ _ => True) (watch w) operations :=
      along_of_mem fun _ _ _ => trivial
    refine always_of_along ?_ trivial hsteps
    intro s op t hs _ ht
    cases ht
    exact step_kept hs
  · intro v t hwait
    exact (waitForComplete_awaited v.exchanges).of_ok rfl hwait

end EtherBench.Nand.Completion
