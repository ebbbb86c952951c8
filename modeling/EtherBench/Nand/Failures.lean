import EtherBench.Nand.Outcomes

/-! # Failures that the driver reports as success

`wait_for_complete` never looks at the ECC bits of the status, and when the read-back of the
status is refused it takes the operation for a success. These are the two ways in which an
operation returns `LX_SUCCESS` after its chip has failed.
-/

namespace EtherBench.Nand.Failures
open Device Hal Driver Operations Contracts Outcomes Library.Effects Library.Triples

/-! ## Page loads -/

/-- The load of a page into the cache, accepted by the chip. -/
def PageLoad (e : Exchange) : Prop := (∃ row, e.call = .command (.readToCache row)) ∧ e.ok = true

/-- `ECCS1` is clear: the page has no errors, or corrected ones. -/
def Correctable (e : Exchange) : Prop := e.after.ecc < 2

/-- If the operation returns `LX_SUCCESS`, all pages that it has loaded are good. -/
def DeliversGood (op : Operation) (w : World) : Prop :=
  Succeeds op.perform w → ∀ e ∈ trace op.perform w, PageLoad e → Correctable e

/-- An operation keeps quiet about an uncorrectable page unless something else ends it. -/
theorem deliversGood_iff (op : Operation) (w : World) :
    DeliversGood op w ↔ (∃ e ∈ trace op.perform w, Ends (verifies op) e) ∨
      ∀ e ∈ trace op.perform w, PageLoad e → Correctable e := by
  rw [DeliversGood, succeeds_iff]
  constructor
  · intro h
    by_cases hend : ∃ e ∈ trace op.perform w, Ends (verifies op) e
    · exact .inl hend
    · exact .inr (h fun e hmem he => hend ⟨e, hmem, he⟩)
  · rintro (⟨e, hmem, he⟩ | hgood) hclean
    · exact absurd he (hclean e hmem)
    · exact hgood

def worn : World := fresh fun _ => { smooth with ecc := 2 }

/-- A byte of the spare area is delivered from a page that the chip could not correct. -/
theorem uncorrectable_delivered : ¬ DeliversGood (.extraBytesGet 0 0 1) worn := by
  intro h
  have hsucceeds : Succeeds (Operation.extraBytesGet 0 0 1).perform worn := ⟨_, rfl⟩
  have hload : (trace (Operation.extraBytesGet 0 0 1).perform worn)[8]? = some _ := rfl
  have hgood := h hsucceeds _ (List.mem_of_getElem? hload) ⟨⟨_, rfl⟩, rfl⟩
  have hbad : ¬ (2 : Fin 4) < 2 := by decide
  exact hbad hgood

/-! ## Programs and erases -/

def failedIn (chip : Chip) : Command → Bool
  | .programExecute _ => chip.programFail
  | .blockErase _ => chip.eraseFail
  | _ => false

/-- The commands with a fail flag of their own. -/
def alters : Command → Bool
  | .programExecute _ | .blockErase _ => true
  | _ => false

/-- If the modification returns `LX_SUCCESS`, all programs and erases that it has issued were
accepted and have left their fail flag clear. -/
def Confirmed (m : Modification) (w : World) : Prop :=
  Succeeds m.perform w → ∀ e ∈ trace m.perform w, ∀ c, e.call = .command c → alters c = true →
    e.ok = true ∧ failedIn e.after c = false

/-- The command of the exchange, if it is one, has left its fail flag clear. -/
def Settled (e : Exchange) : Prop := ∀ c, e.call = .command c → failedIn e.after c = false

/-- The read-back of the status after a wait. -/
def ReadBack (e : Exchange) : Prop :=
  (e.call = .command statusCommand ∧ e.afterWait = true) ∨ e.call = .receive statusCommand

/-- A read-back is refused that would have shown that the operation before it has failed. -/
def Overlooked (e : Exchange) : Prop :=
  ReadBack e ∧ e.ok = false ∧ ∃ c, e.operation = some c ∧ failedIn e.before c = true

/-- No failure is left exactly when none was overlooked. -/
def Balanced (w : World) : Prop :=
  (∀ e ∈ w.exchanges, Settled e) ↔ ∀ e ∈ w.exchanges, ¬ Overlooked e

/-- The same, before the status after the command `c` has been looked at. -/
structure Waiting (c : Command) (w : World) : Prop where
  operation : w.exchanges.findSome? Exchange.operation? = some c
  settled : (∀ e ∈ w.exchanges, Settled e) ↔
    (∀ e ∈ w.exchanges, ¬ Overlooked e) ∧ failedIn w.chip c = false

variable {w : World} {call : HalCall} {after : World} {c : Command}

theorem accepted_seen (chip : Chip) : ¬ Overlooked (w.newExchange call true chip) :=
  fun h => Bool.noConfusion h.2.1

theorem settled_of_not_command {ok : Bool} (hcall : ∀ c, call ≠ .command c) (chip : Chip) :
    Settled (w.newExchange call ok chip) := fun c h => absurd h (hcall c)

theorem settled_command {ok : Bool} {chip : Chip} (hc : failedIn chip c = false) :
    Settled (w.newExchange (.command c) ok chip) := by
  intro d hd
  cases hd
  exact hc

theorem Balanced.record (h : Balanced w) (hsettled : Settled (w.newExchange call true after.chip)) :
    Balanced (w.record call true after) := by
  change (∀ e ∈ _ :: w.exchanges, _) ↔ ∀ e ∈ _ :: w.exchanges, _
  rw [List.forall_mem_cons, List.forall_mem_cons]
  constructor
  · exact fun hold => ⟨accepted_seen _, h.mp hold.2⟩
  · exact fun hold => ⟨hsettled, h.mpr hold.2⟩

theorem Waiting.record (h : Waiting c w) (hchip : after.chip = w.chip)
    (hoperation : (w.newExchange call true after.chip).operation? = none)
    (hsettled : Settled (w.newExchange call true after.chip)) :
    Waiting c (w.record call true after) where
  operation := by
    rw [← h.operation]
    exact List.findSome?_cons_of_isNone (Option.isNone_iff_eq_none.mpr hoperation)
  settled := by
    change (∀ e ∈ _ :: w.exchanges, _) ↔ (∀ e ∈ _ :: w.exchanges, _) ∧ failedIn after.chip c = false
    rw [List.forall_mem_cons, List.forall_mem_cons, h.settled, hchip]
    constructor
    · rintro ⟨-, hold, hclear⟩
      exact ⟨⟨accepted_seen _, hold⟩, hclear⟩
    · rintro ⟨⟨-, hold⟩, hclear⟩
      exact ⟨hchip ▸ hsettled, hold, hclear⟩

theorem Waiting.overlook (h : Waiting c w) (hreadBack : ReadBack (w.newExchange call false after.chip))
    (hsettled : Settled (w.newExchange call false after.chip)) :
    Balanced (w.record call false after) := by
  have hoverlooked : ¬ Overlooked (w.newExchange call false after.chip) ↔ failedIn w.chip c = false := by
    constructor
    · intro hseen
      by_contra hfailed
      exact hseen ⟨hreadBack, rfl, c, h.operation, eq_true_of_ne_false hfailed⟩
    · rintro hclear ⟨-, -, d, hd, hfailed⟩
      cases h.operation.symm.trans hd
      exact Bool.noConfusion (hclear.symm.trans hfailed)
  change (∀ e ∈ _ :: w.exchanges, _) ↔ ∀ e ∈ _ :: w.exchanges, _
  rw [List.forall_mem_cons, List.forall_mem_cons, hoverlooked]
  constructor
  · rintro ⟨-, hold⟩
    exact (h.settled.mp hold).symm
  · rintro ⟨hclear, hold⟩
    exact ⟨hsettled, h.settled.mpr ⟨hold, hclear⟩⟩

theorem Waiting.balanced (h : Waiting c w) (hclear : failedIn w.chip c = false) : Balanced w := by
  constructor
  · exact fun hsettled => (h.settled.mp hsettled).1
  · exact fun hseen => h.settled.mpr ⟨hseen, hclear⟩

/-- A command on the array that is accepted is the one that the wait is for. -/
theorem Balanced.operate (h : Balanced w) (hc : c.row?.isSome) :
    Waiting c (w.record (.command c) true after) where
  operation := by
    have hoperation : (w.newExchange (.command c) true after.chip).operation? = some c :=
      if_pos ⟨rfl, hc⟩
    have hsome : ((w.newExchange (.command c) true after.chip).operation?).isSome := by
      rw [hoperation]
      rfl
    exact (List.findSome?_cons_of_isSome hsome).trans hoperation
  settled := by
    have hsettled : Settled (w.newExchange (.command c) true after.chip) ↔ failedIn after.chip c = false := by
      constructor
      · exact fun hnew => hnew c rfl
      · rintro hclear d hd
        cases hd
        exact hclear
    change (∀ e ∈ _ :: w.exchanges, _) ↔ (∀ e ∈ _ :: w.exchanges, _) ∧ failedIn after.chip c = false
    rw [List.forall_mem_cons, List.forall_mem_cons, hsettled]
    constructor
    · exact fun hold => ⟨⟨accepted_seen _, h.mp hold.2⟩, hold.1⟩
    · exact fun hold => ⟨hold.2, h.mpr hold.1.2⟩

/-- An accepted exchange keeps what `Settled` allows to keep; a refused one ends the operation. -/
theorem call_balanced {answer : World → Bool} {after : World → World}
    (hsettled : ∀ w : World, Settled (w.newExchange call true (after w).chip)) :
    Triple Balanced (require fun w => .ok (answer w) (w.record call (answer w) (after w)))
      (fun _ => Balanced) (fun _ => True) :=
  triple_exchange (fun w hw _ => hw.record (hsettled w)) fun _ _ _ => trivial

theorem call_waiting {answer : World → Bool} {after : World → World}
    (hcall : ∀ c, call = .command c → c = statusCommand) (hchip : ∀ w, (after w).chip = w.chip) :
    Triple (Waiting c) (require fun w => .ok (answer w) (w.record call (answer w) (after w)))
      (fun _ => Waiting c) (fun _ => True) := by
  apply triple_exchange
  · intro w hw _
    apply hw.record (hchip w)
    · cases call with
      | command d =>
        rw [hcall d rfl]
        rfl
      | _ => rfl
    · intro d hd
      rw [hcall d hd]
      rfl
  · exact fun _ _ _ => trivial

theorem command_balanced (hc : plain c = true) :
    Triple Balanced (require (halXspiCommand c)) (fun _ => Balanced) (fun _ => True) := by
  apply call_balanced
  intro w
  apply settled_command
  cases c with
  | programExecute row => cases hc
  | blockErase row => cases hc
  | _ => rfl

theorem drainFlashWip_waiting :
    Triple (Waiting c) drainFlashWip (fun _ => Waiting c) (fun _ => True) := by
  intro w hw
  refine hw.record ?_ rfl ?_
  · exact w.exchange_id_chip
  · exact settled_of_not_command (fun _ => HalCall.noConfusion) _

theorem getFlashWip_waiting :
    Triple (Waiting c) (require getFlashWip) (fun _ w => Waiting c w ∧ Waited w) (fun _ => True) := by
  apply triple_exchange
  · intro w hw _
    constructor
    · refine hw.record ?_ rfl ?_
      · exact w.exchange_id_chip
      · exact settled_of_not_command (fun _ => HalCall.noConfusion) _
    · rfl
  · exact fun _ _ _ => trivial

theorem checkStatus_balanced :
    Triple (fun w => Waiting c w ∧ Waited w) checkStatus (fun _ => Balanced) (fun _ => True) := by
  have hreset : Preserves (fun _ => True) reset :=
    preserves_bind (fun _ _ => trivial) fun _ => preserves_pure _ ()
  have hcommand : Triple (fun w => Waiting c w ∧ Waited w) (halXspiCommand statusCommand)
      (fun ok w => if ok = true then Waiting c w else Balanced w) (fun _ => True) := by
    intro w hw
    change if w.accepts = true then Waiting c (w.record (.command statusCommand) w.accepts _)
      else Balanced (w.record (.command statusCommand) w.accepts _)
    cases haccepts : w.accepts with
    | true =>
      rw [if_pos rfl]
      refine hw.1.record ?_ rfl (settled_command rfl)
      exact exchange_status_chip w
    | false =>
      rw [if_neg Bool.false_ne_true]
      exact hw.1.overlook (.inl ⟨rfl, hw.2⟩) (settled_command rfl)
  apply triple_checkStatus hcommand
  · intro w hw _
    exact hw.overlook (.inr rfl) (settled_of_not_command (fun _ => HalCall.noConfusion) _)
  · intro w hw hclear
    have hnone : failedIn w.chip c = false := by
      cases c with
      | programExecute row => exact eq_false_of_ne_true fun h => hclear (.inr h)
      | blockErase row => exact eq_false_of_ne_true fun h => hclear (.inl h)
      | _ => rfl
    apply (hw.balanced hnone).record
    exact settled_of_not_command (fun _ => HalCall.noConfusion) _
  · exact fun _ _ _ => trivial
  · exact hreset

theorem waitForComplete_balanced :
    Triple (Waiting c) waitForComplete (fun _ => Balanced) (fun _ => True) := by
  apply triple_bind drainFlashWip_waiting
  intro _
  have hstatus : ∀ d, HalCall.command statusCommand = .command d → d = statusCommand := by
    intro d hd
    cases hd
    rfl
  refine triple_bind (call_waiting hstatus ?_) fun _ => ?_
  · exact exchange_status_chip
  have hpoll : ∀ d, HalCall.autoPollingIt = .command d → d = statusCommand := fun _ hd => HalCall.noConfusion hd
  refine triple_bind (call_waiting hpoll ?_) fun _ => ?_
  · exact World.exchange_id_chip
  apply triple_bind getFlashWip_waiting
  exact fun _ => checkStatus_balanced

theorem receive_balanced (column length : ℕ) :
    Triple Balanced (halXspiReceive (.readFromCacheQio column length))
      (fun received w => if received.isSome then Balanced w else True) (fun _ => True) := by
  intro w hw
  cases haccepts : w.accepts with
  | true =>
    simp only [halXspiReceive, haccepts, if_true, Option.isSome_some]
    apply hw.record
    exact settled_of_not_command (fun _ => HalCall.noConfusion) _
  | false => simp only [halXspiReceive, haccepts, Bool.false_eq_true, if_false, Option.isSome_none]

theorem balanced_contract : Contract (fun _ => True) Balanced Waiting (fun _ => True) where
  buffer _ _ hw := hw
  command _ hc := command_balanced hc
  operate _ hc _ := triple_exchange (fun _ hw _ => hw.operate hc) fun _ _ _ => trivial
  transmit _ _ _ :=
    call_balanced fun _ => settled_of_not_command (fun _ => HalCall.noConfusion) _
  receive column length := receive_balanced column length
  dmaDone := call_balanced fun _ => settled_of_not_command (fun _ => HalCall.noConfusion) _
  wait _ := waitForComplete_balanced

theorem accepted_of_succeeds {m : Modification} (h : Succeeds m.perform w) {e : Exchange}
    (hmem : e ∈ trace m.perform w) (hcall : e.call = .command c) (hc : alters c = true) : e.ok = true := by
  by_contra hok
  apply (succeeds_iff (.modify m) w).mp h e hmem
  have hstatus : ¬ (c = statusCommand ∧ e.afterWait = true) := by
    rintro ⟨rfl, -⟩
    cases hc
  left
  rw [Refused, hcall]
  exact ⟨eq_false_of_ne_true hok, hstatus⟩

/-- A modification that succeeds has failed on the chip if and only if the failure was
overlooked. -/
theorem settled_of_succeeds {m : Modification} (h : Succeeds m.perform w) :
    (∀ e ∈ trace m.perform w, Settled e) ↔ ∀ e ∈ trace m.perform w, ¬ Overlooked e := by
  obtain ⟨t, ht⟩ := h
  have hstart : Balanced (watch w) :=
    iff_of_true (fun _ hmem => absurd hmem List.not_mem_nil) fun _ hmem => absurd hmem List.not_mem_nil
  have hbalanced := (balanced_contract.modification m).of_ok hstart ht
  simp only [trace, final, ht]
  exact hbalanced

/-- A modification reports success only for programs and erases that have succeeded, unless the
read-back of a status that shows a failure is refused. -/
theorem confirmed_iff (m : Modification) (w : World) :
    Confirmed m w ↔ (∃ e ∈ trace m.perform w, Ends false e) ∨
      ∀ e ∈ trace m.perform w, ¬ Overlooked e := by
  by_cases hsucceeds : Succeeds m.perform w
  · have hclean := (succeeds_iff (.modify m) w).mp hsucceeds
    rw [or_iff_right fun ⟨e, hmem, he⟩ => hclean e hmem he, ← settled_of_succeeds hsucceeds]
    constructor
    · intro h e hmem c hcall
      cases halters : alters c with
      | true => exact (h hsucceeds e hmem c hcall halters).2
      | false =>
        cases c with
        | programExecute row => cases halters
        | blockErase row => cases halters
        | _ => rfl
    · intro h _ e hmem c hcall hc
      exact ⟨accepted_of_succeeds hsucceeds hmem hcall hc, h e hmem c hcall⟩
  · have hends : ∃ e ∈ trace m.perform w, Ends false e := by
      by_contra hclean
      apply hsucceeds
      exact (succeeds_iff (.modify m) w).mpr fun e hmem he => hclean ⟨e, hmem, he⟩
    exact iff_of_true (fun h => absurd h hsucceeds) (.inl hends)

/-- A bus that refuses the read-back of the status, over a chip whose erase fails. -/
def unread : World := fresh fun time =>
  if time = 1 then { smooth with damage := some fun _ => erasedPage }
  else if time = 6 then { smooth with ok := false, reached := false }
  else smooth

/-- The erase of block 5 fails, and returns `LX_SUCCESS`. -/
theorem failed_erase_succeeds : ¬ Confirmed (.blockErase 5) unread := by
  intro h
  have hsucceeds : Succeeds (Modification.blockErase 5).perform unread := ⟨_, rfl⟩
  have herase : (trace (Modification.blockErase 5).perform unread)[5]? = some _ := rfl
  have hclear := (h hsucceeds _ (List.mem_of_getElem? herase) _ rfl rfl).2
  exact Bool.noConfusion hclear

end EtherBench.Nand.Failures
