import EtherBench.Library.Memory
import EtherBench.Nand.Contracts

/-! # What makes an operation fail

Every exchange of an operation is of a kind that ends it or of one that does not, and an
operation returns `LX_SUCCESS` exactly when none of the first kind occurs. A refused read-back
of the status does not end an operation.
-/

namespace EtherBench.Nand.Outcomes
open Device Hal Driver Operations Contracts Library.Effects Library.Triples Library.Memory

/-- A call that fails, other than the read-back of the status after a wait. -/
def Refused (e : Exchange) : Prop :=
  match e.call with
  | .command c => e.ok = false ∧ ¬ (c = statusCommand ∧ e.afterWait = true)
  | .receive c => e.ok = false ∧ c ≠ statusCommand
  | .drainFlashWip => False
  | _ => e.ok = false

/-- The chip reports a failed program or erase in a status that is received. -/
def ReportsFailure (e : Exchange) : Prop :=
  e.call = .receive statusCommand ∧ e.ok = true ∧ Failed e.before

instance (e : Exchange) : Decidable (ReportsFailure e) := instDecidableAnd

def Programmed (e : Exchange) : Prop :=
  ∃ c, e.call = .receive c ∧ c ≠ statusCommand ∧ e.ok = true ∧ ∃ b ∈ e.before.give c, b ≠ 0xFF

/-- The exchange ends the operation with an error; the erase verification looks at the bytes. -/
def Ends (verifies : Bool) (e : Exchange) : Prop :=
  Refused e ∨ ReportsFailure e ∨ verifies = true ∧ Programmed e

/-- Nothing so far ends the operation. -/
def Clean (verifies : Bool) (w : World) : Prop := ∀ e ∈ w.exchanges, ¬ Ends verifies e

def Stopped (verifies : Bool) (w : World) : Prop := ∃ e ∈ w.exchanges, Ends verifies e

theorem ends_of_not_receive {verifies : Bool} {e : Exchange} (h : ∀ c, e.call ≠ .receive c) :
    Ends verifies e ↔ Refused e := by
  constructor
  · rintro (hrefused | hreports | ⟨_, c, hreceive, _⟩)
    · exact hrefused
    · exact absurd hreports.1 (h statusCommand)
    · exact absurd hreceive (h c)
  · exact Or.inl

variable {v : Bool} {w : World}

theorem clean_record {call : HalCall} {ok : Bool} {after : World} (h : Clean v w)
    (he : ¬ Ends v (w.newExchange call ok after.chip)) : Clean v (w.record call ok after) := by
  intro e hmem
  rcases List.mem_cons.mp hmem with rfl | hold
  · exact he
  · exact h e hold

theorem stopped_record {call : HalCall} {ok : Bool} {after : World}
    (he : Ends v (w.newExchange call ok after.chip)) : Stopped v (w.record call ok after) :=
  ⟨_, List.mem_cons_self, he⟩

theorem Stopped.record (h : Stopped v w) (call : HalCall) (ok : Bool) (after : World) :
    Stopped v (w.record call ok after) := by
  obtain ⟨e, hmem, he⟩ := h
  exact ⟨e, List.mem_cons_of_mem _ hmem, he⟩

theorem call_clean {call : HalCall} {answer : World → Bool} {after : World → World}
    (hcall : ∀ c, call ≠ .receive c)
    (hok : ∀ w : World, ¬ Refused (w.newExchange call true (after w).chip))
    (hrefused : ∀ w : World, Refused (w.newExchange call false (after w).chip)) :
    Triple (Clean v) (require fun w => .ok (answer w) (w.record call (answer w) (after w)))
      (fun _ => Clean v) (Stopped v) := by
  apply triple_exchange
  · intro w hw _
    exact clean_record hw (mt (ends_of_not_receive hcall).mp (hok w))
  · intro w hw _
    exact stopped_record ((ends_of_not_receive hcall).mpr (hrefused w))

theorem command_clean {c : Command} (hc : c ≠ statusCommand) :
    Triple (Clean v) (require (halXspiCommand c)) (fun _ => Clean v) (Stopped v) := by
  apply call_clean
  · exact fun _ => HalCall.noConfusion
  · exact fun w hrefused => Bool.noConfusion hrefused.1
  · exact fun w => ⟨rfl, fun hstatus => hc hstatus.1⟩

theorem transmit_clean (c : Command) (data : List UInt8) :
    Triple (Clean v) (require (halXspiTransmit c data)) (fun _ => Clean v) (Stopped v) := by
  apply call_clean
  · exact fun _ => HalCall.noConfusion
  · exact fun w hrefused => Bool.noConfusion hrefused
  · exact fun w => rfl

theorem autoPollingIt_clean :
    Triple (Clean v) (require halXspiAutoPollingIt) (fun _ => Clean v) (Stopped v) := by
  apply call_clean
  · exact fun _ => HalCall.noConfusion
  · exact fun w hrefused => Bool.noConfusion hrefused
  · exact fun w => rfl

theorem getFlashDmaDone_clean :
    Triple (Clean v) (require getFlashDmaDone) (fun _ => Clean v) (Stopped v) := by
  apply call_clean
  · exact fun _ => HalCall.noConfusion
  · exact fun w hrefused => Bool.noConfusion hrefused
  · exact fun w => rfl

def Waited (w : World) : Prop := w.exchanges.head?.any Exchange.gotFlashWip = true

theorem drainFlashWip_clean :
    Triple (Clean v) drainFlashWip (fun _ w => Clean v w ∧ ¬ Waited w) (Stopped v) := by
  intro w hw
  constructor
  · apply clean_record hw
    exact mt (ends_of_not_receive fun _ => HalCall.noConfusion).mp id
  · exact Bool.noConfusion

theorem statusCommand_clean :
    Triple (fun w => Clean v w ∧ ¬ Waited w) (require (halXspiCommand statusCommand))
      (fun _ => Clean v) (Stopped v) := by
  have hcall : ∀ c, HalCall.command statusCommand ≠ .receive c := fun _ => HalCall.noConfusion
  apply triple_exchange
  · intro w hw _
    apply clean_record hw.1
    exact mt (ends_of_not_receive hcall).mp fun hrefused => Bool.noConfusion hrefused.1
  · intro w hw _
    apply stopped_record
    exact (ends_of_not_receive hcall).mpr ⟨rfl, fun hstatus => hw.2 hstatus.2⟩

theorem getFlashWip_clean :
    Triple (Clean v) (require getFlashWip) (fun _ w => Clean v w ∧ Waited w) (Stopped v) := by
  have hcall : ∀ c, HalCall.getFlashWip ≠ .receive c := fun _ => HalCall.noConfusion
  apply triple_exchange
  · intro w hw _
    constructor
    · apply clean_record hw
      exact mt (ends_of_not_receive hcall).mp fun hrefused => Bool.noConfusion hrefused
    · rfl
  · intro w hw _
    exact stopped_record ((ends_of_not_receive hcall).mpr rfl)

theorem reset_stopped : Preserves (Stopped v) reset :=
  preserves_bind (fun _ hw => Stopped.record hw _ _ _) fun _ => preserves_pure _ ()

theorem checkStatus_clean :
    Triple (fun w => Clean v w ∧ Waited w) checkStatus (fun _ => Clean v) (Stopped v) := by
  apply triple_checkStatus
  · apply triple_command
    intro w hw
    apply clean_record hw.1
    apply mt (ends_of_not_receive fun _ => HalCall.noConfusion).mp
    exact fun hrefused => hrefused.2 ⟨rfl, hw.2⟩
  · intro w hw _
    apply clean_record hw
    rintro (hrefused | hreports | ⟨_, c, hreceive, hc, _⟩)
    · exact hrefused.2 rfl
    · exact Bool.noConfusion hreports.2.1
    · cases hreceive
      exact hc rfl
  · intro w hw hfailed
    apply clean_record hw
    rintro (hrefused | hreports | ⟨_, c, hreceive, hc, _⟩)
    · exact Bool.noConfusion hrefused.1
    · exact hfailed hreports.2.2
    · cases hreceive
      exact hc rfl
  · intro w hw hfailed
    exact stopped_record (.inr (.inl ⟨rfl, rfl, hfailed⟩))
  · exact reset_stopped

theorem waitForComplete_clean : Triple (Clean v) waitForComplete (fun _ => Clean v) (Stopped v) := by
  apply triple_bind drainFlashWip_clean
  intro _
  apply triple_bind statusCommand_clean
  intro _
  apply triple_bind autoPollingIt_clean
  intro _
  apply triple_bind getFlashWip_clean
  exact fun _ => checkStatus_clean

theorem receive_clean (column length : ℕ) :
    Triple (Clean false) (halXspiReceive (.readFromCacheQio column length))
      (fun received w => if received.isSome then Clean false w else Stopped false w)
      (Stopped false) := by
  intro w hw
  cases haccepts : w.accepts with
  | true =>
    simp only [halXspiReceive, haccepts, if_true, Option.isSome_some]
    apply clean_record hw
    rintro (hrefused | hreports | ⟨hverifies, _⟩)
    · exact Bool.noConfusion hrefused.1
    · cases hreports.1
    · cases hverifies
  | false =>
    simp only [halXspiReceive, haccepts, Bool.false_eq_true, if_false, Option.isSome_none]
    exact stopped_record (.inl ⟨rfl, Command.noConfusion⟩)

theorem clean_contract : Contract (fun _ => True) (Clean false) (fun _ => Clean false) (Stopped false) where
  buffer _ _ hw := hw
  command c hc := command_clean (by rintro rfl; cases hc)
  operate c hc _ := command_clean (by rintro rfl; cases hc)
  transmit column length data := transmit_clean _ data
  receive column length := receive_clean column length
  dmaDone := getFlashDmaDone_clean
  wait _ := waitForComplete_clean

theorem Clean.unverified (h : Clean true w) : Clean false w := by
  rintro e hmem (hrefused | hreports | ⟨hfalse, _⟩)
  · exact h e hmem (.inl hrefused)
  · exact h e hmem (.inr (.inl hreports))
  · cases hfalse

/-- Nothing has ended the read, and the verification is content with the bytes if and only if
they are erased. -/
structure Fetched (bytes : List UInt8) (w : World) : Prop where
  clean : Clean false w
  erased : Clean true w ↔ ∀ b ∈ bytes, b = 0xFF

theorem Fetched.record {bytes : List UInt8} (h : Fetched bytes w) {call : HalCall} {ok : Bool}
    {after : World} (he : ∀ verifies, ¬ Ends verifies (w.newExchange call ok after.chip)) :
    Fetched bytes (w.record call ok after) where
  clean := clean_record h.clean (he false)
  erased := by
    rw [← h.erased]
    constructor
    · exact fun hclean e hmem => hclean e (List.mem_cons_of_mem _ hmem)
    · exact fun hclean => clean_record hclean (he true)

def Received (length : ℕ) : Option (List UInt8) → World → Prop
  | some bytes, w => bytes.length = length ∧ Fetched bytes w
  | none, w => Stopped true w

theorem receive_fetched (column length : ℕ) :
    Triple (Clean true) (halXspiReceive (.readFromCacheQio column length)) (Received length)
      (Stopped true) := by
  intro w hw
  cases haccepts : w.accepts with
  | false =>
    simp only [halXspiReceive, haccepts, Bool.false_eq_true, if_false]
    exact stopped_record (.inl ⟨rfl, Command.noConfusion⟩)
  | true =>
    simp only [halXspiReceive, haccepts, if_true]
    refine ⟨by simp [Chip.give], clean_record hw.unverified ?_, ?_⟩
    · rintro (hrefused | hreports | ⟨hfalse, _⟩)
      · exact Bool.noConfusion hrefused.1
      · cases hreports.1
      · cases hfalse
    · constructor
      · intro hclean b hb
        by_contra hprogrammed
        refine hclean _ List.mem_cons_self (.inr (.inr ⟨rfl, _, rfl, Command.noConfusion, rfl, b, hb, ?_⟩))
        exact hprogrammed
      · intro herased
        apply clean_record hw
        rintro (hrefused | hreports | ⟨_, c, hreceive, _, _, b, hb, hprogrammed⟩)
        · exact Bool.noConfusion hrefused.1
        · cases hreports.1
        · cases hreceive
          exact hprogrammed (herased b hb)

theorem storeReceived_fetched (length : ℕ) (received : Option (List UInt8)) :
    Triple (Received length received) (storeReceived received)
      (fun _ w => Fetched (slice w.buffer 0 length) w) (Stopped true) := by
  cases received with
  | none => exact triple_throw lxError fun _ hw => hw
  | some bytes =>
    apply triple_modify
    intro w hw
    have hslice : slice (overlay w.buffer 0 bytes) 0 length = bytes := by
      rw [← hw.1]
      exact slice_write w.buffer 0 bytes
    change Fetched (slice (overlay w.buffer 0 bytes) 0 length) _
    rw [hslice]
    exact ⟨hw.2.clean, hw.2.erased⟩

theorem getFlashDmaDone_fetched (length : ℕ) :
    Triple (fun w => Fetched (slice w.buffer 0 length) w) (require getFlashDmaDone)
      (fun _ w => Fetched (slice w.buffer 0 length) w) (Stopped true) := by
  have hcall : ∀ c, HalCall.getFlashDmaDone ≠ .receive c := fun _ => HalCall.noConfusion
  apply triple_exchange
  · intro w hw _
    have hbuffer : (w.record .getFlashDmaDone true (w.exchange id)).buffer = w.buffer :=
      w.interrupted_buffer
    rw [hbuffer]
    apply hw.record
    exact fun verifies => mt (ends_of_not_receive hcall).mp fun hrefused => Bool.noConfusion hrefused
  · intro w hw _
    exact stopped_record ((ends_of_not_receive hcall).mpr rfl)

theorem receive_erased (column length size : ℕ) :
    Triple (Clean true) (Driver.receive (.readFromCacheQio column length) size)
      (fun _ w => Fetched (slice w.buffer 0 length) w) (Stopped true) := by
  apply triple_bind (command_clean Command.noConfusion)
  intro _
  apply triple_bind (receive_fetched column length)
  intro received
  apply triple_bind (storeReceived_fetched length received)
  intro _
  exact triple_ite (fun _ => getFlashDmaDone_fetched length) fun _ => triple_pure () fun _ hw => hw

theorem xferSize_main {size : ℕ} (h : size < 2 ^ 32) : xferSize true size false 0 = size := ulong_eq h

theorem genericRead_fetched (block page : ℕ) {size : ℕ} (hsize : size < 2 ^ 32) :
    Triple (Clean true) (genericRead block page true size false 0 0) (fun read => Fetched read.1)
      (Stopped true) := by
  apply triple_bind (command_clean Command.noConfusion)
  intro _
  apply triple_bind (triple_orThrow waitForComplete_clean lxError)
  intro _
  have hbuffer : Triple (Clean true) (modify fun w => { w with buffer := erasedPage } : Driver Unit)
      (fun _ => Clean true) (Stopped true) := triple_modify fun _ hw => hw
  apply triple_bind hbuffer
  intro _
  apply triple_bind (receive_erased _ _ _)
  intro _ w hw
  have hslice : slice w.buffer 0 size = (List.range size).map w.buffer := by
    apply List.map_congr_left
    intro i _
    rw [Nat.zero_add]
  rw [xferSize_main hsize, hslice] at hw
  exact hw

theorem pageRead_fetched (block page words : ℕ) :
    Triple (Clean true) (pageRead block page words) Fetched (Stopped true) := by
  have hsize : ulong (words * 4) < 2 ^ 32 := Nat.mod_lt _ (Nat.two_pow_pos 32)
  exact triple_bind (genericRead_fetched block page hsize) fun read => triple_pure read.1 fun _ hw => hw

theorem pageEraseVerify_clean (block page : ℕ) :
    Triple (Clean true) (pageEraseVerify block page) (fun _ => Clean true) (Stopped true) := by
  apply triple_bind (triple_orThrow (pageRead_fetched block page _) lxError)
  intro words
  apply triple_ite
  · intro herased
    apply triple_pure
    intro w hw
    apply hw.erased.mpr
    intro b hb
    exact of_decide_eq_true (List.all_eq_true.mp herased b hb)
  · intro hprogrammed
    apply triple_throw
    intro w hw
    by_contra hstopped
    apply hprogrammed
    have hclean : Clean true w := fun e hmem he => hstopped ⟨e, hmem, he⟩
    exact List.all_eq_true.mpr fun b hb => decide_eq_true (hw.erased.mp hclean b hb)

theorem blockEraseVerify_clean (block : ℕ) :
    Triple (Clean true) (blockEraseVerify block) (fun _ => Clean true) (Stopped true) := by
  apply triple_bind (triple_orThrow (pageEraseVerify_clean block 0) lxError)
  exact fun _ => triple_orThrow (pageEraseVerify_clean block _) lxError

/-- An operation ends with an error if and only if an exchange of it ends it. -/
theorem perform_clean (op : Operation) :
    Triple (Clean (verifies op)) op.perform (fun _ => Clean (verifies op)) (Stopped (verifies op)) := by
  cases op with
  | pageEraseVerify block page => exact pageEraseVerify_clean block page
  | blockEraseVerify block => exact blockEraseVerify_clean block
  | _ => exact clean_contract.perform _ Bool.noConfusion

theorem watch_clean (w : World) : Clean v (watch w) := fun _ hmem => absurd hmem List.not_mem_nil

/-- An operation returns `LX_SUCCESS` exactly when none of its exchanges ends it. -/
theorem succeeds_iff (op : Operation) (w : World) :
    Succeeds op.perform w ↔ ∀ e ∈ trace op.perform w, ¬ Ends (verifies op) e := by
  have hend := perform_clean op (watch w) (watch_clean w)
  simp only [Succeeds, trace, final]
  cases hrun : op.perform (watch w) with
  | ok a t =>
    rw [hrun] at hend
    exact ⟨fun _ => hend, fun _ => ⟨t, rfl⟩⟩
  | error e t =>
    rw [hrun] at hend
    obtain ⟨x, hmem, hx⟩ := hend
    constructor
    · rintro ⟨_, ht⟩
      cases ht
    · exact fun hclean => absurd hx (hclean x hmem)

end EtherBench.Nand.Outcomes
