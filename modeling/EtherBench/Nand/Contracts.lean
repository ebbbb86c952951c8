import EtherBench.Nand.Operations

/-! # What carries over from the HAL calls to the operations

A contract says what holds between the calls of an operation, what holds from a command on the
array until its wait, and what holds after an error. If the HAL calls and the wait keep it, so
does every operation.
-/

namespace EtherBench.Nand.Contracts
open Device Hal Driver Operations Library.Effects Library.Triples

def statusReg (received : Option (List UInt8)) : UInt8 := (received.getD [0]).headD 0

def Fails (reg : UInt8) : Prop := reg &&& gd25FeatureBitEFail ≠ 0 ∨ reg &&& gd25FeatureBitPFail ≠ 0

instance (reg : UInt8) : Decidable (Fails reg) := instDecidableOr

/-- The chip has a failed program or erase to report. -/
def Failed (chip : Chip) : Prop := chip.eraseFail = true ∨ chip.programFail = true

instance (chip : Chip) : Decidable (Failed chip) := instDecidableOr

theorem fails_bits (programFail eraseFail writeEnabled : Bool) (ecc : Fin 4) :
    Fails ((if programFail then gd25FeatureBitPFail else 0) |||
      (if eraseFail then gd25FeatureBitEFail else 0) |||
      (if writeEnabled then gd25FeatureBitWel else 0) ||| (UInt8.ofNat ecc.val <<< 4)) ↔
      (eraseFail = true ∨ programFail = true) := by
  revert programFail eraseFail writeEnabled ecc
  decide

theorem status1_fails (chip : Chip) : Fails chip.status1 ↔ Failed chip :=
  fails_bits chip.programFail chip.eraseFail chip.writeEnabled chip.ecc

/-- Rule for the end of a wait: the status is not read, or not received, or it shows a failed
program or erase, or it does not. Only the third case is an error. -/
theorem triple_checkStatus {P R Q E : World → Prop}
    (hcommand : Triple P (halXspiCommand statusCommand) (fun ok w => if ok = true then R w else Q w) E)
    (hlost : ∀ w, R w → w.accepts = false →
      Q (w.record (.receive statusCommand) false (w.exchange id)))
    (hclear : ∀ w, R w → ¬ Failed w.chip → Q (w.record (.receive statusCommand) true (w.exchange id)))
    (hfailed : ∀ w, R w → Failed w.chip → E (w.record (.receive statusCommand) true (w.exchange id)))
    (hreset : Preserves E reset) :
    Triple P checkStatus (fun _ => Q) E := by
  apply triple_bind hcommand
  intro ok
  cases ok with
  | false => exact triple_pure () fun _ hw => hw
  | true =>
    have hreceive : Triple R (halXspiReceive statusCommand)
        (fun received w => if Fails (statusReg received) then E w else Q w) E := by
      intro w hw
      change if Fails (statusReg (if w.accepts then some [w.chip.status1] else none)) then
        E (w.record (.receive statusCommand) w.accepts (w.exchange id))
          else Q (w.record (.receive statusCommand) w.accepts (w.exchange id))
      cases haccepts : w.accepts with
      | false =>
        have hnothing : ¬ Fails (statusReg none) := by decide
        refine (iff_of_eq (if_neg ?_)).mpr (hlost w hw haccepts)
        exact hnothing
      | true =>
        by_cases hfails : Failed w.chip
        · refine (iff_of_eq (if_pos ?_)).mpr (hfailed w hw hfails)
          exact (status1_fails w.chip).mpr hfails
        · refine (iff_of_eq (if_neg ?_)).mpr (hclear w hw hfails)
          exact mt (status1_fails w.chip).mp hfails
    apply triple_bind hreceive
    intro received
    by_cases hfails : Fails (statusReg received)
    · simp only [if_pos hfails]
      refine triple_ite (fun _ => ?_) fun hclear => absurd hfails hclear
      apply triple_bind (triple_of_preserves hreset)
      exact fun _ => triple_throw _ fun _ hw => hw
    · simp only [if_neg hfails]
      exact triple_ite (fun hfail => absurd hfail hfails) fun _ => triple_pure () fun _ hw => hw

theorem triple_checkStatus_kept {I E : World → Prop}
    (hcommand : ∀ w, I w → I (w.record (.command statusCommand) w.accepts
      { w.exchange (·.execute w.reaction statusCommand) with issued := statusCommand :: w.issued }))
    (hreceive : ∀ w ok, I w → I (w.record (.receive statusCommand) ok (w.exchange id)))
    (hfailed : ∀ w, I w → Failed w.chip → E (w.record (.receive statusCommand) true (w.exchange id)))
    (hreset : Preserves E reset) :
    Triple I checkStatus (fun _ => I) E := by
  apply triple_checkStatus (triple_command hcommand)
  · exact fun w hw _ => hreceive w false hw
  · exact fun w hw _ => hreceive w true hw
  · exact hfailed
  · exact hreset

theorem preserves_waitForComplete {I : World → Prop} (hdrain : Preserves I drainFlashWip)
    (hstatus : Preserves I (halXspiCommand statusCommand)) (hpoll : Preserves I halXspiAutoPollingIt)
    (hget : Preserves I getFlashWip) (hreceive : Preserves I (halXspiReceive statusCommand))
    (hreset : Preserves I (halXspiCommand .reset)) : Preserves I waitForComplete := by
  have hcheck : Preserves I checkStatus := by
    apply preserves_bind hstatus
    intro ok
    refine preserves_ite ?_ (preserves_pure _ ())
    apply preserves_bind hreceive
    intro received
    refine preserves_ite ?_ (preserves_pure _ ())
    have hend : Preserves I reset := preserves_bind hreset fun _ => preserves_pure _ ()
    exact preserves_bind hend fun _ => preserves_throw _ _
  apply preserves_bind hdrain
  intro _
  apply preserves_bind (preserves_require hstatus)
  intro _
  apply preserves_bind (preserves_require hpoll)
  intro _
  apply preserves_bind (preserves_require hget)
  exact fun _ => hcheck

/-- The commands of the operations that are about the cache or the write latch only. -/
def plain : Command → Bool
  | .writeEnable | .programLoadX4 _ _ | .readFromCacheQio _ _ => true
  | _ => false

/-- What the HAL calls and the wait have to keep: `I` between the calls, `A c` from an allowed
command `c` on the array until its wait, and `E` after an error. -/
structure Contract (allowed : Command → Prop) (I : World → Prop) (A : Command → World → Prop)
    (E : World → Prop) : Prop where
  buffer : ∀ w (page : Page), I w → I { w with buffer := page }
  command : ∀ c, plain c = true → Triple I (require (halXspiCommand c)) (fun _ => I) E
  operate : ∀ c, c.row?.isSome → allowed c → Triple I (require (halXspiCommand c)) (fun _ => A c) E
  transmit : ∀ column length data,
    Triple I (require (halXspiTransmit (.programLoadX4 column length) data)) (fun _ => I) E
  receive : ∀ column length, Triple I (halXspiReceive (.readFromCacheQio column length))
    (fun received w => if received.isSome then I w else E w) E
  dmaDone : Triple I (require getFlashDmaDone) (fun _ => I) E
  wait : ∀ c, Triple (A c) waitForComplete (fun _ => I) E

section Functions

variable {allowed : Command → Prop} {I : World → Prop} {A : Command → World → Prop} {E : World → Prop}
  (h : Contract allowed I A E)
include h

theorem Contract.setBuffer (f : World → Page) :
    Triple I (modify fun w => { w with buffer := f w } : Driver Unit) (fun _ => I) E :=
  triple_modify fun w hw => h.buffer w (f w) hw

theorem Contract.dma (size : ℕ) :
    Triple I (if size > gd25DmaThreshold then require getFlashDmaDone else pure ()) (fun _ => I) E :=
  triple_ite (fun _ => h.dmaDone) fun _ => triple_pure () fun _ hw => hw

theorem Contract.writeEnable : Triple I writeEnable (fun _ => I) E := h.command _ rfl

theorem Contract.operation {c : Command} (hrow : c.row?.isSome) (hc : allowed c) :
    Triple I (require (halXspiCommand c) >>= fun _ => waitForComplete) (fun _ => I) E :=
  triple_bind (h.operate c hrow hc) fun _ => h.wait c

theorem Contract.send (column length size : ℕ) :
    Triple I (Driver.transmit (.programLoadX4 column length) size) (fun _ => I) E := by
  have hget : Triple I (get : Driver World) (fun _ => I) E := triple_get fun _ hw => hw
  apply triple_bind hget
  intro w
  apply triple_bind (h.command _ rfl)
  intro _
  apply triple_bind (h.transmit column length _)
  exact fun _ => h.dma size

theorem Contract.genericWrite {block page : ℕ} (hprogram : allowed (.programExecute (rowAddr block page)))
    (mainBuffer : Source) (mainSize : ℕ) (spareBuffer : Source) (spareSize spareOffset : ℕ) :
    Triple I (genericWrite block page mainBuffer mainSize spareBuffer spareSize spareOffset)
      (fun _ => I) E := by
  apply triple_bind (h.setBuffer _)
  intro _
  apply triple_bind (h.send _ _ _)
  intro _
  apply triple_bind h.writeEnable
  intro _
  exact h.operation rfl hprogram

theorem Contract.pagesWrite {block page n : ℕ}
    (hprogram : ∀ i < n, allowed (.programExecute (rowAddr block (ulong (page + i)))))
    (mainBuffer spareBuffer : Source) :
    Triple I (pagesWrite block page mainBuffer spareBuffer n) (fun _ => I) E := by
  apply triple_forRange_kept
  intro i _ hi
  exact h.genericWrite (hprogram i (by omega)) _ _ _ _ _

theorem Contract.copyOne {srcRow destRow : ℕ} (hload : allowed (.readToCache srcRow))
    (hprogram : allowed (.programExecute destRow)) :
    Triple I (copyOne srcRow destRow) (fun _ => I) E := by
  apply triple_bind (h.operate _ rfl hload)
  intro _
  apply triple_bind (triple_orThrow (h.wait _) lxError)
  intro _
  apply triple_bind h.writeEnable
  intro _
  apply triple_bind (h.operate _ rfl hprogram)
  exact fun _ => triple_orThrow (h.wait _) lxError

theorem Contract.pageCopy {srcBlock srcPage destBlock destPage n : ℕ}
    (hload : ∀ i < n, allowed (.readToCache (rowAddr srcBlock (srcPage + i))))
    (hprogram : ∀ i < n, allowed (.programExecute (rowAddr destBlock (destPage + i)))) :
    Triple I (pageCopy srcBlock srcPage destBlock destPage n) (fun _ => I) E := by
  apply triple_forRange_kept
  intro i _ hi
  exact h.copyOne (hload i (by omega)) (hprogram i (by omega))

theorem Contract.blockErase {block : ℕ} (herase : allowed (.blockErase (rowAddr block 0))) :
    Triple I (blockErase block) (fun _ => I) E :=
  triple_bind h.writeEnable fun _ => h.operation rfl herase

theorem Contract.fetch (column length size : ℕ) :
    Triple I (Driver.receive (.readFromCacheQio column length) size) (fun _ => I) E := by
  apply triple_bind (h.command _ rfl)
  intro _
  apply triple_bind (h.receive column length)
  intro received
  refine triple_bind ?_ fun _ => h.dma size
  cases received with
  | none => exact triple_throw lxError fun _ hw => hw
  | some bytes => exact h.setBuffer fun w => overlay w.buffer 0 bytes

theorem Contract.genericRead {block page : ℕ} (hload : allowed (.readToCache (rowAddr block page)))
    (mainGiven : Bool) (mainSize : ℕ) (spareGiven : Bool) (spareSize spareOffset : ℕ) :
    Triple I (genericRead block page mainGiven mainSize spareGiven spareSize spareOffset)
      (fun _ => I) E := by
  apply triple_bind (h.operate _ rfl hload)
  intro _
  apply triple_bind (triple_orThrow (h.wait _) lxError)
  intro _
  apply triple_bind (h.setBuffer _)
  intro _
  apply triple_bind (h.fetch _ _ _)
  intro _
  have hget : Triple I (get : Driver World) (fun _ => I) E := triple_get fun _ hw => hw
  apply triple_bind hget
  exact fun w => triple_pure _ fun _ hw => hw

theorem Contract.pagesReadLoop {block page i n : ℕ}
    (hload : ∀ j, i ≤ j → j < i + n → allowed (.readToCache (rowAddr block (ulong (page + j)))))
    (mainGiven spareGiven : Bool) :
    Triple I (pagesReadLoop block page mainGiven spareGiven i n) (fun _ => I) E := by
  induction n generalizing i with
  | zero => exact triple_pure _ fun _ hw => hw
  | succ n ih =>
    apply triple_bind (h.genericRead (hload i (Nat.le_refl i) (by omega)) _ _ _ _ _)
    intro first
    apply triple_bind (ih fun j hij hjn => hload j (by omega) (by omega))
    exact fun rest => triple_pure _ fun _ hw => hw

theorem Contract.pageRead {block page : ℕ} (hload : allowed (.readToCache (rowAddr block page)))
    (words : ℕ) : Triple I (pageRead block page words) (fun _ => I) E :=
  triple_bind (h.genericRead hload _ _ _ _ _) fun _ => triple_pure _ fun _ hw => hw

theorem Contract.extraBytesGet {block page : ℕ} (hload : allowed (.readToCache (rowAddr block page)))
    (size : ℕ) : Triple I (extraBytesGet block page size) (fun _ => I) E :=
  triple_bind (h.genericRead hload _ _ _ _ _) fun _ => triple_pure _ fun _ hw => hw

theorem Contract.blockStatusGet {block : ℕ} (hload : allowed (.readToCache (rowAddr block 0))) :
    Triple I (blockStatusGet block) (fun _ => I) E :=
  triple_bind (h.genericRead hload _ _ _ _ _) fun _ => triple_pure _ fun _ hw => hw

theorem Contract.pageEraseVerify (hI : ∀ w, I w → E w) {block page : ℕ}
    (hload : allowed (.readToCache (rowAddr block page))) :
    Triple I (pageEraseVerify block page) (fun _ => I) E := by
  apply triple_bind (triple_orThrow (h.pageRead hload _) lxError)
  exact fun words => triple_ite (fun _ => triple_pure () fun _ hw => hw) fun _ => triple_throw lxError hI

theorem Contract.blockEraseVerify (hI : ∀ w, I w → E w) {block : ℕ}
    (hfirst : allowed (.readToCache (rowAddr block 0)))
    (hlast : allowed (.readToCache (rowAddr block (gd25BlockPages - 1)))) :
    Triple I (blockEraseVerify block) (fun _ => I) E := by
  apply triple_bind (triple_orThrow (h.pageEraseVerify hI hfirst) lxError)
  exact fun _ => triple_orThrow (h.pageEraseVerify hI hlast) lxError

end Functions

/-! ## Operations on any rows -/

variable {I : World → Prop} {A : Command → World → Prop} {E : World → Prop}

theorem triple_statusOf {α : Type} {x : Driver α} (hx : Triple I x (fun _ => I) E) :
    Triple I (statusOf x) (fun _ => I) E :=
  triple_bind hx fun _ => triple_pure () fun _ hw => hw

def verifies : Operation → Bool
  | .pageEraseVerify _ _ | .blockEraseVerify _ => true
  | _ => false

variable (h : Contract (fun _ => True) I A E)
include h

theorem Contract.modification (m : Modification) : Triple I m.perform (fun _ => I) E := by
  cases m with
  | blockErase block => exact h.blockErase trivial
  | pageWrite block page source words => exact h.genericWrite trivial _ _ _ _ _
  | pagesWrite block page mainBuffer spareBuffer pages => exact h.pagesWrite (fun _ _ => trivial) _ _
  | extraBytesSet block page source size => exact h.genericWrite trivial _ _ _ _ _
  | blockStatusSet block badBlockByte => exact h.genericWrite trivial _ _ _ _ _
  | pageCopy srcBlock srcPage destBlock destPage pages =>
    exact h.pageCopy (fun _ _ => trivial) fun _ _ => trivial

theorem Contract.perform (op : Operation) (hop : verifies op = true → ∀ w, I w → E w) :
    Triple I op.perform (fun _ => I) E := by
  cases op with
  | modify m => exact h.modification m
  | pageRead block page words => exact triple_statusOf (h.pageRead trivial words)
  | pagesRead block page mainGiven spareGiven pages =>
    exact triple_statusOf (h.pagesReadLoop (fun _ _ _ => trivial) mainGiven spareGiven)
  | extraBytesGet block page size => exact triple_statusOf (h.extraBytesGet trivial size)
  | blockStatusGet block => exact triple_statusOf (h.blockStatusGet trivial)
  | pageEraseVerify block page => exact h.pageEraseVerify (hop rfl) trivial
  | blockEraseVerify block => exact h.blockEraseVerify (hop rfl) trivial trivial

end EtherBench.Nand.Contracts
