import EtherBench.Nand.Completion
import EtherBench.Nand.RoundTrip

/-! # A bus that does what it is asked

Every call is accepted, every poll matches and the array works. From there the reads and the
writes of the driver succeed, whatever areas they are asked for.
-/

namespace EtherBench.Nand.Readiness
open Device Hal Driver Operations Contracts Library.Effects Library.Triples

/-- The reaction of such a bus and of the chip behind it. -/
structure Obliging (r : Reaction) : Prop where
  ok : r.ok = true
  matched : r.matched = true
  undamaged : r.damage = none
  loaded : r.misread = none

/-- Nothing is in progress and the chip has no failure to report. -/
structure Ready (w : World) : Prop where
  obliging : ∀ time, Obliging (w.env time)
  idle : w.polling = false
  unprotected : w.chip.protection = 0
  working : ¬ Failed w.chip

variable {w v : World}

theorem Ready.reliable (h : Ready w) : RoundTrip.Reliable w :=
  fun time => ⟨(h.obliging time).undamaged, (h.obliging time).loaded⟩

theorem fresh_ready {env : ℕ → Reaction} (h : ∀ time, Obliging (env time)) : Ready (fresh env) where
  obliging := h
  idle := rfl
  unprotected := rfl
  working := by simp [Failed, fresh]

theorem smooth_obliging : Obliging smooth := ⟨rfl, rfl, rfl, rfl⟩

theorem Ready.congr (h : Ready w) (henv : v.env = w.env) (hidle : v.polling = false)
    (hprotection : v.chip.protection = w.chip.protection) (hworking : ¬ Failed v.chip) : Ready v where
  obliging time := by
    rw [henv]
    exact h.obliging time
  idle := hidle
  unprotected := by
    rw [hprotection]
    exact h.unprotected
  working := hworking

theorem Ready.accepts (h : Ready w) : w.accepts = true := by
  rw [World.accepts, Completion.interrupted_idle h.idle, h.idle]
  exact (h.obliging w.time).ok

theorem Ready.exchange (h : Ready w) {effect : Chip → Chip}
    (hprotection : (effect w.chip).protection = w.chip.protection) (hworking : ¬ Failed (effect w.chip)) :
    Ready (w.exchange effect) := by
  apply h.congr
  · exact w.exchange_env effect
  · change w.interrupted.polling = false
    rw [Completion.interrupted_idle h.idle]
    exact h.idle
  · rw [World.exchange_of_accepts h.accepts]
    exact hprotection
  · rw [World.exchange_of_accepts h.accepts]
    exact hworking

theorem Ready.id (h : Ready w) : Ready (w.exchange id) := h.exchange rfl h.working

theorem Ready.record (h : Ready v) (call : HalCall) (ok : Bool) : Ready (w.record call ok v) :=
  h.congr rfl h.idle rfl h.working

theorem call_ready {P Q : World → Prop} {call : HalCall} {answer : World → Bool} {after : World → World}
    (hanswer : ∀ w, P w → answer w = true) (hQ : ∀ w, P w → Q (w.record call true (after w))) :
    Triple P (require fun w => .ok (answer w) (w.record call (answer w) (after w)))
      (fun _ => Q) (fun _ => False) := by
  apply triple_exchange
  · exact fun w hw _ => hQ w hw
  · intro w hw hrefused
    rw [hanswer w hw] at hrefused
    cases hrefused

theorem command_ready {c : Command}
    (h : ∀ w, Ready w → ((w.chip.execute w.reaction c).protection = w.chip.protection ∧
      ¬ Failed (w.chip.execute w.reaction c))) :
    Triple Ready (require (halXspiCommand c)) (fun _ => Ready) (fun _ => False) := by
  apply call_ready
  · exact fun w hw => hw.accepts
  · intro w hw
    have hafter : Ready (w.exchange (·.execute w.reaction c)) := hw.exchange (h w hw).1 (h w hw).2
    exact hafter.congr rfl hafter.idle rfl hafter.working

theorem plain_ready {c : Command} (hc : plain c = true) :
    Triple Ready (require (halXspiCommand c)) (fun _ => Ready) (fun _ => False) := by
  apply command_ready
  intro w hw
  cases c with
  | writeEnable => exact ⟨rfl, hw.working⟩
  | programLoadX4 column length => exact ⟨rfl, hw.working⟩
  | readFromCacheQio column length => exact ⟨rfl, hw.working⟩
  | _ => cases hc

theorem getFlashDmaDone_ready : Triple Ready (require getFlashDmaDone) (fun _ => Ready) (fun _ => False) := by
  apply call_ready
  · exact fun w hw => (hw.obliging w.time).ok
  · exact fun w hw => hw.id.record _ _

/-! ## The wait -/

def Drained (w : World) : Prop := Ready w ∧ w.flashWip = 0

/-- A poll is running, and its match is yet to come. -/
def Polling (w : World) : Prop := w.polling = true ∧ w.flashWip = 0 ∧ Ready { w with polling := false }

theorem drainFlashWip_ready : Triple Ready drainFlashWip (fun _ => Drained) (fun _ => False) := by
  intro w hw
  have hafter := hw.id
  exact ⟨hafter.congr rfl hafter.idle rfl hafter.working, rfl⟩

theorem statusCommand_ready :
    Triple Drained (require (halXspiCommand statusCommand)) (fun _ => Drained) (fun _ => False) := by
  apply call_ready
  · exact fun w hw => hw.1.accepts
  · intro w hw
    have hafter : Ready (w.exchange (·.execute w.reaction statusCommand)) := hw.1.exchange rfl hw.1.working
    refine ⟨hafter.congr rfl hafter.idle rfl hafter.working, ?_⟩
    change w.interrupted.flashWip = 0
    rw [Completion.interrupted_idle hw.1.idle]
    exact hw.2

theorem autoPollingIt_ready :
    Triple Drained (require halXspiAutoPollingIt) (fun _ => Polling) (fun _ => False) := by
  apply call_ready
  · exact fun w hw => hw.1.accepts
  · intro w hw
    refine ⟨?_, ?_, hw.1.id.congr rfl rfl rfl hw.1.id.working⟩
    · change (w.interrupted.polling || w.reaction.ok) = true
      rw [World.reaction, (hw.1.obliging w.time).ok, Bool.or_true]
    · change w.interrupted.flashWip = 0
      rw [Completion.interrupted_idle hw.1.idle]
      exact hw.2

theorem getFlashWip_ready : Triple Polling (require getFlashWip) (fun _ => Ready) (fun _ => False) := by
  have hinterrupted : ∀ w, Polling w → w.interrupted = { w with polling := false, flashWip := w.flashWip + 1 } := by
    intro w hw
    apply if_pos
    rw [hw.1]
    exact (hw.2.2.obliging w.time).matched
  apply call_ready
  · intro w hw
    rw [hinterrupted w hw]
    rfl
  · intro w hw
    apply hw.2.2.congr
    · exact w.exchange_env id
    · change w.interrupted.polling = false
      rw [hinterrupted w hw]
    · exact congrArg Chip.protection w.exchange_id_chip
    · change ¬ Failed (w.exchange id).chip
      rw [World.exchange_id_chip]
      exact hw.2.2.working

theorem checkStatus_ready : Triple Ready checkStatus (fun _ => Ready) (fun _ => False) := by
  have hcommand : Triple Ready (halXspiCommand statusCommand)
      (fun ok w => if ok = true then Ready w else Ready w) (fun _ => False) := by
    apply triple_command
    intro w hw
    have hafter : Ready (w.exchange (·.execute w.reaction statusCommand)) := hw.exchange rfl hw.working
    exact hafter.congr rfl hafter.idle rfl hafter.working
  apply triple_checkStatus hcommand
  · exact fun w hw _ => hw.id.record _ _
  · exact fun w hw _ => hw.id.record _ _
  · exact fun w hw hfailed => hw.working hfailed
  · exact fun _ h => h

theorem waitForComplete_ready : Triple Ready waitForComplete (fun _ => Ready) (fun _ => False) := by
  apply triple_bind drainFlashWip_ready
  intro _
  apply triple_bind statusCommand_ready
  intro _
  apply triple_bind autoPollingIt_ready
  intro _
  apply triple_bind getFlashWip_ready
  exact fun _ => checkStatus_ready

/-! ## Reads and writes -/

/-- All that the driver does besides programs and erases. -/
theorem ready_contract :
    Contract (fun c => ∃ row, c = .readToCache row) Ready (fun _ => Ready) (fun _ => False) where
  buffer w page hw := hw.congr rfl hw.idle rfl hw.working
  command _ hc := plain_ready hc
  operate c _ hc := by
    obtain ⟨row, rfl⟩ := hc
    exact command_ready fun w hw => ⟨rfl, hw.working⟩
  transmit column length data := by
    apply call_ready
    · exact fun w hw => hw.accepts
    · exact fun w hw => (hw.exchange rfl hw.working).record _ _
  receive column length := by
    intro w hw
    change if (if w.accepts then some (w.chip.give (.readFromCacheQio column length)) else none).isSome then
      Ready _ else False
    rw [hw.accepts]
    exact hw.id.record _ _
  dmaDone := getFlashDmaDone_ready
  wait _ := waitForComplete_ready

theorem program_ready (row : ℕ) :
    Triple (fun w => Ready w ∧ w.chip.writeEnabled = true) (require (halXspiCommand (.programExecute row)))
      (fun _ => Ready) (fun _ => False) := by
  apply call_ready
  · exact fun w hw => hw.1.accepts
  · rintro w ⟨hw, henabled⟩
    have hexecute : w.chip.execute w.reaction (.programExecute row) = w.chip.program row none := by
      rw [Chip.execute, henabled, hw.unprotected, World.reaction, (hw.obliging w.time).undamaged]
      rfl
    have hafter : Ready (w.exchange (·.execute w.reaction (.programExecute row))) := by
      apply hw.exchange
      · rw [hexecute]
        rfl
      · rw [hexecute]
        rintro (herase | hprogram)
        · exact hw.working (Or.inl herase)
        · cases hprogram
    exact hafter.congr rfl hafter.idle rfl hafter.working

theorem writeEnable_ready :
    Triple Ready writeEnable (fun _ w => Ready w ∧ w.chip.writeEnabled = true) (fun _ => False) := by
  apply call_ready
  · exact fun w hw => hw.accepts
  · intro w hw
    have hafter : Ready (w.exchange (·.execute w.reaction .writeEnable)) := hw.exchange rfl hw.working
    refine ⟨hafter.congr rfl hafter.idle rfl hafter.working, ?_⟩
    change (w.exchange (·.execute w.reaction .writeEnable)).chip.writeEnabled = true
    rw [World.exchange_of_accepts hw.accepts]
    rfl

theorem genericWrite_ready (block page : ℕ) (mainBuffer : Source) (mainSize : ℕ) (spareBuffer : Source)
    (spareSize spareOffset : ℕ) :
    Triple Ready (genericWrite block page mainBuffer mainSize spareBuffer spareSize spareOffset)
      (fun _ => Ready) (fun _ => False) := by
  apply triple_bind (ready_contract.setBuffer _)
  intro _
  apply triple_bind (ready_contract.send _ _ _)
  intro _
  apply triple_bind writeEnable_ready
  intro _
  apply triple_bind (program_ready _)
  exact fun _ => waitForComplete_ready

theorem genericRead_ready (block page : ℕ) (mainGiven : Bool) (mainSize : ℕ) (spareGiven : Bool)
    (spareSize spareOffset : ℕ) :
    Triple Ready (genericRead block page mainGiven mainSize spareGiven spareSize spareOffset)
      (fun _ => Ready) (fun _ => False) := ready_contract.genericRead ⟨_, rfl⟩ _ _ _ _ _

theorem ok_of_triple {α : Type} {P : World → Prop} {Q : α → World → Prop} {x : Driver α}
    (h : Triple P x Q fun _ => False) (hw : P w) : ∃ a t, x w = .ok a t ∧ Q a t := by
  have hend := h w hw
  cases hx : x w with
  | ok a t =>
    rw [hx] at hend
    exact ⟨a, t, rfl, hend⟩
  | error e t =>
    rw [hx] at hend
    exact hend.elim

end EtherBench.Nand.Readiness
