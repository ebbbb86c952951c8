import EtherBench.Library.Transition
import EtherBench.Nand.Outcomes

/-! # The configuration of the chip over a run

Only a reset changes the protection and the quad mode after the start-up, and the driver resets
the chip when a status that it has received shows a failed program or erase. Nothing brings the
configuration back then.
-/

namespace EtherBench.Nand.Configuration
open Device Hal Driver Operations Contracts Outcomes Library.Effects Library.Transition Library.Triples

/-- The registers that `app_levelx_thread_entry` sets. -/
def configuration (chip : Chip) : UInt8 × UInt8 := (chip.protection, chip.feature1)

/-- No block is protected, and the quad mode is on. -/
def Configured (registers : UInt8 × UInt8) : Prop :=
  registers.1 = 0 ∧ registers.2 &&& gd25FeatureBitQe ≠ 0

instance (registers : UInt8 × UInt8) : Decidable (Configured registers) := instDecidableAnd

/-- The commands that need it. -/
def needsConfiguration : Command → Bool
  | .readFromCacheQio _ _ | .programLoadX4 _ _ | .programExecute _ | .blockErase _ => true
  | _ => false

def sensitive (e : Exchange) : Bool :=
  match e.call with
  | .command c => needsConfiguration c
  | _ => false

/-- Every command that needs the configuration was issued under it. -/
def IssuedConfigured (w : World) : Prop :=
  ∀ e ∈ w.exchanges, sensitive e = true → Configured (configuration e.before)

instance (w : World) : Decidable (IssuedConfigured w) := List.decidableBAll _ _

def Reported (w : World) : Prop := ∃ e ∈ w.exchanges, ReportsFailure e

/-- Unless a failure has been reported, the registers are in `K`, and were so at each of the
exchanges picked out. -/
def Guarded (K : UInt8 × UInt8 → Prop) (picked : Exchange → Prop) (w : World) : Prop :=
  Reported w ∨ K (configuration w.chip) ∧ ∀ e ∈ w.exchanges, picked e → K (configuration e.before)

variable {K : UInt8 × UInt8 → Prop} {picked : Exchange → Prop} {w : World} {call : HalCall} {ok : Bool}
  {after : World}

theorem Reported.record (h : Reported w) : Reported (w.record call ok after) := by
  obtain ⟨e, hmem, he⟩ := h
  exact ⟨e, List.mem_cons_of_mem _ hmem, he⟩

theorem Guarded.record (h : Guarded K picked w)
    (hafter : configuration after.chip = configuration w.chip) :
    Guarded K picked (w.record call ok after) := by
  rcases h with hreported | ⟨hnow, hpast⟩
  · exact .inl hreported.record
  · right
    constructor
    · change K (configuration after.chip)
      rw [hafter]
      exact hnow
    · exact List.forall_mem_cons.mpr ⟨fun _ => hnow, hpast⟩

/-- Every command but the reset leaves the registers alone. -/
theorem execute_configuration {c : Command} (hc : c ≠ .reset) (chip : Chip) (r : Reaction) :
    configuration (chip.execute r c) = configuration chip := by
  cases c with
  | reset => exact absurd rfl hc
  | programExecute row =>
    rw [Chip.execute]
    split
    · cases r.damage <;> rfl
    · rfl
  | blockErase row =>
    rw [Chip.execute]
    split
    · cases r.damage <;> rfl
    · rfl
  | _ => rfl

theorem exchange_configuration {effect : Chip → Chip}
    (heffect : ∀ chip, configuration (effect chip) = configuration chip) (w : World) :
    configuration (w.exchange effect).chip = configuration w.chip := by
  change configuration (if _ then effect w.chip else w.chip) = _
  split
  · exact heffect w.chip
  · rfl

theorem call_guarded {answer : World → Bool} {after : World → World}
    (hafter : ∀ w, configuration (after w).chip = configuration w.chip) :
    Triple (Guarded K picked) (require fun w => .ok (answer w) (w.record call (answer w) (after w)))
      (fun _ => Guarded K picked) (Guarded K picked) :=
  triple_exchange (fun w hw _ => hw.record (hafter w)) fun w hw _ => hw.record (hafter w)

theorem command_guarded {c : Command} (hc : c ≠ .reset) :
    Triple (Guarded K picked) (require (halXspiCommand c)) (fun _ => Guarded K picked)
      (Guarded K picked) := by
  apply call_guarded
  intro w
  exact exchange_configuration (fun chip => execute_configuration hc chip w.reaction) w

theorem checkStatus_guarded :
    Triple (Guarded K picked) checkStatus (fun _ => Guarded K picked) Reported := by
  have hid : ∀ chip : Chip, configuration (id chip) = configuration chip := fun _ => rfl
  apply triple_checkStatus_kept
  · intro w hw
    apply hw.record
    exact congrArg configuration (exchange_status_chip w)
  · exact fun w ok hw => hw.record (exchange_configuration hid w)
  · exact fun w hw hfailed => ⟨_, List.mem_cons_self, rfl, rfl, hfailed⟩
  · exact preserves_bind (fun _ hw => Reported.record hw) fun _ => preserves_pure _ ()

/-- A wait keeps the registers unless it finds a failure and resets the chip. -/
theorem waitForComplete_guarded :
    Triple (Guarded K picked) waitForComplete (fun _ => Guarded K picked) (Guarded K picked) := by
  have hid : ∀ chip : Chip, configuration (id chip) = configuration chip := fun _ => rfl
  have hdrain : Triple (Guarded K picked) drainFlashWip (fun _ => Guarded K picked) (Guarded K picked) :=
    fun w hw => hw.record (exchange_configuration hid w)
  apply triple_bind hdrain
  intro _
  apply triple_bind (command_guarded Command.noConfusion)
  intro _
  have hpoll : Triple (Guarded K picked) (require halXspiAutoPollingIt) (fun _ => Guarded K picked)
      (Guarded K picked) := call_guarded (exchange_configuration hid)
  apply triple_bind hpoll
  intro _
  have hget : Triple (Guarded K picked) (require getFlashWip) (fun _ => Guarded K picked)
      (Guarded K picked) := call_guarded (exchange_configuration hid)
  apply triple_bind hget
  intro _
  exact checkStatus_guarded.weaken (fun _ h => h) (fun _ _ h => h) fun _ h => .inl h

theorem guarded_contract :
    Contract (fun _ => True) (Guarded K picked) (fun _ => Guarded K picked) (Guarded K picked) where
  buffer _ _ hw := hw
  command c hc := command_guarded (by rintro rfl; cases hc)
  operate c hc _ := command_guarded (by rintro rfl; cases hc)
  transmit column length data := by
    have htake : ∀ chip : Chip,
        configuration (chip.take data (.programLoadX4 column length)) = configuration chip := fun _ => rfl
    exact call_guarded (exchange_configuration htake)
  receive _ _ := triple_receive fun w hw => hw.record (exchange_configuration (fun _ => rfl) w)
  dmaDone := call_guarded (exchange_configuration fun _ => rfl)
  wait _ := waitForComplete_guarded

/-! ## The start-up -/

theorem triple_ignore {P Q E : World → Prop} {x : Driver Unit} (h : Triple P x (fun _ => Q) Q) :
    Triple P (ignore x) (fun _ => Q) E := by
  intro w hw
  have ht := h w hw
  simp only [ignore]
  cases hx : x w with
  | ok a t =>
    rw [hx] at ht
    exact ht
  | error e t =>
    rw [hx] at ht
    exact ht

/-- What is written to a register is there afterwards, unless a failure is reported. -/
theorem setFeature_guarded {K' : UInt8 × UInt8 → Prop} {reg value : UInt8}
    (hwrite : ∀ chip, K (configuration chip) →
      K' (configuration (chip.take [value] (.setFeatures reg)))) :
    Triple (Guarded K fun _ => False) (setFeature reg value) (fun _ => Guarded K' fun _ => False)
      (fun _ => True) := by
  have hany : ∀ w, Guarded K (fun _ => False) w → True := fun _ _ => trivial
  apply triple_bind ((command_guarded Command.noConfusion).weaken (fun _ h => h) (fun _ _ h => h) hany)
  intro _
  apply triple_bind ((command_guarded Command.noConfusion).weaken (fun _ h => h) (fun _ _ h => h) hany)
  intro _
  have htransmit : Triple (Guarded K fun _ => False)
      (require (halXspiTransmit (.setFeatures reg) [value])) (fun _ => Guarded K' fun _ => False)
      (fun _ => True) := by
    apply triple_exchange
    · intro w hw haccepts
      rcases hw with hreported | ⟨hnow, -⟩
      · exact .inl hreported.record
      · right
        constructor
        · change K' (configuration (w.exchange (·.take [value] (.setFeatures reg))).chip)
          rw [World.exchange_of_accepts haccepts]
          exact hwrite w.chip hnow
        · exact fun _ _ => False.elim
    · exact fun _ _ _ => trivial
  apply triple_bind htransmit
  exact fun _ => triple_ignore waitForComplete_guarded

theorem setProtectedBlocks_guarded :
    Triple (fun _ => True) (setProtectedBlocks 0) (fun _ => Guarded (fun r => r.1 = 0) fun _ => False)
      (fun _ => True) := by
  have hset : Triple (Guarded (fun _ => True) fun _ => False) (setProtectedBlocks 0)
      (fun _ => Guarded (fun r => r.1 = 0) fun _ => False) (fun _ => True) :=
    setFeature_guarded fun _ _ => rfl
  exact hset.weaken (fun _ _ => .inr ⟨trivial, fun _ _ => False.elim⟩) (fun _ _ h => h) fun _ h => h

theorem enableQuad_guarded :
    Triple (Guarded (fun r => r.1 = 0) fun _ => False) enableQuad
      (fun _ => Guarded Configured fun _ => False) (fun _ => True) := by
  have hquad : gd25FeatureBitQe &&& gd25FeatureBitQe ≠ 0 := by decide
  have hset : Triple (Guarded (fun r => r.1 = 0) fun _ => False)
      (setFeature gd25FeatureRegFeature1 gd25FeatureBitQe) (fun _ => Guarded Configured fun _ => False)
      (fun _ => True) := setFeature_guarded fun chip hprotection => ⟨hprotection, hquad⟩
  apply triple_bind hset
  intro _
  exact (command_guarded Command.noConfusion).weaken (fun _ h => h) (fun _ _ h => h) fun _ _ => trivial

/-! ## Runs -/

/-- An operation, with the record of its own exchanges. -/
def step (w : World) (op : Operation) : Option World := some (final op.perform (watch w))

/-- No program or erase is reported to have failed during the operation. -/
def Quiet (w : World) (op : Operation) : Prop := ∀ e ∈ trace op.perform w, ¬ ReportsFailure e

instance (w : World) (op : Operation) : Decidable (Quiet w op) := List.decidableBAll _ _

theorem step_configured {op : Operation} (hw : Configured (configuration w.chip)) (hquiet : Quiet w op) :
    Configured (configuration (final op.perform (watch w)).chip) ∧
      IssuedConfigured (final op.perform (watch w)) := by
  have hstart : Guarded Configured (sensitive · = true) (watch w) :=
    .inr ⟨hw, fun _ hmem => absurd hmem List.not_mem_nil⟩
  have hguarded := (guarded_contract.perform op fun _ _ h => h).final_of hstart
  apply hguarded.resolve_left
  rintro ⟨e, hmem, he⟩
  exact hquiet e hmem he

/-- Once the start-up has succeeded, all commands that need the configuration are issued under
it, in every run of operations in which no failed program or erase is reported. -/
theorem configuration_kept {w₀ w₁ w₂ : World} (hprotection : setProtectedBlocks 0 (watch w₀) = .ok () w₁)
    (hquad : enableQuad w₁ = .ok () w₂) (hstart : ∀ e ∈ w₂.exchanges, ¬ ReportsFailure e)
    {operations : List Operation} (hquiet : Along step Quiet (watch w₂) operations) :
    Always step IssuedConfigured (watch w₂) operations := by
  have hset := setProtectedBlocks_guarded.of_ok trivial hprotection
  have hconfigured : Configured (configuration w₂.chip) := by
    have hguarded := enableQuad_guarded.of_ok hset hquad
    have hnone : ¬ Reported w₂ := fun ⟨e, hmem, he⟩ => hstart e hmem he
    exact (hguarded.resolve_left hnone).1
  have hkept : Always step (fun w => Configured (configuration w.chip) ∧ IssuedConfigured w) (watch w₂)
      operations := by
    refine always_of_along ?_ ⟨hconfigured, fun _ hmem => absurd hmem List.not_mem_nil⟩ hquiet
    intro s op t hs hop ht
    cases ht
    exact step_configured hs.1 hop
  exact hkept.mono fun _ h => h.2

def delivered (env : ℕ → Reaction) : World :=
  { fresh env with chip := { (fresh env).chip with protection := 0x38, feature1 := 0x10 } }

def unprotected (env : ℕ → Reaction) : World := final (setProtectedBlocks 0) (watch (delivered env))

def started (env : ℕ → Reaction) : World := final enableQuad (unprotected env)

theorem configuration_kept_smooth :
    Always step IssuedConfigured (watch (started fun _ => smooth))
      [.modify (.blockErase 5), .extraBytesGet 5 0 4] := by
  have hprotection : setProtectedBlocks 0 (watch (delivered fun _ => smooth)) =
      .ok () (unprotected fun _ => smooth) := rfl
  have hquad : enableQuad (unprotected fun _ => smooth) = .ok () (started fun _ => smooth) := rfl
  exact configuration_kept hprotection hquad (by decide) (by decide)

/-- The chip fails in the erase that comes right after the start-up. -/
def failing (time : ℕ) : Reaction :=
  if time = 20 then { smooth with damage := some fun _ => erasedPage } else smooth

/-- The first erase fails and resets the chip, and the second one is issued to a chip with its
blocks protected. -/
theorem reset_loses_configuration :
    setProtectedBlocks 0 (watch (delivered failing)) = .ok () (unprotected failing) ∧
      enableQuad (unprotected failing) = .ok () (started failing) ∧
      (∀ e ∈ (started failing).exchanges, ¬ ReportsFailure e) ∧
      ¬ Always step IssuedConfigured (watch (started failing))
        [.modify (.blockErase 5), .modify (.blockErase 5)] := by
  refine ⟨rfl, rfl, by decide, fun h => ?_⟩
  have hsecond := (h.2 _ rfl).2 _ rfl
  have hprotected : ¬ IssuedConfigured (final (Modification.blockErase 5).perform
      (watch (final (Modification.blockErase 5).perform (watch (watch (started failing)))))) := by
    decide
  exact hprotected hsecond

end EtherBench.Nand.Configuration
