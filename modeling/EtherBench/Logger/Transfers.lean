import EtherBench.Logger.TaskLogger

/-! # Transfers of the logger

As long as no transfer ends between the timeout of its wait and its abort, a token of
`dma_tx_done` is only there while the task waits for the transfer that has put it, and
nothing is stored in a buffer that the DMA reads.
-/

namespace EtherBench.Logger.Transfers
open Library.Transition TaskLogger

def Starting : Phase → Prop
  | .clearBuffers _ | .clearSizes _ | .clearActive => True
  | _ => False

theorem Starting.apart {p : Phase} (h : Starting p) :
    p ≠ .await ∧ p ≠ .abort ∧ ∀ buffer size, p ≠ .transmit buffer size := by
  cases p with
  | clearBuffers _ => simp
  | clearSizes _ => simp
  | clearActive => simp
  | _ => exact h.elim

/-- No store has hit a running transfer, and every token was put by the transfer that the task
was waiting for. -/
structure Safe (s : State) : Prop where
  untouched : s.overwritten = false
  own : ∀ p ∈ s.consumed, p.1 = p.2

/-- How the phases, the transfer and the tokens go together. -/
structure Handshake (s : State) : Prop extends Safe s where
  starting : Starting s.phase → s.activeBuffer = 0
  armed : ∀ buffer size, s.phase = .transmit buffer size → buffer ≠ s.activeBuffer
  running : ∀ r, s.dma = some r →
    (s.phase = .await ∨ s.phase = .abort) ∧ r.buffer ≠ s.activeBuffer ∧ r.id = s.started
  tokens : s.dmaTxDone = [] ∨ s.phase = .await ∧ s.dma = none ∧ s.dmaTxDone = [s.started]

/-- No interrupt at the end of a transfer comes between a timeout and the abort. -/
def InTime (s : State) : Action → Prop
  | .complete => s.phase ≠ .abort
  | _ => True

theorem initial_handshake : Handshake initial where
  untouched := rfl
  own _ h := absurd h List.not_mem_nil
  starting _ := rfl
  armed _ _ h := by cases h
  running _ h := by cases h
  tokens := .inl rfl

section Step
variable {s : State} (h : Handshake s)
include h

/-- Outside of the waits the DMA is idle. -/
theorem Handshake.idle (hawait : s.phase ≠ .await) (habort : s.phase ≠ .abort) : s.dma = none := by
  cases hdma : s.dma with
  | none => rfl
  | some r => exact absurd (h.running r hdma).1 (not_or_intro hawait habort)

theorem Handshake.quiet (hawait : s.phase ≠ .await) : s.dmaTxDone = [] := by
  rcases h.tokens with hnone | hone
  · exact hnone
  · exact absurd hone.1 hawait

/-- A running transfer never reads the active buffer. -/
theorem Handshake.reading_active (start len : ℕ) : s.reading s.activeBuffer start len = false := by
  cases hdma : s.dma with
  | none => rw [State.reading, hdma, Option.any_none]
  | some r =>
    have hother := (h.running r hdma).2.1
    rw [State.reading, hdma, Option.any_some]
    exact decide_eq_false fun hread => hother hread.1

theorem Handshake.idle_starting (hstarting : Starting s.phase) : s.dma = none :=
  h.idle hstarting.apart.1 hstarting.apart.2.1

theorem Handshake.reading_starting (hstarting : Starting s.phase) (buffer : Fin 2) (start len : ℕ) :
    s.reading buffer start len = false := by
  rw [State.reading, h.idle_starting hstarting, Option.any_none]

theorem Handshake.stored (m : Message) : Handshake (stored s m) where
  untouched := by
    change (s.overwritten || s.reading s.activeBuffer _ _) = false
    rw [h.untouched, h.reading_active, Bool.or_false]
  own := h.own
  starting := h.starting
  armed := h.armed
  running := h.running
  tokens := h.tokens

theorem Handshake.store (hstarting : Starting s.phase) (buffer : Fin 2) (start : ℕ)
    (bytes : List UInt8) : Handshake (s.store buffer start bytes) where
  untouched := by
    change (s.overwritten || s.reading buffer start bytes.length) = false
    rw [h.untouched, h.reading_starting hstarting, Bool.or_false]
  own := h.own
  starting := h.starting
  armed := h.armed
  running := h.running
  tokens := h.tokens

theorem Handshake.resize (size : Fin 2 → ℕ) : Handshake { s with bufferSize := size } :=
  ⟨⟨h.untouched, h.own⟩, h.starting, h.armed, h.running, h.tokens⟩

theorem Handshake.trigger (n : ℕ) : Handshake { s with dmaTrigger := n } :=
  ⟨⟨h.untouched, h.own⟩, h.starting, h.armed, h.running, h.tokens⟩

theorem Handshake.move {p : Phase} (hawait : s.phase ≠ .await) (habort : s.phase ≠ .abort)
    (hstarting : Starting p → s.activeBuffer = 0)
    (harmed : ∀ buffer size, p = .transmit buffer size → buffer ≠ s.activeBuffer) :
    Handshake { s with phase := p } where
  untouched := h.untouched
  own := h.own
  starting := hstarting
  armed := harmed
  running r hr := by
    rw [h.idle hawait habort] at hr
    cases hr
  tokens := .inl (h.quiet hawait)

theorem Handshake.proceed {p : Phase} (hawait : s.phase ≠ .await) (habort : s.phase ≠ .abort)
    (hloop : ¬ Starting p) (hquiet : ∀ buffer size, p ≠ .transmit buffer size) :
    Handshake { s with phase := p } := by
  apply h.move hawait habort
  · exact fun hstarting => absurd hstarting hloop
  · exact fun buffer size harmed => absurd harmed (hquiet buffer size)

theorem Handshake.waiting (hawait : s.phase ≠ .await) (habort : s.phase ≠ .abort) :
    Handshake { s with phase := .wait } :=
  h.proceed hawait habort id fun _ _ => Phase.noConfusion

theorem Handshake.clearing {p : Phase} (hfrom : Starting s.phase) (hto : Starting p) :
    Handshake { s with phase := p } := by
  apply h.move hfrom.apart.1 hfrom.apart.2.1
  · exact fun _ => h.starting hfrom
  · exact fun buffer size harmed => absurd harmed (hto.apart.2.2 buffer size)

theorem Handshake.clearByte {k : ℕ} (hphase : s.phase = .clearBuffers k) : Handshake
    { s.store (bufferOf k) (k % logBufferSize) [0] with
      phase := if k + 1 < 2 * logBufferSize then .clearBuffers (k + 1) else .clearSizes 0 } := by
  have hstarting : Starting s.phase := by rw [hphase]; trivial
  apply (h.store hstarting (bufferOf k) (k % logBufferSize) [0]).clearing hstarting
  split <;> trivial

theorem Handshake.clearSize {k : ℕ} (hphase : s.phase = .clearSizes k) : Handshake
    { s with
      bufferSize := Function.update s.bufferSize (Fin.ofNat 2 k) 0
      phase := if k + 1 < 2 then .clearSizes (k + 1) else .clearActive } := by
  have hstarting : Starting s.phase := by rw [hphase]; trivial
  apply (h.resize (Function.update s.bufferSize (Fin.ofNat 2 k) 0)).clearing hstarting
  split <;> trivial

theorem Handshake.swap (hphase : s.phase = .swap) : Handshake
    { s with
      activeBuffer := 1 - s.activeBuffer
      bufferSize := Function.update s.bufferSize (1 - s.activeBuffer) 0
      phase := .transmit s.activeBuffer (s.bufferSize s.activeBuffer) } where
  untouched := h.untouched
  own := h.own
  starting := False.elim
  armed buffer size harmed := by
    cases harmed
    exact (by decide : ∀ b : Fin 2, b ≠ 1 - b) s.activeBuffer
  running r hr := by
    rw [h.idle (by simp [hphase]) (by simp [hphase])] at hr
    cases hr
  tokens := .inl (h.quiet (by simp [hphase]))

theorem Handshake.transmit {buffer : Fin 2} {size : ℕ} (hphase : s.phase = .transmit buffer size) :
    Handshake { s with
      dma := some ⟨s.started + 1, buffer, size, 0⟩, started := s.started + 1, phase := .await } where
  untouched := h.untouched
  own := h.own
  starting := False.elim
  armed _ _ harmed := by cases harmed
  running r hr := by
    cases hr
    exact ⟨.inl rfl, h.armed buffer size hphase, rfl⟩
  tokens := .inl (h.quiet (by simp [hphase]))

/-- While a transfer is running there is no token. -/
theorem Handshake.no_token {r : Transfer} (hdma : s.dma = some r) : s.dmaTxDone = [] := by
  rcases h.tokens with hnone | hone
  · exact hnone
  · rw [hdma] at hone
    cases hone.2.1

theorem Handshake.send {r : Transfer} (hdma : s.dma = some r) (byte : UInt8) : Handshake { s with
      dma := some { r with sent := r.sent + 1 }, transmitted := s.transmitted ++ [byte] } where
  untouched := h.untouched
  own := h.own
  starting := h.starting
  armed := h.armed
  running t ht := by
    cases ht
    exact h.running r hdma
  tokens := .inl (h.no_token hdma)

theorem Handshake.complete {r : Transfer} (hdma : s.dma = some r) (htime : s.phase ≠ .abort) :
    Handshake { s with dma := none, dmaTxDone := s.dmaTxDone ++ [r.id] } where
  untouched := h.untouched
  own := h.own
  starting := h.starting
  armed := h.armed
  running t ht := by cases ht
  tokens := by
    obtain ⟨hwaiting, _, hid⟩ := h.running r hdma
    refine .inr ⟨hwaiting.resolve_right htime, rfl, ?_⟩
    rw [h.no_token hdma, hid, List.nil_append]

/-- The token that is taken is the only one, and the task waited for it. -/
theorem Handshake.takeDone {token : ℕ} {rest : List ℕ} (htokens : s.dmaTxDone = token :: rest) :
    Handshake { s with
      dmaTxDone := rest, consumed := s.consumed ++ [(token, s.started)], phase := .wait } := by
  have hone := h.tokens
  rw [htokens] at hone
  obtain ⟨_, hdma, hlist⟩ := hone.resolve_left (List.cons_ne_nil token rest)
  obtain ⟨rfl, rfl⟩ := List.cons.inj hlist
  constructor
  · constructor
    · exact h.untouched
    · intro p hp
      rcases List.mem_append.mp hp with hold | hnew
      · exact h.own p hold
      · rw [List.mem_singleton.mp hnew]
  · exact False.elim
  · intro _ _ harmed
    cases harmed
  · intro r hr
    rw [hdma] at hr
    cases hr
  · exact .inl rfl

theorem Handshake.timeout (htokens : s.dmaTxDone = []) :
    Handshake { s with phase := .abort } where
  untouched := h.untouched
  own := h.own
  starting := False.elim
  armed _ _ harmed := by cases harmed
  running r hr := ⟨.inr rfl, (h.running r hr).2⟩
  tokens := .inl htokens

theorem Handshake.abort (hphase : s.phase = .abort) :
    Handshake { s with dma := none, phase := .wait } where
  untouched := h.untouched
  own := h.own
  starting := False.elim
  armed _ _ harmed := by cases harmed
  running r hr := by cases hr
  tokens := .inl (h.quiet (by simp [hphase]))

end Step

/-- Step rule. -/
theorem Handshake.step {s t : State} {a : Action} (h : Handshake s) (htime : InTime s a)
    (hstep : step s a = some t) : Handshake t := by
  cases step_moves hstep with
  | stored _ => exact h.stored _
  | dropped => exact h
  | clearByte hphase => exact h.clearByte hphase
  | clearSize hphase => exact h.clearSize hphase
  | clearActive hphase =>
    have hactive : s.activeBuffer = 0 := h.starting (by rw [hphase]; trivial)
    rw [← hactive]
    exact h.waiting (by simp [hphase]) (by simp [hphase])
  | wake hphase =>
    apply (h.trigger (s.dmaTrigger - 1)).proceed
    · simp [hphase]
    · simp [hphase]
    · exact id
    · exact fun _ _ => Phase.noConfusion
  | drain _ => exact h.trigger _
  | drained hphase =>
    apply h.proceed
    · simp [hphase]
    · simp [hphase]
    · exact id
    · exact fun _ _ => Phase.noConfusion
  | swap hphase _ => exact h.swap hphase
  | empty hphase => exact h.waiting (by simp [hphase]) (by simp [hphase])
  | transmit hphase _ => exact h.transmit hphase
  | refuse hphase =>
    apply h.proceed
    · simp [hphase]
    · simp [hphase]
    · exact id
    · exact fun _ _ => Phase.noConfusion
  | send hdma _ => exact h.send hdma _
  | complete hdma _ => exact h.complete hdma htime
  | takeDone _ htokens => exact h.takeDone htokens
  | timeout _ htokens => exact h.timeout htokens
  | abort hphase => exact h.abort hphase

/-- In every run in which no transfer ends between the timeout of its wait and its abort, no
byte that the DMA still has to read is overwritten, and every token belongs to the transfer
just started. -/
theorem transfers_safe (actions : List Action) (h : Along step InTime initial actions) :
    Always step Safe initial actions :=
  (always_of_along (fun _ _ _ hs htime hstep => Handshake.step hs htime hstep) initial_handshake h).mono
    fun _ => Handshake.toSafe

/-- A transfer of one message, up to the wait for its end. -/
def sending (m : Message) : List Action :=
  [.addLog m, .wake, .drain, .swap, .transmit] ++ List.replicate m.bytes.length .send

def shortMessage : Message := ⟨[33], by decide⟩

/-- A transfer ends after its wait has timed out. The token that it leaves ends the next wait at
once, and the buffer that the DMA is reading becomes the active one. -/
def lateEnd : List Action :=
  sending shortMessage ++ [.timeout, .complete, .abort,
    .addLog shortMessage, .wake, .drain, .swap, .transmit, .takeDone,
    .addLog shortMessage, .wake, .drain, .swap, .addLog shortMessage]

theorem lateEnd_unsafe : ∃ s, run step initial (boot ++ lateEnd) = some s ∧
    s.overwritten = true ∧ (1, 2) ∈ s.consumed := by
  rw [run_append run_boot]
  exact ⟨_, rfl, by decide, by decide⟩

theorem inTime_boot : Along step InTime initial boot := by
  apply along_of_mem
  intro a ha s
  rw [List.eq_of_mem_replicate ha]
  trivial

instance (s : State) (a : Action) : Decidable (InTime s a) := by
  unfold InTime
  split <;> infer_instance

/-- One transfer ends in time, another one is aborted. -/
theorem transfers_safe_twice : Always step Safe initial (boot ++ (sending shortMessage ++
    [.complete, .takeDone] ++ sending shortMessage ++ [.timeout, .abort])) :=
  transfers_safe _ (inTime_boot.append run_boot (by decide))

end EtherBench.Logger.Transfers
