import EtherBench.Logger.Transfers

/-! # What the logger accepts it sends

In a run in which every transmission succeeds in time, the stored messages are what has been
transmitted, the rest of the buffer being sent and the contents of the active buffer, in this
order. Only `logger_task` itself can break this, when it clears its buffers at its start.
-/

namespace EtherBench.Logger.Conservation
open Library.Transition Library.Memory TaskLogger Transfers

def remaining (s : State) : Option Transfer → List UInt8
  | some r => slice (s.logBuffer r.buffer) r.sent (r.size - r.sent)
  | none => []

/-- The rest of the buffer being sent, from the moment it stops being the active one. -/
def inFlight (s : State) : List UInt8 :=
  match s.phase with
  | .transmit buffer size => slice (s.logBuffer buffer) 0 size
  | _ => remaining s s.dma

def pending (s : State) : List UInt8 :=
  slice (s.logBuffer s.activeBuffer) 0 (s.bufferSize s.activeBuffer)

/-- Nothing is dropped, duplicated or reordered. -/
def Conserved (s : State) : Prop := s.accepted = s.transmitted ++ inFlight s ++ pending s

instance (s : State) : Decidable (Conserved s) :=
  inferInstanceAs (Decidable (s.accepted = s.transmitted ++ inFlight s ++ pending s))

/-- The actions of runs in which every transmission is started, ends and is waited for in time. -/
def timely : Action → Bool
  | .refuse | .timeout | .abort => false
  | _ => true

def timelyStep (s : State) (a : Action) : Option State := if timely a then step s a else none

/-- No byte of a pending message is cleared, and no size while a message is pending. -/
def Harmless (s : State) : Action → Prop
  | .clear =>
    match s.phase with
    | .clearBuffers k =>
      bufferOf k = s.activeBuffer → k % logBufferSize < s.bufferSize s.activeBuffer →
        s.logBuffer s.activeBuffer (k % logBufferSize) = 0
    | .clearSizes k => Fin.ofNat 2 k = s.activeBuffer → s.bufferSize s.activeBuffer = 0
    | _ => True
  | _ => True

structure Sound (s : State) : Prop extends Handshake s where
  no_abort : s.phase ≠ .abort
  sent_le : ∀ r, s.dma = some r → r.sent ≤ r.size
  conserved : Conserved s

theorem initial_sound : Sound initial where
  toHandshake := initial_handshake
  no_abort := Phase.noConfusion
  sent_le _ h := by cases h
  conserved := rfl

theorem inFlight_transmit {s : State} {buffer : Fin 2} {size : ℕ} (h : s.phase = .transmit buffer size) :
    inFlight s = slice (s.logBuffer buffer) 0 size := by
  rw [inFlight, h]

theorem inFlight_other {s : State} (h : ∀ buffer size, s.phase ≠ .transmit buffer size) :
    inFlight s = remaining s s.dma := by
  rw [inFlight]
  split
  · next hphase => exact absurd hphase (h _ _)
  · rfl

theorem inFlight_idle {s : State} (h : ∀ buffer size, s.phase ≠ .transmit buffer size)
    (hdma : s.dma = none) : inFlight s = [] := by
  rw [inFlight_other h, hdma]
  rfl

theorem inFlight_congr {s t : State} (hphase : t.phase = s.phase) (hdma : t.dma = s.dma)
    (harmed : ∀ buffer size, s.phase = .transmit buffer size → t.logBuffer buffer = s.logBuffer buffer)
    (hrunning : ∀ r, s.dma = some r → t.logBuffer r.buffer = s.logBuffer r.buffer) :
    inFlight t = inFlight s := by
  by_cases h : ∃ buffer size, s.phase = .transmit buffer size
  · obtain ⟨buffer, size, h⟩ := h
    rw [inFlight_transmit h, inFlight_transmit (hphase.trans h), harmed buffer size h]
  · have hother : ∀ buffer size, s.phase ≠ .transmit buffer size :=
      fun buffer size hs => h ⟨buffer, size, hs⟩
    rw [inFlight_other hother, inFlight_other (by rw [hphase]; exact hother), hdma]
    cases hs : s.dma with
    | none => rfl
    | some r =>
      change slice (t.logBuffer r.buffer) _ _ = slice (s.logBuffer r.buffer) _ _
      rw [hrunning r hs]

section Step
variable {s : State}

theorem pending_stored (m : Message) : pending (stored s m) = pending s ++ m.bytes := by
  have hbuffer : (stored s m).logBuffer s.activeBuffer =
      write (s.logBuffer s.activeBuffer) (s.bufferSize s.activeBuffer) m.bytes :=
    Function.update_self s.activeBuffer _ s.logBuffer
  have hsize : (stored s m).bufferSize s.activeBuffer =
      s.bufferSize s.activeBuffer + m.bytes.length := Function.update_self s.activeBuffer _ s.bufferSize
  change slice ((stored s m).logBuffer s.activeBuffer) 0 ((stored s m).bufferSize s.activeBuffer) = _
  rw [hbuffer, hsize, slice_write_append]
  rfl

theorem stored_conserved (h : Sound s) (m : Message) : Conserved (stored s m) := by
  have hother (buffer : Fin 2) (hne : buffer ≠ s.activeBuffer) :
      (stored s m).logBuffer buffer = s.logBuffer buffer := Function.update_of_ne hne _ _
  have hflight : inFlight (stored s m) = inFlight s := by
    refine inFlight_congr ?_ ?_ ?_ ?_
    · rfl
    · rfl
    · intro buffer size harmed
      exact hother buffer (h.armed buffer size harmed)
    · intro r hr
      exact hother r.buffer (h.running r hr).2.1
  have haccepted : (stored s m).accepted = s.accepted ++ m.bytes := rfl
  have htransmitted : (stored s m).transmitted = s.transmitted := rfl
  have hbefore : s.accepted = s.transmitted ++ inFlight s ++ pending s := h.conserved
  rw [Conserved, haccepted, htransmitted, hflight, pending_stored, hbefore, List.append_assoc]

theorem move_conserved (h : Conserved s) {p : Phase} {n : ℕ}
    (hs : ∀ buffer size, s.phase ≠ .transmit buffer size)
    (hp : ∀ buffer size, p ≠ .transmit buffer size) :
    Conserved { s with phase := p, dmaTrigger := n } := by
  have hflight : inFlight { s with phase := p, dmaTrigger := n } = inFlight s := by
    rw [inFlight_other hs, inFlight_other hp]
    rfl
  rw [Conserved, hflight]
  exact h

theorem starting_inFlight (h : Handshake s) (hstarting : Starting s.phase) : inFlight s = [] :=
  inFlight_idle hstarting.apart.2.2 (h.idle_starting hstarting)

/-- While the buffers are cleared, everything is as before if and only if the pending messages
are. -/
theorem starting_conserved {t : State} (h : Sound s) (hs : Starting s.phase) (ht : Handshake t)
    (hstarting : Starting t.phase) (haccepted : t.accepted = s.accepted)
    (htransmitted : t.transmitted = s.transmitted) : Conserved t ↔ pending t = pending s := by
  have hbefore : s.accepted = s.transmitted ++ inFlight s ++ pending s := h.conserved
  rw [starting_inFlight h.toHandshake hs] at hbefore
  rw [Conserved, starting_inFlight ht hstarting, haccepted, htransmitted, hbefore]
  constructor
  · intro hkept
    exact (List.append_cancel_left hkept).symm
  · intro hkept
    rw [hkept]

/-- Clearing a byte keeps the pending messages if it is none of theirs, or zero. -/
theorem pending_clearByte {k : ℕ} (p : Phase) :
    pending { s.store (bufferOf k) (k % logBufferSize) [0] with phase := p } = pending s ↔
      (bufferOf k = s.activeBuffer → k % logBufferSize < s.bufferSize s.activeBuffer →
        s.logBuffer s.activeBuffer (k % logBufferSize) = 0) := by
  change slice (Function.update s.logBuffer (bufferOf k)
    (write (s.logBuffer (bufferOf k)) (k % logBufferSize) [0]) s.activeBuffer) 0
      (s.bufferSize s.activeBuffer) = slice (s.logBuffer s.activeBuffer) 0 (s.bufferSize s.activeBuffer) ↔ _
  by_cases hbuffer : bufferOf k = s.activeBuffer
  · rw [hbuffer, Function.update_self]
    constructor
    · intro hkept _ hlt
      have hbyte := congrArg (fun bytes => bytes[k % logBufferSize]?) hkept
      simp only [slice_getElem?, if_pos hlt, Nat.zero_add, Option.some.injEq] at hbyte
      rw [← hbyte, write, if_pos (Nat.le_refl _), Nat.sub_self]
      rfl
    · intro hzero
      apply slice_congr
      intro i _ hi
      by_cases hik : i = k % logBufferSize
      · have hbyte : s.logBuffer s.activeBuffer i = 0 := by
          rw [hik]
          exact hzero rfl (by omega)
        rw [hbyte, hik, write, if_pos (Nat.le_refl _), Nat.sub_self]
        rfl
      · rcases Nat.lt_or_gt_of_ne hik with hbefore | hafter
        · exact write_before _ hbefore _
        · exact write_after _ (Nat.succ_le_of_lt hafter)
  · rw [Function.update_of_ne (Ne.symm hbuffer)]
    exact iff_of_true rfl fun heq => absurd heq hbuffer

theorem pending_clearSize {k : ℕ} (p : Phase) :
    pending { s with bufferSize := Function.update s.bufferSize (Fin.ofNat 2 k) 0, phase := p } =
      pending s ↔ (Fin.ofNat 2 k = s.activeBuffer → s.bufferSize s.activeBuffer = 0) := by
  change slice (s.logBuffer s.activeBuffer) 0
    (Function.update s.bufferSize (Fin.ofNat 2 k) 0 s.activeBuffer) =
      slice (s.logBuffer s.activeBuffer) 0 (s.bufferSize s.activeBuffer) ↔ _
  by_cases hbuffer : Fin.ofNat 2 k = s.activeBuffer
  · rw [hbuffer, Function.update_self]
    constructor
    · intro hkept _
      have hlength := congrArg List.length hkept
      rw [slice_length, slice_length] at hlength
      exact hlength.symm
    · intro hzero
      rw [hzero rfl]
  · rw [Function.update_of_ne (Ne.symm hbuffer)]
    exact iff_of_true rfl fun heq => absurd heq hbuffer

/-- The steps before the loop are where the pending messages can be lost. -/
theorem clear_conserved (h : Sound s) {t : State} (hclear : step s .clear = some t) :
    Conserved t ↔ Harmless s .clear := by
  have hintime : InTime s .clear := trivial
  have ht : Handshake t := h.toHandshake.step hintime hclear
  cases step_moves hclear with
  | clearByte hphase =>
    rw [starting_conserved h (by rw [hphase]; trivial) ht]
    · rw [pending_clearByte]
      simp only [Harmless, hphase]
    · change Starting (if _ then _ else _)
      split <;> trivial
    · rfl
    · rfl
  | clearSize hphase =>
    rw [starting_conserved h (by rw [hphase]; trivial) ht]
    · rw [pending_clearSize]
      simp only [Harmless, hphase]
    · change Starting (if _ then _ else _)
      split <;> trivial
    · rfl
    · rfl
  | clearActive hphase =>
    have hactive : s.activeBuffer = 0 := h.starting (by rw [hphase]; trivial)
    have hmoved : Conserved { s with phase := .wait } :=
      move_conserved h.conserved (by simp [hphase]) (by simp)
    rw [← hactive]
    simp only [Harmless, hphase, iff_true]
    exact hmoved

/-- The active buffer becomes the one being sent, and the other one starts empty. -/
theorem swap_conserved (h : Sound s) (hphase : s.phase = .swap) : Conserved
    { s with
      activeBuffer := 1 - s.activeBuffer
      bufferSize := Function.update s.bufferSize (1 - s.activeBuffer) 0
      phase := .transmit s.activeBuffer (s.bufferSize s.activeBuffer) } := by
  have hidle : inFlight s = [] :=
    inFlight_idle (by simp [hphase]) (h.idle (by simp [hphase]) (by simp [hphase]))
  have hbefore : s.accepted = s.transmitted ++ inFlight s ++ pending s := h.conserved
  rw [hidle, List.append_nil] at hbefore
  have hempty : slice (s.logBuffer (1 - s.activeBuffer)) 0
      (Function.update s.bufferSize (1 - s.activeBuffer) 0 (1 - s.activeBuffer)) = [] := by
    rw [Function.update_self, slice_zero]
  change s.accepted = s.transmitted ++ pending s ++ slice (s.logBuffer (1 - s.activeBuffer)) 0
    (Function.update s.bufferSize (1 - s.activeBuffer) 0 (1 - s.activeBuffer))
  rw [hempty, List.append_nil, hbefore]

theorem transmit_conserved (h : Sound s) {buffer : Fin 2} {size : ℕ}
    (hphase : s.phase = .transmit buffer size) (n : ℕ) : Conserved
    { s with dma := some ⟨n, buffer, size, 0⟩, started := n, phase := .await } := by
  have hflight : inFlight s = slice (s.logBuffer buffer) 0 size := inFlight_transmit hphase
  have hbefore : s.accepted = s.transmitted ++ inFlight s ++ pending s := h.conserved
  rw [hflight] at hbefore
  exact hbefore

theorem running_phase (h : Sound s) {r : Transfer} (hdma : s.dma = some r) :
    s.phase = .await := (h.running r hdma).1.resolve_right h.no_abort

theorem send_conserved (h : Sound s) {r : Transfer} (hdma : s.dma = some r) (hmore : r.sent < r.size) :
    Conserved { s with
      dma := some { r with sent := r.sent + 1 }
      transmitted := s.transmitted ++ [s.logBuffer r.buffer r.sent] } := by
  have hphase := running_phase h hdma
  have hsplit : r.size - r.sent = r.size - (r.sent + 1) + 1 := by omega
  have hflight : inFlight s = s.logBuffer r.buffer r.sent ::
      slice (s.logBuffer r.buffer) (r.sent + 1) (r.size - (r.sent + 1)) := by
    rw [inFlight_other (by simp [hphase]), hdma]
    change slice _ _ (r.size - r.sent) = _
    rw [hsplit, slice_succ]
  have hbefore : s.accepted = s.transmitted ++ inFlight s ++ pending s := h.conserved
  rw [hflight] at hbefore
  rw [Conserved, inFlight_other (by simp [hphase])]
  change s.accepted = s.transmitted ++ [s.logBuffer r.buffer r.sent] ++
    slice (s.logBuffer r.buffer) (r.sent + 1) (r.size - (r.sent + 1)) ++ pending s
  rw [hbefore, List.append_assoc s.transmitted [_], List.singleton_append]

theorem complete_conserved (h : Sound s) {r : Transfer} (hdma : s.dma = some r) (hdone : r.sent = r.size)
    (tokens : List ℕ) : Conserved { s with dma := none, dmaTxDone := tokens } := by
  have hphase := running_phase h hdma
  have hflight : inFlight s = [] := by
    rw [inFlight_other (by simp [hphase]), hdma]
    change slice _ _ (r.size - r.sent) = _
    rw [hdone, Nat.sub_self, slice_zero]
  have hbefore : s.accepted = s.transmitted ++ inFlight s ++ pending s := h.conserved
  rw [hflight] at hbefore
  rw [Conserved, inFlight_idle (by simp [hphase]) rfl]
  exact hbefore

theorem takeDone_conserved (h : Sound s) (hphase : s.phase = .await) (tokens : List ℕ)
    (consumed : List (ℕ × ℕ)) :
    Conserved { s with dmaTxDone := tokens, consumed := consumed, phase := .wait } := by
  have hflight : inFlight { s with dmaTxDone := tokens, consumed := consumed, phase := .wait } =
      inFlight s := by
    have hwaiting : ∀ buffer size, s.phase ≠ .transmit buffer size := by simp [hphase]
    rw [inFlight_other hwaiting, inFlight_other fun _ _ => Phase.noConfusion]
    rfl
  rw [Conserved, hflight]
  exact h.conserved

end Step

theorem timelyStep_some {s t : State} {a : Action} (h : timelyStep s a = some t) :
    timely a = true ∧ step s a = some t := Option.ite_none_right_eq_some.mp h

/-- Every other step of a timely run keeps the account. -/
theorem step_conserved {s t : State} {a : Action} (h : Sound s) (hharmless : Harmless s a)
    (htimely : timely a = true) (hstep : step s a = some t) : Conserved t := by
  cases step_moves hstep with
  | stored _ => exact stored_conserved h _
  | dropped => exact h.conserved
  | clearByte _ => exact (clear_conserved h hstep).mpr hharmless
  | clearSize _ => exact (clear_conserved h hstep).mpr hharmless
  | clearActive _ => exact (clear_conserved h hstep).mpr hharmless
  | wake hphase => exact move_conserved h.conserved (by simp [hphase]) (by simp)
  | drain hphase => exact move_conserved h.conserved (by simp [hphase]) (by simp [hphase])
  | drained hphase => exact move_conserved h.conserved (by simp [hphase]) (by simp)
  | swap hphase _ => exact swap_conserved h hphase
  | empty hphase => exact move_conserved h.conserved (by simp [hphase]) (by simp)
  | transmit hphase _ => exact transmit_conserved h hphase _
  | refuse _ => cases htimely
  | send hdma hmore => exact send_conserved h hdma hmore
  | complete hdma hdone => exact complete_conserved h hdma hdone _
  | takeDone hphase _ => exact takeDone_conserved h hphase _ _
  | timeout _ _ => cases htimely
  | abort _ => cases htimely

theorem step_no_abort {s t : State} {a : Action} (h : s.phase ≠ .abort) (htimely : timely a = true)
    (hstep : step s a = some t) : t.phase ≠ .abort := by
  cases step_moves hstep with
  | clearByte _ =>
    change (if _ then _ else _) ≠ _
    split <;> exact Phase.noConfusion
  | clearSize _ =>
    change (if _ then _ else _) ≠ _
    split <;> exact Phase.noConfusion
  | refuse _ => cases htimely
  | timeout _ _ => cases htimely
  | abort _ => cases htimely
  | stored _ => exact h
  | dropped => exact h
  | drain _ => exact h
  | send _ _ => exact h
  | complete _ _ => exact h
  | clearActive _ => exact Phase.noConfusion
  | wake _ => exact Phase.noConfusion
  | drained _ => exact Phase.noConfusion
  | swap _ _ => exact Phase.noConfusion
  | empty _ => exact Phase.noConfusion
  | transmit _ _ => exact Phase.noConfusion
  | takeDone _ _ => exact Phase.noConfusion

theorem step_sent_le {s t : State} {a : Action} (h : ∀ r, s.dma = some r → r.sent ≤ r.size)
    (hstep : step s a = some t) : ∀ r, t.dma = some r → r.sent ≤ r.size := by
  cases step_moves hstep with
  | transmit _ _ =>
    intro r hr
    cases hr
    exact Nat.zero_le _
  | send hdma hmore =>
    intro r hr
    cases hr
    exact hmore
  | complete _ _ =>
    intro r hr
    cases hr
  | abort _ =>
    intro r hr
    cases hr
  | _ => exact h

theorem Sound.step {s t : State} {a : Action} (h : Sound s) (hharmless : Harmless s a)
    (hstep : timelyStep s a = some t) : Sound t := by
  obtain ⟨htimely, hstep⟩ := timelyStep_some hstep
  have hintime : InTime s a := by
    cases a with
    | complete => exact h.no_abort
    | _ => trivial
  exact ⟨h.toHandshake.step hintime hstep, step_no_abort h.no_abort htimely hstep,
    step_sent_le h.sent_le hstep, step_conserved h hharmless htimely hstep⟩

/-- A run in which every transmission succeeds in time loses nothing if and only if the clearing
at the start of the task never meets a pending message. -/
theorem conserved_iff (actions : List Action) :
    Always timelyStep Conserved initial actions ↔ Along timelyStep Harmless initial actions := by
  apply always_iff_along
  · exact fun s h => Sound.conserved h
  · exact fun s a t h hharmless hstep => h.step hharmless hstep
  · intro s a t h hharm hstep
    cases a with
    | clear => exact mt (clear_conserved h (timelyStep_some hstep).2).mp hharm
    | _ => exact absurd trivial hharm
  · exact initial_sound

/-- A message logged before the task has run is wiped. -/
theorem startUp_loses : ¬ Always timelyStep Conserved initial (.addLog shortMessage :: boot) := by
  intro h
  have hcleared := ((h.2 _ rfl).2 _ rfl).head
  exact absurd hcleared (by decide)

end EtherBench.Logger.Conservation
