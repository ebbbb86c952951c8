import EtherBench.Library.Transition
import EtherBench.Parser.Command
import EtherBench.ThreadX.Objects
import Mathlib.Logic.Function.Basic

/-! # The blocks of the parser pool

Producers run `ShellStreamBase::build_request`, the parser task runs its loop, and they
share the block pool `parser_pool` and the queue `parser_input`. Every call of a pool or a
queue service is one step, so the steps of all producers and of the parser interleave freely.
-/

namespace EtherBench.Parser.Requests
open Library.Transition Library.Holders ThreadX Command

variable {S H : Type*}

/-- `SHELL_COMMAND_FIFO_DEPTH`, the number of messages of `parser_input`. -/
def shellCommandFifoDepth : ℕ := 5

/-- Where a call of `build_request` stands; the block is what its `response` points to. -/
inductive Phase where
  | allocating
  | filling (block : ℕ)
  | sending (block : ℕ)
  | refused (block : ℕ)
  | done
  deriving DecidableEq

def Phase.block : Phase → Option ℕ
  | .filling b | .sending b | .refused b => some b
  | .allocating | .done => none

/-- A call of `build_request`: the stream it runs on, the line buffer it sends, and its progress. -/
structure Request (S : Type*) where
  stream : S
  line : List Char
  phase : Phase

def Request.block (r : Request S) : Option ℕ := r.phase.block

/-- `cmd` is the block of the running iteration of `parser_task`, none while it waits in
`tx_queue_receive`. -/
structure State (S : Type*) where
  parserPool : BlockPool ℕ
  parserInput : List ℕ
  memory : ℕ → ParserInput S
  requests : List (Request S)
  cmd : Option ℕ

/-- The scheduler chooses whose step is next; the flags and results are the environment's. -/
inductive Action (S : Type*) where
  | submit (stream : S) (line : List Char)
  | allocate (i : ℕ) (granted : Bool)
  | fill (i : ℕ)
  | send (i : ℕ) (accepted : Bool)
  | release (i : ℕ)
  | receive
  | finish (retval : ℤ)

def State.setPhase (s : State S) (i : ℕ) (r : Request S) (phase : Phase) : State S :=
  { s with requests := s.requests.set i { r with phase := phase } }

def allocateStep (s : State S) (i : ℕ) (r : Request S) (granted : Bool) : Option (State S) :=
  match r.phase with
  | .allocating =>
    if granted then
      s.parserPool.txBlockAllocate.map fun (b, pool) =>
        { s with parserPool := pool }.setPhase i r (.filling b)
    else some (s.setPhase i r .done)
  | _ => none

def fillStep (s : State S) (i : ℕ) (r : Request S) : Option (State S) :=
  match r.phase with
  | .filling b =>
    some ({ s with memory := Function.update s.memory b (fillRequest r.stream r.line) }.setPhase
      i r (.sending b))
  | _ => none

def sendStep (s : State S) (i : ℕ) (r : Request S) (accepted : Bool) : Option (State S) :=
  match r.phase with
  | .sending b =>
    if accepted then
      (txQueueSend shellCommandFifoDepth s.parserInput b).map fun queue =>
        { s with parserInput := queue }.setPhase i r .done
    else some (s.setPhase i r (.refused b))
  | _ => none

def releaseStep (s : State S) (i : ℕ) (r : Request S) : Option (State S) :=
  match r.phase with
  | .refused b => some ({ s with parserPool := s.parserPool.txBlockRelease b }.setPhase i r .done)
  | _ => none

def receiveStep (s : State S) : Option (State S) :=
  match s.cmd with
  | none => (txQueueReceive s.parserInput).map fun (b, queue) =>
      { s with parserInput := queue, cmd := some b }
  | some _ => none

/-- The iteration ends; the block is released only at the exit that reaches `tx_block_release`. -/
def finishStep (t : Tables H) (s : State S) (retval : ℤ) : Option (State S) :=
  match s.cmd with
  | none => none
  | some b =>
    some (if (parserTask t (some (s.memory b)) retval).releases then
      { s with cmd := none, parserPool := s.parserPool.txBlockRelease b } else { s with cmd := none })

/-- One step of a producer or of the parser. An empty line makes `build_request` return at once. -/
def step (t : Tables H) (s : State S) : Action S → Option (State S)
  | .submit stream line =>
    some { s with requests := s.requests ++ [⟨stream, line, if line = [] then .done else .allocating⟩] }
  | .allocate i granted => s.requests[i]?.bind fun r => allocateStep s i r granted
  | .fill i => s.requests[i]?.bind fun r => fillStep s i r
  | .send i accepted => s.requests[i]?.bind fun r => sendStep s i r accepted
  | .release i => s.requests[i]?.bind fun r => releaseStep s i r
  | .receive => receiveStep s
  | .finish retval => finishStep t s retval

/-- After `launcher`: a pool of `total` free blocks of any content, an empty queue, no call. -/
def init (total : ℕ) (memory : ℕ → ParserInput S) : State S :=
  ⟨⟨List.range total⟩, [], memory, [], none⟩

/-- In how many places a block is: available, referenced by entries of the queue, held by
calls of `build_request`, held by the iteration of the parser. -/
def owners (s : State S) (b : ℕ) : ℕ :=
  s.parserPool.free b + s.parserInput.count b + holders Request.block s.requests b + claim s.cmd b

/-- The parser waits on an empty queue and no `build_request` is in progress. -/
structure Idle (s : State S) : Prop where
  parserWaits : s.cmd = none
  queueEmpty : s.parserInput = []
  noRequest : ∀ r ∈ s.requests, r.phase = .done

/-- Every block is in exactly one place, and all are free when the system is idle. -/
structure BlocksAccounted (total : ℕ) (s : State S) : Prop where
  ownedOnce : ∀ b < total, owners s b = 1
  idleFree : Idle s → ∀ b < total, s.parserPool.free b = 1

/-- What a message that the parser may receive contains: a stream, which `build_request` set. -/
def Filled (s : State S) (b : ℕ) : Prop := (s.memory b).replyStream.isSome

/-- The ownership invariant, with the message contents that the parser's exits depend on. -/
structure Inv (total : ℕ) (s : State S) : Prop where
  owned : ∀ b, owners s b = if b < total then 1 else 0
  queueFilled : ∀ b ∈ s.parserInput, Filled s b
  cmdFilled : ∀ b, s.cmd = some b → Filled s b
  sendFilled : ∀ r ∈ s.requests, ∀ b, r.phase = .sending b → Filled s b

theorem idle_free {total : ℕ} {s : State S} (howned : ∀ b < total, owners s b = 1) (hidle : Idle s)
    (b : ℕ) (hb : b < total) : s.parserPool.free b = 1 := by
  have hcalls : holders Request.block s.requests b = 0 := by
    rw [holders_eq_zero]
    intro r hr
    simp [Request.block, hidle.noRequest r hr, Phase.block]
  have h := howned b hb
  simpa [owners, hidle.parserWaits, hidle.queueEmpty, hcalls] using h

theorem Inv.accounted {total : ℕ} {s : State S} (h : Inv total s) : BlocksAccounted total s := by
  have howned : ∀ b < total, owners s b = 1 := by
    intro b hb
    rw [h.owned, if_pos hb]
  exact ⟨howned, fun hidle => idle_free howned hidle⟩

theorem init_inv (total : ℕ) (memory : ℕ → ParserInput S) : Inv total (init total memory) := by
  constructor
  · intro b
    simp [owners, init, BlockPool.free, List.count_range]
  · simp [init]
  · simp [init]
  · simp [init]

theorem owners_setPhase {s : State S} {i : ℕ} {r : Request S} (hr : s.requests[i]? = some r)
    (phase : Phase) (b : ℕ) :
    owners (s.setPhase i r phase) b + claim r.phase.block b = owners s b + claim phase.block b := by
  have h := holders_set Request.block hr { r with phase := phase } b
  simp only [owners, State.setPhase, Request.block] at h ⊢
  omega

/-- Moving a call to another phase keeps the invariant once the pool, the queue and the
memory have changed so as to account for the block the call takes or gives away. -/
theorem Inv.setPhase {total : ℕ} {s t : State S} {i : ℕ} {r : Request S} {phase : Phase}
    (h : Inv total s) (hr : s.requests[i]? = some r) (hreq : t.requests = s.requests)
    (howners : ∀ b, owners t b + claim phase.block b = owners s b + claim r.phase.block b)
    (hqueue : ∀ b ∈ t.parserInput, Filled t b) (hcmd : ∀ b, t.cmd = some b → Filled t b)
    (hmem : ∀ b, Filled s b → Filled t b) (hsend : ∀ b, phase = .sending b → Filled t b) :
    Inv total (t.setPhase i r phase) := by
  have hr' : t.requests[i]? = some r := hreq ▸ hr
  constructor
  · intro b
    rw [← h.owned b]
    have hset := owners_setPhase hr' phase b
    have hmove := howners b
    omega
  · exact hqueue
  · exact hcmd
  · intro r' hr' b hb
    rw [State.setPhase, hreq] at hr'
    rcases List.mem_or_eq_of_mem_set hr' with hold | rfl
    · exact hmem b (h.sendFilled r' hold b hb)
    · exact hsend b hb

theorem submit_inv {total : ℕ} {s : State S} (h : Inv total s) (stream : S) (line : List Char) :
    Inv total { s with requests := s.requests ++
      [⟨stream, line, if line = [] then .done else .allocating⟩] } := by
  constructor
  · intro b
    rw [← h.owned b]
    have hnew : Request.block (⟨stream, line, if line = [] then .done else .allocating⟩ : Request S) =
        none := by
      by_cases hline : line = [] <;> simp [Request.block, Phase.block, hline]
    simp [owners, holders_concat, hnew]
  · exact h.queueFilled
  · exact h.cmdFilled
  · intro r hr b hb
    rcases List.mem_append.mp hr with hold | hnew
    · exact h.sendFilled r hold b hb
    · rw [List.mem_singleton] at hnew
      subst hnew
      by_cases hline : line = [] <;> simp [hline] at hb

theorem allocateStep_inv {total i : ℕ} {s t : State S} {r : Request S} {granted : Bool}
    (h : Inv total s) (hr : s.requests[i]? = some r) (hstep : allocateStep s i r granted = some t) :
    Inv total t := by
  unfold allocateStep at hstep
  cases hphase : r.phase with
  | allocating =>
    cases granted with
    | true =>
      simp only [hphase, if_true, Option.map_eq_some_iff] at hstep
      obtain ⟨⟨b, pool⟩, halloc, rfl⟩ := hstep
      refine h.setPhase hr rfl (fun a => ?_) h.queueFilled h.cmdFilled (fun _ hb => hb) (by simp)
      have hfree := BlockPool.free_allocate halloc a
      simp only [owners, Phase.block, hphase, claim_none]
      omega
    | false =>
      simp only [hphase, Bool.false_eq_true, if_false, Option.some.injEq] at hstep
      subst hstep
      exact h.setPhase hr rfl (by simp [Phase.block, hphase]) h.queueFilled h.cmdFilled
        (fun _ hb => hb) (by simp)
  | _ => simp [hphase] at hstep

theorem fillStep_inv {total i : ℕ} {s t : State S} {r : Request S} (h : Inv total s)
    (hr : s.requests[i]? = some r) (hstep : fillStep s i r = some t) : Inv total t := by
  unfold fillStep at hstep
  cases hphase : r.phase with
  | filling b =>
    simp only [hphase, Option.some.injEq] at hstep
    subst hstep
    -- the write leaves a stream in the block, whatever the other blocks contain
    have hmem : ∀ a, (a = b ∨ Filled s a) →
        (Function.update s.memory b (fillRequest r.stream r.line) a).replyStream.isSome := by
      intro a ha
      by_cases hab : a = b
      · subst hab
        simp [fillRequest]
      · rw [Function.update_of_ne hab]
        exact ha.resolve_left hab
    refine h.setPhase hr rfl (fun a => ?_) (fun a ha => hmem a (.inr (h.queueFilled a ha)))
      (fun a ha => hmem a (.inr (h.cmdFilled a ha))) (fun a ha => hmem a (.inr ha)) ?_
    · simp [owners, Phase.block, hphase]
    · intro a ha
      cases ha
      exact hmem b (.inl rfl)
  | _ => simp [hphase] at hstep

theorem sendStep_inv {total i : ℕ} {s t : State S} {r : Request S} {accepted : Bool}
    (h : Inv total s) (hr : s.requests[i]? = some r) (hstep : sendStep s i r accepted = some t) :
    Inv total t := by
  unfold sendStep at hstep
  cases hphase : r.phase with
  | sending b =>
    have hb : Filled s b := h.sendFilled r (List.mem_of_getElem? hr) b hphase
    cases accepted with
    | true =>
      simp only [hphase, if_true, Option.map_eq_some_iff, txQueueSend_eq_some] at hstep
      obtain ⟨queue, ⟨_, rfl⟩, rfl⟩ := hstep
      refine h.setPhase hr rfl (fun a => ?_) ?_ h.cmdFilled (fun _ ha => ha) (by simp)
      · simp only [owners, Phase.block, hphase, claim_none, count_concat_claim]
        omega
      · intro a ha
        rcases List.mem_append.mp ha with hold | hnew
        · exact h.queueFilled a hold
        · rw [List.mem_singleton.mp hnew]
          exact hb
    | false =>
      simp only [hphase, Bool.false_eq_true, if_false, Option.some.injEq] at hstep
      subst hstep
      exact h.setPhase hr rfl (by simp [Phase.block, hphase]) h.queueFilled h.cmdFilled
        (fun _ ha => ha) (by simp)
  | _ => simp [hphase] at hstep

theorem releaseStep_inv {total i : ℕ} {s t : State S} {r : Request S} (h : Inv total s)
    (hr : s.requests[i]? = some r) (hstep : releaseStep s i r = some t) : Inv total t := by
  unfold releaseStep at hstep
  cases hphase : r.phase with
  | refused b =>
    simp only [hphase, Option.some.injEq] at hstep
    subst hstep
    refine h.setPhase hr rfl (fun a => ?_) h.queueFilled h.cmdFilled (fun _ ha => ha) (by simp)
    simp only [owners, Phase.block, hphase, claim_none, BlockPool.free_release]
    omega
  | _ => simp [hphase] at hstep

theorem receiveStep_inv {total : ℕ} {s t : State S} (h : Inv total s)
    (hstep : receiveStep s = some t) : Inv total t := by
  unfold receiveStep at hstep
  cases hcmd : s.cmd with
  | none =>
    simp only [hcmd, Option.map_eq_some_iff] at hstep
    obtain ⟨⟨b, queue⟩, hreceive, rfl⟩ := hstep
    rw [txQueueReceive_eq_some] at hreceive
    have hfilled : ∀ a ∈ b :: queue, Filled s a := hreceive ▸ h.queueFilled
    constructor
    · intro a
      rw [← h.owned a]
      simp only [owners, hreceive, hcmd, claim_none, count_cons_claim]
      omega
    · exact fun a ha => hfilled a (List.mem_cons_of_mem b ha)
    · intro a ha
      cases ha
      exact hfilled b List.mem_cons_self
    · exact h.sendFilled
  | some b => simp [hcmd] at hstep

theorem Inv.releases_iff {total : ℕ} {s : State S} (h : Inv total s) (t : Tables H) {b : ℕ}
    (hcmd : s.cmd = some b) (retval : ℤ) :
    (parserTask t (some (s.memory b)) retval).releases = true ↔ Known t (s.memory b).command := by
  obtain ⟨stream, hstream⟩ := Option.isSome_iff_exists.mp (h.cmdFilled b hcmd)
  rw [← parserTask_releases t stream (s.memory b).command retval, ← hstream]

theorem finishStep_inv {total : ℕ} {t : Tables H} {s s' : State S} {retval : ℤ} {b : ℕ}
    (h : Inv total s) (hcmd : s.cmd = some b) (hknown : Known t (s.memory b).command)
    (hstep : finishStep t s retval = some s') : Inv total s' := by
  simp only [finishStep, hcmd, (h.releases_iff t hcmd retval).mpr hknown, if_true,
    Option.some.injEq] at hstep
  subst hstep
  constructor
  · intro a
    rw [← h.owned a]
    simp only [owners, hcmd, claim_none, BlockPool.free_release]
    omega
  · exact h.queueFilled
  · simp
  · exact h.sendFilled

/-- The iteration that ends on an unknown command forgets its block: nothing holds it any more. -/
theorem finishStep_unknown {total : ℕ} {t : Tables H} {s s' : State S} {retval : ℤ} {b : ℕ}
    (h : Inv total s) (hcmd : s.cmd = some b) (hunknown : ¬ Known t (s.memory b).command)
    (hstep : finishStep t s retval = some s') : b < total ∧ owners s' b = 0 := by
  have hkept : (parserTask t (some (s.memory b)) retval).releases = false := by
    rw [← Bool.not_eq_true, h.releases_iff t hcmd retval]
    exact hunknown
  simp only [finishStep, hcmd, hkept, Bool.false_eq_true, if_false, Option.some.injEq] at hstep
  subst hstep
  have howned := h.owned b
  simp only [owners, hcmd, claim_self, claim_none] at howned ⊢
  split at howned <;> omega

/-- The command that the parser is about to finish with has its head in the table that
the parser looks it up in. -/
def TakesKnown (t : Tables H) (s : State S) : Action S → Prop
  | .finish _ => ∀ b, s.cmd = some b → Known t (s.memory b).command
  | _ => True

theorem step_inv {total : ℕ} {t : Tables H} (s : State S) (a : Action S) (s' : State S)
    (h : Inv total s) (hknown : TakesKnown t s a) (hstep : step t s a = some s') : Inv total s' := by
  cases a with
  | submit stream line =>
    cases hstep
    exact submit_inv h stream line
  | allocate i granted =>
    obtain ⟨r, hr, hstep⟩ := Option.bind_eq_some_iff.mp hstep
    exact allocateStep_inv h hr hstep
  | fill i =>
    obtain ⟨r, hr, hstep⟩ := Option.bind_eq_some_iff.mp hstep
    exact fillStep_inv h hr hstep
  | send i accepted =>
    obtain ⟨r, hr, hstep⟩ := Option.bind_eq_some_iff.mp hstep
    exact sendStep_inv h hr hstep
  | release i =>
    obtain ⟨r, hr, hstep⟩ := Option.bind_eq_some_iff.mp hstep
    exact releaseStep_inv h hr hstep
  | receive => exact receiveStep_inv h hstep
  | finish retval =>
    cases hcmd : s.cmd with
    | none => simp [step, finishStep, hcmd] at hstep
    | some b => exact finishStep_inv h hcmd (hknown b hcmd) hstep

theorem step_unknown {total : ℕ} {t : Tables H} (s : State S) (a : Action S) (s' : State S)
    (h : Inv total s) (hunknown : ¬ TakesKnown t s a) (hstep : step t s a = some s') :
    ¬ BlocksAccounted total s' := by
  cases a with
  | finish retval =>
    simp only [TakesKnown, not_forall] at hunknown
    obtain ⟨b, hcmd, hb⟩ := hunknown
    obtain ⟨hlt, hlost⟩ := finishStep_unknown h hcmd hb hstep
    intro hacc
    have hone := hacc.ownedOnce b hlt
    omega
  | _ => exact absurd trivial hunknown

/-- The blocks of the pool stay accounted for throughout a run exactly when every command
that the parser takes in it is known. -/
theorem blocksAccounted_iff (t : Tables H) (total : ℕ) (memory : ℕ → ParserInput S)
    (actions : List (Action S)) :
    Always (step t) (BlocksAccounted total) (init total memory) actions ↔
      Along (step t) (TakesKnown t) (init total memory) actions :=
  always_iff_along (fun _ h => h.accounted) step_inv step_unknown (init_inv total memory)

/-- An unknown command through a pool of one block: the block is lost, and the parser waits
on an empty queue with no request in progress. -/
theorem unknownCommand_loses_block :
    ¬ ∀ (t : Tables Unit) (total : ℕ) (memory : ℕ → ParserInput Unit) (actions : List (Action Unit)),
      Always (step t) (BlocksAccounted total) (init total memory) actions := by
  intro h
  have hrun := h ⟨fun _ => none, fun _ => none⟩ 1 (fun _ => ⟨none, []⟩)
    [.submit () ['x'], .allocate 0 true, .fill 0, .send 0 true, .receive, .finish 0]
  have hlast := hrun.last rfl
  exact absurd (hlast.ownedOnce 0 (by decide)) (by decide)

end EtherBench.Parser.Requests
