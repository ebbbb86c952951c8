import EtherBench.Muxer.Ownership.Consumption
import EtherBench.Muxer.Ownership.Creation
import EtherBench.Muxer.Sequential

/-! # Reference counting over whole runs

A call that begins, a call that moves on: each step keeps the ownership invariant, and the
invariant says what reference counting promises.
-/

namespace EtherBench.Muxer.Ownership
open ThreadX Message Lifetime Library.Transition Library.Holders

variable {routerBlocks payloadBlocks : ℕ} {s : State}

/-- A call that begins holds no block; the consumption it takes over leaves the instance as many
outstanding as before. -/
theorem Inv.enter (h : Inv routerBlocks payloadBlocks s) {c : Call} {instances : List Instance}
    (hmessage : c.message = none) (hpayload : c.payload = none) (hduty : c.duty = none)
    (hpayloadDuty : c.payloadDuty = none) (hlen : instances.length = s.instances.length)
    (hright : ∀ k, c.right = some k → k < s.instances.length)
    (hblocks : ∀ b, holders Instance.liveBlock instances b = holders Instance.liveBlock s.instances b)
    (hpayloads : ∀ q, holders Instance.livePayload instances q = holders Instance.livePayload s.instances q)
    (hlife : ∀ k inst, instances[k]? = some inst →
      Life s.heap inst (inst.rights + (holders Call.right s.calls k + claim c.right k))
        (holders Call.duty s.calls k) (holders Call.payloadDuty s.calls k))
    (hdraft : Draft s.heap c) :
    Inv routerBlocks payloadBlocks { s with calls := s.calls ++ [c], instances := instances } := by
  have hcases : ∀ (j : ℕ) (d : Call), (s.calls ++ [c])[j]? = some d → d ∈ s.calls ∨ d = c := by
    intro j d hj
    rcases List.mem_append.mp (List.mem_of_getElem? hj) with hold | hnew
    · exact Or.inl hold
    · exact Or.inr (List.mem_singleton.mp hnew)
  constructor
  · intro b
    rw [← h.messages b]
    simp only [owners, holders_concat, hmessage, claim_none, Nat.add_zero, hblocks]
  · intro q
    rw [← h.payloads q]
    simp only [owners, holders_concat, hpayload, claim_none, Nat.add_zero, hpayloads]
  · intro k inst hk
    simp only [outstanding, holders_concat, hduty, hpayloadDuty, claim_none, Nat.add_zero]
    exact hlife k inst hk
  · intro j d hj
    rcases hcases j d hj with hold | rfl
    · obtain ⟨i, hi⟩ := List.mem_iff_getElem?.mp hold
      exact h.draft i d hi
    · exact hdraft
  · intro j d hj k hk
    change k < instances.length
    rw [hlen]
    rcases hcases j d hj with hold | rfl
    · obtain ⟨i, hi⟩ := List.mem_iff_getElem?.mp hold
      exact h.known i d hi k hk
    · rcases hk with hk | hk
      · exact hright k hk
      · rw [hduty] at hk
        cases hk

theorem createMessage_inv (h : Inv routerBlocks payloadBlocks s) {r : Request} (hdest : r.dest ≠ 0) :
    Inv routerBlocks payloadBlocks { s with calls := s.calls ++ [.begin (.check r) none] } := by
  apply h.enter
  · rfl
  · rfl
  · rfl
  · rfl
  · rfl
  · intro k hk
    cases hk
  · intro b
    rfl
  · intro q
    rfl
  · exact h.life
  · exact ⟨hdest, rfl, rfl, rfl, rfl⟩

theorem beginOn_inv (h : Inv routerBlocks payloadBlocks s) {k : ℕ} {inst : Instance} {c : Call} {s' : State}
    (hk : s.instances[k]? = some inst) (hmessage : c.message = none) (hpayload : c.payload = none)
    (hduty : c.duty = none) (hpayloadDuty : c.payloadDuty = none) (hright : c.right = some k)
    (hdraft : Draft s.heap c) (hstep : beginOn s k inst c = some s') : Inv routerBlocks payloadBlocks s' := by
  unfold beginOn at hstep
  split at hstep
  · cases hstep
  · next hrights =>
    cases hstep
    apply h.enter hmessage hpayload hduty hpayloadDuty
    · exact List.length_set
    · intro l hl
      rw [hright] at hl
      cases hl
      exact (List.getElem?_eq_some_iff.mp hk).1
    · intro b
      have hset := holders_set Instance.liveBlock hk { inst with rights := inst.rights - 1 } b
      exact Nat.add_right_cancel hset
    · intro q
      have hset := holders_set Instance.livePayload hk { inst with rights := inst.rights - 1 } q
      exact Nat.add_right_cancel hset
    · intro l other hl
      rw [hright]
      simp only [setInstance, List.getElem?_set] at hl
      by_cases hkl : k = l
      · subst hkl
        rw [if_pos rfl] at hl
        split at hl
        · cases hl
          have hlife := h.life k inst hk
          have hsame : inst.rights - 1 + (holders Call.right s.calls k + 1) = outstanding s k inst := by
            unfold outstanding
            omega
          rw [claim_self]
          change Life s.heap _ (inst.rights - 1 + _) _ _
          rw [hsame]
          exact ⟨hlife.block, hlife.payload, hlife.noPayload, hlife.count, hlife.carries⟩
        · cases hl
      · rw [if_neg hkl] at hl
        rw [claim_of_ne hkl]
        exact h.life l other hl
    · exact hdraft

theorem advance_inv (h : Inv routerBlocks payloadBlocks s) {i : ℕ} {c : Call} {s' : State}
    (hi : s.calls[i]? = some c) (hstep : advance s i c = some s') : Inv routerBlocks payloadBlocks s' := by
  unfold advance at hstep
  cases hphase : c.phase with
  | check r =>
    simp only [hphase, Option.some.injEq] at hstep
    subst hstep
    exact checkStep_inv h hi hphase
  | attach r msg =>
    simp only [hphase, Option.some.injEq] at hstep
    subst hstep
    exact attachStep_inv h hi hphase
  | undo r msg =>
    simp only [hphase, Option.some.injEq] at hstep
    subst hstep
    exact undoStep_inv h hi hphase
  | count r msg payload =>
    simp only [hphase, Option.some.injEq] at hstep
    subst hstep
    exact countStep_inv h hi hphase
  | consume k =>
    simp only [hphase] at hstep
    obtain ⟨inst, hk, rfl⟩ := Option.map_eq_some_iff.mp hstep
    exact consumeStep_inv h hi hphase hk
  | freePayload k =>
    simp only [hphase] at hstep
    obtain ⟨inst, hk, rfl⟩ := Option.map_eq_some_iff.mp hstep
    exact freePayloadStep_inv h hi hphase hk
  | freeMessage k =>
    simp only [hphase] at hstep
    obtain ⟨inst, hk, rfl⟩ := Option.map_eq_some_iff.mp hstep
    exact freeMessageStep_inv h hi hphase hk
  | returned => simp [hphase] at hstep

theorem step_inv (s : State) (a : Action) (s' : State) (h : Inv routerBlocks payloadBlocks s)
    (hstep : step s a = some s') : Inv routerBlocks payloadBlocks s' := by
  cases a with
  | createMessage r =>
    simp only [step] at hstep
    split at hstep
    · cases hstep
    · next hdest =>
      cases hstep
      exact createMessage_inv h hdest
  | consumeMessage k =>
    obtain ⟨inst, hk, hstep⟩ := Option.bind_eq_some_iff.mp hstep
    apply beginOn_inv h hk rfl rfl rfl rfl rfl _ hstep
    exact ⟨rfl, fun hresult => by cases hresult⟩
  | createResponseMessage k info payload payloadSize =>
    obtain ⟨inst, hk, hstep⟩ := Option.bind_eq_some_iff.mp hstep
    simp only at hstep
    split at hstep
    · cases hstep
    · next hdest =>
      apply beginOn_inv h hk rfl rfl rfl rfl rfl _ hstep
      exact ⟨hdest, rfl, rfl, rfl, rfl⟩
  | advance i =>
    obtain ⟨c, hi, hstep⟩ := Option.bind_eq_some_iff.mp hstep
    exact advance_inv h hi hstep

theorem init_inv (routerBlocks payloadBlocks : ℕ) (messages : ℕ → MuxerInput) (payloads : ℕ → ℕ → UInt8) :
    Inv routerBlocks payloadBlocks (init routerBlocks payloadBlocks messages payloads) := by
  constructor
  · intro b
    simp [owners, init, BlockPool.free, List.count_range]
  · intro q
    simp [owners, init, BlockPool.free, List.count_range]
  · simp [init]
  · simp [init]
  · simp [init]

/-- Nothing left to consume and nobody with a duty: both releases have happened. -/
theorem Life.settled {h : Heap} {inst : Instance} (hl : Life h inst 0 0 0) :
    inst.blockReleases = 1 ∧ inst.payloadReleases = if inst.payload.isSome then 1 else 0 := by
  refine ⟨hl.block, ?_⟩
  rcases hl.payload_cases with ⟨hsome, hpayload⟩ | ⟨hnone, hzero⟩
  · rw [if_pos hsome]
    exact hpayload
  · rw [hnone]
    exact hzero

theorem Life.releases_le {h : Heap} {inst : Instance} {left duty payloadDuty : ℕ}
    (hl : Life h inst left duty payloadDuty) : inst.blockReleases ≤ 1 ∧ inst.payloadReleases ≤ 1 := by
  have hblock := hl.block
  refine ⟨by omega, ?_⟩
  rcases hl.payload_cases with ⟨_, hpayload⟩ | ⟨_, hnone⟩
  · omega
  · omega

theorem Draft.null {h : Heap} {c : Call} (hd : Draft h c) (hnull : c.result = some none) :
    c.givenBack = c.taken ∧ c.payloadsTaken = [] := by
  unfold Draft at hd
  cases hphase : c.phase with
  | check r => simp [hphase, hnull] at hd
  | attach r msg => simp [hphase, hnull] at hd
  | undo r msg => simp [hphase, hnull] at hd
  | count r msg payload => simp [hphase, hnull] at hd
  | _ =>
    simp only [hphase] at hd
    exact hd.2 hnull

theorem Inv.sound (h : Inv routerBlocks payloadBlocks s) : Sound routerBlocks payloadBlocks s := by
  constructor
  · intro k inst hk hleft
    have hlife := h.life k inst hk
    obtain ⟨hlive, hkept⟩ := hlife.kept hleft
    exact ⟨hlive, hkept, hlife.carries hlive hkept⟩
  · intro k inst hk
    have hblock := (h.life k inst hk).block
    by_cases hleft : outstanding s k inst = 0
    · rw [if_pos hleft]
      omega
    · rw [pending_pos (Nat.pos_of_ne_zero hleft)] at hblock
      omega
  · intro k inst hk hleft hduty
    have hlife := h.life k inst hk
    have hnone := payloadDuty_le s.calls k
    rw [hduty, Nat.le_zero] at hnone
    rw [hleft, hduty, hnone] at hlife
    exact hlife.settled
  · intro inst hmem
    obtain ⟨k, hk⟩ := List.mem_iff_getElem?.mp hmem
    exact (h.life k inst hk).releases_le
  · exact length_of_owned h.messages
  · exact length_of_owned h.payloads
  · intro c hc hnull
    obtain ⟨i, hi⟩ := List.mem_iff_getElem?.mp hc
    exact (h.draft i c hi).null hnull

/-- Whatever the calls and however their steps interleave, reference counting is sound in every
state. The steps of a call that nobody interrupts are those of its function, and a creation that
answers with a null pointer changes neither pool. -/
theorem lifetime_sound (routerBlocks payloadBlocks : ℕ) (messages : ℕ → MuxerInput)
    (payloads : ℕ → ℕ → UInt8) (actions : List Action) :
    Always step (Sound routerBlocks payloadBlocks) (init routerBlocks payloadBlocks messages payloads)
        actions ∧
      (∀ (heap : Heap) (calls : List Call) (instances : List Instance),
        (∀ r, Sequential.Creates heap calls (.begin (.check r) none) instances r) ∧
        ∀ (k : ℕ) (inst : Instance), instances[k]? = some inst →
          Sequential.Consumes heap calls (.begin (.consume k) none) instances inst ∧
          ∀ info payload payloadSize, Sequential.Responds heap calls instances k inst info payload payloadSize) ∧
      ∀ (heap : Heap) (r : Request), (createMessage heap r).1 = none →
        (createMessage heap r).2.routerPool = heap.routerPool ∧
          (createMessage heap r).2.routerPayloads = heap.routerPayloads := by
  refine ⟨?_, fun heap calls instances => ⟨fun r => ?_, fun k inst hk => ⟨?_, fun info payload payloadSize => ?_⟩⟩, ?_⟩
  · rw [always_iff_prefixes]
    intro bs _ t hrun
    exact (run_invariant step_inv (init_inv routerBlocks payloadBlocks messages payloads) hrun).sound
  · exact Sequential.createMessage_alone heap calls instances r none
  · exact Sequential.consumeMessage_alone heap calls rfl hk
  · exact Sequential.createResponseMessage_alone heap calls hk info payload payloadSize
  · intro heap r hnull
    exact createMessage_null hnull

def twoBlocks : State := init 2 1 (fun _ => ⟨0, 0, .muxerCommand, 0, 0, none, 0⟩) fun _ _ => 0

def bytesFor (dest : BitVec 16) : Request := ⟨dest, 4, .muxerBuffer, 0, some UInt8.ofNat, 16⟩

/-- A message for two consumers, and a creation that finds no payload block while they are at it. -/
def twoConsumers : List Action :=
  [.createMessage (bytesFor 3), .advance 0, .advance 0, .advance 0, .consumeMessage 0, .consumeMessage 0,
    .createMessage (bytesFor 1), .advance 3, .advance 1, .advance 3, .advance 3, .advance 2, .advance 2, .advance 2]

theorem lifetime_sound_twoConsumers :
    (∃ s inst, run step twoBlocks (twoConsumers.take 6) = some s ∧ Sound 2 1 s ∧ s.instances = [inst] ∧
      (inst.block, inst.payload, inst.blockReleases) = (0, some 0, 0) ∧
      Sequential.Consumes s.heap s.calls (.begin (.consume 0) none) s.instances inst ∧
      (createMessage s.heap (bytesFor 1)).1 = none ∧
      (createMessage s.heap (bytesFor 1)).2.routerPool = s.heap.routerPool ∧
      (createMessage s.heap (bytesFor 1)).2.routerPayloads = s.heap.routerPayloads) ∧
    ∃ s, run step twoBlocks twoConsumers = some s ∧ Sound 2 1 s ∧
      s.instances.map (fun inst => (inst.rights, inst.blockReleases, inst.payloadReleases)) = [(0, 1, 1)] ∧
      s.calls.map Call.result = [some (some 0), none, none, some none] ∧
      s.heap.routerPool.availableList.length = 2 ∧ s.heap.routerPayloads.availableList.length = 1 := by
  have hsound := fun actions => lifetime_sound 2 1 (fun _ => ⟨0, 0, .muxerCommand, 0, 0, none, 0⟩) (fun _ _ => 0) actions
  constructor
  · have hsome : (run step twoBlocks (twoConsumers.take 6)).any fun s =>
        decide (s.instances.map (fun inst => (inst.block, inst.payload, inst.blockReleases)) = [(0, some 0, 0)] ∧
          (createMessage s.heap (bytesFor 1)).1 = none) := by
      decide +kernel
    obtain ⟨s, hrun, hfacts⟩ := (Option.any_eq_true _ _).mp hsome
    obtain ⟨hinstances, hnull⟩ := of_decide_eq_true hfacts
    obtain ⟨inst, hone, hinst⟩ := List.map_eq_singleton_iff.mp hinstances
    exact ⟨s, inst, hrun, (hsound _).1.last hrun, hone, hinst,
      (((hsound []).2.1 s.heap s.calls s.instances).2 0 inst (by rw [hone]; rfl)).1, hnull,
      (hsound []).2.2 s.heap (bytesFor 1) hnull⟩
  · have hsome : (run step twoBlocks twoConsumers).any fun s =>
        decide (s.instances.map (fun inst => (inst.rights, inst.blockReleases, inst.payloadReleases)) = [(0, 1, 1)] ∧
          s.calls.map Call.result = [some (some 0), none, none, some none] ∧
          s.heap.routerPool.availableList.length = 2 ∧ s.heap.routerPayloads.availableList.length = 1) := by
      decide +kernel
    obtain ⟨s, hrun, hfacts⟩ := (Option.any_eq_true _ _).mp hsome
    exact ⟨s, hrun, (hsound _).1.last hrun, of_decide_eq_true hfacts⟩

end EtherBench.Muxer.Ownership
