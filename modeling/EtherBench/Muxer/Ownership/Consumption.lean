import EtherBench.Muxer.Ownership

/-! # The steps of a consumer

`consume_message` decrements the count of one instance, and the call that took the last count
releases the payload and then the message.
-/

namespace EtherBench.Muxer.Ownership
open ThreadX Message Lifetime Library.Transition Library.Holders

variable {routerBlocks payloadBlocks : ℕ} {s : State}

structure OnlyOn (k : ℕ) (c : Call) : Prop where
  right : ∀ l, l ≠ k → c.right ≠ some l
  duty : ∀ l, l ≠ k → c.duty ≠ some l
  message : c.message = none
  payload : c.payload = none

theorem OnlyOn.payloadDuty {k : ℕ} {c : Call} (h : OnlyOn k c) (l : ℕ) (hl : l ≠ k) : c.payloadDuty ≠ some l :=
  fun hduty => h.duty l hl (payloadDuty_duty hduty)

theorem holders_other {token : Call → Option ℕ} {i l : ℕ} {c c' : Call} (hi : s.calls[i]? = some c)
    (hc : token c ≠ some l) (hc' : token c' ≠ some l) :
    holders token (s.calls.set i c') l = holders token s.calls l := by
  have hset := holders_set token hi c' l
  rw [claim_eq_zero hc, claim_eq_zero hc'] at hset
  exact hset

/-- A step of a consumer: it changes its instance, the message block of that instance and the
pools, and nothing that concerns another call or another instance. -/
theorem Inv.consumer (h : Inv routerBlocks payloadBlocks s) {i k : ℕ} {c c' : Call} {inst inst' : Instance}
    {heap : Heap} (hi : s.calls[i]? = some c) (hk : s.instances[k]? = some inst)
    (hc : OnlyOn k c) (hc' : OnlyOn k c') (hlive : inst.blockReleases = 0)
    (hmsg : ∀ b, heap.routerPool.free b + claim inst'.liveBlock b =
      s.heap.routerPool.free b + claim inst.liveBlock b)
    (hpay : ∀ q, heap.routerPayloads.free q + claim inst'.livePayload q =
      s.heap.routerPayloads.free q + claim inst.livePayload q)
    (hmessages : ∀ b, b ≠ inst.block → heap.messages b = s.heap.messages b)
    (hbytes : heap.payloads = s.heap.payloads)
    (hlife : Life heap inst' (inst'.rights + holders Call.right (s.calls.set i c') k)
      (holders Call.duty (s.calls.set i c') k) (holders Call.payloadDuty (s.calls.set i c') k))
    (hdraft : Draft heap c') :
    Inv routerBlocks payloadBlocks (setCall (setInstance { s with heap := heap } k inst') i c') := by
  have hblock : inst.liveBlock = some inst.block := by rw [Instance.liveBlock, if_pos hlive]
  constructor
  · intro b
    rw [← h.messages b]
    have hset := holders_set Instance.liveBlock hk inst' b
    have hmove := hmsg b
    have hsame := holders_set_same hi (hc'.message.trans hc.message.symm) b
    simp only [owners, setCall, setInstance, hsame]
    omega
  · intro q
    rw [← h.payloads q]
    have hset := holders_set Instance.livePayload hk inst' q
    have hmove := hpay q
    have hsame := holders_set_same hi (hc'.payload.trans hc.payload.symm) q
    simp only [owners, setCall, setInstance, hsame]
    omega
  · intro l other hl
    simp only [setCall, setInstance, outstanding] at hl ⊢
    rw [List.getElem?_set] at hl
    by_cases hkl : k = l
    · subst hkl
      rw [if_pos rfl] at hl
      split at hl
      · cases hl
        exact hlife
      · cases hl
    · rw [if_neg hkl] at hl
      rw [holders_other hi (hc.right l (Ne.symm hkl)) (hc'.right l (Ne.symm hkl)),
        holders_other hi (hc.duty l (Ne.symm hkl)) (hc'.duty l (Ne.symm hkl)),
        holders_other hi (hc.payloadDuty l (Ne.symm hkl)) (hc'.payloadDuty l (Ne.symm hkl))]
      apply (h.life l other hl).frame
      · intro hother
        exact hmessages _ (h.live_blocks_ne hkl hk hl hlive hother)
      · intro p _
        rw [hbytes]
  · intro j d hj
    rcases getElem?_set_cases hj with ⟨_, rfl⟩ | ⟨_, hold⟩
    · exact hdraft
    · apply (h.draft j d hold).frame
      · intro b hb
        apply hmessages
        rintro rfl
        exact (owners_live (h.messages_le inst.block) hk hblock).2 d (List.mem_of_getElem? hold) hb
      · intro q _
        exact congrFun hbytes q
  · intro j d hj l hl
    simp only [setCall, setInstance, List.length_set]
    rcases getElem?_set_cases hj with ⟨_, rfl⟩ | ⟨_, hold⟩
    · have hkl : l = k := by
        by_contra hne
        rcases hl with hl | hl
        · exact hc'.right l hne hl
        · exact hc'.duty l hne hl
      rw [hkl]
      exact (List.getElem?_eq_some_iff.mp hk).1
    · exact h.known j d hold l hl

theorem onlyOn_of_phase {c : Call} {k : ℕ} (hconsumes : c.consumes = none)
    (hphase : c.phase = .consume k ∨ c.phase = .freePayload k ∨ c.phase = .freeMessage k ∨
      c.phase = .returned) : OnlyOn k c := by
  rcases hphase with hp | hp | hp | hp
  all_goals
    constructor
    · intro l hl
      simp [Call.right, hp, hconsumes, Ne.symm hl]
    · intro l hl
      simp [Call.duty, hp, Ne.symm hl]
    · simp [Call.message, hp]
    · simp [Call.payload, hp]

theorem setInstance_self {k : ℕ} {inst : Instance} (hk : s.instances[k]? = some inst) (heap : Heap) :
    setInstance { s with heap := heap } k inst = { s with heap := heap } := by
  obtain ⟨hlen, rfl⟩ := List.getElem?_eq_some_iff.mp hk
  simp [setInstance]

theorem count_eq_one {count : BitVec 16} {left : ℕ} (h : count.toNat = left) : count = 1 ↔ left = 1 := by
  rw [← h]
  constructor
  · rintro rfl
    rfl
  · intro hone
    exact BitVec.eq_of_toNat_eq hone

theorem count_sub_one {count : BitVec 16} {left : ℕ} (h : count.toNat = left + 1) : (count - 1).toNat = left := by
  have hlt := count.isLt
  rw [BitVec.toNat_sub]
  change (2 ^ 16 - 1 + count.toNat) % 2 ^ 16 = left
  omega

/-- The decrement takes one outstanding consumption; the last one becomes a duty to release. -/
theorem Life.decrement {h : Heap} {inst : Instance} {left duty payloadDuty : ℕ}
    (hl : Life h inst (left + 1) duty payloadDuty) :
    Life (h.fetchAndSub inst.block).2 inst left (duty + (1 - pending left))
      (payloadDuty + (1 - pending left)) := by
  have hsplit : pending left + (1 - pending left) = pending (left + 1) := by
    unfold pending
    split <;> rfl
  constructor
  · have hblock := hl.block
    omega
  · intro hsome
    have hpayload := hl.payload hsome
    omega
  · exact hl.noPayload
  · intro hlive
    simp only [Heap.fetchAndSub, Heap.updateMessage, Function.update_self]
    exact count_sub_one (hl.count hlive)
  · intro hlive hkept
    apply (hl.carries hlive hkept).frame
    · simp [Heap.fetchAndSub, Heap.updateMessage]
    · simp [Heap.fetchAndSub, Heap.updateMessage]
    · intro p _
      rfl

theorem consumeStep_inv (h : Inv routerBlocks payloadBlocks s) {i k : ℕ} {c : Call} {inst : Instance}
    (hi : s.calls[i]? = some c) (hphase : c.phase = .consume k) (hk : s.instances[k]? = some inst) :
    Inv routerBlocks payloadBlocks (consumeStep s i c k inst) := by
  have hdraft := h.draft i c hi
  simp only [Draft, hphase] at hdraft
  have hright : c.right = some k := by rw [Call.right, hphase]
  have hduty : c.duty = none := by rw [Call.duty, hphase]
  have hpayloadDuty : c.payloadDuty = none := by rw [Call.payloadDuty, hphase]
  have hpos := holders_pos hi hright
  obtain ⟨left, hleft⟩ : ∃ left, outstanding s k inst = left + 1 :=
    ⟨outstanding s k inst - 1, by unfold outstanding; omega⟩
  have hlife := h.life k inst hk
  rw [hleft] at hlife
  have hlive := (hlife.kept (Nat.succ_pos left)).1
  -- the two ways the decrement can end, with the tokens of the call afterwards
  obtain ⟨c', hnext, hconsumes, hledger, honly, hright', hduty', hpayloadDuty'⟩ :
      ∃ c', { c with phase := if (s.heap.messages inst.block).count = 1 then .freePayload k else .returned } = c' ∧
        c'.consumes = none ∧ Draft (s.heap.fetchAndSub inst.block).2 c' ∧ OnlyOn k c' ∧ c'.right = none ∧
        claim c'.duty k = 1 - pending left ∧ claim c'.payloadDuty k = 1 - pending left := by
    refine ⟨_, rfl, hdraft.1, ?_⟩
    have hcount := count_eq_one (hlife.count hlive)
    by_cases hone : (s.heap.messages inst.block).count = 1
    · have hzero : left = 0 := by
        have hleft := hcount.mp hone
        omega
      rw [if_pos hone, hzero]
      exact ⟨hdraft, onlyOn_of_phase hdraft.1 (Or.inr (Or.inl rfl)), hdraft.1, claim_self k, claim_self k⟩
    · have hmore : 0 < left := by
        by_contra hzero
        exact hone (hcount.mpr (by omega))
      rw [if_neg hone, pending_pos hmore]
      exact ⟨hdraft, onlyOn_of_phase hdraft.1 (Or.inr (Or.inr (Or.inr rfl))), hdraft.1, rfl, rfl⟩
  have hstep : consumeStep s i c k inst =
      setCall (setInstance { s with heap := (s.heap.fetchAndSub inst.block).2 } k inst) i c' := by
    rw [setInstance_self hk, ← hnext]
    rfl
  rw [hstep]
  apply h.consumer hi hk (onlyOn_of_phase hdraft.1 (Or.inl hphase)) honly hlive
  · intro b
    rfl
  · intro q
    rfl
  · intro b hb
    exact Function.update_of_ne hb _ _
  · rfl
  · have hsetRight : holders Call.right (s.calls.set i c') k + 1 = holders Call.right s.calls k :=
      holders_set_release hi hright (by simp [hright'])
    have hsetDuty := holders_set Call.duty hi c' k
    have hsetPayload := holders_set Call.payloadDuty hi c' k
    rw [hduty, hduty', claim_none, Nat.add_zero] at hsetDuty
    rw [hpayloadDuty, hpayloadDuty', claim_none, Nat.add_zero] at hsetPayload
    have hrights : inst.rights + holders Call.right (s.calls.set i c') k = left := by
      unfold outstanding at hleft
      omega
    rw [hrights, hsetDuty, hsetPayload]
    exact hlife.decrement
  · exact hledger

theorem Life.dutyLive {h : Heap} {inst : Instance} {left duty payloadDuty : ℕ}
    (hl : Life h inst left duty payloadDuty) (hduty : 0 < duty) : inst.blockReleases = 0 := by
  have hblock := hl.block
  omega

theorem Life.payloadKept {h : Heap} {inst : Instance} {left duty payloadDuty : ℕ}
    (hl : Life h inst left duty payloadDuty) (hduty : 0 < payloadDuty) : inst.payloadReleases = 0 := by
  rcases hl.payload_cases with ⟨_, hpayload⟩ | ⟨_, hnone⟩
  · omega
  · exact hnone

theorem Life.withoutPayload {h : Heap} {inst : Instance} {left duty payloadDuty : ℕ}
    (hl : Life h inst left duty payloadDuty) (hnone : inst.payload = none) (payloadDuty' : ℕ) :
    Life h inst left duty payloadDuty' where
  block := hl.block
  payload := by
    intro hsome
    rw [hnone] at hsome
    cases hsome
  noPayload := hl.noPayload
  count := hl.count
  carries := hl.carries

theorem Life.payloadReleased {h : Heap} {inst : Instance} {left duty payloadDuty : ℕ}
    (hl : Life h inst left duty (payloadDuty + 1)) (hsome : inst.payload.isSome) :
    Life (h.clearPayload inst.block) { inst with payloadReleases := inst.payloadReleases + 1 } left duty
      payloadDuty := by
  constructor
  · exact hl.block
  · intro _
    have hpayload := hl.payload hsome
    change inst.payloadReleases + 1 + payloadDuty + pending left = 1
    omega
  · intro hnone
    rw [show inst.payload = none from hnone] at hsome
    cases hsome
  · intro hlive
    simp only [Heap.clearPayload, Heap.updateMessage, Function.update_self]
    exact hl.count hlive
  · intro _ hreleased
    exact absurd hreleased (Nat.succ_ne_zero _)

theorem Life.blockReleased {h : Heap} {inst : Instance} {left duty payloadDuty : ℕ}
    (hl : Life h inst left (duty + 1) payloadDuty) :
    Life h { inst with blockReleases := inst.blockReleases + 1 } left duty payloadDuty := by
  constructor
  · have hblock := hl.block
    change inst.blockReleases + 1 + duty + pending left = 1
    omega
  · exact hl.payload
  · exact hl.noPayload
  · intro hreleased
    exact absurd hreleased (Nat.succ_ne_zero _)
  · intro hreleased
    exact absurd hreleased (Nat.succ_ne_zero _)

theorem freePayloadStep_inv (h : Inv routerBlocks payloadBlocks s) {i k : ℕ} {c : Call} {inst : Instance}
    (hi : s.calls[i]? = some c) (hphase : c.phase = .freePayload k) (hk : s.instances[k]? = some inst) :
    Inv routerBlocks payloadBlocks (freePayloadStep s i c k inst) := by
  have hdraft := h.draft i c hi
  simp only [Draft, hphase] at hdraft
  have hright : c.right = none := by rw [Call.right, hphase, hdraft.1]
  have hduty : c.duty = some k := by rw [Call.duty, hphase]
  have hpayloadDuty : c.payloadDuty = some k := by rw [Call.payloadDuty, hphase]
  have hlife := h.life k inst hk
  have hlive := hlife.dutyLive (holders_pos hi hduty)
  have hkept := hlife.payloadKept (holders_pos hi hpayloadDuty)
  have hcarries := hlife.carries hlive hkept
  have hc := onlyOn_of_phase hdraft.1 (Or.inr (Or.inl hphase))
  have hc' : OnlyOn k { c with phase := .freeMessage k } :=
    onlyOn_of_phase hdraft.1 (Or.inr (Or.inr (Or.inl rfl)))
  have hsameRight : Call.right { c with phase := .freeMessage k } = c.right := hdraft.1.trans hright.symm
  have hsameDuty : Call.duty { c with phase := .freeMessage k } = c.duty := hduty.symm
  have hrights := holders_set_same hi hsameRight k
  have hduties := holders_set_same hi hsameDuty k
  have hpayloadDuties : holders Call.payloadDuty (s.calls.set i { c with phase := .freeMessage k }) k + 1 =
      holders Call.payloadDuty s.calls k := holders_set_release hi hpayloadDuty (by rintro ⟨⟩)
  unfold freePayloadStep
  cases hfield : (s.heap.messages inst.block).payload with
  | none =>
    have hnone : inst.payload = none := hcarries.field.symm.trans hfield
    have hsame : setInstance s k inst = s := setInstance_self hk s.heap
    have hmoved : Inv routerBlocks payloadBlocks
        (setCall (setInstance s k inst) i { c with phase := .freeMessage k }) := by
      apply h.consumer hi hk hc hc' hlive
      · intro b
        rfl
      · intro q
        rfl
      · intro b _
        rfl
      · rfl
      · rw [hrights, hduties]
        exact hlife.withoutPayload hnone _
      · exact hdraft
    rw [hsame] at hmoved
    exact hmoved
  | some p =>
    have hpayload : inst.payload = some p := hcarries.field.symm.trans hfield
    have hheap : s.heap.releasePayload inst.block =
        { s.heap with routerPayloads := s.heap.routerPayloads.txBlockRelease p }.clearPayload inst.block := by
      rw [Heap.releasePayload, hfield]
    rw [hheap]
    apply h.consumer hi hk hc hc' hlive
    · intro b
      rfl
    · intro q
      have hlivePayload : inst.livePayload = some p := by rw [Instance.livePayload, if_pos hkept, hpayload]
      rw [hlivePayload]
      exact BlockPool.free_release s.heap.routerPayloads p q
    · intro b hb
      exact Function.update_of_ne hb _ _
    · rfl
    · rw [hrights, hduties]
      rw [← hpayloadDuties] at hlife
      apply Life.payloadReleased _ (by rw [hpayload]; rfl)
      exact hlife.frame (fun _ => rfl) fun _ _ => rfl
    · exact hdraft

theorem freeMessageStep_inv (h : Inv routerBlocks payloadBlocks s) {i k : ℕ} {c : Call} {inst : Instance}
    (hi : s.calls[i]? = some c) (hphase : c.phase = .freeMessage k) (hk : s.instances[k]? = some inst) :
    Inv routerBlocks payloadBlocks (freeMessageStep s i c k inst) := by
  have hdraft := h.draft i c hi
  simp only [Draft, hphase] at hdraft
  have hright : c.right = none := by rw [Call.right, hphase, hdraft.1]
  have hduty : c.duty = some k := by rw [Call.duty, hphase]
  have hpayloadDuty : c.payloadDuty = none := by rw [Call.payloadDuty, hphase]
  have hlife := h.life k inst hk
  have hlive := hlife.dutyLive (holders_pos hi hduty)
  have hc' : OnlyOn k { c with phase := .returned } :=
    onlyOn_of_phase hdraft.1 (Or.inr (Or.inr (Or.inr rfl)))
  apply h.consumer hi hk (onlyOn_of_phase hdraft.1 (Or.inr (Or.inr (Or.inl hphase)))) hc' hlive
  · intro b
    have hblock : inst.liveBlock = some inst.block := by rw [Instance.liveBlock, if_pos hlive]
    rw [hblock]
    exact BlockPool.free_release s.heap.routerPool inst.block b
  · intro q
    rfl
  · intro b _
    rfl
  · rfl
  · have hsameRight : Call.right { c with phase := .returned } = c.right := hdraft.1.trans hright.symm
    have hsamePayload : Call.payloadDuty { c with phase := .returned } = c.payloadDuty := hpayloadDuty.symm
    have hrights := holders_set_same hi hsameRight k
    have hpayloadDuties := holders_set_same hi hsamePayload k
    have hduties : holders Call.duty (s.calls.set i { c with phase := .returned }) k + 1 =
        holders Call.duty s.calls k := holders_set_release hi hduty (by rintro ⟨⟩)
    rw [hrights, hpayloadDuties]
    rw [← hduties] at hlife
    apply Life.blockReleased
    exact hlife.frame (fun _ => rfl) fun _ _ => rfl
  · exact hdraft

end EtherBench.Muxer.Ownership
