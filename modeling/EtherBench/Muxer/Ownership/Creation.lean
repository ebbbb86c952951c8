import EtherBench.Muxer.Ownership

/-! # The steps of a creation

`create_message` moves blocks between the pools and its own hands until the message is counted;
from then on the message is an instance.
-/

namespace EtherBench.Muxer.Ownership
open ThreadX Message Lifetime Library.Transition Library.Holders

variable {routerBlocks payloadBlocks : ℕ} {s : State}

/-- The call holds no part of an instance but the consumption it still has to make. -/
structure Creates (c : Call) (consumes : Option ℕ) : Prop where
  right : c.right = consumes
  duty : c.duty = none
  payloadDuty : c.payloadDuty = none

/-- A step of a creation: it moves blocks between a pool and its own hands and writes only to
those; no instance changes. -/
theorem Inv.creation (h : Inv routerBlocks payloadBlocks s) {i : ℕ} {c c' : Call} {heap : Heap}
    (hi : s.calls[i]? = some c) (hc : Creates c c.consumes) (hc' : Creates c' c.consumes)
    (hmsg : ∀ b, heap.routerPool.free b + claim c'.message b = s.heap.routerPool.free b + claim c.message b)
    (hpay : ∀ q, heap.routerPayloads.free q + claim c'.payload q =
      s.heap.routerPayloads.free q + claim c.payload q)
    (hlocal : Local s c heap) (hdraft : Draft heap c') :
    Inv routerBlocks payloadBlocks (setCall { s with heap := heap } i c') := by
  have hright : c'.right = c.right := hc'.right.trans hc.right.symm
  have hduty : c'.duty = c.duty := hc'.duty.trans hc.duty.symm
  have hpayloadDuty : c'.payloadDuty = c.payloadDuty := hc'.payloadDuty.trans hc.payloadDuty.symm
  constructor
  · intro b
    rw [← h.messages b]
    have hset := holders_set Call.message hi c' b
    have hmove := hmsg b
    simp only [owners, setCall]
    omega
  · intro q
    rw [← h.payloads q]
    have hset := holders_set Call.payload hi c' q
    have hmove := hpay q
    simp only [owners, setCall]
    omega
  · intro k inst hk
    simp only [setCall, outstanding, holders_set_same hi hright, holders_set_same hi hduty,
      holders_set_same hi hpayloadDuty]
    exact h.life_local hi hlocal hk (h.life k inst hk)
  · intro j d hj
    rcases getElem?_set_cases hj with ⟨_, rfl⟩ | ⟨hij, hold⟩
    · exact hdraft
    · exact h.draft_local hij hi hold hlocal
  · intro j d hj k hk
    rcases getElem?_set_cases hj with ⟨_, rfl⟩ | ⟨_, hold⟩
    · rw [hright, hduty] at hk
      exact h.known i c hi k hk
    · exact h.known j d hold k hk

section Finish
variable (c : Call) (result : Option ℕ)

theorem finishCreate_creates : Creates (c.finishCreate result) c.consumes := by
  unfold Call.finishCreate
  cases hconsumes : c.consumes with
  | none => constructor <;> rfl
  | some k => constructor <;> rfl

@[simp] theorem finishCreate_message : (c.finishCreate result).message = none := by
  unfold Call.finishCreate Call.message
  cases c.consumes <;> rfl

@[simp] theorem finishCreate_payload : (c.finishCreate result).payload = none := by
  unfold Call.finishCreate Call.payload
  cases c.consumes <;> rfl

theorem finishCreate_draft (h : Heap)
    (hnull : result = none → c.givenBack = c.taken ∧ c.payloadsTaken = []) :
    Draft h (c.finishCreate result) := by
  unfold Draft Call.finishCreate
  cases c.consumes with
  | none => exact ⟨rfl, fun hr => hnull (Option.some.inj hr)⟩
  | some k => exact ⟨rfl, fun hr => hnull (Option.some.inj hr)⟩

end Finish

theorem Inv.finish (h : Inv routerBlocks payloadBlocks s) {i : ℕ} {c : Call} {heap : Heap}
    (hi : s.calls[i]? = some c) (hc : Creates c c.consumes)
    (hmsg : ∀ b, heap.routerPool.free b = s.heap.routerPool.free b + claim c.message b)
    (hpay : ∀ q, heap.routerPayloads.free q = s.heap.routerPayloads.free q + claim c.payload q)
    (hlocal : Local s c heap) (c' : Call) (hconsumes : c'.consumes = c.consumes)
    (hnull : c'.givenBack = c'.taken ∧ c'.payloadsTaken = []) :
    Inv routerBlocks payloadBlocks (setCall { s with heap := heap } i (c'.finishCreate none)) := by
  apply h.creation hi hc
  · rw [← hconsumes]
    exact finishCreate_creates c' none
  · intro b
    rw [finishCreate_message, claim_none, hmsg b, Nat.add_zero]
  · intro q
    rw [finishCreate_payload, claim_none, hpay q, Nat.add_zero]
  · exact hlocal
  · exact finishCreate_draft c' none heap fun _ => hnull

theorem checkStep_inv (h : Inv routerBlocks payloadBlocks s) {i : ℕ} {c : Call} {r : Request}
    (hi : s.calls[i]? = some c) (hphase : c.phase = .check r) :
    Inv routerBlocks payloadBlocks (checkStep s i c r) := by
  have hdraft := h.draft i c hi
  simp only [Draft, hphase] at hdraft
  obtain ⟨hdest, hresult, htaken, hgiven, hpayloads⟩ := hdraft
  have hc : Creates c c.consumes := by
    constructor <;> simp [Call.right, Call.duty, Call.payloadDuty, hphase]
  have hmessage : c.message = none := by rw [Call.message, hphase]
  have hpayload : c.payload = none := by rw [Call.payload, hphase]
  have hrefused : Inv routerBlocks payloadBlocks (setCall s i (c.finishCreate none)) := by
    apply h.finish hi hc
    · simp [hmessage]
    · simp [hpayload]
    · exact Local.refl s c
    · rfl
    · exact ⟨hgiven.trans htaken.symm, hpayloads⟩
  unfold checkStep
  split
  · exact hrefused
  · cases halloc : s.heap.routerPool.txBlockAllocate with
    | none => exact hrefused
    | some got =>
      obtain ⟨msg, pool⟩ := got
      have hfree := BlockPool.free_allocate halloc
      apply h.creation hi hc
      · exact ⟨rfl, rfl, rfl⟩
      · intro b
        rw [hmessage, claim_none, hfree b]
        rfl
      · intro q
        rw [hpayload]
        rfl
      · constructor
        · intro b hb _
          exact Function.update_of_ne (BlockPool.ne_of_allocate halloc hb) _ _
        · intro q _ _
          rfl
      · simp only [Draft]
        exact ⟨hdest, hresult, by rw [htaken], hgiven, hpayloads⟩

theorem carries_clearPayload (h : Heap) {r : Request} (msg : ℕ) (hcopied : r.copied = none) :
    Carries (h.clearPayload msg) r msg none where
  field := by simp [Heap.clearPayload, Heap.updateMessage]
  size := by simp [Heap.clearPayload, Heap.updateMessage]
  copied := by
    rw [hcopied]
    rfl
  bytes := by
    intro p hp
    cases hp

theorem carries_fillPayload (h : Heap) {r : Request} (msg p : ℕ) {bytes : ℕ → UInt8}
    (hcopied : r.copied = some bytes) :
    Carries (h.fillPayload msg p bytes r.payloadSize) r msg (some p) where
  field := by simp [Heap.fillPayload, Heap.updateMessage]
  size := by simp [Heap.fillPayload, Heap.updateMessage]
  copied := by
    rw [hcopied]
    rfl
  bytes := by
    intro q hq src hsrc n hn
    rw [hcopied] at hsrc
    cases hq
    cases hsrc
    simp [Heap.fillPayload, Heap.updateMessage, memcpy, hn]

theorem attachStep_inv (h : Inv routerBlocks payloadBlocks s) {i : ℕ} {c : Call} {r : Request} {msg : ℕ}
    (hi : s.calls[i]? = some c) (hphase : c.phase = .attach r msg) :
    Inv routerBlocks payloadBlocks (attachStep s i c r msg) := by
  have hdraft := h.draft i c hi
  simp only [Draft, hphase] at hdraft
  obtain ⟨hdest, hresult, hledger⟩ := hdraft
  have hc : Creates c c.consumes := by
    constructor <;> simp [Call.right, Call.duty, Call.payloadDuty, hphase]
  have hmessage : c.message = some msg := by rw [Call.message, hphase]
  have hpayload : c.payload = none := by rw [Call.payload, hphase]
  unfold attachStep
  cases hcopied : r.copied with
  | none =>
    apply h.creation hi hc
    · exact ⟨rfl, rfl, rfl⟩
    · intro b
      rw [hmessage]
      rfl
    · intro q
      rw [hpayload]
      rfl
    · apply Local.held hmessage
      · intro b hb
        exact Function.update_of_ne hb _ _
      · intro q _
        rfl
    · exact ⟨hdest, hresult, carries_clearPayload s.heap msg hcopied⟩
  | some bytes =>
    cases halloc : s.heap.routerPayloads.txBlockAllocate with
    | none =>
      apply h.creation hi hc
      · exact ⟨rfl, rfl, rfl⟩
      · intro b
        rw [hmessage]
        rfl
      · intro q
        rw [hpayload]
        rfl
      · exact Local.refl s c
      · exact ⟨hdest, hresult, hledger⟩
    | some got =>
      obtain ⟨p, pool⟩ := got
      have hfree := BlockPool.free_allocate halloc
      apply h.creation hi hc
      · exact ⟨rfl, rfl, rfl⟩
      · intro b
        rw [hmessage]
        rfl
      · intro q
        rw [hpayload, claim_none, hfree q]
        rfl
      · apply Local.held hmessage
        · intro b hb
          exact Function.update_of_ne hb _ _
        · intro q hq
          exact Function.update_of_ne (BlockPool.ne_of_allocate halloc hq) _ _
      · exact ⟨hdest, hresult, carries_fillPayload { s.heap with routerPayloads := pool } msg p hcopied⟩

theorem undoStep_inv (h : Inv routerBlocks payloadBlocks s) {i : ℕ} {c : Call} {r : Request} {msg : ℕ}
    (hi : s.calls[i]? = some c) (hphase : c.phase = .undo r msg) :
    Inv routerBlocks payloadBlocks (undoStep s i c msg) := by
  have hdraft := h.draft i c hi
  simp only [Draft, hphase] at hdraft
  obtain ⟨_, _, htaken, hgiven, hpayloads⟩ := hdraft
  have hc : Creates c c.consumes := by
    constructor <;> simp [Call.right, Call.duty, Call.payloadDuty, hphase]
  have hmessage : c.message = some msg := by rw [Call.message, hphase]
  have hpayload : c.payload = none := by rw [Call.payload, hphase]
  apply h.finish hi hc
  · intro b
    rw [hmessage]
    exact BlockPool.free_release s.heap.routerPool msg b
  · intro q
    rw [hpayload]
    rfl
  · exact ⟨fun _ _ _ => rfl, fun _ _ _ => rfl⟩
  · rfl
  · exact ⟨by rw [hgiven, htaken], hpayloads⟩

/-- A new instance has every consumption of its mask outstanding, and its block counts them. -/
theorem Life.created {h : Heap} {r : Request} {msg : ℕ} {payload : Option ℕ} (hdest : r.dest ≠ 0)
    (hcarries : Carries h r msg payload) :
    Life (h.setCount msg r.dest) ⟨r, msg, payload, (destinationCount r.dest).toNat, 0, 0⟩
      (destinationCount r.dest).toNat 0 0 := by
  have hpending := pending_pos (destinationCount_pos hdest)
  constructor
  · rw [hpending]
  · intro _
    rw [hpending]
  · intro _
    rfl
  · intro _
    simp [Heap.setCount, Heap.updateMessage]
  · intro _ _
    apply hcarries.frame
    · simp [Heap.setCount, Heap.updateMessage]
    · simp [Heap.setCount, Heap.updateMessage]
    · intro p _
      rfl

theorem countStep_inv (h : Inv routerBlocks payloadBlocks s) {i : ℕ} {c : Call} {r : Request} {msg : ℕ}
    {payload : Option ℕ} (hi : s.calls[i]? = some c) (hphase : c.phase = .count r msg payload) :
    Inv routerBlocks payloadBlocks (countStep s i c r msg payload) := by
  have hdraft := h.draft i c hi
  simp only [Draft, hphase] at hdraft
  obtain ⟨hdest, _, hcarries⟩ := hdraft
  have hright : c.right = c.consumes := by rw [Call.right, hphase]
  have hduty : c.duty = none := by rw [Call.duty, hphase]
  have hpayloadDuty : c.payloadDuty = none := by rw [Call.payloadDuty, hphase]
  have hmessage : c.message = some msg := by rw [Call.message, hphase]
  have hpayload : c.payload = payload := by rw [Call.payload, hphase]
  have hcreates := finishCreate_creates c (some s.instances.length)
  have hrights := holders_set_same hi (hcreates.right.trans hright.symm)
  have hduties := holders_set_same hi (hcreates.duty.trans hduty.symm)
  have hpayloadDuties := holders_set_same hi (hcreates.payloadDuty.trans hpayloadDuty.symm)
  have hlocal : Local s c (s.heap.setCount msg r.dest) := by
    apply Local.held hmessage
    · intro b hb
      exact Function.update_of_ne hb _ _
    · intro q _
      rfl
  constructor
  · intro b
    rw [← h.messages b]
    have hset := holders_set Call.message hi (c.finishCreate (some s.instances.length)) b
    rw [hmessage, finishCreate_message, claim_none] at hset
    simp only [owners, countStep, setCall, holders_concat, Instance.liveBlock, if_true]
    change s.heap.routerPool.free b + _ + _ = _
    omega
  · intro q
    rw [← h.payloads q]
    have hset := holders_set Call.payload hi (c.finishCreate (some s.instances.length)) q
    rw [hpayload, finishCreate_payload, claim_none] at hset
    simp only [owners, countStep, setCall, holders_concat, Instance.livePayload, if_true]
    change s.heap.routerPayloads.free q + _ + _ = _
    omega
  · intro k inst hk
    simp only [countStep, setCall, outstanding, hrights, hduties, hpayloadDuties] at hk ⊢
    rw [List.getElem?_append] at hk
    split at hk
    · exact h.life_local hi hlocal hk (h.life k inst hk)
    · next hlen =>
      obtain ⟨hk', rfl⟩ : k = s.instances.length ∧ inst = _ := by
        rw [List.getElem?_singleton] at hk
        split at hk
        · exact ⟨by omega, (Option.some.inj hk).symm⟩
        · cases hk
      subst hk'
      obtain ⟨hnoRight, hnoDuty, hnoPayload⟩ := h.fresh
      rw [hnoRight, hnoDuty, hnoPayload, Nat.add_zero]
      exact Life.created hdest hcarries
  · intro j d hj
    rcases getElem?_set_cases hj with ⟨_, rfl⟩ | ⟨hij, hold⟩
    · exact finishCreate_draft c _ _ (by simp)
    · exact h.draft_local hij hi hold hlocal
  · intro j d hj k hk
    have hlen : k < s.instances.length := by
      rcases getElem?_set_cases hj with ⟨_, rfl⟩ | ⟨_, hold⟩
      · rw [hcreates.right, hcreates.duty, ← hright] at hk
        rcases hk with hk | hk
        · exact h.known i c hi k (Or.inl hk)
        · cases hk
      · exact h.known j d hold k hk
    simp only [countStep, setCall, List.length_append]
    omega

end EtherBench.Muxer.Ownership
