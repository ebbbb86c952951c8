import EtherBench.Muxer.Lifetime

/-! # Who owns the router's blocks

Each block is free, held by one creation, or occupied by one live instance; and of the
consumers still to come, the last consumer and the release, each instance has exactly one.
Every step keeps both, and the counts in memory follow.
-/

namespace EtherBench.Muxer.Ownership
open ThreadX Message Lifetime Library.Transition Library.Holders

def owners (pool : BlockPool ℕ) (held : Call → Option ℕ) (live : Instance → Option ℕ) (s : State)
    (b : ℕ) : ℕ :=
  pool.free b + holders held s.calls b + holders live s.instances b

def pending (left : ℕ) : ℕ := if left = 0 then 0 else 1

theorem pending_pos {left : ℕ} (h : 0 < left) : pending left = 1 := if_neg (by omega)

/-- An instance of which `left` consumptions are outstanding, with `duty` calls that were its last
consumer and `payloadDuty` calls that have its payload still to release. -/
structure Life (h : Heap) (inst : Instance) (left duty payloadDuty : ℕ) : Prop where
  block : inst.blockReleases + duty + pending left = 1
  payload : inst.payload.isSome → inst.payloadReleases + payloadDuty + pending left = 1
  noPayload : inst.payload = none → inst.payloadReleases = 0
  count : inst.blockReleases = 0 → (h.messages inst.block).count.toNat = left
  carries : inst.blockReleases = 0 → inst.payloadReleases = 0 →
    Carries h inst.request inst.block inst.payload

def Draft (h : Heap) (c : Call) : Prop :=
  match c.phase with
  | .check r => r.dest ≠ 0 ∧ c.result = none ∧ c.taken = [] ∧ c.givenBack = [] ∧ c.payloadsTaken = []
  | .attach r msg | .undo r msg =>
    r.dest ≠ 0 ∧ c.result = none ∧ c.taken = [msg] ∧ c.givenBack = [] ∧ c.payloadsTaken = []
  | .count r msg payload => r.dest ≠ 0 ∧ c.result = none ∧ Carries h r msg payload
  | _ => c.consumes = none ∧ (c.result = some none → c.givenBack = c.taken ∧ c.payloadsTaken = [])

structure Inv (routerBlocks payloadBlocks : ℕ) (s : State) : Prop where
  messages : ∀ b, owners s.heap.routerPool Call.message Instance.liveBlock s b =
    if b < routerBlocks then 1 else 0
  payloads : ∀ b, owners s.heap.routerPayloads Call.payload Instance.livePayload s b =
    if b < payloadBlocks then 1 else 0
  life : ∀ (k : ℕ) (inst : Instance), s.instances[k]? = some inst →
    Life s.heap inst (outstanding s k inst) (holders Call.duty s.calls k) (holders Call.payloadDuty s.calls k)
  draft : ∀ (i : ℕ) (c : Call), s.calls[i]? = some c → Draft s.heap c
  known : ∀ (i : ℕ) (c : Call), s.calls[i]? = some c → ∀ k, c.right = some k ∨ c.duty = some k → k < s.instances.length

variable {routerBlocks payloadBlocks : ℕ} {s : State}

theorem Life.frame {h h' : Heap} {inst : Instance} {left duty payloadDuty : ℕ}
    (hl : Life h inst left duty payloadDuty)
    (hmsg : inst.blockReleases = 0 → h'.messages inst.block = h.messages inst.block)
    (hbytes : ∀ p, inst.livePayload = some p → h'.payloads p = h.payloads p) :
    Life h' inst left duty payloadDuty where
  block := hl.block
  payload := hl.payload
  noPayload := hl.noPayload
  count := by
    intro hlive
    rw [hmsg hlive]
    exact hl.count hlive
  carries := by
    intro hlive hkept
    have hsame := hmsg hlive
    refine (hl.carries hlive hkept).frame (by rw [hsame]) (by rw [hsame]) ?_
    intro p hp
    apply hbytes
    rw [Instance.livePayload, if_pos hkept, hp]

theorem Life.payload_cases {h : Heap} {inst : Instance} {left duty payloadDuty : ℕ}
    (hl : Life h inst left duty payloadDuty) :
    (inst.payload.isSome ∧ inst.payloadReleases + payloadDuty + pending left = 1) ∨
      (inst.payload = none ∧ inst.payloadReleases = 0) := by
  cases hpayload : inst.payload with
  | none => exact Or.inr ⟨rfl, hl.noPayload hpayload⟩
  | some p => exact Or.inl ⟨rfl, hl.payload (by rw [hpayload]; rfl)⟩

theorem Life.kept {h : Heap} {inst : Instance} {left duty payloadDuty : ℕ}
    (hl : Life h inst left duty payloadDuty) (hleft : 0 < left) :
    inst.blockReleases = 0 ∧ inst.payloadReleases = 0 := by
  have hpending := pending_pos hleft
  have hblock := hl.block
  refine ⟨by omega, ?_⟩
  rcases hl.payload_cases with ⟨_, hpayload⟩ | ⟨_, hnone⟩
  · omega
  · exact hnone

theorem Inv.messages_le (h : Inv routerBlocks payloadBlocks s) (b : ℕ) :
    owners s.heap.routerPool Call.message Instance.liveBlock s b ≤ 1 := by
  rw [h.messages]
  split <;> omega

theorem Inv.payloads_le (h : Inv routerBlocks payloadBlocks s) (b : ℕ) :
    owners s.heap.routerPayloads Call.payload Instance.livePayload s b ≤ 1 := by
  rw [h.payloads]
  split <;> omega

theorem Inv.live_blocks_ne (h : Inv routerBlocks payloadBlocks s) {k l : ℕ} {inst other : Instance}
    (hkl : k ≠ l) (hk : s.instances[k]? = some inst) (hl : s.instances[l]? = some other)
    (hinst : inst.blockReleases = 0) (hother : other.blockReleases = 0) : other.block ≠ inst.block := by
  intro hb
  have hfirst : inst.liveBlock = some inst.block := by rw [Instance.liveBlock, if_pos hinst]
  have hsecond : other.liveBlock = some inst.block := by rw [Instance.liveBlock, if_pos hother, hb]
  have htwo := holders_two hkl hk hl hfirst hsecond
  have hone := h.messages_le inst.block
  unfold owners at hone
  omega

theorem Draft.frame {h h' : Heap} {c : Call} (hd : Draft h c)
    (hmsg : ∀ b, c.message = some b → h'.messages b = h.messages b)
    (hbytes : ∀ q, c.payload = some q → h'.payloads q = h.payloads q) : Draft h' c := by
  unfold Draft Call.message Call.payload at *
  cases hphase : c.phase with
  | count r msg payload =>
    simp only [hphase] at hd hmsg hbytes ⊢
    have hsame := hmsg msg rfl
    exact ⟨hd.1, hd.2.1, hd.2.2.frame (by rw [hsame]) (by rw [hsame]) hbytes⟩
  | _ => simpa only [hphase] using hd

/-- A creation writes only to blocks that it holds or that were free. -/
structure Local (s : State) (c : Call) (heap : Heap) : Prop where
  messages : ∀ b, s.heap.routerPool.free b = 0 → c.message ≠ some b →
    heap.messages b = s.heap.messages b
  payloads : ∀ q, s.heap.routerPayloads.free q = 0 → c.payload ≠ some q →
    heap.payloads q = s.heap.payloads q

theorem Local.refl (s : State) (c : Call) : Local s c s.heap := ⟨fun _ _ _ => rfl, fun _ _ _ => rfl⟩

/-- Writing to the message block that the call holds, and to payload blocks that were free. -/
theorem Local.held {c : Call} {heap : Heap} {msg : ℕ} (hmessage : c.message = some msg)
    (hmessages : ∀ b, b ≠ msg → heap.messages b = s.heap.messages b)
    (hpayloads : ∀ q, s.heap.routerPayloads.free q = 0 → heap.payloads q = s.heap.payloads q) :
    Local s c heap where
  messages := by
    intro b _ hb
    apply hmessages
    rintro rfl
    exact hb hmessage
  payloads := by
    intro q hq _
    exact hpayloads q hq

theorem owners_live {pool : BlockPool ℕ} {held : Call → Option ℕ} {live : Instance → Option ℕ} {b : ℕ}
    (hone : owners pool held live s b ≤ 1) {k : ℕ} {inst : Instance} (hk : s.instances[k]? = some inst)
    (hlive : live inst = some b) : pool.free b = 0 ∧ ∀ c ∈ s.calls, held c ≠ some b := by
  have hpos := holders_pos hk hlive
  unfold owners at hone
  exact ⟨by omega, holders_eq_zero.mp (by omega)⟩

theorem owners_held {pool : BlockPool ℕ} {held : Call → Option ℕ} {live : Instance → Option ℕ} {b : ℕ}
    (hone : owners pool held live s b ≤ 1) {i j : ℕ} {c d : Call} (hij : i ≠ j)
    (hi : s.calls[i]? = some c) (hj : s.calls[j]? = some d) (hd : held d = some b) :
    pool.free b = 0 ∧ held c ≠ some b := by
  unfold owners at hone
  refine ⟨?_, ?_⟩
  · have hpos := holders_pos hj hd
    omega
  · intro hc
    have htwo := holders_two hij hi hj hc hd
    omega

theorem Inv.life_local (h : Inv routerBlocks payloadBlocks s) {i : ℕ} {c : Call} {heap : Heap}
    (hi : s.calls[i]? = some c) (hlocal : Local s c heap) {k : ℕ} {inst : Instance}
    (hk : s.instances[k]? = some inst) {left duty payloadDuty : ℕ}
    (hl : Life s.heap inst left duty payloadDuty) : Life heap inst left duty payloadDuty := by
  have hmem := List.mem_of_getElem? hi
  apply hl.frame
  · intro hlive
    have hblock : inst.liveBlock = some inst.block := by rw [Instance.liveBlock, if_pos hlive]
    obtain ⟨hfree, hheld⟩ := owners_live (h.messages_le inst.block) hk hblock
    exact hlocal.messages _ hfree (hheld c hmem)
  · intro p hp
    obtain ⟨hfree, hheld⟩ := owners_live (h.payloads_le p) hk hp
    exact hlocal.payloads _ hfree (hheld c hmem)

theorem Inv.draft_local (h : Inv routerBlocks payloadBlocks s) {i j : ℕ} {c d : Call} {heap : Heap}
    (hij : i ≠ j) (hi : s.calls[i]? = some c) (hj : s.calls[j]? = some d) (hlocal : Local s c heap) :
    Draft heap d := by
  apply (h.draft j d hj).frame
  · intro b hb
    obtain ⟨hfree, hheld⟩ := owners_held (h.messages_le b) hij hi hj hb
    exact hlocal.messages b hfree hheld
  · intro q hq
    obtain ⟨hfree, hheld⟩ := owners_held (h.payloads_le q) hij hi hj hq
    exact hlocal.payloads q hfree hheld

theorem getElem?_set_cases {l : List Call} {i j : ℕ} {c d : Call} (h : (l.set i c)[j]? = some d) :
    (i = j ∧ d = c) ∨ (i ≠ j ∧ l[j]? = some d) := by
  rw [List.getElem?_set] at h
  by_cases hij : i = j
  · rw [if_pos hij] at h
    split at h
    · exact Or.inl ⟨hij, (Option.some.inj h).symm⟩
    · cases h
  · rw [if_neg hij] at h
    exact Or.inr ⟨hij, h⟩

theorem payloadDuty_duty {c : Call} {k : ℕ} (h : c.payloadDuty = some k) : c.duty = some k := by
  unfold Call.payloadDuty at h
  unfold Call.duty
  cases hphase : c.phase with
  | freePayload l =>
    rw [hphase] at h
    exact h
  | _ => simp [hphase] at h

theorem payloadDuty_le (l : List Call) (k : ℕ) : holders Call.payloadDuty l k ≤ holders Call.duty l k := by
  apply List.countP_mono_left
  intro c _ h
  exact decide_eq_true (payloadDuty_duty (of_decide_eq_true h))

/-- No call refers to the instance that is created next. -/
theorem Inv.fresh (h : Inv routerBlocks payloadBlocks s) :
    holders Call.right s.calls s.instances.length = 0 ∧ holders Call.duty s.calls s.instances.length = 0 ∧
      holders Call.payloadDuty s.calls s.instances.length = 0 := by
  have hknown : ∀ c ∈ s.calls, ∀ k, c.right = some k ∨ c.duty = some k → k < s.instances.length := by
    intro c hc
    obtain ⟨j, hj⟩ := List.mem_iff_getElem?.mp hc
    exact h.known j c hj
  have hduty : holders Call.duty s.calls s.instances.length = 0 := by
    rw [holders_eq_zero]
    intro c hc hk
    exact absurd (hknown c hc _ (Or.inr hk)) (Nat.lt_irrefl _)
  refine ⟨?_, hduty, ?_⟩
  · rw [holders_eq_zero]
    intro c hc hk
    exact absurd (hknown c hc _ (Or.inl hk)) (Nat.lt_irrefl _)
  · rw [← Nat.le_zero, ← hduty]
    exact payloadDuty_le s.calls s.instances.length

end EtherBench.Muxer.Ownership
