import EtherBench.Muxer.Lifetime

/-! # A call that nobody interrupts

When no other call moves, the steps of a creation, a consumption and a response add up to the functions
`create_message`, `consume_message` and `create_response_message`.
-/

namespace EtherBench.Muxer.Sequential
open ThreadX Message Lifetime Library.Transition

variable {heap : Heap} {calls : List Call} {instances : List Instance} {c : Call}

/-- The state in which the call `c` began last. -/
def during (heap : Heap) (calls : List Call) (c : Call) (instances : List Instance) : State :=
  ⟨heap, calls ++ [c], instances⟩

theorem setCall_during (c' : Call) :
    setCall (during heap calls c instances) calls.length c' = during heap calls c' instances := by
  simp [setCall, during]

theorem step_during :
    step (during heap calls c instances) (.advance calls.length) =
      advance (during heap calls c instances) calls.length c := by
  simp [step, during]

theorem run_during {c' : Call} {heap' : Heap} {instances' : List Instance} {n : ℕ}
    (hstep : advance (during heap calls c instances) calls.length c =
      some (during heap' calls c' instances')) :
    run step (during heap calls c instances) (List.replicate (n + 1) (.advance calls.length)) =
      run step (during heap' calls c' instances') (List.replicate n (.advance calls.length)) := by
  rw [List.replicate_succ, run_cons, step_during, hstep]
  rfl

theorem setCall_state (heap' : Heap) (instances' : List Instance) (c' : Call) :
    setCall ⟨heap', (during heap calls c instances).calls, instances'⟩ calls.length c' =
      during heap' calls c' instances' := by
  simp [setCall, during]

section Creation
variable {r : Request} {msg : ℕ}

theorem check_refused (hphase : c.phase = .check r)
    (h : routerTypicalPayload < r.payloadSize ∨ heap.routerPool.txBlockAllocate = none) :
    advance (during heap calls c instances) calls.length c =
      some (during heap calls (c.finishCreate none) instances) := by
  have hheap : (during heap calls c instances).heap = heap := rfl
  simp only [advance, hphase, checkStep, hheap]
  split
  · rw [setCall_during]
  · next hsize => rw [h.resolve_left hsize, setCall_during]

theorem check_taken {pool : BlockPool ℕ} (hphase : c.phase = .check r)
    (hsize : ¬ routerTypicalPayload < r.payloadSize)
    (halloc : heap.routerPool.txBlockAllocate = some (msg, pool)) :
    advance (during heap calls c instances) calls.length c =
      some (during ({ heap with routerPool := pool }.fillMessage msg r) calls
        { c with phase := .attach r msg, taken := msg :: c.taken } instances) := by
  have hheap : (during heap calls c instances).heap = heap := rfl
  simp only [advance, hphase, checkStep, hheap, if_neg hsize, halloc]
  exact congrArg some (setCall_state _ _ _)

theorem attach_plain (hphase : c.phase = .attach r msg) (hcopied : r.copied = none) :
    advance (during heap calls c instances) calls.length c =
      some (during (heap.clearPayload msg) calls { c with phase := .count r msg none } instances) := by
  simp only [advance, hphase, attachStep, hcopied]
  exact congrArg some (setCall_state _ _ _)

theorem attach_refused {bytes : ℕ → UInt8} (hphase : c.phase = .attach r msg)
    (hcopied : r.copied = some bytes) (halloc : heap.routerPayloads.txBlockAllocate = none) :
    advance (during heap calls c instances) calls.length c =
      some (during heap calls { c with phase := .undo r msg } instances) := by
  have hheap : (during heap calls c instances).heap = heap := rfl
  simp only [advance, hphase, attachStep, hcopied, hheap, halloc, setCall_during]

theorem attach_taken {bytes : ℕ → UInt8} {p : ℕ} {pool : BlockPool ℕ} (hphase : c.phase = .attach r msg)
    (hcopied : r.copied = some bytes)
    (halloc : heap.routerPayloads.txBlockAllocate = some (p, pool)) :
    advance (during heap calls c instances) calls.length c =
      some (during ({ heap with routerPayloads := pool }.fillPayload msg p bytes r.payloadSize) calls
        { c with phase := .count r msg (some p), payloadsTaken := p :: c.payloadsTaken } instances) := by
  have hheap : (during heap calls c instances).heap = heap := rfl
  simp only [advance, hphase, attachStep, hcopied, hheap, halloc]
  exact congrArg some (setCall_state _ _ _)

theorem undo_returns (hphase : c.phase = .undo r msg) :
    advance (during heap calls c instances) calls.length c =
      some (during (heap.releaseMessage msg) calls
        ({ c with givenBack := msg :: c.givenBack }.finishCreate none) instances) := by
  simp only [advance, hphase, undoStep]
  exact congrArg some (setCall_state _ _ _)

theorem count_returns {payload : Option ℕ} (hphase : c.phase = .count r msg payload) :
    advance (during heap calls c instances) calls.length c =
      some (during (heap.setCount msg r.dest) calls (c.finishCreate (some instances.length))
        (instances ++ [⟨r, msg, payload, (destinationCount r.dest).toNat, 0, 0⟩])) := by
  simp only [advance, hphase, countStep]
  exact congrArg some (setCall_state _ _ _)

/-- Where a call goes on after its creation. -/
def resumption : Option ℕ → Phase
  | none => .returned
  | some k => .consume k

/-- The creation in call `c` ends with the heap and the answer of `create_message`. -/
def Creates (heap : Heap) (calls : List Call) (c : Call) (instances : List Instance) (r : Request) : Prop :=
  ∃ n c' instances', run step (during heap calls c instances) (List.replicate n (.advance calls.length)) =
      some (during (createMessage heap r).2 calls c' instances') ∧ instances <+: instances' ∧
    c'.phase = resumption c.consumes ∧ (c'.result = some none ↔ (createMessage heap r).1 = none)

theorem Call.finishCreate_phase (c : Call) (result : Option ℕ) :
    (c.finishCreate result).phase = resumption c.consumes := by
  unfold Call.finishCreate resumption
  cases c.consumes <;> rfl

/-- A creation on its own ends as `create_message` does. -/
theorem createMessage_alone (heap : Heap) (calls : List Call) (instances : List Instance) (r : Request)
    (consumes : Option ℕ) : Creates heap calls (.begin (.check r) consumes) instances r := by
  have hphase : (Call.begin (.check r) consumes).phase = .check r := rfl
  unfold Creates createMessage
  by_cases hsize : routerTypicalPayload < r.payloadSize
  · rw [if_pos hsize]
    exact ⟨1, _, _, run_during (check_refused hphase (Or.inl hsize)), List.prefix_rfl,
      Call.finishCreate_phase _ _, by simp [Call.finishCreate]⟩
  · rw [if_neg hsize]
    cases halloc : heap.routerPool.txBlockAllocate with
    | none =>
      exact ⟨1, _, _, run_during (check_refused hphase (Or.inr halloc)), List.prefix_rfl,
        Call.finishCreate_phase _ _, by simp [Call.finishCreate]⟩
    | some got =>
      obtain ⟨msg, pool⟩ := got
      cases hcopied : r.copied with
      | none =>
        exact ⟨3, _, _, (run_during (check_taken hphase hsize halloc)).trans
          ((run_during (attach_plain rfl hcopied)).trans (run_during (count_returns rfl))),
          List.prefix_append _ _, Call.finishCreate_phase _ _, by simp [Call.finishCreate]⟩
      | some bytes =>
        cases hpayload : ({ heap with routerPool := pool }.fillMessage msg r).routerPayloads.txBlockAllocate with
        | none =>
          simp only [hpayload]
          exact ⟨3, _, _, (run_during (check_taken hphase hsize halloc)).trans
            ((run_during (attach_refused rfl hcopied hpayload)).trans (run_during (undo_returns rfl))),
            List.prefix_rfl, Call.finishCreate_phase _ _, by simp [Call.finishCreate]⟩
        | some got =>
          simp only [hpayload]
          exact ⟨3, _, _, (run_during (check_taken hphase hsize halloc)).trans
            ((run_during (attach_taken rfl hcopied hpayload)).trans (run_during (count_returns rfl))),
            List.prefix_append _ _, Call.finishCreate_phase _ _, by simp [Call.finishCreate]⟩

end Creation

section Consumption
variable {k : ℕ} {inst : Instance}

theorem consume_decrements (hphase : c.phase = .consume k) (hk : instances[k]? = some inst) :
    advance (during heap calls c instances) calls.length c =
      some (during (heap.fetchAndSub inst.block).2 calls
        { c with phase := if (heap.fetchAndSub inst.block).1 = 1 then .freePayload k else .returned }
        instances) := by
  have hget : (during heap calls c instances).instances[k]? = some inst := hk
  simp only [advance, hphase, hget, Option.map_some, consumeStep]
  exact congrArg some (setCall_state _ _ _)

theorem freePayload_releases (hphase : c.phase = .freePayload k) (hk : instances[k]? = some inst) :
    ∃ inst', inst'.block = inst.block ∧
      advance (during heap calls c instances) calls.length c =
        some (during (heap.releasePayload inst.block) calls { c with phase := .freeMessage k }
          (instances.set k inst')) := by
  have hget : (during heap calls c instances).instances[k]? = some inst := hk
  have hheap : (during heap calls c instances).heap = heap := rfl
  simp only [advance, hphase, hget, Option.map_some, freePayloadStep, hheap, Heap.releasePayload]
  cases hpayload : (heap.messages inst.block).payload with
  | none =>
    have hset : instances.set k inst = instances := by
      obtain ⟨hlen, rfl⟩ := List.getElem?_eq_some_iff.mp hk
      exact List.set_getElem_self hlen
    refine ⟨inst, rfl, ?_⟩
    rw [hset, setCall_during]
  | some p => exact ⟨{ inst with payloadReleases := inst.payloadReleases + 1 }, rfl,
      congrArg some (setCall_state _ _ _)⟩

theorem freeMessage_releases (hphase : c.phase = .freeMessage k) (hk : instances[k]? = some inst) :
    advance (during heap calls c instances) calls.length c =
      some (during (heap.releaseMessage inst.block) calls { c with phase := .returned }
        (instances.set k { inst with blockReleases := inst.blockReleases + 1 })) := by
  have hget : (during heap calls c instances).instances[k]? = some inst := hk
  simp only [advance, hphase, hget, Option.map_some, freeMessageStep]
  exact congrArg some (setCall_state _ _ _)

/-- The consumption in call `c` ends with the heap of `consume_message`. -/
def Consumes (heap : Heap) (calls : List Call) (c : Call) (instances : List Instance) (inst : Instance) : Prop :=
  ∃ n c' instances', run step (during heap calls c instances) (List.replicate n (.advance calls.length)) =
      some (during (consumeMessage heap (some inst.block)) calls c' instances') ∧
    c'.phase = .returned ∧ c'.result = c.result

/-- A consumption on its own ends as `consume_message` does. -/
theorem consumeMessage_alone (heap : Heap) (calls : List Call) (hphase : c.phase = .consume k)
    (hk : instances[k]? = some inst) : Consumes heap calls c instances inst := by
  have hfirst : advance (during heap calls c instances) calls.length c = _ := consume_decrements hphase hk
  by_cases hone : (heap.fetchAndSub inst.block).1 = 1
  · rw [if_pos hone] at hfirst
    obtain ⟨inst', hblock, hsecond⟩ : ∃ inst', inst'.block = inst.block ∧
        advance (during (heap.fetchAndSub inst.block).2 calls { c with phase := .freePayload k } instances)
          calls.length { c with phase := .freePayload k } =
        some (during ((heap.fetchAndSub inst.block).2.releasePayload inst.block) calls
          { c with phase := .freeMessage k } (instances.set k inst')) := freePayload_releases rfl hk
    have hk' : (instances.set k inst')[k]? = some inst' := by
      simp [(List.getElem?_eq_some_iff.mp hk).1]
    have hend : consumeMessage heap (some inst.block) =
        ((heap.fetchAndSub inst.block).2.releasePayload inst.block).releaseMessage inst'.block := by
      rw [hblock]
      exact if_pos hone
    rw [Consumes, hend]
    exact ⟨3, _, _, (run_during hfirst).trans ((run_during hsecond).trans
      (run_during (freeMessage_releases rfl hk'))), rfl, rfl⟩
  · rw [if_neg hone] at hfirst
    have hend : consumeMessage heap (some inst.block) = (heap.fetchAndSub inst.block).2 := if_neg hone
    rw [Consumes, hend]
    exact ⟨1, _, _, run_during hfirst, rfl, rfl⟩

/-- The response in a call ends with the heap and the answer of `create_response_message`. -/
def Responds (heap : Heap) (calls : List Call) (instances : List Instance) (k : ℕ) (inst : Instance)
    (info : BitVec 16) (payload : Option (ℕ → UInt8)) (payloadSize : ℕ) : Prop :=
  let r := responseRequest (heap.messages inst.block) info payload payloadSize
  let response := createResponseMessage heap (some inst.block) info payload payloadSize
  ∃ n c' instances', run step (during heap calls (.begin (.check r) (some k)) instances)
      (List.replicate n (.advance calls.length)) = some (during response.2 calls c' instances') ∧
    c'.phase = .returned ∧ (c'.result = some none ↔ response.1 = none)

theorem createResponseMessage_alone (heap : Heap) (calls : List Call) (hk : instances[k]? = some inst)
    (info : BitVec 16) (payload : Option (ℕ → UInt8)) (payloadSize : ℕ) :
    Responds heap calls instances k inst info payload payloadSize := by
  obtain ⟨n, c', _, hcreates, ⟨created, rfl⟩, hphase, hresult⟩ := createMessage_alone heap calls instances
    (responseRequest (heap.messages inst.block) info payload payloadSize) (some k)
  have hk' : (instances ++ created)[k]? = some inst := by
    rw [List.getElem?_append_left (List.getElem?_eq_some_iff.mp hk).1, hk]
  obtain ⟨m, c'', instances', hconsumes, hreturned, hsame⟩ := consumeMessage_alone _ calls hphase hk'
  refine ⟨n + m, c'', instances', ?_, hreturned, ?_⟩
  · rw [List.replicate_add, run_append hcreates]
    exact hconsumes
  · rw [hsame]
    exact hresult

end Consumption

end EtherBench.Muxer.Sequential
