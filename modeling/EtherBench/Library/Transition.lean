import Mathlib.Data.List.Basic

/-! # Runs of a labelled transition system

A step is a partial function. Its label carries every choice of the scheduler and
of the environment, and `none` means that the label is not enabled. The rules below
turn a fact about one step into a fact about every state of a run.
-/

namespace EtherBench.Library.Transition

variable {σ α : Type*} {step : σ → α → Option σ}

/-- The state after a whole run, or `none` when some label of it is not enabled. -/
def run (step : σ → α → Option σ) : σ → List α → Option σ
  | s, [] => some s
  | s, a :: as => (step s a).bind fun t => run step t as

@[simp] theorem run_nil (s : σ) : run step s [] = some s := rfl

theorem run_cons (s : σ) (a : α) (as : List α) :
    run step s (a :: as) = (step s a).bind fun t => run step t as := rfl

theorem run_cons_some {s t : σ} {a : α} {as : List α} :
    run step s (a :: as) = some t ↔ ∃ u, step s a = some u ∧ run step u as = some t := by
  simp [run_cons, Option.bind_eq_some_iff]

theorem run_append {s t : σ} {as : List α} (h : run step s as = some t) (bs : List α) :
    run step s (as ++ bs) = run step t bs := by
  induction as generalizing s with
  | nil =>
    cases h
    rfl
  | cons a as ih =>
    obtain ⟨u, hu, hrest⟩ := run_cons_some.mp h
    rw [List.cons_append, run_cons, hu]
    exact ih hrest

/-- A total step never gets stuck. -/
theorem run_total (f : σ → α → σ) (s : σ) (as : List α) :
    run (fun s a => some (f s a)) s as = some (as.foldl f s) := by
  induction as generalizing s with
  | nil => rfl
  | cons a as ih => exact ih (f s a)

/-- Invariant rule: what every step preserves holds at the end of every run. -/
theorem run_invariant {I : σ → Prop} (hstep : ∀ s a t, I s → step s a = some t → I t)
    {s t : σ} {as : List α} (hs : I s) (hrun : run step s as = some t) : I t := by
  induction as generalizing s with
  | nil =>
    cases hrun
    exact hs
  | cons a as ih =>
    obtain ⟨u, hu, hrest⟩ := run_cons_some.mp hrun
    exact ih (hstep s a u hs hu) hrest

/-- `P` holds in every state a run passes through, its first and last ones included. -/
def Always (step : σ → α → Option σ) (P : σ → Prop) : σ → List α → Prop
  | s, [] => P s
  | s, a :: as => P s ∧ ∀ t, step s a = some t → Always step P t as

/-- Every step a run takes meets the condition `C` on the state before it and its label. -/
def Along (step : σ → α → Option σ) (C : σ → α → Prop) : σ → List α → Prop
  | _, [] => True
  | s, a :: as => ∀ t, step s a = some t → C s a ∧ Along step C t as

instance Along.decidable {C : σ → α → Prop} [∀ s a, Decidable (C s a)] :
    (s : σ) → (as : List α) → Decidable (Along step C s as)
  | _, [] => .isTrue trivial
  | s, a :: as =>
    match h : step s a with
    | none => .isTrue fun t ht => by simp [h] at ht
    | some t =>
      have : Decidable (Along step C t as) := Along.decidable t as
      decidable_of_iff (C s a ∧ Along step C t as) (by simp [Along, h])

theorem Along.append {C : σ → α → Prop} {s t : σ} {as bs : List α} (has : Along step C s as)
    (hrun : run step s as = some t) (hbs : Along step C t bs) : Along step C s (as ++ bs) := by
  induction as generalizing s with
  | nil =>
    cases hrun
    exact hbs
  | cons a as ih =>
    intro u hu
    obtain ⟨v, hv, hrest⟩ := run_cons_some.mp hrun
    cases hu.symm.trans hv
    exact ⟨(has u hu).1, ih (has u hu).2 hrest⟩

/-- A condition that the labels of a run meet in every state. -/
theorem along_of_mem {C : σ → α → Prop} {s : σ} {as : List α} (h : ∀ a ∈ as, ∀ s, C s a) :
    Along step C s as := by
  induction as generalizing s with
  | nil => trivial
  | cons a as ih =>
    exact fun t _ => ⟨h a List.mem_cons_self s, ih fun b hb => h b (List.mem_cons_of_mem a hb)⟩

theorem Always.head {P : σ → Prop} {s : σ} {as : List α} (h : Always step P s as) : P s := by
  cases as with
  | nil => exact h
  | cons a as => exact h.1

/-- `Always` speaks of exactly the states that the prefixes of the run end in. -/
theorem always_iff_prefixes {P : σ → Prop} {s : σ} {as : List α} :
    Always step P s as ↔ ∀ bs, bs <+: as → ∀ t, run step s bs = some t → P t := by
  induction as generalizing s with
  | nil =>
    constructor
    · intro h bs hbs t ht
      rw [List.prefix_nil.mp hbs] at ht
      cases ht
      exact h
    · intro h
      exact h [] List.prefix_rfl s rfl
  | cons a as ih =>
    constructor
    · rintro ⟨hs, hrest⟩ bs hbs t ht
      cases bs with
      | nil =>
        cases ht
        exact hs
      | cons b bs =>
        obtain ⟨rfl, htail⟩ := List.cons_prefix_cons.mp hbs
        obtain ⟨u, hu, hrun⟩ := run_cons_some.mp ht
        exact ih.mp (hrest u hu) bs htail t hrun
    · intro h
      refine ⟨h [] (List.nil_prefix) s rfl, fun t ht => ih.mpr ?_⟩
      intro bs hbs u hu
      exact h (a :: bs) (List.cons_prefix_cons.mpr ⟨rfl, hbs⟩) u (run_cons_some.mpr ⟨t, ht, hu⟩)

theorem Always.last {P : σ → Prop} {s t : σ} {as : List α} (h : Always step P s as)
    (hrun : run step s as = some t) : P t :=
  always_iff_prefixes.mp h as List.prefix_rfl t hrun

theorem Always.mono {P Q : σ → Prop} (hPQ : ∀ s, P s → Q s) {s : σ} {as : List α}
    (h : Always step P s as) : Always step Q s as := by
  induction as generalizing s with
  | nil => exact hPQ s h
  | cons a as ih => exact ⟨hPQ s h.1, fun t ht => ih (h.2 t ht)⟩

theorem Along.mono {C D : σ → α → Prop} (hCD : ∀ s a, C s a → D s a) {s : σ} {as : List α}
    (h : Along step C s as) : Along step D s as := by
  induction as generalizing s with
  | nil => trivial
  | cons a as ih => exact fun t ht => ⟨hCD s a (h t ht).1, ih (h t ht).2⟩

/-- Guarded invariant rule: in a run whose steps all meet `C`, what such steps
preserve holds throughout. -/
theorem always_of_along {I : σ → Prop} {C : σ → α → Prop}
    (hstep : ∀ s a t, I s → C s a → step s a = some t → I t)
    {s : σ} {as : List α} (hs : I s) (hC : Along step C s as) : Always step I s as := by
  induction as generalizing s with
  | nil => exact hs
  | cons a as ih => exact ⟨hs, fun t ht => ih (hstep s a t hs (hC t ht).1 ht) (hC t ht).2⟩

/-- Exact guard: when each step that violates `C` leaves `P`, and the others preserve an
invariant that implies `P`, the runs that stay in `P` are those that keep to `C`. -/
theorem always_iff_along {I P : σ → Prop} {C : σ → α → Prop} (hIP : ∀ s, I s → P s)
    (hkeep : ∀ s a t, I s → C s a → step s a = some t → I t)
    (hbreak : ∀ s a t, I s → ¬ C s a → step s a = some t → ¬ P t)
    {s : σ} {as : List α} (hs : I s) : Always step P s as ↔ Along step C s as := by
  constructor
  · intro h
    induction as generalizing s with
    | nil => trivial
    | cons a as ih =>
      intro t ht
      have hC : C s a := by
        by_contra hC
        exact hbreak s a t hs hC ht (h.2 t ht).head
      exact ⟨hC, ih (hkeep s a t hs hC ht) (h.2 t ht)⟩
  · intro h
    exact (always_of_along hkeep hs h).mono hIP

/-! ## Simulation by a total machine -/

/-- Refinement rule: where every step that is taken follows the abstract machine, so does every run. -/
theorem run_refines {τ : Type*} {R : σ → τ → Prop} {f : τ → α → τ}
    (hstep : ∀ s a t x, R s x → step s a = some t → R t (f x a))
    {s t : σ} {x : τ} {as : List α} (hs : R s x) (hrun : run step s as = some t) : R t (as.foldl f x) := by
  induction as generalizing s x with
  | nil =>
    cases hrun
    exact hs
  | cons a as ih =>
    obtain ⟨u, hu, hrest⟩ := run_cons_some.mp hrun
    exact ih (hstep s a u x hs hu) hrest

/-- Every label of a run meets the condition `C` on the state before it, enabled there or not. -/
def Guarded (step : σ → α → Option σ) (C : σ → α → Prop) : σ → List α → Prop
  | _, [] => True
  | s, a :: as => C s a ∧ ∀ t, step s a = some t → Guarded step C t as

instance Guarded.decidable {C : σ → α → Prop} [∀ s a, Decidable (C s a)] :
    (s : σ) → (as : List α) → Decidable (Guarded step C s as)
  | _, [] => .isTrue trivial
  | s, a :: as =>
    match h : step s a with
    | none => decidable_of_iff (C s a) (by simp [Guarded, h])
    | some t =>
      have : Decidable (Guarded step C t as) := Guarded.decidable t as
      decidable_of_iff (C s a ∧ Guarded step C t as) (by simp [Guarded, h])

theorem Guarded.prefix {C : σ → α → Prop} {s : σ} {as bs : List α} (h : Guarded step C s (as ++ bs)) :
    Guarded step C s as := by
  induction as generalizing s with
  | nil => trivial
  | cons a as ih => exact ⟨h.1, fun t ht => ih (h.2 t ht)⟩

/-- Simulation rule: where a step that meets `C` is enabled and follows the abstract machine, so does every
run of such steps, which never gets stuck. -/
theorem run_simulates {τ : Type*} {R : σ → τ → Prop} {C : σ → α → Prop} {f : τ → α → τ}
    (hstep : ∀ s a x, R s x → C s a → ∃ t, step s a = some t ∧ R t (f x a))
    {s : σ} {x : τ} {as : List α} (hs : R s x) (hC : Guarded step C s as) :
    ∃ t, run step s as = some t ∧ R t (as.foldl f x) := by
  induction as generalizing s x with
  | nil => exact ⟨s, rfl, hs⟩
  | cons a as ih =>
    obtain ⟨t, ht, hR⟩ := hstep s a x hs hC.1
    obtain ⟨u, hu, hend⟩ := ih hR (hC.2 t ht)
    exact ⟨u, run_cons_some.mpr ⟨t, ht, hu⟩, hend⟩

end EtherBench.Library.Transition
