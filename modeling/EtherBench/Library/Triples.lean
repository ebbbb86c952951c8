import EtherBench.Library.Effects

/-! # Triples for programs that can stop early

`Triple P x Q E`: from a state in `P` the program `x` ends with a value and a state in `Q`, or
with an error and a state in `E`.
-/

namespace EtherBench.Library.Triples
open Effects

universe u

variable {ε σ α β : Type u}

def Triple (P : σ → Prop) (x : EStateM ε σ α) (Q : α → σ → Prop) (E : σ → Prop) : Prop :=
  ∀ s, P s →
    match x s with
    | .ok a t => Q a t
    | .error _ t => E t

variable {P P' : σ → Prop} {Q Q' : α → σ → Prop} {E E' : σ → Prop} {x : EStateM ε σ α}

theorem Triple.of_ok (h : Triple P x Q E) {s t : σ} {a : α} (hs : P s) (hx : x s = .ok a t) : Q a t := by
  have ht := h s hs
  rw [hx] at ht
  exact ht

theorem Triple.weaken (h : Triple P x Q E) (hP : ∀ s, P' s → P s) (hQ : ∀ a s, Q a s → Q' a s)
    (hE : ∀ s, E s → E' s) : Triple P' x Q' E' := by
  intro s hs
  have ht := h s (hP s hs)
  cases hx : x s with
  | ok a t =>
    rw [hx] at ht
    exact hQ a t ht
  | error e t =>
    rw [hx] at ht
    exact hE t ht

theorem triple_pure (a : α) (h : ∀ s, P s → Q a s) : Triple P (pure a : EStateM ε σ α) Q E := h

theorem triple_throw (e : ε) (h : ∀ s, P s → E s) : Triple P (throw e : EStateM ε σ α) Q E := h

theorem triple_get {R : σ → σ → Prop} (h : ∀ s, P s → R s s) : Triple P (get : EStateM ε σ σ) R E := h

theorem triple_modify {f : σ → σ} {R : PUnit → σ → Prop} (h : ∀ s, P s → R ⟨⟩ (f s)) :
    Triple P (modify f : EStateM ε σ PUnit) R E := h

theorem triple_bind {f : α → EStateM ε σ β} {R : β → σ → Prop} (hx : Triple P x Q E)
    (hf : ∀ a, Triple (Q a) (f a) R E) : Triple P (x >>= f) R E := by
  intro s hs
  have ht := hx s hs
  simp only [bind, EStateM.bind]
  cases hrun : x s with
  | ok a t =>
    rw [hrun] at ht
    exact hf a t ht
  | error e t =>
    rw [hrun] at ht
    exact ht

theorem triple_ite {y : EStateM ε σ α} {c : Prop} [Decidable c] (hx : c → Triple P x Q E)
    (hy : ¬ c → Triple P y Q E) : Triple P (if c then x else y) Q E := by
  by_cases h : c
  · rw [if_pos h]
    exact hx h
  · rw [if_neg h]
    exact hy h

theorem triple_orThrow (h : Triple P x Q E) (e : ε) : Triple P (orThrow e x) Q E := by
  intro s hs
  have ht := h s hs
  simp only [orThrow]
  cases hx : x s with
  | ok a t =>
    rw [hx] at ht
    exact ht
  | error e t =>
    rw [hx] at ht
    exact ht

/-- Loop rule: each turn takes the invariant one place further. -/
theorem triple_forRange {I : ℕ → σ → Prop} {body : ℕ → EStateM ε σ PUnit} {i n : ℕ}
    (h : ∀ j, i ≤ j → j < i + n → Triple (I j) (body j) (fun _ => I (j + 1)) E) :
    Triple (I i) (forRange body i n) (fun _ => I (i + n)) E := by
  induction n generalizing i with
  | zero => exact triple_pure PUnit.unit fun _ hs => hs
  | succ n ih =>
    apply triple_bind (h i (Nat.le_refl i) (by omega))
    intro _
    have hend : i + 1 + n = i + (n + 1) := by omega
    rw [← hend]
    apply ih
    intro j hij hjn
    exact h j (by omega) (by omega)

theorem triple_forRange_kept {body : ℕ → EStateM ε σ PUnit} {i n : ℕ}
    (h : ∀ j, i ≤ j → j < i + n → Triple P (body j) (fun _ => P) E) :
    Triple P (forRange body i n) (fun _ => P) E := triple_forRange h

/-- The two ends of a program that keeps an invariant. -/
theorem triple_of_preserves (h : Preserves P x) : Triple P x (fun _ => P) P := by
  intro s hs
  have ht := h s hs
  simp only [final] at ht
  cases hx : x s with
  | ok a t =>
    rw [hx] at ht
    exact ht
  | error e t =>
    rw [hx] at ht
    exact ht

/-- What a program keeps holds after an error, too. -/
theorem Triple.error_of_preserves {I : σ → Prop} (h : Triple P x Q E) (hI : Preserves I x)
    (hP : ∀ s, P s → I s) : Triple P x Q I := by
  intro s hs
  have hvalue := h s hs
  have hend := hI s (hP s hs)
  rw [final] at hend
  cases hx : x s with
  | ok a t =>
    rw [hx] at hvalue
    exact hvalue
  | error e t =>
    rw [hx] at hend
    exact hend

theorem Triple.final_of {R : σ → Prop} (h : Triple P x (fun _ => R) R) {s : σ} (hs : P s) :
    R (final x s) := by
  have ht := h s hs
  rw [final]
  cases hx : x s with
  | ok a t =>
    rw [hx] at ht
    exact ht
  | error e t =>
    rw [hx] at ht
    exact ht

theorem Triple.preserves (h : Triple P x (fun _ => P) P) : Preserves P x := fun _ hs => h.final_of hs

theorem Triple.both {R S : σ → Prop} {T : α → σ → Prop} (h : Triple P x Q E) (h' : Triple R x T S) :
    Triple (fun s => P s ∧ R s) x (fun a s => Q a s ∧ T a s) (fun s => E s ∧ S s) := by
  rintro s ⟨hs, hs'⟩
  have ht := h s hs
  have ht' := h' s hs'
  cases hx : x s with
  | ok a t =>
    rw [hx] at ht ht'
    exact ⟨ht, ht'⟩
  | error e t =>
    rw [hx] at ht ht'
    exact ⟨ht, ht'⟩

theorem triple_of_and {p : Prop} (h : p → Triple P x Q E) : Triple (fun s => p ∧ P s) x Q E :=
  fun s hs => h hs.1 s hs.2

end EtherBench.Library.Triples
