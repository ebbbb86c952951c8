import Mathlib.Data.Nat.Notation
import Mathlib.Logic.Function.Basic

/-! # Programs that can stop early

A program over a state ends with a value or with an error code, and the state it reached is
kept either way. `Preserves I x` says that `x` keeps `I` however it ends; it is checked
along the structure of the program.
-/

namespace EtherBench.Library.Effects

universe u

variable {ε σ α β : Type u}

def final (x : EStateM ε σ α) (s : σ) : σ :=
  match x s with
  | .ok _ t => t
  | .error _ t => t

def succeeds (x : EStateM ε σ α) (s : σ) : Bool :=
  match x s with
  | .ok _ _ => true
  | .error _ _ => false

theorem eq_ok_of_succeeds {x : EStateM ε σ PUnit} {s : σ} (h : succeeds x s = true) :
    x s = .ok ⟨⟩ (final x s) := by
  rw [succeeds] at h
  rw [final]
  cases hx : x s with
  | ok a t => rfl
  | error e t =>
    rw [hx] at h
    cases h

/-- `I` holds after `x` whenever it holds before, with or without an error. -/
def Preserves (I : σ → Prop) (x : EStateM ε σ α) : Prop := ∀ s, I s → I (final x s)

theorem preserves_pure (I : σ → Prop) (a : α) : Preserves I (pure a : EStateM ε σ α) :=
  fun _ hs => hs

theorem preserves_throw (I : σ → Prop) (e : ε) : Preserves I (throw e : EStateM ε σ α) :=
  fun _ hs => hs

theorem preserves_bind {I : σ → Prop} {x : EStateM ε σ α} {f : α → EStateM ε σ β}
    (hx : Preserves I x) (hf : ∀ a, Preserves I (f a)) : Preserves I (x >>= f) := by
  intro s hs
  have hxs := hx s hs
  simp only [final, bind, EStateM.bind] at hxs ⊢
  cases hrun : x s with
  | ok a t =>
    rw [hrun] at hxs
    exact hf a t hxs
  | error e t =>
    rw [hrun] at hxs
    exact hxs

/-- The value of `x`, or `e` in place of any error. -/
def orThrow (e : ε) (x : EStateM ε σ α) : EStateM ε σ α := fun s =>
  match x s with
  | .ok a t => .ok a t
  | .error _ t => .error e t

theorem preserves_ite {I : σ → Prop} {x y : EStateM ε σ α} {c : Prop} [Decidable c]
    (hx : Preserves I x) (hy : Preserves I y) : Preserves I (if c then x else y) := by
  by_cases h : c
  · rw [if_pos h]
    exact hx
  · rw [if_neg h]
    exact hy

/-- `body i, …, body (i + n - 1)`, up to the first error. -/
def forRange (body : ℕ → EStateM ε σ PUnit) : ℕ → ℕ → EStateM ε σ PUnit
  | _, 0 => pure ⟨⟩
  | i, n + 1 => do
    body i
    forRange body (i + 1) n

theorem forRange_one (body : ℕ → EStateM ε σ PUnit) (i : ℕ) :
    forRange body i 1 = (do body i; pure ⟨⟩) := rfl

end EtherBench.Library.Effects
