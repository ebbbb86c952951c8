import Mathlib.Data.List.Basic

/-! # Counting who holds a token

An activity holds at most one token of a given kind. The number of activities that
hold a token is what a conservation argument adds up, and the rules here say how
that number moves when one activity of a list changes.
-/

namespace EtherBench.Library.Holders

variable {γ β : Type*} [DecidableEq β]

/-- One when the place `o` holds the token `b`, zero otherwise. -/
def claim (o : Option β) (b : β) : ℕ := if o = some b then 1 else 0

@[simp] theorem claim_none (b : β) : claim none b = 0 := rfl

@[simp] theorem claim_self (b : β) : claim (some b) b = 1 := by simp [claim]

theorem claim_of_ne {a b : β} (h : a ≠ b) : claim (some a) b = 0 := by simp [claim, h]

theorem claim_eq_zero {o : Option β} {b : β} (h : o ≠ some b) : claim o b = 0 := if_neg h

theorem count_cons_claim (a b : β) (l : List β) : (a :: l).count b = claim (some a) b + l.count b := by
  by_cases h : a = b
  · subst h
    simp [Nat.add_comm]
  · simp [claim, h]

theorem count_concat_claim (a b : β) (l : List β) : (l ++ [a]).count b = l.count b + claim (some a) b := by
  rw [List.count_append, count_cons_claim]
  simp

/-- How many activities of the list hold the token `b`. -/
def holders (token : γ → Option β) (l : List γ) (b : β) : ℕ := l.countP fun c => token c = some b

@[simp] theorem holders_nil (token : γ → Option β) (b : β) : holders token [] b = 0 := rfl

theorem holders_concat (token : γ → Option β) (l : List γ) (c : γ) (b : β) :
    holders token (l ++ [c]) b = holders token l b + claim (token c) b := by
  simp [holders, claim, List.countP_cons]

/-- Changing the activity at one place moves the count by what that activity holds. -/
theorem holders_set (token : γ → Option β) {l : List γ} {i : ℕ} {c : γ} (h : l[i]? = some c)
    (d : γ) (b : β) :
    holders token (l.set i d) b + claim (token c) b = holders token l b + claim (token d) b := by
  induction l generalizing i with
  | nil => simp at h
  | cons x l ih =>
    cases i with
    | zero =>
      cases h
      simp only [holders, claim, List.set_cons_zero, List.countP_cons, decide_eq_true_eq]
      omega
    | succ i =>
      have hrest := ih (i := i) h
      simp only [holders, claim, List.set_cons_succ, List.countP_cons, decide_eq_true_eq] at hrest ⊢
      omega

theorem holders_eq_zero {token : γ → Option β} {l : List γ} {b : β} :
    holders token l b = 0 ↔ ∀ c ∈ l, token c ≠ some b := by
  simp [holders, List.countP_eq_zero]

theorem holders_pos {token : γ → Option β} {l : List γ} {i : ℕ} {c : γ} {b : β}
    (h : l[i]? = some c) (hc : token c = some b) : 0 < holders token l b := by
  rw [Nat.pos_iff_ne_zero]
  intro hzero
  exact holders_eq_zero.mp hzero c (List.mem_of_getElem? h) hc

/-- Two activities that hold one token are counted twice. -/
theorem holders_two {token : γ → Option β} {l : List γ} {i j : ℕ} {c d : γ} {b : β} (hij : i ≠ j)
    (hi : l[i]? = some c) (hj : l[j]? = some d) (hc : token c = some b) (hd : token d = some b) :
    2 ≤ holders token l b := by
  induction l generalizing i j with
  | nil => simp at hi
  | cons x l ih =>
    have hcons : holders token (x :: l) b = holders token l b + claim (token x) b := by
      simp [holders, claim, List.countP_cons]
    rw [hcons]
    cases i with
    | zero =>
      cases j with
      | zero => exact absurd rfl hij
      | succ j =>
        cases hi
        have htail : l[j]? = some d := hj
        have hrest := holders_pos htail hd
        rw [hc, claim_self]
        omega
    | succ i =>
      cases j with
      | zero =>
        cases hj
        have htail : l[i]? = some c := hi
        have hrest := holders_pos htail hc
        rw [hd, claim_self]
        omega
      | succ j =>
        have hne : i ≠ j := fun h => hij (by rw [h])
        have hrest := ih hne hi hj
        omega

theorem holders_set_same {token : γ → Option β} {l : List γ} {i : ℕ} {c d : γ} (h : l[i]? = some c)
    (hsame : token d = token c) (b : β) : holders token (l.set i d) b = holders token l b := by
  have hset := holders_set token h d b
  rw [hsame] at hset
  omega

theorem holders_set_release {token : γ → Option β} {l : List γ} {i : ℕ} {c d : γ} {b : β}
    (h : l[i]? = some c) (hc : token c = some b) (hd : token d ≠ some b) :
    holders token (l.set i d) b + 1 = holders token l b := by
  have hset := holders_set token h d b
  rw [hc, claim_self, claim_eq_zero hd] at hset
  exact hset

theorem holders_eq_count (token : γ → Option β) (l : List γ) (b : β) :
    holders token l b = (l.filterMap token).count b := by
  induction l with
  | nil => rfl
  | cons x l ih =>
    simp only [holders] at ih ⊢
    rw [List.countP_cons, ih]
    cases hx : token x with
    | none => simp [hx]
    | some a =>
      rw [List.filterMap_cons_some hx, List.count_cons]
      simp

/-- When every token below `total` is in exactly one place, the places hold `total` of them. -/
theorem length_of_owned {δ : Type*} {free : List ℕ} {token : γ → Option ℕ} {l : List γ}
    {token' : δ → Option ℕ} {m : List δ} {total : ℕ}
    (h : ∀ b, free.count b + holders token l b + holders token' m b = if b < total then 1 else 0) :
    free.length + ((l.countP fun c => (token c).isSome) + m.countP fun d => (token' d).isSome) = total := by
  have hperm : (free ++ (l.filterMap token ++ m.filterMap token')).Perm (List.range total) := by
    rw [List.perm_iff_count]
    intro b
    have hb := h b
    rw [holders_eq_count, holders_eq_count] at hb
    rw [List.count_append, List.count_append, List.count_range]
    omega
  have hlen := hperm.length_eq
  simpa [List.length_filterMap_eq_countP] using hlen

end EtherBench.Library.Holders
