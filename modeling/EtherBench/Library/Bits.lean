import Mathlib.Data.List.Basic

/-! # Visiting the set bits of a word

Taking the lowest set bit and clearing it visits every set bit once, in ascending order,
and as many of them as the population count says.
-/

namespace EtherBench.Library.Bits

variable {w : ℕ}

def clearBit (m : BitVec w) (i : ℕ) : BitVec w := m &&& ~~~(1#w <<< i)

theorem getLsbD_clearBit (m : BitVec w) (i j : ℕ) :
    (clearBit m i).getLsbD j = (m.getLsbD j && decide (j ≠ i)) := by
  unfold clearBit
  by_cases hj : j < w
  · by_cases hji : j = i
    · subst hji
      simp [hj]
    · by_cases hlt : j < i
      · simp [hj, hlt, hji]
      · have hpos : j - i ≠ 0 := by omega
        simp [hj, hlt, hji, hpos]
  · simp [BitVec.getLsbD_of_ge m j (by omega)]

theorem cpopNatRec_clearBit {m : BitVec w} {i : ℕ} (hi : m.getLsbD i = true) (n : ℕ) :
    (clearBit m i).cpopNatRec n 0 + (if i < n then 1 else 0) = m.cpopNatRec n 0 := by
  induction n with
  | zero => simp
  | succ n ih =>
    rw [BitVec.cpopNatRec_succ, BitVec.cpopNatRec_succ, BitVec.cpopNatRec_eq, BitVec.cpopNatRec_eq (0 + _),
      getLsbD_clearBit]
    by_cases hn : n = i
    · subst hn
      simp [hi] at ih ⊢
      omega
    · have hlt : i < n + 1 ↔ i < n := by omega
      simp only [hn, hlt, ne_eq, not_false_eq_true, decide_true, Bool.and_true]
      omega

/-- Clearing a set bit takes one from the population count. -/
theorem cpop_clearBit {m : BitVec w} {i : ℕ} (hi : m.getLsbD i = true) :
    (clearBit m i).cpop.toNat + 1 = m.cpop.toNat := by
  have hw : i < w := BitVec.lt_of_getLsbD hi
  have h := cpopNatRec_clearBit hi w
  rwa [if_pos hw, ← BitVec.toNat_cpop, ← BitVec.toNat_cpop] at h

theorem cpop_eq_zero {m : BitVec w} : m.cpop.toNat = 0 ↔ m = 0#w := by
  constructor
  · intro h
    by_contra hm
    have hbit := cpop_clearBit (BitVec.getLsbD_true_ctz_of_ne_zero hm)
    omega
  · rintro rfl
    simp

/-- The set bits of a word, lowest first, `fuel` of them at most. -/
def scanBits : ℕ → BitVec w → List ℕ
  | 0, _ => []
  | fuel + 1, m =>
    if m = 0#w then [] else m.ctz.toNat :: scanBits fuel (clearBit m m.ctz.toNat)

@[simp] theorem scanBits_zero (fuel : ℕ) : scanBits fuel (0#w) = [] := by
  cases fuel <;> simp [scanBits]

theorem mem_scanBits {fuel : ℕ} {m : BitVec w} (hfuel : m.cpop.toNat ≤ fuel) (i : ℕ) :
    i ∈ scanBits fuel m ↔ m.getLsbD i = true := by
  induction fuel generalizing m with
  | zero =>
    rw [cpop_eq_zero.mp (Nat.le_zero.mp hfuel)]
    simp
  | succ fuel ih =>
    by_cases hm : m = 0#w
    · simp [hm]
    · have hbit := BitVec.getLsbD_true_ctz_of_ne_zero hm
      have hless := cpop_clearBit hbit
      rw [scanBits, if_neg hm, List.mem_cons, ih (by omega), getLsbD_clearBit]
      by_cases hi : i = m.ctz.toNat
      · simp [hi, hbit]
      · simp [hi]

end EtherBench.Library.Bits
