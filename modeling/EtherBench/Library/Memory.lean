import Mathlib.Data.Nat.Notation
import Mathlib.Logic.Function.Basic
import Mathlib.Data.List.Basic
import Mathlib.Data.Nat.Digits.Defs

/-! # Memory as a function of the address

What a range of addresses holds, what copying a list over it does, and how words lie in bytes.
-/

namespace EtherBench.Library.Memory

variable {α : Type*} (m : ℕ → α)

def slice (start len : ℕ) : List α := (List.range len).map fun i => m (start + i)

/-- A list copied over the places from `start` on. -/
def write (start : ℕ) (xs : List α) : ℕ → α := fun i =>
  if start ≤ i then xs.getD (i - start) (m i) else m i

@[simp] theorem slice_length (start len : ℕ) : (slice m start len).length = len := by
  rw [slice, List.length_map, List.length_range]

@[simp] theorem slice_zero (start : ℕ) : slice m start 0 = [] := rfl

@[simp] theorem slice_getElem? (start len i : ℕ) :
    (slice m start len)[i]? = if i < len then some (m (start + i)) else none := by
  rw [slice, List.getElem?_map]
  split
  · next h => rw [List.getElem?_range h, Option.map_some]
  · next h => rw [List.getElem?_eq_none (by rw [List.length_range]; omega), Option.map_none]

theorem slice_add (start a b : ℕ) :
    slice m start (a + b) = slice m start a ++ slice m (start + a) b := by
  rw [slice, List.range_add, List.map_append, List.map_map]
  congr 1
  apply List.map_congr_left
  intro i _
  exact congrArg m (Nat.add_assoc start a i).symm

theorem slice_succ (start len : ℕ) : slice m start (len + 1) = m start :: slice m (start + 1) len := by
  rw [Nat.add_comm len 1, slice_add]
  rfl

variable {m}

theorem slice_congr {m' : ℕ → α} {start len : ℕ}
    (h : ∀ i, start ≤ i → i < start + len → m' i = m i) : slice m' start len = slice m start len := by
  apply List.map_congr_left
  intro i hi
  have hlt := List.mem_range.mp hi
  exact h _ (Nat.le_add_right start i) (by omega)

variable (m)

/-- What is copied can be read back. -/
theorem slice_write (start : ℕ) (xs : List α) : slice (write m start xs) start xs.length = xs := by
  apply List.ext_getElem?
  intro i
  rw [slice_getElem?]
  split
  · next hi =>
    rw [write, if_pos (Nat.le_add_right start i), Nat.add_sub_cancel_left, List.getD_eq_getElem?_getD,
      List.getElem?_eq_getElem hi, Option.getD_some]
  · next hi => rw [List.getElem?_eq_none (by omega)]

theorem write_before {start i : ℕ} (h : i < start) (xs : List α) : write m start xs i = m i :=
  if_neg (by omega)

theorem write_after {start i : ℕ} {xs : List α} (h : start + xs.length ≤ i) : write m start xs i = m i := by
  rw [write, if_pos (by omega), List.getD_eq_getElem?_getD, List.getElem?_eq_none (by omega),
    Option.getD_none]

theorem slice_write_before {start a len : ℕ} (h : a + len ≤ start) (xs : List α) :
    slice (write m start xs) a len = slice m a len :=
  slice_congr fun _ _ hi => write_before m (by omega) xs

theorem slice_write_append (len : ℕ) (xs : List α) :
    slice (write m len xs) 0 (len + xs.length) = slice m 0 len ++ xs := by
  have hstart : 0 + len = len := Nat.zero_add len
  rw [slice_add, slice_write_before m (Nat.le_of_eq hstart), hstart, slice_write]

theorem write_append (start : ℕ) (xs ys : List α) :
    write m start (xs ++ ys) = write (write m start xs) (start + xs.length) ys := by
  funext i
  by_cases hlow : i < start + xs.length
  · rw [write_before _ hlow]
    by_cases hstart : start ≤ i
    · rw [write, write, if_pos hstart, if_pos hstart, List.getD_eq_getElem?_getD,
        List.getElem?_append_left (by omega), ← List.getD_eq_getElem?_getD]
    · rw [write_before m (by omega), write_before m (by omega)]
  · have hrest : i - start - xs.length = i - (start + xs.length) := by omega
    rw [write, if_pos (by omega), List.getD_eq_getElem?_getD, List.getElem?_append_right (by omega),
      ← List.getD_eq_getElem?_getD, hrest, write, if_pos (by omega), write_after m (by omega)]

/-- Consecutive ranges of one length, one after the other. -/
theorem flatMap_slice (first count len : ℕ) :
    ((List.range' first count).flatMap fun k => slice m (k * len) len) =
      slice m (first * len) (count * len) := by
  induction count generalizing first with
  | zero => rw [Nat.zero_mul, slice_zero, List.range'_zero, List.flatMap_nil]
  | succ count ih =>
    have hnext : (first + 1) * len = first * len + len := Nat.succ_mul first len
    have hlength : (count + 1) * len = len + count * len := by rw [Nat.succ_mul, Nat.add_comm]
    rw [List.range'_succ, List.flatMap_cons, ih, hnext, hlength, slice_add]

section Words

/-- Words of 32 bits from address zero on, the low byte of each first. -/
def storeWords (words : List UInt32) : ℕ → UInt8 := fun k =>
  UInt8.ofNat ((words.getD (k / 4) 0).toNat / 256 ^ (k % 4))

def loadWord (m : ℕ → UInt8) (i : ℕ) : UInt32 :=
  UInt32.ofNat (Nat.ofDigits 256 ((slice m (4 * i) 4).map UInt8.toNat))

def loadWords (m : ℕ → UInt8) (n : ℕ) : List UInt32 := (List.range n).map (loadWord m)

theorem storeWords_byte (words : List UInt32) (i : ℕ) {j : ℕ} (hj : j < 4) :
    (storeWords words (4 * i + j)).toNat = (words.getD i 0).toNat / 256 ^ j % 256 := by
  have hword : (4 * i + j) / 4 = i := by omega
  have hbyte : (4 * i + j) % 4 = j := by omega
  rw [storeWords, hword, hbyte, UInt8.toNat_ofNat']

theorem loadWord_storeWords (words : List UInt32) (i : ℕ) : loadWord (storeWords words) i = words.getD i 0 := by
  have hlt := (words.getD i 0).toNat_lt
  have hslice : (slice (storeWords words) (4 * i) 4).map UInt8.toNat =
      [0, 1, 2, 3].map fun j => (words.getD i 0).toNat / 256 ^ j % 256 := by
    rw [slice, List.map_map]
    apply List.map_congr_left
    intro j hj
    exact storeWords_byte words i (List.mem_range.mp hj)
  apply UInt32.toNat_inj.mp
  rw [loadWord, hslice, UInt32.toNat_ofNat']
  simp only [List.map_cons, List.map_nil, Nat.ofDigits_cons, Nat.ofDigits_nil]
  omega

/-- Words that were stored can be loaded again. -/
theorem loadWords_storeWords (words : List UInt32) : loadWords (storeWords words) words.length = words := by
  apply List.ext_getElem?
  intro i
  rw [loadWords, List.getElem?_map]
  by_cases hi : i < words.length
  · rw [List.getElem?_range hi, Option.map_some, loadWord_storeWords, List.getD_eq_getElem?_getD,
      List.getElem?_eq_getElem hi, Option.getD_some]
  · rw [List.getElem?_eq_none (by rw [List.length_range]; omega), Option.map_none,
      List.getElem?_eq_none (by omega)]

theorem loadWords_congr {m m' : ℕ → UInt8} {n : ℕ} (h : ∀ k < 4 * n, m' k = m k) : loadWords m' n = loadWords m n := by
  apply List.map_congr_left
  intro i hi
  have hlt := List.mem_range.mp hi
  rw [loadWord, loadWord, slice_congr fun k _ hk => h k (by omega)]

end Words

end EtherBench.Library.Memory
