import EtherBench.Vfs.Storage
import EtherBench.Vfs.Syscall

/-! # Descriptors that name nothing

`_read`, `_write`, `_close` and `_lseek` get any `int`, the `-1` of a failed `_open`
included. Each of them repeats the same two checks before it indexes the table. Close to `INT_MIN` the
index itself overflows, which is no better than an access below the table.
-/

namespace EtherBench.Vfs.Validity
open File Syscall

variable {ω κ : Type*}

/-- The calls that take a descriptor, with their other arguments. -/
inductive FileCall where
  | read (len : ℤ)
  | write (ptr : ℕ → UInt8) (len : ℤ)
  | close
  | lseek (ptr dir : ℤ)

/-- The result of a call and the state after it; `none` is an access outside of the table. -/
def answer (B : Backend ω κ) (file : ℤ) (s : State ω κ) : FileCall → Option (ℤ × State ω κ)
  | .read len => (sysRead B file len s).map fun read => (read.1, read.2.2)
  | .write ptr len => sysWrite B file ptr len s
  | .close => sysClose B file s
  | .lseek ptr dir => sysLseek B file ptr dir s

/-- The descriptor is that of a standard stream or of an open slot. -/
def Denotes (table : Table κ) (file : ℤ) : Prop :=
  file ∈ [vfsFdStdin, vfsFdStdout, vfsFdStderr] ∨
    ∃ i : Slot, file = (i : ℕ) + vfsFdOffset ∧ (table i).type ≠ .none

theorem denotes_iff_slot {table : Table κ} {file : ℤ} (hstd : file ∉ [vfsFdStdin, vfsFdStdout, vfsFdStderr]) :
    Denotes table file ↔ ∃ i, slotAt (file - vfsFdOffset) = some i ∧ (table i).type ≠ .none := by
  rw [Denotes, or_iff_right hstd]
  refine exists_congr fun i => and_congr_left' ?_
  rw [slotAt_eq_some]
  omega

theorem slotAt_eq_none {fd : ℤ} : slotAt fd = none ↔ fd < 0 ∨ maxVfsConcurrentFiles ≤ fd := by
  rw [slotAt, dite_eq_right_iff]
  simp only [reduceCtorEq, imp_false]
  omega

theorem target_cases (table : Table κ) (file : ℤ) :
    (Denotes table file ∧ (target table file = .std ∨ ∃ i, target table file = .slot i)) ∨
      (¬ Denotes table file ∧ 0 ≤ file ∧ (target table file = .invalid ∨ target table file = .unused)) ∨
      (¬ Denotes table file ∧ file < 0 ∧ target table file = .outside) := by
  by_cases hstd : file = vfsFdStdin ∨ file = vfsFdStderr ∨ file = vfsFdStdout
  · refine Or.inl ⟨Or.inl ?_, Or.inl (if_pos hstd)⟩
    rcases hstd with rfl | rfl | rfl <;> decide
  have hnotStd : file ∉ [vfsFdStdin, vfsFdStdout, vfsFdStderr] := by
    simpa [and_comm] using hstd
  have hrange : file < 0 ∨ vfsFdOffset ≤ file := by
    simp only [vfsFdStdin, vfsFdStderr, vfsFdStdout, vfsFdOffset] at hstd ⊢
    omega
  have hoffset : (0 : ℤ) ≤ vfsFdOffset := by decide
  rw [denotes_iff_slot hnotStd, target, if_neg hstd]
  cases hslot : slotAt (file - vfsFdOffset) with
  | none =>
    have hunnamed : ¬ ∃ i, (none : Option Slot) = some i ∧ (table i).type ≠ .none := by simp
    by_cases hlarge : file - vfsFdOffset > maxVfsConcurrentFiles - 1
    · exact Or.inr (Or.inl ⟨hunnamed, by omega, Or.inl (if_pos hlarge)⟩)
    · have hbounds := slotAt_eq_none.mp hslot
      exact Or.inr (Or.inr ⟨hunnamed, by omega, if_neg hlarge⟩)
  | some i =>
    have hindex := slotAt_eq_some.mp hslot
    have hi := i.isLt
    rw [if_neg (by omega)]
    by_cases hfree : (table i).type = .none
    · exact Or.inr (Or.inl ⟨by simp [hfree], by omega, Or.inr (if_pos hfree)⟩)
    · exact Or.inl ⟨⟨i, rfl, hfree⟩, Or.inr ⟨i, if_neg hfree⟩⟩

section Answers
variable (B : Backend ω κ) {file : ℤ} {s : State ω κ} (c : FileCall)

theorem answer_denoted (h : target s.table file = .std ∨ ∃ i, target s.table file = .slot i) :
    ∃ r t, answer B file s c = some (r, t) := by
  rcases h with h | ⟨i, h⟩ <;> cases c <;>
    simp [answer, sysRead, sysWrite, sysClose, sysLseek, h]

/-- A refused descriptor: `_lseek` returns the error number that its siblings put in `errno`. -/
theorem answer_refused (h : target s.table file = .invalid ∨ target s.table file = .unused) :
    ∃ t, t.table = s.table ∧
      answer B file s c = some (match c with | .lseek _ _ => enoent | _ => -1, t) := by
  rcases h with h | h <;> cases c <;>
    simp [answer, sysRead, sysWrite, sysClose, sysLseek, h, refused]

theorem answer_outside (h : target s.table file = .outside) : answer B file s c = none := by
  cases c <;> simp [answer, sysRead, sysWrite, sysClose, sysLseek, h]

end Answers

/-- The call stays in the table, and on a descriptor that names nothing it answers `-1` and
leaves the table alone. -/
def Contained (B : Backend ω κ) (file : ℤ) (s : State ω κ) (c : FileCall) : Prop :=
  ∃ r t, answer B file s c = some (r, t) ∧ (¬ Denotes s.table file → r = -1 ∧ t.table = s.table)

def FileCall.isLseek : FileCall → Bool
  | .lseek _ _ => true
  | _ => false

/-- The lower bound is checked nowhere, and `_lseek` answers something else. -/
theorem contained_iff (B : Backend ω κ) (file : ℤ) (s : State ω κ) (c : FileCall) :
    Contained B file s c ↔ Denotes s.table file ∨ (0 ≤ file ∧ c.isLseek = false) := by
  rcases target_cases s.table file with ⟨hnamed, h⟩ | ⟨hnamed, hfile, h⟩ | ⟨hnamed, hfile, h⟩
  · obtain ⟨r, t, hanswer⟩ := answer_denoted B c h
    exact iff_of_true ⟨r, t, hanswer, absurd hnamed⟩ (Or.inl hnamed)
  · obtain ⟨t, htable, hanswer⟩ := answer_refused B c h
    rw [or_iff_right hnamed, and_iff_right hfile, Contained, hanswer]
    cases c with
    | lseek ptr dir => simp [hnamed, FileCall.isLseek, enoent]
    | _ => simp [htable, FileCall.isLseek]
  · rw [Contained, answer_outside B c h]
    refine iff_of_false (by simp) ?_
    rintro (hdenotes | ⟨hnonneg, -⟩)
    · exact hnamed hdenotes
    · omega

/-- The result of a failed `_open` takes `_close` out of the table, and on a descriptor that
was never opened `_lseek` does not answer `-1`. -/
theorem failedOpen_close_outside :
    ¬ Contained Storage.ram (-1) (⟨vfsInit, Storage.Ram.empty, 0⟩ : State _ _) .close ∧
      ¬ Contained Storage.ram 3 (⟨vfsInit, Storage.Ram.empty, 0⟩ : State _ _) (.lseek 0 0) := by
  constructor
  · rintro ⟨r, t, h, -⟩
    cases h
  · rintro ⟨r, t, h, hrefused⟩
    cases h
    have hclosed : ¬ Denotes (vfsInit : Table Storage.Handle) 3 := by
      rintro (hstd | ⟨i, -, hused⟩)
      · exact absurd hstd (by decide)
      · exact hused rfl
    exact absurd (hrefused hclosed).1 (by decide)

end EtherBench.Vfs.Validity
