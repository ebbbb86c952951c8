import Mathlib.Data.Fintype.Basic
import EtherBench.Vfs.Storage
import EtherBench.Vfs.Syscall

/-! # Slots and descriptors

What `_open` leaves in the table and what the descriptor that it returns stands for
afterwards: `_open` returns the index of a slot, and the other calls subtract
`VFS_FD_OFFSET` from the descriptor that they are given.
-/

namespace EtherBench.Vfs.Descriptors
open Paths File Syscall Library.Transition

variable {ω κ : Type*}

/-- The slots that `vfs_get_fd` can still hand out. -/
def freeSlots (table : Table κ) : Finset Slot := Finset.univ.filter fun i => (table i).type = .none

theorem mem_freeSlots {table : Table κ} {i : Slot} :
    i ∈ freeSlots table ↔ (table i).type = .none := by
  simp [freeSlots]

theorem freeSlots_update (table : Table κ) (i : Slot) (file : VfsFile κ) (hi : i ∈ freeSlots table)
    (hfile : file.type = .none) : freeSlots (Function.update table i file) = freeSlots table := by
  ext j
  by_cases hj : j = i
  · subst hj
    simpa [mem_freeSlots, hfile] using mem_freeSlots.mp hi
  · simp [mem_freeSlots, hj]

theorem freeSlots_nonempty {table : Table κ} :
    (freeSlots table).Nonempty ↔ ∃ i, vfsGetFd table = some i := by
  cases h : vfsGetFd table with
  | none =>
    have hused := vfsGetFd_eq_none_iff.mp h
    simp [Finset.Nonempty, mem_freeSlots, hused]
  | some i =>
    apply iff_of_true ⟨i, mem_freeSlots.mpr (vfsGetFd_free h)⟩
    exact ⟨i, rfl⟩

variable [Inhabited κ]

theorem vfsOpen_type (B : Backend ω κ) (path : List Char) (flags : ℕ) (w : World ω) :
    (vfsOpen B path flags w).2.1.type = (configOf κ path).1.type := by
  rw [vfsOpen]
  rcases (configOf κ path).1.type.cases_mount with hfx | hraw | hnone
  · rw [byMount_fx hfx]
  · rw [byMount_raw hraw]
  · rw [hnone, byMount_none, hnone]

/-- The status of the `fx_file_open` that `vfs_open` makes. -/
def fxOpenStatus (B : Backend ω κ) (path : List Char) (flags : ℕ) (w : World ω) : ℕ :=
  let config := configOf κ path
  (B.fxFileOpen config.1.mediaPtr config.1.file config.2 flags w.storage).1

/-- The exact failures of `vfs_open`: an unknown mount, or an error of FileX. -/
theorem vfsOpen_fails_iff (B : Backend ω κ) (path : List Char) (flags : ℕ) (w : World ω) :
    (vfsOpen B path flags w).1 ≠ txSuccess ↔
      (configOf κ path).1.type = .none ∨
        (OnFx path ∧ fxOpenStatus B path flags w ≠ txSuccess) := by
  rw [← configOf_fx κ, vfsOpen]
  rcases (configOf κ path).1.type.cases_mount with hfx | hraw | hnone
  · simp [byMount_fx hfx, hfx, hfx.ne_none, fxOpenStatus]
  · simp [byMount_raw hraw, hraw.not_fx, hraw.ne_none]
  · simp [hnone, byMount_none, txPtrError, txSuccess]

/-- `_open` hands out no descriptor: the table is full or `vfs_open` fails. -/
def Refused (B : Backend ω κ) (path : List Char) (flags : BitVec 32) (s : State ω κ) : Prop :=
  freeSlots s.table = ∅ ∨ (configOf κ path).1.type = .none ∨
    (OnFx path ∧ fxOpenStatus B path (fxOpenMode flags) s.world ≠ txSuccess)

section Open

variable (B : Backend ω κ) (path : List Char) (flags : BitVec 32) {s : State ω κ} {i : Slot}

theorem sysOpen_full (h : vfsGetFd s.table = none) : sysOpen B path flags s = (-1, s) := by
  rw [sysOpen, h]

theorem sysOpen_table (h : vfsGetFd s.table = some i) :
    (sysOpen B path flags s).2.table =
      Function.update s.table i (vfsOpen B path (fxOpenMode flags) s.world).2.1 := by
  rw [sysOpen, h]

theorem sysOpen_result (h : vfsGetFd s.table = some i) :
    (sysOpen B path flags s).1 =
      if (vfsOpen B path (fxOpenMode flags) s.world).1 ≠ txSuccess then (-1 : ℤ) else (i : ℕ) := by
  rw [sysOpen, h]

/-- Every answer of `_open` is `-1` or the index of the slot that it filled. -/
theorem sysOpen_eq_neg_one_iff : (sysOpen B path flags s).1 = -1 ↔ Refused B path flags s := by
  cases h : vfsGetFd s.table with
  | none =>
    have hfull : freeSlots s.table = ∅ := by
      rw [← Finset.not_nonempty_iff_eq_empty, freeSlots_nonempty, h]
      simp
    rw [sysOpen_full B path flags h]
    exact iff_of_true rfl (Or.inl hfull)
  | some i =>
    have hfree : freeSlots s.table ≠ ∅ := Finset.Nonempty.ne_empty (freeSlots_nonempty.mpr ⟨i, h⟩)
    rw [sysOpen_result B path flags h, Refused, ← vfsOpen_fails_iff]
    by_cases hfail : (vfsOpen B path (fxOpenMode flags) s.world).1 = txSuccess
    · simp [hfail, hfree]
    · simp [hfail]

theorem sysOpen_nonneg_iff : 0 ≤ (sysOpen B path flags s).1 ↔ ¬ Refused B path flags s := by
  rw [← sysOpen_eq_neg_one_iff]
  cases h : vfsGetFd s.table with
  | none => simp [sysOpen_full B path flags h]
  | some i =>
    rw [sysOpen_result B path flags h]
    split <;> omega

theorem sysOpen_succeeds {fd : ℤ} {s' : State ω κ} (h : sysOpen B path flags s = (fd, s'))
    (hfd : 0 ≤ fd) :
    ∃ i, vfsGetFd s.table = some i ∧ fd = (i : ℕ) ∧
      s'.table = Function.update s.table i (vfsOpen B path (fxOpenMode flags) s.world).2.1 ∧
      (s'.table i).type ≠ .none := by
  have hresult : (sysOpen B path flags s).1 = fd := by rw [h]
  cases hfree : vfsGetFd s.table with
  | none =>
    rw [sysOpen_full B path flags hfree] at hresult
    simp only at hresult
    omega
  | some i =>
    have htable : s'.table = Function.update s.table i
        (vfsOpen B path (fxOpenMode flags) s.world).2.1 := by
      rw [← sysOpen_table B path flags hfree, h]
    rw [sysOpen_result B path flags hfree] at hresult
    refine ⟨i, rfl, ?_, htable, ?_⟩
    · split at hresult <;> omega
    · have hok : ¬ (vfsOpen B path (fxOpenMode flags) s.world).1 ≠ txSuccess := by
        intro hfail
        rw [if_pos hfail] at hresult
        omega
      rw [vfsOpen_fails_iff, not_or] at hok
      rw [htable, Function.update_self, vfsOpen_type]
      exact hok.1

end Open

/-- `t` differs from `s` in one slot, which was free and is in use. -/
structure Filled (s t : Table κ) (i : Slot) : Prop where
  free : (s i).type = .none
  used : (t i).type ≠ .none
  frame : ∀ j, j ≠ i → t j = s j

/-- A call other than `_close` on the descriptor. -/
def KeepsOpen (fd : ℤ) : Call → Prop
  | .close file => file ≠ fd
  | _ => True

/-- The round trip of a descriptor: while it is open, it leads to the slot that was
filled for it, and no other `_open` returns it. -/
def RoundTrip (B : Backend ω κ) (path : List Char) (flags : BitVec 32) (s : State ω κ) : Prop :=
  ∀ fd s', sysOpen B path flags s = (fd, s') → 0 ≤ fd →
    ∃ i, Filled s.table s'.table i ∧
      ∀ calls t, (∀ c ∈ calls, KeepsOpen fd c) → run (call B) s' calls = some t →
        target t.table fd = .slot i ∧ ∀ path' flags', (sysOpen B path' flags' t).1 ≠ fd

/-- No later table leads a descriptor back to the slot that was filled for it. -/
theorem opened_unreachable {B : Backend ω κ} {path : List Char} {flags : BitVec 32}
    {s s' : State ω κ} {fd : ℤ} (h : sysOpen B path flags s = (fd, s')) (hfd : 0 ≤ fd) {i : Slot}
    (hfilled : Filled s.table s'.table i) (table : Table κ) : target table fd ≠ .slot i := by
  intro htarget
  obtain ⟨j, hj, hindex, htable, hused⟩ := sysOpen_succeeds B path flags h hfd
  have hij : j = i := by
    by_contra hne
    rw [hfilled.frame j hne] at hused
    exact hused (vfsGetFd_free hj)
  have hdecoded := (target_eq_slot htarget).1
  rw [hindex, hij, vfsFdOffset] at hdecoded
  omega

/-- The round trip holds only where there is no descriptor to follow. -/
theorem roundTrip_iff (B : Backend ω κ) (path : List Char) (flags : BitVec 32) (s : State ω κ) :
    RoundTrip B path flags s ↔ Refused B path flags s := by
  constructor
  · intro h
    by_contra hopened
    have hfd := (sysOpen_nonneg_iff B path flags).mpr hopened
    obtain ⟨i, hfilled, htrip⟩ := h _ _ rfl hfd
    have htarget := (htrip [] _ (by simp) rfl).1
    exact opened_unreachable rfl hfd hfilled _ htarget
  · intro h fd s' hopen hfd
    have hnone := (sysOpen_eq_neg_one_iff B path flags).mpr h
    rw [hopen] at hnone
    simp only at hnone
    omega

/-- The system after `vfs_init`, over an empty storage in memory. -/
def fresh : State Storage.Ram Storage.Handle := ⟨vfsInit, Storage.Ram.empty, 0⟩

/-- The first file that is opened gets the descriptor of the standard input. -/
theorem first_open_is_stdin :
    (sysOpen Storage.ram "/settings/sector0".toList 0 fresh).1 = vfsFdStdin ∧
      ¬ RoundTrip Storage.ram "/settings/sector0".toList 0 fresh := by
  have hfd : (sysOpen Storage.ram "/settings/sector0".toList 0 fresh).1 = vfsFdStdin := by decide
  refine ⟨hfd, fun h => ?_⟩
  obtain ⟨i, -, htrip⟩ := h vfsFdStdin _ (Prod.ext hfd rfl) le_rfl
  have htarget := (htrip [] _ (by simp) rfl).1
  rw [target_stdin] at htarget
  cases htarget

/-- A failed `_open`, with any state of the storage when it starts: `none` when it succeeds. -/
def failedOpen (B : Backend ω κ) (s : State ω κ) (attempt : List Char × BitVec 32 × ω) :
    Option (State ω κ) :=
  let opened := sysOpen B attempt.1 attempt.2.1 { s with world := s.world.store attempt.2.2 }
  if opened.1 = -1 then some opened.2 else none

/-- The attempts whose failure keeps the slot: one is free, and FileX opens the path. -/
def Leaks (s : State ω κ) (attempt : List Char × BitVec 32 × ω) : Prop :=
  freeSlots s.table ≠ ∅ ∧ OnFx attempt.1

/-- What a failed `_open` does to the table: it leaves a full one alone, and otherwise
gives the first free slot the mount of the path. -/
theorem failedOpen_cases {B : Backend ω κ} {s t : State ω κ} {attempt : List Char × BitVec 32 × ω}
    (hstep : failedOpen B s attempt = some t) :
    (freeSlots s.table = ∅ ∧ t.table = s.table) ∨
      ∃ i ∈ freeSlots s.table, ∃ file : VfsFile κ, t.table = Function.update s.table i file ∧
        (file.type = .none ↔ ¬ OnFx attempt.1) := by
  set start : State ω κ := { s with world := s.world.store attempt.2.2 } with hstart
  have htable : start.table = s.table := rfl
  simp only [failedOpen, ← hstart, Option.ite_none_right_eq_some, Option.some.injEq] at hstep
  obtain ⟨hfail, rfl⟩ := hstep
  cases hfd : vfsGetFd start.table with
  | none =>
    refine Or.inl ⟨?_, by rw [sysOpen_full B _ _ hfd]⟩
    rw [← htable, ← Finset.not_nonempty_iff_eq_empty, freeSlots_nonempty, hfd]
    simp
  | some i =>
    refine Or.inr ⟨i, mem_freeSlots.mpr (vfsGetFd_free hfd), _, sysOpen_table B _ _ hfd, ?_⟩
    rw [vfsOpen_type, ← configOf_fx κ]
    rcases (sysOpen_eq_neg_one_iff B _ _).mp hfail with hfull | hnone | ⟨hfx, -⟩
    · exact absurd hfull (Finset.ne_empty_of_mem (mem_freeSlots.mpr (vfsGetFd_free hfd)))
    · exact iff_of_true hnone (fun hfx => hfx.ne_none hnone)
    · have hmount := (configOf_fx κ _).mpr hfx
      exact iff_of_false hmount.ne_none (not_not.mpr hmount)

theorem failedOpen_keeps {B : Backend ω κ} {s t : State ω κ} {attempt : List Char × BitVec 32 × ω}
    (hstep : failedOpen B s attempt = some t) (hkeep : ¬ Leaks s attempt) :
    freeSlots t.table = freeSlots s.table := by
  rcases failedOpen_cases hstep with ⟨-, htable⟩ | ⟨i, hi, file, htable, htype⟩
  · rw [htable]
  · rw [htable]
    apply freeSlots_update _ _ _ hi
    apply htype.mpr
    intro hfx
    exact hkeep ⟨Finset.ne_empty_of_mem hi, hfx⟩

theorem failedOpen_leaks {B : Backend ω κ} {s t : State ω κ} {attempt : List Char × BitVec 32 × ω}
    (hstep : failedOpen B s attempt = some t) (hleak : Leaks s attempt) :
    freeSlots t.table ≠ freeSlots s.table := by
  rcases failedOpen_cases hstep with ⟨hfull, -⟩ | ⟨i, hi, file, htable, htype⟩
  · exact absurd hfull hleak.1
  · intro hsame
    rw [← hsame, mem_freeSlots, htable, Function.update_self] at hi
    exact htype.mp hi hleak.2

/-- Failed calls of `_open` keep the free slots as they were exactly as long as none of
them is for a path that FileX opens while a slot is free. -/
theorem failedOpens_keep_iff (B : Backend ω κ) (s : State ω κ)
    (attempts : List (List Char × BitVec 32 × ω)) :
    Always (failedOpen B) (fun t => freeSlots t.table = freeSlots s.table) s attempts ↔
      Along (failedOpen B) (fun t attempt => ¬ Leaks t attempt) s attempts := by
  let I : State ω κ → Prop := fun t => freeSlots t.table = freeSlots s.table
  have hs : I s := rfl
  refine always_iff_along (fun _ h => h) ?_ ?_ hs
  · intro t attempt u ht hkeep hstep
    exact (failedOpen_keeps hstep hkeep).trans ht
  · intro t attempt u ht hleak hstep hu
    exact failedOpen_leaks hstep (not_not.mp hleak) (hu.trans ht.symm)

/-- A file that does not exist on the card takes a slot with it. -/
theorem missing_file_leaks :
    ∃ t, failedOpen Storage.ram fresh ("/sd/a".toList, 0, Storage.Ram.empty) = some t ∧
      freeSlots t.table ≠ freeSlots fresh.table := by
  refine ⟨_, rfl, ?_⟩
  decide

end EtherBench.Vfs.Descriptors
