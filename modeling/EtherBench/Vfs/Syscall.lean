import Mathlib.Data.List.FinRange
import Mathlib.Logic.Function.Basic
import EtherBench.Library.Transition
import EtherBench.Vfs.File

/-! # The system calls over the descriptor table

`filex/app/src/vfs_syscall.c`: `_open` allocates a slot of `vfs_fd_table`, and the four
other calls decode a descriptor back to a slot. An index below the table is an access
outside of it: the call has no defined outcome, and its model is `none`.
-/

namespace EtherBench.Vfs.Syscall
open File Library.Transition

variable {ω κ : Type*}

def maxVfsConcurrentFiles : ℕ := 16

def vfsFdOffset : ℤ := 3
def vfsFdStdin : ℤ := 0
def vfsFdStdout : ℤ := 1
def vfsFdStderr : ℤ := 2

def enoent : ℕ := 2
def espipe : ℕ := 29

abbrev Slot := Fin maxVfsConcurrentFiles

abbrev Table (κ : Type*) := Slot → VfsFile κ

structure State (ω κ : Type*) where
  table : Table κ
  world : World ω

def vfsInit [Inhabited κ] : Table κ := fun _ => VfsFile.zero

/-- `vfs_get_fd`: the first slot that is not in use. -/
def vfsGetFd (table : Table κ) : Option Slot :=
  (List.finRange maxVfsConcurrentFiles).find? fun i => (table i).type = .none

theorem vfsGetFd_free {table : Table κ} {i : Slot} (h : vfsGetFd table = some i) :
    (table i).type = .none := by
  simpa using List.find?_some h

theorem vfsGetFd_eq_none_iff {table : Table κ} :
    vfsGetFd table = none ↔ ∀ i, (table i).type ≠ .none := by
  simp [vfsGetFd]

def oWronly : BitVec 32 := 1
def oRdwr : BitVec 32 := 2

/-- The open type that `_open` derives from its flags. -/
def fxOpenMode (flags : BitVec 32) : ℕ :=
  if flags &&& oWronly ≠ 0 ∨ flags &&& oRdwr ≠ 0 then fxOpenForWrite else fxOpenForRead

/-- `_open`: the index of the slot is returned as the descriptor. -/
def sysOpen [Inhabited κ] (B : Backend ω κ) (path : List Char) (flags : BitVec 32)
    (s : State ω κ) : ℤ × State ω κ :=
  match vfsGetFd s.table with
  | none => (-1, s)
  | some fd =>
    let opened := vfsOpen B path (fxOpenMode flags) s.world
    (if opened.1 ≠ txSuccess then -1 else (fd : ℕ),
      ⟨Function.update s.table fd opened.2.1, opened.2.2⟩)

/-- Where a descriptor leads: the checks that open `_read`, `_write`, `_close` and `_lseek`. -/
inductive Target where
  | std
  | invalid
  | unused
  | slot (i : Slot)
  | outside
  deriving DecidableEq

/-- The element of the table at a C index; an index below it is `none`. -/
def slotAt (fd : ℤ) : Option Slot :=
  if h : 0 ≤ fd ∧ fd < maxVfsConcurrentFiles then some ⟨fd.toNat, by omega⟩ else none

theorem slotAt_eq_some {fd : ℤ} {i : Slot} : slotAt fd = some i ↔ fd = (i : ℕ) := by
  have hi := i.isLt
  unfold slotAt
  split
  · next h =>
    rw [Option.some.injEq, Fin.ext_iff]
    simp only
    omega
  · next h =>
    simp only [reduceCtorEq, false_iff]
    omega

def target (table : Table κ) (file : ℤ) : Target :=
  if file = vfsFdStdin ∨ file = vfsFdStderr ∨ file = vfsFdStdout then .std
  else if file - vfsFdOffset > maxVfsConcurrentFiles - 1 then .invalid
  else
    match slotAt (file - vfsFdOffset) with
    | none => .outside
    | some i => if (table i).type = .none then .unused else .slot i

theorem target_stdin (table : Table κ) : target table vfsFdStdin = .std := by
  simp [target]

/-- The only descriptor that leads to a slot is its index plus the offset. -/
theorem target_eq_slot {table : Table κ} {file : ℤ} {i : Slot} (h : target table file = .slot i) :
    file = (i : ℕ) + vfsFdOffset ∧ (table i).type ≠ .none := by
  unfold target at h
  split at h
  · cases h
  · split at h
    · cases h
    · cases hslot : slotAt (file - vfsFdOffset) with
      | none => simp [hslot] at h
      | some j =>
        simp only [hslot] at h
        split at h
        · cases h
        · next hused =>
          cases h
          have hindex := slotAt_eq_some.mp hslot
          exact ⟨by omega, hused⟩

def refused (s : State ω κ) : State ω κ := { s with world := s.world.fail enoent }

def State.put (s : State ω κ) (i : Slot) (file : VfsFile κ) (world : World ω) : State ω κ :=
  ⟨Function.update s.table i file, world⟩

/-- `_read`: the result, and the bytes stored at the buffer. -/
def sysRead (B : Backend ω κ) (file len : ℤ) (s : State ω κ) : Option (ℤ × List UInt8 × State ω κ) :=
  match target s.table file with
  | .std => some (1, [0], s)
  | .invalid | .unused => some (-1, [], refused s)
  | .slot i =>
    let read := vfsRead B (s.table i) len s.world
    some (if read.1 ≠ txSuccess then -1 else len, read.2.1, s.put i read.2.2.1 read.2.2.2)
  | .outside => none

/-- `_write`. The text for the standard streams goes to the log. -/
def sysWrite (B : Backend ω κ) (file : ℤ) (ptr : ℕ → UInt8) (len : ℤ) (s : State ω κ) :
    Option (ℤ × State ω κ) :=
  match target s.table file with
  | .std => some (len, s)
  | .invalid | .unused => some (-1, refused s)
  | .slot i =>
    let written := vfsWrite B (s.table i) ptr len s.world
    some (if written.1 ≠ txSuccess then -1 else len, s.put i written.2.1 written.2.2)
  | .outside => none

def sysClose (B : Backend ω κ) (file : ℤ) (s : State ω κ) : Option (ℤ × State ω κ) :=
  match target s.table file with
  | .std => some (0, s)
  | .invalid | .unused => some (-1, refused s)
  | .slot i =>
    let closed := vfsClose B (s.table i) s.world
    some (if closed.1 ≠ txSuccess then -1 else 0, s.put i closed.2.1 closed.2.2)
  | .outside => none

/-- `_lseek`: a refused descriptor is answered with `ENOENT` itself. -/
def sysLseek (B : Backend ω κ) (file ptr dir : ℤ) (s : State ω κ) : Option (ℤ × State ω κ) :=
  match target s.table file with
  | .std => some (-1, { s with world := s.world.fail espipe })
  | .invalid | .unused => some (enoent, s)
  | .slot i =>
    let moved := vfsSeek B (s.table i) ptr dir s.world
    some (if moved.1 ≠ txSuccess then -1 else 0, s.put i moved.2.1 moved.2.2)
  | .outside => none

inductive Call where
  | open_ (path : List Char) (flags : BitVec 32)
  | read (file len : ℤ)
  | write (file : ℤ) (ptr : ℕ → UInt8) (len : ℤ)
  | lseek (file ptr dir : ℤ)
  | close (file : ℤ)

def call [Inhabited κ] (B : Backend ω κ) (s : State ω κ) : Call → Option (State ω κ)
  | .open_ path flags => some (sysOpen B path flags s).2
  | .read file len => (sysRead B file len s).map (·.2.2)
  | .write file ptr len => (sysWrite B file ptr len s).map (·.2)
  | .lseek file ptr dir => (sysLseek B file ptr dir s).map (·.2)
  | .close file => (sysClose B file s).map (·.2)

end EtherBench.Vfs.Syscall
