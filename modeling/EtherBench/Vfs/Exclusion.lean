import EtherBench.Library.Locks
import EtherBench.Vfs.File

/-! # Who is in the NAND driver

The calls of `vfs.c` take `vfs_mutex` around the table and the mutex of the mount around
the storage; each FileX call takes the protection of its medium. The loop at the end of
`fx_app_thread_entry` flushes the two media and takes nothing else. All of the flash
volumes share one chip, one page buffer and the two semaphores of the driver.
-/

namespace EtherBench.Vfs.Exclusion
open File Library.Transition Library.Locks

/-- The mutexes of `vfs.c`, and the protection of each `FX_MEDIA`. -/
inductive Mutex where
  | vfs (m : VfsMutex)
  | protect (m : FxMedia)
  deriving DecidableEq

/-- How a thread comes to the driver: FileX on behalf of a file, FileX on behalf of the flush
loop, LevelX on behalf of a raw sector. -/
inductive Visit where
  | file
  | flush
  | raw
  deriving DecidableEq

abbrev Program := List (Op Mutex Visit)

def critical (m : Mutex) (body : Program) : Program := .lock m :: (body ++ [.unlock m])

/-- A FileX call. Only the flash medium is backed by the NAND. -/
def fxCall (v : Visit) : FxMedia → Program
  | .flashDisk => critical (.protect .flashDisk) [.use v]
  | .sdioDisk => critical (.protect .sdioDisk) []

/-- The five operations of `vfs.c` on a file. -/
inductive FileOp where
  | open_
  | read
  | write
  | seek
  | close
  deriving DecidableEq

/-- What an operation does on its mount. Opening a raw sector and seeking in it do not
reach LevelX. -/
def storageCall (op : FileOp) : MountType → Program
  | .none => []
  | .settings | .backtrace => if op = .open_ ∨ op = .seek then [] else [.use .raw]
  | .sd => fxCall .file .sdioDisk
  | .flash => fxCall .file .flashDisk

/-- A call reads `file->type` for the mutex and once more when it has it: meanwhile the slot may have been
closed, and opened for another file. -/
structure Call where
  op : FileOp
  type : MountType
  typeAgain : MountType
  /-- The slot of a file on the SD card is not opened for the NAND meanwhile. -/
  sd : type = .sd → typeAgain = .sd ∨ typeAgain = .none

/-- A call whose slot nobody else touches. -/
def Call.alone (op : FileOp) (type : MountType) : Call := ⟨op, type, type, Or.inl⟩

/-- `vfs_open` fills the slot under `vfs_mutex` first, and `vfs_close` clears it under the same mutex last. -/
def vfsCall (call : Call) : Program :=
  let slot := critical (.vfs .generic) []
  (if call.op = .open_ then slot else []) ++
    match vfsGetMutex call.type with
    | none => []
    | some m => critical (.vfs m) (storageCall call.op call.typeAgain) ++ (if call.op = .close then slot else [])

/-- One round of the loop in `fx_app_thread_entry`. -/
def flushRound : Program := fxCall .flush .flashDisk ++ fxCall .flush .sdioDisk

/-- The thread of `fx_app_thread_entry`, and any others. -/
inductive Thread (ι : Type*) where
  | fxApp
  | caller (i : ι)
  deriving DecidableEq

def body {ι : Type*} : Thread ι → Call → Program
  | .fxApp, _ => flushRound
  | .caller _, call => vfsCall call

/-- The mutexes under which the driver is visited. -/
def guard : Visit → List Mutex
  | .file => [.vfs .flash, .protect .flashDisk]
  | .flush => [.protect .flashDisk]
  | .raw => [.vfs .flash]

theorem vfsCall_disciplined (call : Call) : disciplined guard (vfsCall call) = true := by
  obtain ⟨op, type, typeAgain, hsd⟩ := call
  cases type with
  | none => cases op <;> rfl
  | sd => rcases hsd rfl with rfl | rfl <;> cases op <;> rfl
  | flash => cases op <;> cases typeAgain <;> rfl
  | settings => cases op <;> cases typeAgain <;> rfl
  | backtrace => cases op <;> cases typeAgain <;> rfl

theorem vfsCall_closed (call : Call) (m : Mutex) : held m (vfsCall call) = false := by
  obtain ⟨op, type, typeAgain, -⟩ := call
  cases m with
  | vfs m => cases op <;> cases type <;> cases typeAgain <;> cases m <;> rfl
  | protect m => cases op <;> cases type <;> cases typeAgain <;> cases m <;> rfl

theorem body_checked {ι : Type*} : Checked guard (body : Thread ι → Call → Program) where
  disciplined t call := by
    cases t with
    | fxApp => rfl
    | caller i => exact vfsCall_disciplined call
  closed t call m := by
    cases t with
    | fxApp =>
      cases m with
      | vfs m => rfl
      | protect m => cases m <;> rfl
    | caller i => exact vfsCall_closed call m

variable {ι : Type*}

abbrev System (ι : Type*) := State (Thread ι) Mutex Visit
abbrev Event (ι : Type*) := Label (Thread ι) Call

def At (s : System ι) (t : Thread ι) (v : Visit) : Prop := (s.program t).head? = some (.use v)

/-- No flush enters the driver while a raw sector is being read, written or released, nor
the other way round. -/
def NoClash (s : System ι) : Event ι → Prop
  | .enter t => ∀ u, s.inside u = true →
      ¬ (At s t .flush ∧ At s u .raw) ∧ ¬ (At s t .raw ∧ At s u .flush)
  | _ => True

/-- The guards of two visits share a mutex unless they are a flush and a raw sector. -/
theorem guard_disjoint_iff (x y : Visit) :
    (¬ ∃ m, m ∈ guard x ∧ m ∈ guard y) ↔ (x = .flush ∧ y = .raw) ∨ (x = .raw ∧ y = .flush) := by
  cases x <;> cases y <;> simp [guard]

theorem at_iff {s : System ι} {t : Thread ι} {v : Visit} :
    At s t v ↔ ∃ rest, s.program t = .use v :: rest := by
  rw [At, List.head?_eq_some_iff]

theorem compatible_iff (s : System ι) (e : Event ι) : Compatible guard s e ↔ NoClash s e := by
  cases e with
  | enter t =>
    constructor
    · intro h u hu
      have hshare : ∀ x y, At s t x → At s u y → ∃ m, m ∈ guard x ∧ m ∈ guard y := by
        intro x y hx hy
        obtain ⟨rest, hx⟩ := at_iff.mp hx
        obtain ⟨rest', hy⟩ := at_iff.mp hy
        exact h u x y rest rest' hu hx hy
      refine ⟨fun ⟨hx, hy⟩ => ?_, fun ⟨hx, hy⟩ => ?_⟩
      · exact (guard_disjoint_iff .flush .raw).mpr (Or.inl ⟨rfl, rfl⟩) (hshare _ _ hx hy)
      · exact (guard_disjoint_iff .raw .flush).mpr (Or.inr ⟨rfl, rfl⟩) (hshare _ _ hx hy)
    · intro h u x y rest rest' hu hx hy
      by_contra hdisjoint
      have hx' : At s t x := at_iff.mpr ⟨rest, hx⟩
      have hy' : At s u y := at_iff.mpr ⟨rest', hy⟩
      rcases (guard_disjoint_iff x y).mp hdisjoint with ⟨rfl, rfl⟩ | ⟨rfl, rfl⟩
      · exact (h u hu).1 ⟨hx', hy'⟩
      · exact (h u hu).2 ⟨hx', hy'⟩
  | start _ _ => rfl
  | acquire _ => rfl
  | release _ => rfl
  | leave _ => rfl
  | pass _ => rfl

/-- At most one thread is in the driver, in every state of a run, exactly when the flush loop
never meets a raw sector there. -/
theorem exclusive_iff_noClash [DecidableEq ι] (events : List (Event ι)) :
    Always (step body) Exclusive init events ↔ Along (step body) NoClash init events := by
  rw [exclusive_iff body_checked]
  exact ⟨Along.mono fun s e => (compatible_iff s e).mp, Along.mono fun s e => (compatible_iff s e).mpr⟩

/-- The flush loop writes back a sector of the flash while a reader of the settings is in
the driver. -/
theorem flush_meets_settings :
    ¬ Always (step (body : Thread ℕ → Call → Program)) Exclusive init
      [.start (.caller 0) (.alone .read .settings), .acquire (.caller 0), .enter (.caller 0),
        .start .fxApp (.alone .read .none), .acquire .fxApp, .enter .fxApp] := by
  intro h
  have hlast := h.last rfl (.caller 0) .fxApp rfl rfl
  cases hlast

end EtherBench.Vfs.Exclusion
