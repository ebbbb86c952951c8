import Mathlib.Algebra.Group.Int.Defs
import Mathlib.Data.Int.Notation
import EtherBench.Vfs.Paths

/-! # Files of the virtual file system

`filex/app/src/vfs.c` keeps one `VFS_FILE` for each open file and sends every operation
either to FileX (SD card and flash) or to a raw LevelX sector (settings and backtrace).
The two storage stacks are a parameter: any functions with their signatures.
-/

namespace EtherBench.Vfs.File
open Paths

variable {ω κ : Type*}

inductive MountType where
  | none
  | sd
  | flash
  | settings
  | backtrace
  deriving DecidableEq

inductive FxMedia where
  | sdioDisk
  | flashDisk
  deriving DecidableEq

inductive LxFlash where
  | nandSettings
  | nandBacktrace
  deriving DecidableEq

/-- `FX_FILE`: the fields that `vfs.c` reads or clears, and the rest of the control block. -/
structure FxFile (κ : Type*) where
  fxFileId : ℕ
  currentFileOffset : ℕ
  currentFileSize : ℕ
  control : κ
  deriving DecidableEq

/-- `VFS_FILE`. Both members of the `backend` union are kept: the code only ever uses
the one that belongs to `type`. -/
structure VfsFile (κ : Type*) where
  type : MountType
  file : FxFile κ
  sector : ℕ
  mediaPtr : Option FxMedia
  flashPtr : Option LxFlash
  pos : ℕ
  deriving DecidableEq

/-- A zeroed `VFS_FILE`, as `vfs_init` leaves each slot of the table. -/
def VfsFile.zero [Inhabited κ] : VfsFile κ := ⟨.none, ⟨0, 0, 0, default⟩, 0, none, none, 0⟩

inductive VfsMutex where
  | generic
  | sd
  | flash
  deriving DecidableEq

/-- `_vfs_get_mutex`; a null pointer is `none`. -/
def vfsGetMutex : MountType → Option VfsMutex
  | .backtrace | .settings | .flash => some .flash
  | .sd => some .sd
  | .none => none

/-- The raw mounts of `_vfs_get_config`: the mount is set only when a sector was scanned. -/
def rawConfig [Inhabited κ] (type : MountType) (flash : LxFlash) (text : List Char) : VfsFile κ :=
  match scanUlong text with
  | some sector => { VfsFile.zero with type := type, sector := sector, flashPtr := some flash }
  | none => VfsFile.zero

/-- `_vfs_get_config`: the `VFS_FILE` and the path relative to its mount. -/
def vfsGetConfig [Inhabited κ] (path : List Char) : VfsFile κ × List Char :=
  if strncmpEq path sdId then
    ({ VfsFile.zero with type := .sd, mediaPtr := some .sdioDisk }, path.drop sdId.length)
  else if strncmpEq path flashId then
    ({ VfsFile.zero with type := .flash, mediaPtr := some .flashDisk }, path.drop flashId.length)
  else if strncmpEq path settingsId then
    (rawConfig .settings .nandSettings (path.drop settingsId.length), [])
  else if strncmpEq path backtraceId then
    (rawConfig .backtrace .nandBacktrace (path.drop backtraceId.length), [])
  else (VfsFile.zero, [])

/-- `_vfs_get_config`, with the type of the FileX control blocks named. -/
abbrev configOf (κ : Type*) [Inhabited κ] (path : List Char) : VfsFile κ × List Char :=
  vfsGetConfig path

/-- The mounts whose files FileX opens. -/
def OnFx (path : List Char) : Prop := sdId <+: path ∨ flashId <+: path

instance (path : List Char) : Decidable (OnFx path) := instDecidableOr

def FxMount (type : MountType) : Prop := type = .sd ∨ type = .flash
def RawMount (type : MountType) : Prop := type = .settings ∨ type = .backtrace

theorem FxMount.ne_none {type : MountType} (h : FxMount type) : type ≠ .none := by
  rcases h with rfl | rfl <;> decide

theorem RawMount.ne_none {type : MountType} (h : RawMount type) : type ≠ .none := by
  rcases h with rfl | rfl <;> decide

theorem RawMount.not_fx {type : MountType} (h : RawMount type) : ¬ FxMount type := by
  rcases h with rfl | rfl <;> simp [FxMount]

theorem rawConfig_cases [Inhabited κ] (type : MountType) (flash : LxFlash) (text : List Char) :
    (∃ n, rawConfig type flash text =
        { (VfsFile.zero : VfsFile κ) with type := type, sector := n, flashPtr := some flash }) ∨
      rawConfig type flash text = (VfsFile.zero : VfsFile κ) := by
  cases h : scanUlong text with
  | none => exact Or.inr (by rw [rawConfig, h])
  | some n => exact Or.inl ⟨n, by rw [rawConfig, h]⟩

/-- The three outcomes of `_vfs_get_config`: a file of a medium, a sector, no mount. -/
theorem configOf_cases (κ : Type*) [Inhabited κ] (path : List Char) :
    (OnFx path ∧ ∃ type m relative, FxMount type ∧ configOf κ path =
        ({ VfsFile.zero with type := type, mediaPtr := some m }, relative)) ∨
      (¬ OnFx path ∧ ∃ type flash n, RawMount type ∧ configOf κ path =
        ({ VfsFile.zero with type := type, sector := n, flashPtr := some flash }, [])) ∨
      (¬ OnFx path ∧ configOf κ path = (VfsFile.zero, [])) := by
  simp only [OnFx, ← strncmpEq_iff]
  by_cases hsd : strncmpEq path sdId
  · refine Or.inl ⟨Or.inl hsd, .sd, .sdioDisk, path.drop sdId.length, Or.inl rfl, ?_⟩
    rw [configOf, vfsGetConfig, if_pos hsd]
  by_cases hflash : strncmpEq path flashId
  · refine Or.inl ⟨Or.inr hflash, .flash, .flashDisk, path.drop flashId.length, Or.inr rfl, ?_⟩
    rw [configOf, vfsGetConfig, if_neg hsd, if_pos hflash]
  have hfx := not_or.mpr ⟨hsd, hflash⟩
  right
  rw [configOf, vfsGetConfig, if_neg hsd, if_neg hflash]
  by_cases hsettings : strncmpEq path settingsId
  · rw [if_pos hsettings]
    rcases rawConfig_cases (κ := κ) .settings .nandSettings (path.drop settingsId.length) with ⟨n, h⟩ | h
    · exact Or.inl ⟨hfx, .settings, .nandSettings, n, Or.inl rfl, by rw [h]⟩
    · exact Or.inr ⟨hfx, by rw [h]⟩
  rw [if_neg hsettings]
  by_cases hbacktrace : strncmpEq path backtraceId
  · rw [if_pos hbacktrace]
    rcases rawConfig_cases (κ := κ) .backtrace .nandBacktrace (path.drop backtraceId.length) with
      ⟨n, h⟩ | h
    · exact Or.inl ⟨hfx, .backtrace, .nandBacktrace, n, Or.inr rfl, by rw [h]⟩
    · exact Or.inr ⟨hfx, by rw [h]⟩
  · exact Or.inr ⟨hfx, if_neg hbacktrace⟩

theorem configOf_fx (κ : Type*) [Inhabited κ] (path : List Char) :
    FxMount (configOf κ path).1.type ↔ OnFx path := by
  rcases configOf_cases κ path with ⟨hfx, type, m, relative, htype, h⟩ |
    ⟨hfx, type, flash, n, htype, h⟩ | ⟨hfx, h⟩
  · rw [h]
    exact iff_of_true htype hfx
  · rw [h]
    exact iff_of_false htype.not_fx hfx
  · rw [h]
    exact iff_of_false (by simp [VfsFile.zero, FxMount]) hfx

theorem configOf_offset (κ : Type*) [Inhabited κ] (path : List Char) :
    (configOf κ path).1.file.currentFileOffset = 0 := by
  rcases configOf_cases κ path with ⟨-, type, m, relative, -, h⟩ | ⟨-, type, flash, n, -, h⟩ | ⟨-, h⟩ <;>
    rw [h] <;> rfl

/-- The bytes of one flash page, the unit of `lx_nand_flash_sector_read` and its siblings. -/
def sectorSize : ℕ := 2048

def bytesAt (ptr : ℕ → UInt8) (n : ℕ) : List UInt8 := (List.range n).map ptr

@[simp] theorem bytesAt_length (ptr : ℕ → UInt8) (n : ℕ) : (bytesAt ptr n).length = n := by
  simp [bytesAt]

@[simp] theorem bytesAt_getElem? (ptr : ℕ → UInt8) (n i : ℕ) :
    (bytesAt ptr n)[i]? = if i < n then some (ptr i) else none := by
  by_cases h : i < n <;> simp [bytesAt, h]

/-- The conversion of an `int` argument to `ULONG`. -/
def ulong (n : ℤ) : ℕ := (n % 2 ^ 32).toNat

theorem ulong_natCast {n : ℕ} (h : n < 2 ^ 32) : ulong n = n := by
  simp only [ulong]
  omega

/-- The functions of FileX and LevelX that `vfs.c` calls, over the state of both stacks.
Each answers its status first; the reads also answer the bytes stored in the buffer. -/
structure Backend (ω κ : Type*) where
  fxFileOpen : Option FxMedia → FxFile κ → List Char → ℕ → ω → ℕ × FxFile κ × ω
  fxFileRead : FxFile κ → ℕ → ω → ℕ × List UInt8 × FxFile κ × ω
  fxFileWrite : FxFile κ → List UInt8 → ω → ℕ × FxFile κ × ω
  fxFileClose : FxFile κ → ω → ℕ × FxFile κ × ω
  fxFileSeek : FxFile κ → ℕ → ω → ℕ × FxFile κ × ω
  lxSectorRead : Option LxFlash → ℕ → ω → ℕ × List UInt8 × ω
  lxSectorWrite : Option LxFlash → ℕ → List UInt8 → ω → ℕ × ω
  lxSectorRelease : Option LxFlash → ℕ → ω → ℕ × ω

structure World (ω : Type*) where
  storage : ω
  errno : ℕ

def txSuccess : ℕ := 0x00
def txPtrError : ℕ := 0x03
def eio : ℕ := 5
def enotsup : ℕ := 134
def fxOpenForRead : ℕ := 0
def fxOpenForWrite : ℕ := 1

def World.fail (w : World ω) (code : ℕ) : World ω := { w with errno := code }
def World.store (w : World ω) (storage : ω) : World ω := { w with storage := storage }

/-- The frame of every operation: a null mutex refuses the file, and the switch on the
mount chooses the stack. Its `VFS_MOUNT_NONE` case is dead, since that mount has no mutex. -/
def byMount {α : Type*} (type : MountType) (refused raw fx : α) : α :=
  match vfsGetMutex type with
  | none => refused
  | some _ =>
    match type with
    | .none => refused
    | .backtrace | .settings => raw
    | .sd | .flash => fx

theorem byMount_fx {α : Type*} {type : MountType} (h : FxMount type) (refused raw fx : α) :
    byMount type refused raw fx = fx := by
  rcases h with rfl | rfl <;> rfl

theorem byMount_raw {α : Type*} {type : MountType} (h : RawMount type) (refused raw fx : α) :
    byMount type refused raw fx = raw := by
  rcases h with rfl | rfl <;> rfl

theorem byMount_none {α : Type*} (refused raw fx : α) : byMount .none refused raw fx = refused := rfl

theorem MountType.cases_mount (type : MountType) : FxMount type ∨ RawMount type ∨ type = .none := by
  cases type <;> simp [FxMount, RawMount]

/-- What holds of all three outcomes holds whatever the mount. -/
theorem byMount_ind {α : Type*} {P : α → Prop} {type : MountType} {refused raw fx : α} (hrefused : P refused)
    (hraw : P raw) (hfx : P fx) : P (byMount type refused raw fx) := by
  rcases type.cases_mount with h | h | rfl
  · rwa [byMount_fx h]
  · rwa [byMount_raw h]
  · exact hrefused

/-- `vfs_open`: the slot is overwritten before the mount and the file are known to exist. -/
def vfsOpen [Inhabited κ] (B : Backend ω κ) (path : List Char) (flags : ℕ) (w : World ω) :
    ℕ × VfsFile κ × World ω :=
  let config := configOf κ path
  let opened := B.fxFileOpen config.1.mediaPtr config.1.file config.2 flags w.storage
  byMount config.1.type
    (txPtrError, config.1, w.fail eio)
    (txSuccess, config.1, w)
    (opened.1, { config.1 with file := opened.2.1 }, w.store opened.2.2)

/-- `vfs_read`: the status, the bytes stored at the buffer, the file and the world. -/
def vfsRead (B : Backend ω κ) (file : VfsFile κ) (len : ℤ) (w : World ω) :
    ℕ × List UInt8 × VfsFile κ × World ω :=
  let sector := B.lxSectorRead file.flashPtr file.sector w.storage
  let read := B.fxFileRead file.file (ulong len) w.storage
  byMount file.type
    (txPtrError, [], file, w.fail eio)
    (sector.1, sector.2.1, file, w.store sector.2.2)
    (read.1, read.2.1, { file with file := read.2.2.1 }, w.store read.2.2.2)

/-- `vfs_write`: a raw sector takes a whole page from the buffer, whatever `len` says. -/
def vfsWrite (B : Backend ω κ) (file : VfsFile κ) (ptr : ℕ → UInt8) (len : ℤ) (w : World ω) :
    ℕ × VfsFile κ × World ω :=
  let sector := B.lxSectorWrite file.flashPtr file.sector (bytesAt ptr sectorSize) w.storage
  let written := B.fxFileWrite file.file (bytesAt ptr (ulong len)) w.storage
  byMount file.type
    (txPtrError, file, w.fail eio)
    (sector.1, file, w.store sector.2)
    (written.1, { file with file := written.2.1 }, w.store written.2.2)

/-- The end of `vfs_close`. Only `sizeof(TX_FILE)` bytes of the `FX_FILE` are cleared, and
`TX_FILE` is an integer constant: they are the file's id. -/
def resetFile (file : VfsFile κ) : VfsFile κ :=
  let cleared :=
    match file.type with
    | .backtrace | .settings => { file with sector := 0 }
    | .flash | .sd => { file with file := { file.file with fxFileId := 0 } }
    | .none => file
  { cleared with type := .none, flashPtr := none, mediaPtr := none, pos := 0 }

/-- `vfs_close`: the slot is given back even when the storage reports an error, and a raw
sector is released. -/
def vfsClose (B : Backend ω κ) (file : VfsFile κ) (w : World ω) : ℕ × VfsFile κ × World ω :=
  let released := B.lxSectorRelease file.flashPtr file.sector w.storage
  let closed := B.fxFileClose file.file w.storage
  byMount file.type
    (txPtrError, file, w.fail eio)
    (released.1, resetFile file, w.store released.2)
    (closed.1, resetFile { file with file := closed.2.1 }, w.store closed.2.2)

/-- The offset `vfs_seek` computes, in the `ULONG` arithmetic of the source. An unknown
direction leaves it at zero, and the error that the source notes there is overwritten. -/
def seekOffset (file : FxFile κ) (size dir : ℤ) : ℕ :=
  if dir = 0 then ulong size
  else if dir = 1 then ulong (file.currentFileOffset + size)
  else if dir = 2 then ulong (file.currentFileSize + size)
  else 0

def vfsSeek (B : Backend ω κ) (file : VfsFile κ) (size dir : ℤ) (w : World ω) :
    ℕ × VfsFile κ × World ω :=
  let moved := B.fxFileSeek file.file (seekOffset file.file size dir) w.storage
  byMount file.type
    (txPtrError, file, w.fail eio)
    (enotsup, file, w)
    (moved.1, { file with file := moved.2.1 }, w.store moved.2.2)

end EtherBench.Vfs.File
