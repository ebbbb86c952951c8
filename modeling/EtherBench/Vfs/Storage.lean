import Mathlib.Data.List.TakeDrop
import Mathlib.Logic.Function.Basic
import EtherBench.Vfs.File

/-! # What the storage stacks keep

A meaning for the two stacks under `vfs.c`: the bytes of each FileX file and the page of
each raw sector, and what the functions of a backend do to them. A storage in memory is
one backend with that meaning.
-/

namespace EtherBench.Vfs.Storage
open File

variable {ω κ : Type*}

/-- A file after `data` was written at `offset`. -/
def splice (bytes : List UInt8) (offset : ℕ) (data : List UInt8) : List UInt8 :=
  bytes.take offset ++ data ++ bytes.drop (offset + data.length)

theorem splice_getElem? {bytes data : List UInt8} {offset i : ℕ} (hoffset : offset ≤ bytes.length)
    (hi : i < data.length) : (splice bytes offset data)[offset + i]? = data[i]? := by
  have htake : (bytes.take offset).length = offset := List.length_take_of_le hoffset
  rw [splice, List.getElem?_append_left, List.getElem?_append_right, htake, Nat.add_sub_cancel_left]
  · omega
  · rw [List.length_append]
    omega

def blankSector : List UInt8 := List.replicate sectorSize 0xFF

/-- The contents of a storage: files by media and path, raw sectors by volume and number,
and which file a control block is a handle of. -/
structure Meaning (ω κ : Type*) where
  fileBytes : ω → FxMedia → List Char → List UInt8
  names : FxFile κ → FxMedia → List Char → Prop
  sectorBytes : ω → LxFlash → ℕ → Option (List UInt8)

/-- What FileX and LevelX promise to a caller whose call succeeds. FileX opens a file for
reading at its start and for writing at its end; closing a file keeps its bytes. LevelX
keeps the last page written to a sector until the sector is released. -/
structure Lawful (B : Backend ω κ) (M : Meaning ω κ) : Prop where
  open_names : ∀ {m f path mode w f' w'}, B.fxFileOpen (some m) f path mode w = (txSuccess, f', w') →
    M.names f' m path ∧ f'.currentFileOffset ≤ (M.fileBytes w' m path).length ∧
      M.fileBytes w' m path = M.fileBytes w m path ∧
      (mode = fxOpenForRead → f'.currentFileOffset = 0)
  write_splices : ∀ {m f path data w f' w'}, M.names f m path →
    B.fxFileWrite f data w = (txSuccess, f', w') →
    M.names f' m path ∧
      M.fileBytes w' m path = splice (M.fileBytes w m path) f.currentFileOffset data
  close_keeps : ∀ {m f path w f' w'}, M.names f m path → B.fxFileClose f w = (txSuccess, f', w') →
    M.fileBytes w' m path = M.fileBytes w m path
  read_stores : ∀ {m f path n bytes w f' w'}, M.names f m path →
    B.fxFileRead f n w = (txSuccess, bytes, f', w') →
    bytes = ((M.fileBytes w m path).drop f.currentFileOffset).take n
  write_sector : ∀ {flash n page w w'}, B.lxSectorWrite (some flash) n page w = (txSuccess, w') →
    M.sectorBytes w' flash n = some page
  read_written : ∀ {flash n page bytes w w'}, M.sectorBytes w flash n = some page →
    B.lxSectorRead (some flash) n w = (txSuccess, bytes, w') → bytes = page
  release_sector : ∀ {flash n w w'}, B.lxSectorRelease (some flash) n w = (txSuccess, w') →
    M.sectorBytes w' flash n = none
  read_blank : ∀ {flash n w}, M.sectorBytes w flash n = none →
    ∃ w', B.lxSectorRead (some flash) n w = (txSuccess, blankSector, w')

structure Ram where
  files : FxMedia → List Char → Option (List UInt8)
  sectors : LxFlash → ℕ → Option (List UInt8)

def Ram.empty : Ram := ⟨fun _ _ => none, fun _ _ => none⟩

def Ram.setFile (w : Ram) (m : FxMedia) (path : List Char) (bytes : List UInt8) : Ram :=
  { w with files := Function.update w.files m (Function.update (w.files m) path (some bytes)) }

def Ram.setSector (w : Ram) (flash : LxFlash) (n : ℕ) (page : Option (List UInt8)) : Ram :=
  { w with sectors := Function.update w.sectors flash (Function.update (w.sectors flash) n page) }

def Ram.bytes (w : Ram) (m : FxMedia) (path : List Char) : List UInt8 := (w.files m path).getD []

@[simp] theorem Ram.setFile_bytes (w : Ram) (m : FxMedia) (path : List Char) (bytes : List UInt8) :
    (w.setFile m path bytes).bytes m path = bytes := by
  simp [Ram.setFile, Ram.bytes]

@[simp] theorem Ram.setSector_sectors (w : Ram) (flash : LxFlash) (n : ℕ)
    (page : Option (List UInt8)) : (w.setSector flash n page).sectors flash n = page := by
  simp [Ram.setSector]

/-- The media and the path a control block was opened for. -/
abbrev Handle := Option (FxMedia × List Char)

def fxFileId : ℕ := 0x46494C45
def fxNotFound : ℕ := 0x04
def fxNotOpen : ℕ := 0x07
def fxPtrError : ℕ := 0x18
def lxError : ℕ := 1

def ram : Backend Ram Handle where
  fxFileOpen
    | some m, f, path, mode, w =>
      match w.files m path with
      | some bytes =>
        let offset := if mode = fxOpenForRead then 0 else bytes.length
        (txSuccess, ⟨fxFileId, offset, bytes.length, some (m, path)⟩, w)
      | none => (fxNotFound, f, w)
    | none, f, _, _, w => (fxPtrError, f, w)
  fxFileRead f n w :=
    match f.control with
    | some (m, path) =>
      let bytes := ((w.bytes m path).drop f.currentFileOffset).take n
      (txSuccess, bytes, { f with currentFileOffset := f.currentFileOffset + bytes.length }, w)
    | none => (fxNotOpen, [], f, w)
  fxFileWrite f data w :=
    match f.control with
    | some (m, path) =>
      let bytes := splice (w.bytes m path) f.currentFileOffset data
      let offset := f.currentFileOffset + data.length
      (txSuccess, { f with currentFileOffset := offset, currentFileSize := bytes.length },
        w.setFile m path bytes)
    | none => (fxNotOpen, f, w)
  fxFileClose f w := (if f.control.isSome then txSuccess else fxNotOpen, f, w)
  fxFileSeek f n w :=
    (if f.control.isSome then txSuccess else fxNotOpen,
      { f with currentFileOffset := min n f.currentFileSize }, w)
  lxSectorRead
    | some flash, n, w => (txSuccess, (w.sectors flash n).getD blankSector, w)
    | none, _, w => (lxError, [], w)
  lxSectorWrite
    | some flash, n, page, w => (txSuccess, w.setSector flash n (some page))
    | none, _, _, w => (lxError, w)
  lxSectorRelease
    | some flash, n, w => (txSuccess, w.setSector flash n none)
    | none, _, w => (lxError, w)

def ramMeaning : Meaning Ram Handle where
  fileBytes := Ram.bytes
  names f m path := f.control = some (m, path)
  sectorBytes w flash n := w.sectors flash n

theorem ram_lawful : Lawful ram ramMeaning where
  open_names := by
    intro m f path mode w f' w' h
    cases hfile : w.files m path with
    | none => simp [ram, hfile, fxNotFound, txSuccess] at h
    | some bytes =>
      simp only [ram, hfile, Prod.mk.injEq, true_and] at h
      obtain ⟨rfl, rfl⟩ := h
      refine ⟨rfl, ?_, rfl, fun hmode => if_pos hmode⟩
      simp only [ramMeaning, Ram.bytes, hfile, Option.getD_some]
      split <;> omega
  write_splices := by
    intro m f path data w f' w' hnames h
    simp only [ramMeaning] at hnames
    simp only [ram, hnames, Prod.mk.injEq, true_and] at h
    obtain ⟨rfl, rfl⟩ := h
    exact ⟨rfl, Ram.setFile_bytes ..⟩
  close_keeps := by
    intro m f path w f' w' hnames h
    simp only [ram, Prod.mk.injEq] at h
    rw [h.2.2]
  read_stores := by
    intro m f path n bytes w f' w' hnames h
    simp only [ramMeaning] at hnames
    simp only [ram, hnames, Prod.mk.injEq, true_and] at h
    exact h.1.symm
  write_sector := by
    intro flash n page w w' h
    simp only [ram, Prod.mk.injEq, true_and] at h
    rw [← h]
    exact Ram.setSector_sectors ..
  read_written := by
    intro flash n page bytes w w' hpage h
    simp only [ramMeaning] at hpage
    simp only [ram, hpage, Option.getD_some, Prod.mk.injEq, true_and] at h
    exact h.1.symm
  release_sector := by
    intro flash n w w' h
    simp only [ram, Prod.mk.injEq, true_and] at h
    rw [← h]
    exact Ram.setSector_sectors ..
  read_blank := by
    intro flash n w hblank
    simp only [ramMeaning] at hblank
    exact ⟨w, by simp [ram, hblank]⟩

end EtherBench.Vfs.Storage
