import EtherBench.Vfs.Descriptors

/-! # What a closed file keeps

One write between an open and a close, then an open for reading and a read; between any
two of these calls everything but the file itself may change. On the two FileX mounts
closing gives a handle back. On the raw mounts it releases the sector, whose page then
reads as if it had never been written.
-/

namespace EtherBench.Vfs.Persistence
open Paths File Storage Descriptors

variable {ω κ : Type*} [Inhabited κ]

/-- Two storages hold the same at the place of `path`. -/
structure Untouched (M : Meaning ω κ) (path : List Char) (w v : World ω) : Prop where
  file : ∀ m, (configOf κ path).1.mediaPtr = some m →
    M.fileBytes v.storage m (configOf κ path).2 =
      M.fileBytes w.storage m (configOf κ path).2
  sector : ∀ flash, (configOf κ path).1.flashPtr = some flash →
    M.sectorBytes v.storage flash (configOf κ path).1.sector =
      M.sectorBytes w.storage flash (configOf κ path).1.sector

/-- A successful open, write of `len` bytes and close of one path. The calls of others run
after each of them; they leave the file or the sector of the path alone. -/
structure Cycle (B : Backend ω κ) (M : Meaning ω κ) (path : List Char) (ptr : ℕ → UInt8)
    (len : ℕ) where
  flags : ℕ
  start : World ω
  opened : World ω
  beforeWrite : World ω
  written : World ω
  beforeClose : World ω
  closed : World ω
  later : World ω
  file : VfsFile κ
  fileWritten : VfsFile κ
  fileClosed : VfsFile κ
  len_lt : len < 2 ^ 31
  opens : vfsOpen B path flags start = (txSuccess, file, opened)
  untouched_opened : Untouched M path opened beforeWrite
  writes : vfsWrite B file ptr len beforeWrite = (txSuccess, fileWritten, written)
  untouched_written : Untouched M path written beforeClose
  closes : vfsClose B fileWritten beforeClose = (txSuccess, fileClosed, closed)
  untouched_closed : Untouched M path closed later

variable {B : Backend ω κ} {M : Meaning ω κ} {path : List Char} {ptr : ℕ → UInt8} {len : ℕ}

/-- A later open and read return the written data where the write put it: at the offset
of the handle, which is zero for a sector. -/
def Cycle.Persists (c : Cycle B M path ptr len) : Prop :=
  ∀ (n : ℕ) w v u file file' stored, n < 2 ^ 31 →
    vfsOpen B path fxOpenForRead c.later = (txSuccess, file, w) → Untouched M path w v →
    vfsRead B file n v = (txSuccess, stored, file', u) →
    ∀ i < len, c.file.file.currentFileOffset + i < n →
      stored[c.file.file.currentFileOffset + i]? = some (ptr i)

/-- The mounts and the data that survive a close. -/
def Survives (path : List Char) (ptr : ℕ → UInt8) (len : ℕ) : Prop :=
  OnFx path ∨ (len ≤ sectorSize ∧ ∀ i < len, ptr i = 0xFF)

section Fx

variable {file file' : VfsFile κ} {w w' : World ω}

theorem vfsOpen_fx {flags : ℕ} (hfx : FxMount (configOf κ path).1.type)
    (h : vfsOpen B path flags w = (txSuccess, file, w')) :
    ∃ handle, file = { (configOf κ path).1 with file := handle } ∧
      B.fxFileOpen (configOf κ path).1.mediaPtr (configOf κ path).1.file (configOf κ path).2
        flags w.storage = (txSuccess, handle, w'.storage) := by
  rw [vfsOpen, byMount_fx hfx] at h
  simp only [Prod.mk.injEq] at h
  obtain ⟨hstatus, rfl, rfl⟩ := h
  exact ⟨_, rfl, Prod.ext hstatus rfl⟩

omit [Inhabited κ] in
theorem vfsWrite_fx {n : ℤ} (hfx : FxMount file.type)
    (h : vfsWrite B file ptr n w = (txSuccess, file', w')) :
    ∃ handle, file' = { file with file := handle } ∧
      B.fxFileWrite file.file (bytesAt ptr (ulong n)) w.storage =
        (txSuccess, handle, w'.storage) := by
  rw [vfsWrite, byMount_fx hfx] at h
  simp only [Prod.mk.injEq] at h
  obtain ⟨hstatus, rfl, rfl⟩ := h
  exact ⟨_, rfl, Prod.ext hstatus rfl⟩

omit [Inhabited κ] in
theorem vfsClose_fx (hfx : FxMount file.type) (h : vfsClose B file w = (txSuccess, file', w')) :
    ∃ handle, B.fxFileClose file.file w.storage = (txSuccess, handle, w'.storage) := by
  rw [vfsClose, byMount_fx hfx] at h
  simp only [Prod.mk.injEq] at h
  obtain ⟨hstatus, -, rfl⟩ := h
  exact ⟨_, Prod.ext hstatus rfl⟩

omit [Inhabited κ] in
theorem vfsRead_fx {n : ℤ} {stored : List UInt8} (hfx : FxMount file.type)
    (h : vfsRead B file n w = (txSuccess, stored, file', w')) :
    ∃ handle, B.fxFileRead file.file (ulong n) w.storage =
      (txSuccess, stored, handle, w'.storage) := by
  rw [vfsRead, byMount_fx hfx] at h
  simp only [Prod.mk.injEq] at h
  obtain ⟨hstatus, rfl, -, rfl⟩ := h
  exact ⟨_, Prod.ext hstatus rfl⟩

/-- What a cycle leaves in a file: the data, in the place of the bytes it overwrote. -/
theorem Cycle.fileBytes_later (hB : Lawful B M) (c : Cycle B M path ptr len)
    (hfx : FxMount (configOf κ path).1.type) {m : FxMedia}
    (hm : (configOf κ path).1.mediaPtr = some m) :
    ∃ old, c.file.file.currentFileOffset ≤ old.length ∧
      M.fileBytes c.later.storage m (configOf κ path).2 =
        splice old c.file.file.currentFileOffset (bytesAt ptr len) := by
  obtain ⟨handle, hfile, hopen⟩ := vfsOpen_fx hfx c.opens
  rw [hm] at hopen
  obtain ⟨hnames, hoffset, -, -⟩ := hB.open_names hopen
  have hopened := c.untouched_opened.file m hm
  have htype : FxMount c.file.type := by rw [hfile]; exact hfx
  have hhandle : c.file.file = handle := by rw [hfile]
  rw [← hhandle] at hnames hoffset
  obtain ⟨handle', hfile', hwrite⟩ := vfsWrite_fx htype c.writes
  rw [ulong_natCast (by have := c.len_lt; omega)] at hwrite
  obtain ⟨hnames', hbytes⟩ := hB.write_splices hnames hwrite
  have htype' : FxMount c.fileWritten.type := by rw [hfile']; exact htype
  have hhandle' : c.fileWritten.file = handle' := by rw [hfile']
  rw [← hhandle'] at hnames'
  obtain ⟨_, hclose⟩ := vfsClose_fx htype' c.closes
  refine ⟨M.fileBytes c.opened.storage m (configOf κ path).2, hoffset, ?_⟩
  calc M.fileBytes c.later.storage m (configOf κ path).2
      = M.fileBytes c.closed.storage m (configOf κ path).2 := c.untouched_closed.file m hm
    _ = M.fileBytes c.beforeClose.storage m (configOf κ path).2 := hB.close_keeps hnames' hclose
    _ = M.fileBytes c.written.storage m (configOf κ path).2 := c.untouched_written.file m hm
    _ = _ := by rw [hbytes, hopened]

theorem Cycle.persists_fx (hB : Lawful B M) (c : Cycle B M path ptr len)
    (hfx : FxMount (configOf κ path).1.type) {m : FxMedia}
    (hm : (configOf κ path).1.mediaPtr = some m) : c.Persists := by
  intro n w v u file file' stored hn hopen huntouched hread i hi hin
  obtain ⟨old, hoffset, hlater⟩ := c.fileBytes_later hB hfx hm
  obtain ⟨handle, hfile, hfxopen⟩ := vfsOpen_fx hfx hopen
  rw [hm] at hfxopen
  obtain ⟨hnames, -, hkept, hstart⟩ := hB.open_names hfxopen
  have htype : FxMount file.type := by rw [hfile]; exact hfx
  have hhandle : file.file = handle := by rw [hfile]
  rw [← hhandle] at hnames hstart
  obtain ⟨_, hfxread⟩ := vfsRead_fx htype hread
  rw [ulong_natCast (by omega)] at hfxread
  have hstored := hB.read_stores hnames hfxread
  rw [hstart rfl, List.drop_zero, huntouched.file m hm, hkept, hlater] at hstored
  rw [hstored, List.getElem?_take_of_lt hin, splice_getElem? hoffset (by simpa using hi),
    bytesAt_getElem?, if_pos hi]

end Fx

section Raw

variable {file file' : VfsFile κ} {w w' : World ω}

theorem vfsOpen_raw {flags : ℕ} (hraw : RawMount (configOf κ path).1.type) (w : World ω) :
    vfsOpen B path flags w = (txSuccess, (configOf κ path).1, w) := by
  rw [vfsOpen, byMount_raw hraw]

omit [Inhabited κ] in
theorem vfsWrite_raw {n : ℤ} (hraw : RawMount file.type)
    (h : vfsWrite B file ptr n w = (txSuccess, file', w')) : file' = file := by
  rw [vfsWrite, byMount_raw hraw] at h
  simp only [Prod.mk.injEq] at h
  exact h.2.1.symm

omit [Inhabited κ] in
theorem vfsClose_raw (hraw : RawMount file.type) (h : vfsClose B file w = (txSuccess, file', w')) :
    B.lxSectorRelease file.flashPtr file.sector w.storage = (txSuccess, w'.storage) := by
  rw [vfsClose, byMount_raw hraw] at h
  simp only [Prod.mk.injEq] at h
  obtain ⟨hstatus, -, rfl⟩ := h
  exact Prod.ext hstatus rfl

omit [Inhabited κ] in
theorem vfsRead_raw {n : ℤ} {stored : List UInt8} {storage : ω} (hraw : RawMount file.type)
    (h : B.lxSectorRead file.flashPtr file.sector w.storage = (txSuccess, stored, storage)) :
    vfsRead B file n w = (txSuccess, stored, file, w.store storage) := by
  rw [vfsRead, byMount_raw hraw, h]

theorem Cycle.sectorBytes_later (hB : Lawful B M) (c : Cycle B M path ptr len)
    (hraw : RawMount (configOf κ path).1.type) {flash : LxFlash}
    (hflash : (configOf κ path).1.flashPtr = some flash) :
    M.sectorBytes c.later.storage flash (configOf κ path).1.sector = none := by
  have hopen := c.opens
  rw [vfsOpen_raw hraw] at hopen
  simp only [Prod.mk.injEq, true_and] at hopen
  have htype : RawMount c.file.type := by rw [← hopen.1]; exact hraw
  have hwritten := vfsWrite_raw htype c.writes
  have hclose := c.closes
  rw [hwritten] at hclose
  have hrelease := vfsClose_raw htype hclose
  rw [← hopen.1, hflash] at hrelease
  rw [c.untouched_closed.sector flash hflash]
  exact hB.release_sector hrelease

/-- The one answer a read gives on a released sector. -/
theorem vfsRead_released (hB : Lawful B M) (hraw : RawMount (configOf κ path).1.type)
    {flash : LxFlash} (hflash : (configOf κ path).1.flashPtr = some flash)
    (hblank : M.sectorBytes w.storage flash (configOf κ path).1.sector = none) (n : ℤ) :
    ∃ u, vfsRead B (configOf κ path).1 n w = (txSuccess, blankSector, (configOf κ path).1, u) := by
  obtain ⟨storage, hread⟩ := hB.read_blank hblank
  rw [← hflash] at hread
  exact ⟨_, vfsRead_raw hraw hread⟩

theorem blankSector_getElem? (i : ℕ) (b : UInt8) :
    blankSector[i]? = some b ↔ i < sectorSize ∧ b = 0xFF := by
  rw [blankSector, List.getElem?_replicate]
  by_cases h : i < sectorSize
  · simp [h, eq_comm]
  · simp [h]

theorem Untouched.refl (M : Meaning ω κ) (path : List Char) (w : World ω) : Untouched M path w w :=
  ⟨fun _ _ => rfl, fun _ _ => rfl⟩

theorem Cycle.persists_raw (hB : Lawful B M) (c : Cycle B M path ptr len)
    (hraw : RawMount (configOf κ path).1.type) {flash : LxFlash}
    (hflash : (configOf κ path).1.flashPtr = some flash) :
    c.Persists ↔ len ≤ sectorSize ∧ ∀ i < len, ptr i = 0xFF := by
  have hreleased := c.sectorBytes_later hB hraw hflash
  have hoffset : c.file.file.currentFileOffset = 0 := by
    have hopen := c.opens
    rw [vfsOpen_raw hraw] at hopen
    simp only [Prod.mk.injEq, true_and] at hopen
    rw [← hopen.1]
    exact configOf_offset κ path
  constructor
  · intro h
    obtain ⟨u, hread⟩ := vfsRead_released hB hraw hflash hreleased len
    have hblank : ∀ i < len, i < sectorSize ∧ ptr i = 0xFF := by
      intro i hi
      have hstored := h len _ _ u _ _ _ c.len_lt (vfsOpen_raw hraw c.later)
        (Untouched.refl M path c.later) hread i hi (by omega)
      rw [hoffset, Nat.zero_add, blankSector_getElem?] at hstored
      exact hstored
    refine ⟨?_, fun i hi => (hblank i hi).2⟩
    by_contra hlong
    exact absurd (hblank sectorSize (by omega)).1 (lt_irrefl _)
  · rintro ⟨hlen, hdata⟩ n w v u file file' stored - hopen huntouched hread i hi -
    rw [vfsOpen_raw hraw] at hopen
    simp only [Prod.mk.injEq, true_and] at hopen
    obtain ⟨rfl, rfl⟩ := hopen
    rw [← huntouched.sector flash hflash] at hreleased
    obtain ⟨u', hblank⟩ := vfsRead_released hB hraw hflash hreleased n
    rw [hblank] at hread
    simp only [Prod.mk.injEq, true_and] at hread
    rw [← hread.1, hoffset, Nat.zero_add, blankSector_getElem?]
    exact ⟨by omega, hdata i hi⟩

end Raw

def Cycle.alone (B : Backend ω κ) (M : Meaning ω κ) (path : List Char) (ptr : ℕ → UInt8) (len flags : ℕ)
    (start : World ω) (hlen : len < 2 ^ 31)
    (hopen : (vfsOpen B path flags start).1 = txSuccess)
    (hwrite : (vfsWrite B (vfsOpen B path flags start).2.1 ptr len
      (vfsOpen B path flags start).2.2).1 = txSuccess)
    (hclose : (vfsClose B
      (vfsWrite B (vfsOpen B path flags start).2.1 ptr len (vfsOpen B path flags start).2.2).2.1
      (vfsWrite B (vfsOpen B path flags start).2.1 ptr len
        (vfsOpen B path flags start).2.2).2.2).1 = txSuccess) :
    Cycle B M path ptr len where
  flags := flags
  start := start
  opened := _
  beforeWrite := _
  written := _
  beforeClose := _
  closed := _
  later := _
  file := _
  fileWritten := _
  fileClosed := _
  len_lt := hlen
  opens := Prod.ext hopen rfl
  untouched_opened := Untouched.refl ..
  writes := Prod.ext hwrite rfl
  untouched_written := Untouched.refl ..
  closes := Prod.ext hclose rfl
  untouched_closed := Untouched.refl ..

def settingsCycle : Cycle ram ramMeaning "/settings/sector1".toList (fun _ => 0) 4 :=
  Cycle.alone _ _ _ _ _ fxOpenForWrite ⟨Ram.empty, 0⟩ (by decide) rfl rfl rfl

/-- Four zero bytes for a file of the card that holds two bytes. -/
def cardCycle : Cycle ram ramMeaning "/sd/a".toList (fun _ => 0) 4 :=
  Cycle.alone _ _ _ _ _ fxOpenForWrite ⟨Ram.empty.setFile .sdioDisk "a".toList [1, 2], 0⟩ (by decide)
    rfl rfl rfl

/-- Written data survive the close on the FileX mounts. On the raw mounts only a sector that
reads as never written does. -/
theorem persists_iff (hB : Lawful B M) (c : Cycle B M path ptr len) :
    c.Persists ↔ Survives path ptr len := by
  rcases configOf_cases κ path with ⟨honfx, type, m, relative, htype, h⟩ |
    ⟨hnot, type, flash, n, htype, h⟩ | ⟨-, h⟩
  · have hfx := (configOf_fx κ path).mpr honfx
    exact iff_of_true (c.persists_fx hB hfx (by rw [h])) (Or.inl honfx)
  · rw [c.persists_raw hB (by rw [h]; exact htype) (by rw [h]), Survives, or_iff_right hnot]
  · have hopen := c.opens
    rw [vfsOpen, h] at hopen
    simp [VfsFile.zero, byMount_none, txPtrError, txSuccess] at hopen

theorem cardCycle_persists : cardCycle.Persists ∧ ¬ settingsCycle.Persists := by
  constructor
  · exact (persists_iff ram_lawful cardCycle).mpr (Or.inl (by decide))
  · rw [persists_iff ram_lawful settingsCycle]
    rintro (hfx | ⟨-, hdata⟩)
    · exact absurd hfx (by decide)
    · exact absurd (hdata 0 (by decide)) (by decide)

theorem settingsCycle_lost :
    ¬ ∀ path ptr len (c : Cycle ram ramMeaning path ptr len), c.Persists := by
  intro h
  have hlost := (settingsCycle.persists_raw ram_lawful (Or.inl rfl) rfl).mp (h _ _ _ settingsCycle)
  exact absurd (hlost.2 0 (by decide)) (by decide)

end EtherBench.Vfs.Persistence
