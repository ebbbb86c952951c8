import EtherBench.Vfs.Storage
import EtherBench.Vfs.Syscall

/-! # The lengths of `_read` and `_write`

FileX moves bytes and LevelX moves pages, behind one interface that counts bytes. Neither
`vfs_read` nor `_read` passes on how much FileX has found, and a raw sector moves as a whole,
whatever length was asked for.
-/

namespace EtherBench.Vfs.Lengths
open File Storage Syscall

variable {ω κ : Type*}

def fxEndOfFile : ℕ := 0x09

/-- The control block is that of a file of the storage, and knows its size. -/
def Opened (M : Meaning ω κ) (f : FxFile κ) (w : ω) : Prop :=
  ∃ m path, M.names f m path ∧ (M.fileBytes w m path).length = f.currentFileSize

def OpenFile (M : Meaning ω κ) (file : VfsFile κ) (w : ω) : Prop :=
  (FxMount file.type ∧ Opened M file.file w) ∨
    (RawMount file.type ∧ ∃ flash, file.flashPtr = some flash)

/-- What the two stacks transfer: FileX as many bytes as there are, LevelX a page. -/
structure Granular (B : Backend ω κ) (M : Meaning ω κ) : Prop where
  end_of_file : ∀ {f w}, Opened M f w → f.currentFileSize ≤ f.currentFileOffset →
    ∀ n, (B.fxFileRead f n w).1 = fxEndOfFile ∧ (B.fxFileRead f n w).2.1 = []
  bytes : ∀ {f w}, Opened M f w → f.currentFileOffset < f.currentFileSize →
    ∀ n, (B.fxFileRead f n w).1 = txSuccess ∧
      (B.fxFileRead f n w).2.1.length = min n (f.currentFileSize - f.currentFileOffset)
  page_read : ∀ flash n w, (B.lxSectorRead (some flash) n w).1 = txSuccess ∧
    (B.lxSectorRead (some flash) n w).2.1.length = sectorSize
  page_written : ∀ flash n page w,
    M.sectorBytes (B.lxSectorWrite (some flash) n page w).2 flash n = some page

/-- The file is at its end. A raw sector has no position. -/
def AtEnd (file : VfsFile κ) : Prop :=
  FxMount file.type ∧ file.file.currentFileSize ≤ file.file.currentFileOffset

/-- `_read` stores no more than it was asked for and returns how much it stored, which at the
end of a file is nothing. -/
def ReportsRead (B : Backend ω κ) (fd len : ℤ) (s : State ω κ) (i : Slot) : Prop :=
  ∃ r stored t, sysRead B fd len s = some (r, stored, t) ∧ (stored.length : ℤ) ≤ len ∧
    (r ≠ -1 → r = stored.length) ∧ (AtEnd (s.table i) → r = 0)

/-- `_write` takes no more than `len` bytes: what lies behind them in memory makes no difference. -/
def ConsumesWithin (B : Backend ω κ) (fd len : ℤ) (s : State ω κ) : Prop :=
  ∀ ptr ptr' : ℕ → UInt8, (∀ k : ℕ, (k : ℤ) < len → ptr k = ptr' k) →
    sysWrite B fd ptr len s = sysWrite B fd ptr' len s

def RespectsLengths (B : Backend ω κ) (fd len : ℤ) (s : State ω κ) (i : Slot) : Prop :=
  ReportsRead B fd len s i ∧ ConsumesWithin B fd len s

/-- The lengths that are respected: what is left of a file that is not at its end, and a
whole page of a sector. -/
def Fits (file : VfsFile κ) (len : ℤ) : Prop :=
  (FxMount file.type ∧ file.file.currentFileOffset < file.file.currentFileSize ∧
      len ≤ (file.file.currentFileSize : ℤ) - file.file.currentFileOffset) ∨
    (RawMount file.type ∧ len = sectorSize)

variable {B : Backend ω κ} {M : Meaning ω κ} {s : State ω κ} {fd : ℤ} {i : Slot}

theorem ulong_cast {len : ℤ} (h0 : 0 ≤ len) (hint : len < 2 ^ 31) : (ulong len : ℤ) = len := by
  simp only [ulong]
  omega

theorem bytesAt_congr {ptr ptr' : ℕ → UInt8} {n : ℕ} (h : ∀ k < n, ptr k = ptr' k) :
    bytesAt ptr n = bytesAt ptr' n :=
  List.map_congr_left fun k hk => h k (List.mem_range.mp hk)

/-- `_read` of an open slot, from the status of `vfs_read` and the bytes that it stored. -/
theorem reportsRead_iff {len : ℤ} (hfd : target s.table fd = .slot i) (h0 : 0 ≤ len) :
    ReportsRead B fd len s i ↔
      ((vfsRead B (s.table i) len s.world).2.1.length : ℤ) ≤ len ∧
        if (vfsRead B (s.table i) len s.world).1 = txSuccess then
          len = (vfsRead B (s.table i) len s.world).2.1.length ∧ (AtEnd (s.table i) → len = 0)
        else ¬ AtEnd (s.table i) := by
  simp only [ReportsRead, sysRead, hfd]
  generalize vfsRead B (s.table i) len s.world = read
  by_cases hstatus : read.1 = txSuccess
  · have hresult : (if read.1 ≠ txSuccess then (-1 : ℤ) else len) = len := if_neg (not_not.mpr hstatus)
    rw [if_pos hstatus]
    simp only [hresult]
    constructor
    · rintro ⟨r, stored, t, hread, hlen, hreport, hend⟩
      cases hread
      exact ⟨hlen, hreport (by omega), hend⟩
    · rintro ⟨hlen, hreport, hend⟩
      exact ⟨len, _, _, rfl, hlen, fun _ => hreport, hend⟩
  · have hresult : (if read.1 ≠ txSuccess then (-1 : ℤ) else len) = -1 := if_pos hstatus
    rw [if_neg hstatus]
    simp only [hresult]
    constructor
    · rintro ⟨r, stored, t, hread, hlen, -, hend⟩
      cases hread
      refine ⟨hlen, fun h => ?_⟩
      have hzero := hend h
      omega
    · rintro ⟨hlen, hend⟩
      exact ⟨-1, _, _, rfl, hlen, fun h => absurd rfl h, fun h => absurd h hend⟩

section Files

variable (hB : Granular B M) (hfd : target s.table fd = .slot i) {len : ℤ} (h0 : 0 ≤ len)
include hB hfd h0

/-- FileX stores what is left, and its status at the end of the file becomes an error. -/
theorem reportsRead_fx (hint : len < 2 ^ 31) (hfx : FxMount (s.table i).type)
    (hopen : Opened M (s.table i).file s.world.storage) :
    ReportsRead B fd len s i ↔
      (s.table i).file.currentFileOffset < (s.table i).file.currentFileSize ∧
        len ≤ ((s.table i).file.currentFileSize : ℤ) - (s.table i).file.currentFileOffset := by
  rw [reportsRead_iff hfd h0, vfsRead, byMount_fx hfx, AtEnd, and_iff_right hfx]
  have hlen : (ulong len : ℤ) = len := ulong_cast h0 hint
  by_cases hend : (s.table i).file.currentFileSize ≤ (s.table i).file.currentFileOffset
  · obtain ⟨hstatus, -⟩ := hB.end_of_file hopen hend (ulong len)
    have hfails : fxEndOfFile ≠ txSuccess := by decide
    simp only [hstatus, if_neg hfails]
    refine iff_of_false (fun h => h.2 hend) fun h => ?_
    omega
  · obtain ⟨hstatus, hstored⟩ := hB.bytes hopen (not_le.mp hend) (ulong len)
    simp only [hstatus, hstored, if_pos]
    omega

theorem reportsRead_raw (hraw : RawMount (s.table i).type) {flash : LxFlash}
    (hflash : (s.table i).flashPtr = some flash) : ReportsRead B fd len s i ↔ len = sectorSize := by
  obtain ⟨hstatus, hstored⟩ := hB.page_read flash (s.table i).sector s.world.storage
  have hend : ¬ AtEnd (s.table i) := fun h => hraw.not_fx h.1
  rw [reportsRead_iff hfd h0, vfsRead, byMount_raw hraw, hflash]
  simp only [hstatus, hstored, hend, if_pos]
  constructor
  · exact fun h => h.2.1
  · exact fun h => ⟨h.ge, h, False.elim⟩

omit hB in
theorem consumesWithin_fx (hint : len < 2 ^ 31) (hfx : FxMount (s.table i).type) : ConsumesWithin B fd len s := by
  intro ptr ptr' hagree
  have hlen := ulong_cast h0 hint
  have hbytes : bytesAt ptr (ulong len) = bytesAt ptr' (ulong len) :=
    bytesAt_congr fun k hk => hagree k (by omega)
  simp only [sysWrite, hfd, vfsWrite, byMount_fx hfx, hbytes]

/-- LevelX takes a page, and keeps all of it. -/
theorem consumesWithin_raw (hraw : RawMount (s.table i).type) {flash : LxFlash}
    (hflash : (s.table i).flashPtr = some flash) : ConsumesWithin B fd len s ↔ sectorSize ≤ len := by
  constructor
  · intro h
    by_contra hshort
    -- a buffer of zeros, and one that differs from it in the last byte of the page
    let zeros : ℕ → UInt8 := fun _ => 0
    let marked := Function.update zeros (sectorSize - 1) 1
    have hagree : ∀ k : ℕ, (k : ℤ) < len → zeros k = marked k := by
      intro k hk
      have hne : k ≠ sectorSize - 1 := by omega
      exact (Function.update_of_ne hne 1 zeros).symm
    have hsame := h zeros marked hagree
    simp only [sysWrite, hfd, vfsWrite, byMount_raw hraw, hflash, Option.some.injEq, Prod.mk.injEq] at hsame
    have hstorage := congrArg (fun t : State ω κ => M.sectorBytes t.world.storage flash (s.table i).sector) hsame.2
    simp only [State.put, World.store, hB.page_written, Option.some.injEq] at hstorage
    have hbyte := congrArg (fun bytes => bytes[sectorSize - 1]?) hstorage
    have hlast : sectorSize - 1 < sectorSize := by decide
    simp only [bytesAt_getElem?, if_pos hlast, Option.some.injEq] at hbyte
    exact absurd (hbyte.trans (Function.update_self ..)) (by decide)
  · intro hlen ptr ptr' hagree
    have hbytes : bytesAt ptr sectorSize = bytesAt ptr' sectorSize :=
      bytesAt_congr fun k hk => hagree k (by omega)
    simp only [sysWrite, hfd, vfsWrite, byMount_raw hraw, hbytes]

end Files

/-- `_read` and `_write` respect exactly the lengths that fit. -/
theorem respectsLengths_iff (hB : Granular B M) (hfd : target s.table fd = .slot i)
    (hopen : OpenFile M (s.table i) s.world.storage) {len : ℤ} (h0 : 0 ≤ len) (hint : len < 2 ^ 31) :
    RespectsLengths B fd len s i ↔ Fits (s.table i) len := by
  rw [RespectsLengths, Fits]
  rcases hopen with ⟨hfx, hhandle⟩ | ⟨hraw, flash, hflash⟩
  · have hmount : ¬ RawMount (s.table i).type := fun h => h.not_fx hfx
    rw [reportsRead_fx hB hfd h0 hint hfx hhandle, and_iff_left (consumesWithin_fx hfd h0 hint hfx),
      and_iff_right hfx, or_iff_left fun h => hmount h.1]
  · rw [reportsRead_raw hB hfd h0 hraw hflash, consumesWithin_raw hB hfd h0 hraw hflash,
      and_iff_right hraw, or_iff_right fun h => hraw.not_fx h.1, and_iff_left_iff_imp]
    exact fun h => h.ge

/-- The storage in memory, with the two granularities: FileX tells the end of a file, and a
sector is read as a whole page. -/
def granular : Backend Ram Handle :=
  { ram with
    fxFileRead := fun f n w =>
      if f.currentFileSize ≤ f.currentFileOffset then (fxEndOfFile, [], f, w) else ram.fxFileRead f n w
    lxSectorRead := fun flash n w =>
      match flash with
      | some flash =>
        (txSuccess, bytesAt (fun k => ((w.sectors flash n).getD blankSector).getD k 0xFF) sectorSize, w)
      | none => (lxError, [], w) }

theorem granular_granular : Granular granular ramMeaning where
  end_of_file := by
    intro f w _ hend n
    simp only [granular, if_pos hend, and_self]
  bytes := by
    rintro f w ⟨m, path, hnames, hsize⟩ hbefore n
    simp only [ramMeaning] at hnames hsize
    simp only [granular, if_neg (not_le.mpr hbefore), ram, hnames, true_and]
    rw [List.length_take, List.length_drop, hsize]
  page_read := by
    intro flash n w
    simp only [granular, bytesAt_length, and_self]
  page_written := fun flash n page w => Ram.setSector_sectors ..

def firstSlot : Slot := ⟨0, by decide⟩

def fourBytes : State Ram Handle :=
  (sysOpen granular "/sd/a".toList 0
    ⟨vfsInit, Ram.empty.setFile .sdioDisk "a".toList [1, 2, 3, 4], 0⟩).2

def oneSector : State Ram Handle :=
  (sysOpen granular "/settings/sector0".toList 0 ⟨vfsInit, Ram.empty, 0⟩).2

theorem fourBytes_open : OpenFile ramMeaning (fourBytes.table firstSlot) fourBytes.world.storage :=
  Or.inl ⟨Or.inl rfl, .sdioDisk, "a".toList, rfl, rfl⟩

/-- The four bytes of the file fit, a fifth does not. -/
theorem fourBytes_respected :
    RespectsLengths granular 3 4 fourBytes firstSlot ∧ ¬ RespectsLengths granular 3 5 fourBytes firstSlot := by
  have hfits : ∀ len : ℤ, 0 ≤ len → len < 2 ^ 31 →
      (RespectsLengths granular 3 len fourBytes firstSlot ↔ Fits (fourBytes.table firstSlot) len) := fun _ =>
    respectsLengths_iff granular_granular rfl fourBytes_open
  rw [hfits 4 (by decide) (by decide), hfits 5 (by decide) (by decide)]
  refine ⟨Or.inl ⟨Or.inl rfl, by decide, by decide⟩, ?_⟩
  rintro (⟨-, -, hleft⟩ | ⟨-, hpage⟩)
  · exact absurd hleft (by decide)
  · exact absurd hpage (by decide)

/-- Ten bytes are asked for and four are stored, yet ten is the answer; and a sector is stored
in a buffer of one byte. -/
theorem shortRead_misreported :
    ¬ RespectsLengths granular 3 10 fourBytes firstSlot ∧
      ¬ RespectsLengths granular 3 1 oneSector firstSlot := by
  constructor
  · rintro ⟨⟨r, stored, t, hread, -, hreport, -⟩, -⟩
    cases hread
    exact absurd (hreport (by decide)) (by decide)
  · intro h
    have hraw : RawMount (oneSector.table firstSlot).type := Or.inl rfl
    have hpage := (reportsRead_raw granular_granular rfl (by decide) hraw rfl).mp h.1
    exact absurd hpage (by decide)

end EtherBench.Vfs.Lengths
