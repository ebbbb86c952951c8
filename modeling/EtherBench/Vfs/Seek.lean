import EtherBench.Vfs.Lengths

/-! # What `_lseek` promises

The target of a seek is a signed sum; `vfs_seek` computes it in the 32 bits of an `ULONG`, FileX
clamps it to the size of the file, and `_lseek` answers zero for whatever came out of that.
-/

namespace EtherBench.Vfs.Seek
open File Storage Syscall Lengths

variable {ω κ : Type*}

/-- What `fx_file_seek` does to an open file: beyond the end it stops at the end. -/
def Clamps (B : Backend ω κ) (M : Meaning ω κ) : Prop :=
  ∀ {f w}, Opened M f w → ∀ n, (B.fxFileSeek f n w).1 = txSuccess ∧
    (B.fxFileSeek f n w).2.1.currentFileOffset = min n f.currentFileSize

/-- The position that `SEEK_SET`, `SEEK_CUR` and `SEEK_END` name; any other direction names none. -/
def position (f : FxFile κ) (ptr dir : ℤ) : Option ℤ :=
  if dir = 0 then some ptr
  else if dir = 1 then some (f.currentFileOffset + ptr)
  else if dir = 2 then some (f.currentFileSize + ptr)
  else none

/-- The descriptor is that of a file of FileX, and the call names a position of it. -/
def Names (table : Table κ) (fd ptr dir : ℤ) (i : Slot) (p : ℤ) : Prop :=
  target table fd = .slot i ∧ FxMount (table i).type ∧ position (table i).file ptr dir = some p ∧ 0 ≤ p

/-- The contract of `_lseek`: within the file it moves to the position and returns it; where it
cannot it returns `-1` and moves nothing. -/
structure Contract (B : Backend ω κ) (fd ptr dir : ℤ) (s : State ω κ) : Prop where
  moves : ∀ i p, Names s.table fd ptr dir i p → p ≤ (s.table i).file.currentFileSize →
    ∃ t, sysLseek B fd ptr dir s = some (p, t) ∧ ((t.table i).file.currentFileOffset : ℤ) = p
  refuses : (¬ ∃ i p, Names s.table fd ptr dir i p) →
    ∃ t, sysLseek B fd ptr dir s = some (-1, t) ∧
      ∀ i, (t.table i).file.currentFileOffset = (s.table i).file.currentFileOffset

/-- The calls for which the contract is kept: on a stream, on a raw sector, to the start of a
file, and to a position beyond its end, of which nothing is said. -/
def Kept (table : Table κ) (fd ptr dir : ℤ) : Prop :=
  target table fd = .std ∨ ∃ i, target table fd = .slot i ∧
    (RawMount (table i).type ∨
      ∃ p, Names table fd ptr dir i p ∧ (p = 0 ∨ (table i).file.currentFileSize < p))

variable {B : Backend ω κ} {M : Meaning ω κ} {s : State ω κ} {fd ptr dir : ℤ} {i : Slot}

theorem seekOffset_eq {f : FxFile κ} {p : ℤ} (h : position f ptr dir = some p) :
    seekOffset f ptr dir = ulong p := by
  unfold position at h
  unfold seekOffset
  by_cases hset : dir = 0
  · rw [if_pos hset] at h ⊢
    cases h
    rfl
  by_cases hcur : dir = 1
  · rw [if_neg hset, if_pos hcur] at h ⊢
    cases h
    rfl
  by_cases hend : dir = 2
  · rw [if_neg hset, if_neg hcur, if_pos hend] at h ⊢
    cases h
    rfl
  · rw [if_neg hset, if_neg hcur, if_neg hend] at h
    cases h

/-- Where a position within the file is reached: the wrap is harmless below `2 ^ 32` only. -/
theorem landing_iff {p : ℤ} {size : ℕ} (h0 : 0 ≤ p) (hsize : p ≤ size) :
    ((min (ulong p) size : ℕ) : ℤ) = p ↔ p < 2 ^ 32 := by
  simp only [ulong]
  omega

/-- A seek in an open file always succeeds, and answers zero. -/
theorem sysLseek_fx (hB : Clamps B M) (hfd : target s.table fd = .slot i) (hfx : FxMount (s.table i).type)
    (hopen : Opened M (s.table i).file s.world.storage) (ptr dir : ℤ) :
    ∃ t, sysLseek B fd ptr dir s = some (0, t) ∧
      (t.table i).file.currentFileOffset =
        min (seekOffset (s.table i).file ptr dir) (s.table i).file.currentFileSize := by
  obtain ⟨hstatus, hoffset⟩ := hB hopen (seekOffset (s.table i).file ptr dir)
  simp only [sysLseek, hfd, vfsSeek, byMount_fx hfx, hstatus]
  refine ⟨_, rfl, ?_⟩
  simp only [State.put, Function.update_self]
  exact hoffset

theorem reaches_iff (hB : Clamps B M) {p : ℤ} (hnames : Names s.table fd ptr dir i p)
    (hopen : Opened M (s.table i).file s.world.storage) (hsize : p ≤ (s.table i).file.currentFileSize) :
    (∃ t, sysLseek B fd ptr dir s = some (0, t) ∧ ((t.table i).file.currentFileOffset : ℤ) = p) ↔
      p < 2 ^ 32 := by
  obtain ⟨hfd, hfx, hp, h0⟩ := hnames
  obtain ⟨t, hseek, hoffset⟩ := sysLseek_fx hB hfd hfx hopen ptr dir
  rw [seekOffset_eq hp] at hoffset
  rw [← landing_iff h0 hsize, ← hoffset]
  constructor
  · rintro ⟨u, hu, h⟩
    cases hseek.symm.trans hu
    exact h
  · exact fun h => ⟨t, hseek, h⟩

/-- A raw sector has no position, which `_lseek` reports. -/
theorem sysLseek_raw (hfd : target s.table fd = .slot i) (hraw : RawMount (s.table i).type) (ptr dir : ℤ) :
    sysLseek B fd ptr dir s = some (-1, s) := by
  have hfails : enotsup ≠ txSuccess := by decide
  simp only [sysLseek, hfd, vfsSeek, byMount_raw hraw, if_pos hfails, State.put, Function.update_eq_self]

theorem Contract.of_refused {t : State ω κ} (hseek : sysLseek B fd ptr dir s = some (-1, t))
    (htable : t.table = s.table) (hunnamed : ¬ ∃ i p, Names s.table fd ptr dir i p) :
    Contract B fd ptr dir s where
  moves i p h := absurd ⟨i, p, h⟩ hunnamed
  refuses _ := ⟨t, hseek, fun i => by rw [htable]⟩

theorem not_contract (hseek : ∀ t, sysLseek B fd ptr dir s ≠ some (-1, t))
    (hunnamed : ¬ ∃ i p, Names s.table fd ptr dir i p) : ¬ Contract B fd ptr dir s := by
  intro h
  obtain ⟨t, ht, -⟩ := h.refuses hunnamed
  exact hseek t ht

theorem Names.unique {i j : Slot} {p q : ℤ} (hp : Names s.table fd ptr dir i p)
    (hq : Names s.table fd ptr dir j q) : j = i ∧ q = p := by
  obtain ⟨hi, -, hp, -⟩ := hp
  obtain ⟨hj, -, hq, -⟩ := hq
  cases hi.symm.trans hj
  exact ⟨rfl, Option.some.inj (hq.symm.trans hp)⟩

theorem contract_fx (hB : Clamps B M) (hfd : target s.table fd = .slot i) (hfx : FxMount (s.table i).type)
    (hopen : Opened M (s.table i).file s.world.storage) :
    Contract B fd ptr dir s ↔
      ∃ p, Names s.table fd ptr dir i p ∧ (p = 0 ∨ (s.table i).file.currentFileSize < p) := by
  obtain ⟨t, hseek, hoffset⟩ := sysLseek_fx hB hfd hfx hopen ptr dir
  by_cases hnamed : ∃ i p, Names s.table fd ptr dir i p
  · obtain ⟨j, p, hp⟩ := hnamed
    cases hp.1.symm.trans hfd
    constructor
    · intro h
      refine ⟨p, hp, ?_⟩
      by_contra hwithin
      obtain ⟨u, hu, -⟩ := h.moves i p hp (by omega)
      cases hseek.symm.trans hu
      omega
    · rintro ⟨q, hq, hcases⟩
      refine ⟨fun j r hr hsize => ?_, fun h => absurd ⟨i, p, hp⟩ h⟩
      obtain ⟨rfl, rfl⟩ := hq.unique hr
      rcases hcases with rfl | hbeyond
      · rw [seekOffset_eq hq.2.2.1] at hoffset
        refine ⟨t, hseek, ?_⟩
        rw [hoffset]
        exact (landing_iff le_rfl hsize).mpr (by decide)
      · omega
  · refine iff_of_false (not_contract (fun u hu => ?_) hnamed) fun ⟨p, hp, _⟩ => hnamed ⟨i, p, hp⟩
    cases hseek.symm.trans hu

/-- The contract of `_lseek`, for every descriptor, displacement and direction. -/
theorem contract_iff (hB : Clamps B M)
    (hopen : ∀ i, target s.table fd = .slot i → FxMount (s.table i).type →
      Opened M (s.table i).file s.world.storage) (ptr dir : ℤ) :
    Contract B fd ptr dir s ↔ Kept s.table fd ptr dir := by
  have hnoSlot : (∀ i, target s.table fd ≠ .slot i) → ¬ ∃ i p, Names s.table fd ptr dir i p :=
    fun h ⟨i, _, hnames⟩ => h i hnames.1
  cases hfd : target s.table fd with
  | std =>
    have hseek : sysLseek B fd ptr dir s = some (-1, { s with world := s.world.fail espipe }) := by
      rw [sysLseek, hfd]
    have hunnamed := hnoSlot (by simp [hfd])
    exact iff_of_true (Contract.of_refused hseek rfl hunnamed) (Or.inl hfd)
  | invalid =>
    refine iff_of_false (not_contract ?_ (hnoSlot (by simp [hfd]))) (by simp [Kept, hfd])
    simp [sysLseek, hfd, enoent]
  | unused =>
    refine iff_of_false (not_contract ?_ (hnoSlot (by simp [hfd]))) (by simp [Kept, hfd])
    simp [sysLseek, hfd, enoent]
  | outside =>
    refine iff_of_false (not_contract ?_ (hnoSlot (by simp [hfd]))) (by simp [Kept, hfd])
    simp [sysLseek, hfd]
  | slot i =>
    rcases (s.table i).type.cases_mount with hfx | hraw | hnone
    · rw [contract_fx hB hfd hfx (hopen i hfd hfx)]
      simp [Kept, hfd, show ¬ RawMount (s.table i).type from fun h => h.not_fx hfx]
    · have hunnamed : ¬ ∃ j p, Names s.table fd ptr dir j p := by
        rintro ⟨j, p, hj, hfx, -⟩
        cases hj.symm.trans hfd
        exact hraw.not_fx hfx
      exact iff_of_true (Contract.of_refused (sysLseek_raw hfd hraw ptr dir) rfl hunnamed)
        (Or.inr ⟨i, hfd, Or.inl hraw⟩)
    · exact absurd hnone (target_eq_slot hfd).2

theorem granular_clamps : Clamps granular ramMeaning := by
  rintro f w ⟨m, path, hnames, -⟩ n
  simp only [ramMeaning] at hnames
  simp [granular, ram, hnames]

/-- A file of four bytes: back to its start the contract is kept, to its third byte it is not. -/
theorem fourBytes_rewound : Contract granular 3 0 0 fourBytes ∧ ¬ Contract granular 3 2 0 fourBytes := by
  have hopen : ∀ i, target fourBytes.table 3 = .slot i → FxMount (fourBytes.table i).type →
      Opened ramMeaning (fourBytes.table i).file fourBytes.world.storage := by
    intro i hi _
    cases hi
    exact ⟨.sdioDisk, "a".toList, rfl, rfl⟩
  rw [contract_iff granular_clamps hopen 0 0, contract_iff granular_clamps hopen 2 0]
  constructor
  · exact Or.inr ⟨firstSlot, rfl, Or.inr ⟨0, ⟨rfl, Or.inl rfl, rfl, le_rfl⟩, Or.inl rfl⟩⟩
  · rintro (hstd | ⟨i, hi, hraw | ⟨p, ⟨-, -, hp, -⟩, hcases⟩⟩)
    · cases hstd
    · cases hi
      rcases hraw with h | h <;> cases h
    · cases hi
      cases hp
      exact absurd hcases (by decide)

/-- The third byte of a file of four is reached and zero returned; one byte before the start
ends at the end of the file, and an unknown direction at its start, both without an error. -/
theorem thirdByte_notReturned :
    ¬ Contract granular 3 2 0 fourBytes ∧ ¬ Contract granular 3 (-1) 0 fourBytes ∧
      ¬ Contract granular 3 1 9 fourBytes := by
  refine ⟨fun h => ?_, fun h => ?_, fun h => ?_⟩
  · obtain ⟨t, hseek, -⟩ := h.moves firstSlot 2 ⟨rfl, Or.inl rfl, rfl, by decide⟩ (by decide)
    cases hseek
  · obtain ⟨t, hseek, -⟩ := h.refuses (by
      rintro ⟨i, p, hi, -, hp, h0⟩
      cases hi
      cases hp
      exact absurd h0 (by decide))
    cases hseek
  · obtain ⟨t, hseek, -⟩ := h.refuses (by
      rintro ⟨i, p, hi, -, hp, -⟩
      cases hi
      cases hp)
    cases hseek

end EtherBench.Vfs.Seek
