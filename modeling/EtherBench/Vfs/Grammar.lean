import Mathlib.Data.List.TakeWhile
import Mathlib.Data.Nat.Digits.Defs
import EtherBench.Vfs.File

/-! # The paths that `_vfs_get_config` is meant to accept

A file of the card or of the flash, or a sector that is named by its decimal number. The scan
of the number accepts more than that: blanks before it, a sign, any text behind it, and
numbers that no `ULONG` holds.
-/

namespace EtherBench.Vfs.Grammar
open Paths File

/-- What a path can stand for. -/
inductive Place where
  | file (media : FxMedia) (relative : List Char)
  | sector (flash : LxFlash) (n : ℕ)
  deriving DecidableEq

def fxId : FxMedia → List Char
  | .sdioDisk => "/sd/".toList
  | .flashDisk => "/flash/".toList

def rawId : LxFlash → List Char
  | .nandSettings => "/settings/sector".toList
  | .nandBacktrace => "/backtrace/sector".toList

def digit (c : Char) : ℕ := c.toNat - '0'.toNat

/-- A decimal number of 32 bits, and nothing else. -/
structure Denotes (text : List Char) (n : ℕ) : Prop where
  nonempty : text ≠ []
  digits : ∀ c ∈ text, c.isDigit = true
  value : Nat.ofDigits 10 (text.map digit).reverse = n
  fits : n < 2 ^ 32

/-- The grammar of the paths. -/
inductive Refers : List Char → Place → Prop where
  | file (media : FxMedia) (relative : List Char) : Refers (fxId media ++ relative) (.file media relative)
  | sector (flash : LxFlash) {text : List Char} {n : ℕ} (h : Denotes text n) :
      Refers (rawId flash ++ text) (.sector flash n)

variable {κ : Type*}

/-- What a `VFS_FILE` of `_vfs_get_config` and the path relative to its mount stand for. -/
def placeOf (config : VfsFile κ × List Char) : Option Place :=
  match config.1.type with
  | .none => none
  | .sd => some (.file .sdioDisk config.2)
  | .flash => some (.file .flashDisk config.2)
  | .settings => some (.sector .nandSettings config.1.sector)
  | .backtrace => some (.sector .nandBacktrace config.1.sector)

/-- A path is taken for what it refers to, and for nothing when it refers to nothing. -/
def Recognised (κ : Type*) [Inhabited κ] (path : List Char) : Prop :=
  ∀ place, placeOf (configOf κ path) = some place ↔ Refers path place

def signText : Option Bool → List Char
  | none => []
  | some true => ['-']
  | some false => ['+']

/-- The texts that `%lu` converts: blanks, a sign and a digit, whatever follows. -/
def Scannable (text : List Char) : Prop :=
  ∃ blanks sign d tail, text = blanks ++ (signText sign ++ d :: tail) ∧
    (∀ c ∈ blanks, isSpace c = true) ∧ d.isDigit = true

/-- Behind the name of a raw mount there is a proper number, or nothing that `%lu` converts. -/
def Plain (path : List Char) : Prop :=
  ∀ flash text, path = rawId flash ++ text → (∃ n, Denotes text n) ∨ ¬ Scannable text

section Scan

theorem digitsValue_eq (text : List Char) : digitsValue text = Nat.ofDigits 10 (text.map digit).reverse := by
  rw [Nat.ofDigits_eq_foldr, List.foldr_reverse, List.foldl_map, digitsValue]
  congr 1
  funext n c
  exact Nat.add_comm ..

theorem isSpace_of_isDigit {c : Char} (h : c.isDigit = true) : isSpace c = false := by
  have hlow : '0'.val ≤ c.val := by
    simp only [Char.isDigit, Bool.and_eq_true, decide_eq_true_eq] at h
    exact h.1
  by_contra hspace
  simp only [isSpace, Bool.not_eq_false, decide_eq_true_eq] at hspace
  rcases hspace with rfl | ⟨-, hhigh⟩
  · exact absurd hlow (by decide)
  · exact absurd (UInt32.le_trans hlow hhigh) (by decide)

theorem scanSign_signText (sign : Option Bool) {d : Char} (hd : d.isDigit = true) (tail : List Char) :
    scanSign (signText sign ++ d :: tail) = (sign.getD false, d :: tail) := by
  match sign with
  | some true => rfl
  | some false => rfl
  | none =>
    change scanSign (d :: tail) = _
    unfold scanSign
    split
    · next heq =>
      cases heq
      cases hd
    · next heq =>
      cases heq
      cases hd
    · rfl

/-- What `%lu` makes of a scannable text: blanks are skipped, and the digits end the number. -/
theorem scanUlong_eq {blanks : List Char} (hblanks : ∀ c ∈ blanks, isSpace c = true) (sign : Option Bool)
    {d : Char} (hd : d.isDigit = true) (tail : List Char) :
    scanUlong (blanks ++ (signText sign ++ d :: tail)) =
      some (toUlong (sign.getD false) (digitsValue (d :: tail.takeWhile Char.isDigit))) := by
  have hskip : (blanks ++ (signText sign ++ d :: tail)).dropWhile isSpace = signText sign ++ d :: tail := by
    rw [List.dropWhile_append_of_pos hblanks]
    match sign with
    | some true => rfl
    | some false => rfl
    | none => exact List.dropWhile_cons_of_neg (by simp [isSpace_of_isDigit hd])
  simp only [scanUlong, hskip, scanSign_signText sign hd tail, List.takeWhile_cons_of_pos hd]

theorem exists_sign (text : List Char) : ∃ sign, text = signText sign ++ (scanSign text).2 := by
  unfold scanSign
  split
  · exact ⟨some true, rfl⟩
  · exact ⟨some false, rfl⟩
  · exact ⟨none, rfl⟩

theorem scannable_of_scanUlong {text : List Char} {n : ℕ} (h : scanUlong text = some n) : Scannable text := by
  obtain ⟨sign, hsign⟩ := exists_sign (text.dropWhile isSpace)
  unfold scanUlong at h
  cases hdigits : (scanSign (text.dropWhile isSpace)).2.takeWhile Char.isDigit with
  | nil => simp [hdigits] at h
  | cons d digits =>
    refine ⟨text.takeWhile isSpace, sign, d,
      digits ++ (scanSign (text.dropWhile isSpace)).2.dropWhile Char.isDigit, ?_, ?_, ?_⟩
    · rw [← List.cons_append, ← hdigits, List.takeWhile_append_dropWhile, ← hsign,
        List.takeWhile_append_dropWhile]
    · exact fun c hc => List.mem_takeWhile_imp hc
    · apply List.mem_takeWhile_imp (l := (scanSign (text.dropWhile isSpace)).2)
      rw [hdigits]
      exact List.mem_cons_self

theorem Denotes.scanUlong {text : List Char} {n : ℕ} (h : Denotes text n) : scanUlong text = some n := by
  obtain ⟨d, tail, rfl⟩ := List.exists_cons_of_ne_nil h.nonempty
  have hd := h.digits d List.mem_cons_self
  have htail : tail.takeWhile Char.isDigit = tail :=
    List.takeWhile_eq_self_iff.mpr fun c hc => h.digits c (List.mem_cons_of_mem d hc)
  have hvalue : digitsValue (d :: tail) = n := (digitsValue_eq _).trans h.value
  have hscan := @scanUlong_eq [] (by simp) none d hd tail
  rw [htail, hvalue, Option.getD_none, toUlong, if_neg (not_le.mpr h.fits)] at hscan
  exact hscan

end Scan

section Config

variable (κ) [Inhabited κ]

theorem placeOf_file (media : FxMedia) (relative : List Char) :
    placeOf (configOf κ (fxId media ++ relative)) = some (.file media relative) := by
  cases media <;> rfl

/-- A raw mount gives what the scan of the rest of the path gives. -/
theorem placeOf_sector (flash : LxFlash) (text : List Char) :
    placeOf (configOf κ (rawId flash ++ text)) = (scanUlong text).map (.sector flash) := by
  cases flash
  · change placeOf (rawConfig .settings .nandSettings text, []) = _
    rw [rawConfig]
    cases scanUlong text <;> rfl
  · change placeOf (rawConfig .backtrace .nandBacktrace text, []) = _
    rw [rawConfig]
    cases scanUlong text <;> rfl

theorem starts_of_placeOf {path : List Char} {place : Place} (h : placeOf (configOf κ path) = some place) :
    (∃ media relative, path = fxId media ++ relative) ∨ ∃ flash text, path = rawId flash ++ text := by
  by_cases hsd : strncmpEq path sdId
  · obtain ⟨relative, hpath⟩ := strncmpEq_iff.mp hsd
    exact Or.inl ⟨.sdioDisk, relative, hpath.symm⟩
  by_cases hflash : strncmpEq path flashId
  · obtain ⟨relative, hpath⟩ := strncmpEq_iff.mp hflash
    exact Or.inl ⟨.flashDisk, relative, hpath.symm⟩
  by_cases hsettings : strncmpEq path settingsId
  · obtain ⟨text, hpath⟩ := strncmpEq_iff.mp hsettings
    exact Or.inr ⟨.nandSettings, text, hpath.symm⟩
  by_cases hbacktrace : strncmpEq path backtraceId
  · obtain ⟨text, hpath⟩ := strncmpEq_iff.mp hbacktrace
    exact Or.inr ⟨.nandBacktrace, text, hpath.symm⟩
  · rw [configOf, vfsGetConfig, if_neg hsd, if_neg hflash, if_neg hsettings, if_neg hbacktrace] at h
    cases h

theorem Refers.recognised {path : List Char} {place : Place} (h : Refers path place) :
    placeOf (configOf κ path) = some place := by
  cases h with
  | file media relative => exact placeOf_file κ media relative
  | sector flash hn => rw [placeOf_sector, hn.scanUlong, Option.map_some]

end Config

theorem refers_sector {flash : LxFlash} {text : List Char} {n : ℕ} :
    Refers (rawId flash ++ text) (.sector flash n) ↔ Denotes text n := by
  constructor
  · generalize hpath : rawId flash ++ text = path
    intro h
    cases h with
    | sector _ hn => rwa [List.append_cancel_left hpath]
  · exact Refers.sector flash

/-- The grammar is met by exactly the paths whose sector, if they have one, is properly named. -/
theorem recognised_iff (κ : Type*) [Inhabited κ] (path : List Char) : Recognised κ path ↔ Plain path := by
  constructor
  · rintro h flash text rfl
    by_contra hbad
    rw [not_or, not_not] at hbad
    obtain ⟨blanks, sign, d, tail, rfl, hblanks, hd⟩ := hbad.2
    have hplace := placeOf_sector κ flash (blanks ++ (signText sign ++ d :: tail))
    rw [scanUlong_eq hblanks sign hd tail, Option.map_some] at hplace
    exact hbad.1 ⟨_, refers_sector.mp ((h _).mp hplace)⟩
  · refine fun h place => ⟨fun hplace => ?_, Refers.recognised κ⟩
    rcases starts_of_placeOf κ hplace with ⟨media, relative, rfl⟩ | ⟨flash, text, rfl⟩
    · rw [placeOf_file] at hplace
      cases hplace
      exact Refers.file media relative
    · rw [placeOf_sector, Option.map_eq_some_iff] at hplace
      obtain ⟨n, hscan, rfl⟩ := hplace
      rcases h flash text rfl with ⟨m, hm⟩ | hbad
      · rw [hm.scanUlong] at hscan
        cases hscan
        exact Refers.sector flash hm
      · exact absurd (scannable_of_scanUlong hscan) hbad

/-- Text behind the number, a sign, a blank and too large a number are taken for sectors. -/
theorem sloppyNames_taken :
    ¬ Recognised ℕ "/settings/sector1x".toList ∧
      placeOf (configOf ℕ "/settings/sector1x".toList) = some (.sector .nandSettings 1) ∧
      placeOf (configOf ℕ "/backtrace/sector-1".toList) = some (.sector .nandBacktrace (2 ^ 32 - 1)) ∧
      placeOf (configOf ℕ "/settings/sector 7".toList) = some (.sector .nandSettings 7) ∧
      placeOf (configOf ℕ "/settings/sector4294967296".toList) =
        some (.sector .nandSettings (2 ^ 32 - 1)) := by
  refine ⟨fun h => ?_, rfl, rfl, rfl, rfl⟩
  have hrefers : Refers (rawId .nandSettings ++ ['1', 'x']) (.sector .nandSettings 1) := (h _).mp rfl
  exact absurd ((refers_sector.mp hrefers).digits 'x' (by decide)) (by decide)

end EtherBench.Vfs.Grammar
