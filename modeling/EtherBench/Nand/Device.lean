import Mathlib.Algebra.GroupWithZero.Nat
import Mathlib.Data.Nat.Notation
import Mathlib.Data.Set.Defs
import Mathlib.Logic.Function.Basic

/-! # The GD5F1GQ4 NAND chip

What the driver in `levelx/bsp/GD5F1GO4UBY1G` relies on of the chip. A page is addressed by
its row, the index of its block times 64 plus its place in the block. READ TO CACHE loads a
page; PROGRAM LOAD presets the cache to ones and takes data from a column on; PROGRAM EXECUTE
clears bits of the addressed page, and BLOCK ERASE sets all bits of a block. The last two need
a WRITE ENABLE and no protection, and may fail, with any contents left behind.
-/

namespace EtherBench.Nand.Device

def gd25PageSize : ℕ := 2048
def gd25PageOob : ℕ := 128
def gd25PageTotal : ℕ := gd25PageSize + gd25PageOob
def gd25BlockPages : ℕ := 64
def gd25BlockCountNormal : ℕ := 1024

def gd25FeatureRegProtection : UInt8 := 0xA0
def gd25FeatureRegFeature1 : UInt8 := 0xB0
def gd25FeatureRegStatus1 : UInt8 := 0xC0

def gd25FeatureBitQe : UInt8 := 0x01
def gd25FeatureBitPFail : UInt8 := 0x08
def gd25FeatureBitEFail : UInt8 := 0x04
def gd25FeatureBitWel : UInt8 := 0x02

/-- The ECC status has four values. -/
scoped instance neZeroFour : NeZero 4 := ⟨Nat.succ_ne_zero 3⟩

/-- The bytes of a page, or of the cache, by column. -/
abbrev Page := ℕ → UInt8

def erasedPage : Page := fun _ => 0xFF

structure Chip where
  page : ℕ → Page
  cache : Page
  writeEnabled : Bool
  protection : UInt8
  feature1 : UInt8
  programFail : Bool
  eraseFail : Bool
  ecc : Fin 4

/-- The commands that the driver builds, with the address it puts in them. -/
inductive Command where
  | writeEnable
  | writeDisable
  | getFeatures (reg : UInt8)
  | setFeatures (reg : UInt8)
  | readToCache (row : ℕ)
  | readFromCacheQio (column length : ℕ)
  | programLoadX4 (column length : ℕ)
  | programExecute (row : ℕ)
  | blockErase (row : ℕ)
  | reset
  deriving DecidableEq

def Command.row? : Command → Option ℕ
  | .readToCache row | .programExecute row | .blockErase row => some row
  | _ => none

/-- What is not up to the driver in one exchange on the bus: whether the call succeeds, whether
a refused one reached the chip all the same, whether a running poll matches just before, and
how the chip carries a command out. -/
structure Reaction where
  ok : Bool
  reached : Bool
  matched : Bool
  /-- What a failing program or erase leaves, by row. -/
  damage : Option (ℕ → Page)
  ecc : Fin 4
  /-- What a page load brings into the cache in place of the page. -/
  misread : Option Page

def overlay (page : Page) (column : ℕ) (data : List UInt8) : Page := fun c =>
  if column ≤ c then data.getD (c - column) (page c) else page c

def Chip.program (chip : Chip) (row : ℕ) : Option (ℕ → Page) → Chip
  | none => { chip with
      page := Function.update chip.page row fun c => chip.page row c &&& chip.cache c
      writeEnabled := false
      programFail := false }
  | some damage => { chip with
      page := Function.update chip.page row (damage row)
      writeEnabled := false
      programFail := true }

def setBlock (page : ℕ → Page) (block : ℕ) (pages : ℕ → Page) : ℕ → Page := fun row =>
  if row / gd25BlockPages = block then pages row else page row

def Chip.erase (chip : Chip) (row : ℕ) : Option (ℕ → Page) → Chip
  | none => { chip with
      page := setBlock chip.page (row / gd25BlockPages) fun _ => erasedPage
      writeEnabled := false
      eraseFail := false }
  | some damage => { chip with
      page := setBlock chip.page (row / gd25BlockPages) damage
      writeEnabled := false
      eraseFail := true }

/-- The chip carries a command out. A reset brings back the default configuration: all
blocks protected and the quad mode off. -/
def Chip.execute (chip : Chip) (r : Reaction) : Command → Chip
  | .writeEnable => { chip with writeEnabled := true }
  | .writeDisable => { chip with writeEnabled := false }
  | .getFeatures _ | .setFeatures _ | .readFromCacheQio _ _ => chip
  | .readToCache row => { chip with cache := r.misread.getD (chip.page row), ecc := r.ecc }
  | .programLoadX4 _ _ => { chip with cache := erasedPage }
  | .programExecute row =>
    if chip.writeEnabled && chip.protection == 0 then chip.program row r.damage
    else { chip with programFail := true }
  | .blockErase row =>
    if chip.writeEnabled && chip.protection == 0 then chip.erase row r.damage
    else { chip with eraseFail := true }
  | .reset => { chip with
      writeEnabled := false
      protection := 0x38
      feature1 := 0x10
      programFail := false
      eraseFail := false }

/-- The data phase of a command that sends bytes. -/
def Chip.take (chip : Chip) (data : List UInt8) : Command → Chip
  | .programLoadX4 column _ => { chip with cache := overlay chip.cache column data }
  | .setFeatures reg =>
    if reg = gd25FeatureRegProtection then { chip with protection := data.headD 0 }
    else if reg = gd25FeatureRegFeature1 then { chip with feature1 := data.headD 0 }
    else chip
  | _ => chip

/-- The register at C0h once the operation in progress is over. -/
def Chip.status1 (chip : Chip) : UInt8 :=
  (if chip.programFail then gd25FeatureBitPFail else 0) |||
    (if chip.eraseFail then gd25FeatureBitEFail else 0) |||
    (if chip.writeEnabled then gd25FeatureBitWel else 0) ||| (UInt8.ofNat chip.ecc.val <<< 4)

/-- The data phase of a command that reads bytes. -/
def Chip.give (chip : Chip) : Command → List UInt8
  | .readFromCacheQio column length => (List.range length).map fun i => chip.cache (column + i)
  | .getFeatures reg =>
    if reg = gd25FeatureRegStatus1 then [chip.status1]
    else if reg = gd25FeatureRegProtection then [chip.protection]
    else [chip.feature1]
  | _ => []

/-- A command whose effect on the array stays outside of the rows in `rows`. -/
def Command.Spares (rows : Set ℕ) : Command → Prop
  | .programExecute row => row ∉ rows
  | .blockErase row => ∀ r ∈ rows, r / gd25BlockPages ≠ row / gd25BlockPages
  | _ => True

/-- No reaction of the chip to a command reaches a row that the command spares. -/
theorem execute_page {rows : Set ℕ} {c : Command} (hc : c.Spares rows) (chip : Chip) (r : Reaction)
    {row : ℕ} (hrow : row ∈ rows) : (chip.execute r c).page row = chip.page row := by
  cases c with
  | programExecute target =>
    have hne : row ≠ target := fun h => hc (h ▸ hrow)
    rw [Chip.execute]
    split
    · cases r.damage with
      | none => exact Function.update_of_ne hne _ _
      | some damage => exact Function.update_of_ne hne _ _
    · rfl
  | blockErase target =>
    have hne := hc row hrow
    rw [Chip.execute]
    split
    · cases r.damage with
      | none => exact if_neg hne
      | some damage => exact if_neg hne
    · rfl
  | writeEnable => rfl
  | writeDisable => rfl
  | getFeatures _ => rfl
  | setFeatures _ => rfl
  | readToCache _ => rfl
  | readFromCacheQio _ _ => rfl
  | programLoadX4 _ _ => rfl
  | reset => rfl

theorem take_page (chip : Chip) (data : List UInt8) (c : Command) :
    (chip.take data c).page = chip.page := by
  cases c with
  | setFeatures reg =>
    rw [Chip.take]
    split
    · rfl
    · split <;> rfl
  | _ => rfl

end EtherBench.Nand.Device
