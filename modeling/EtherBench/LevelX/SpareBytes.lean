import EtherBench.LevelX.SectorStore
import EtherBench.Library.LittleEndian
import EtherBench.Library.Memory
import Mathlib.Tactic.SplitIfs

/-! # The spare bytes of a page

LevelX writes the type of a page into a word among its spare bytes, behind the mark of a bad block, and with it
the number of the page in its table or that of the sector.
-/

namespace EtherBench.LevelX.SpareBytes
open Nand.Device Library.LittleEndian Library.Memory
open NandFlash (PageType)

def gd25BadBlockSize : ℕ := 2
def gd25SpareBlockSize : ℕ := gd25PageOob / 2 - gd25BadBlockSize
def gd25SpareBlockOffset : ℕ := gd25BadBlockSize
def gd25SpareBlock2Offset : ℕ := gd25SpareBlockOffset + gd25SpareBlockSize

def lxNandGoodBlock : UInt8 := 0xFF

def lxNandPageTypeDeviceInfo : BitVec 32 := 0x10000000
def lxNandPageTypeEraseCountTable : BitVec 32 := 0x20000000
def lxNandPageTypeBlockMappingTable : BitVec 32 := 0x30000000
def lxNandPageTypeUserData : BitVec 32 := 0x40000000
def lxNandPageTypeUserDataReleased : BitVec 32 := 0x50000000
def lxNandPageTypeBlockStatusTable : BitVec 32 := 0x80000000
def lxNandPageTypeBlockLink : BitVec 32 := 0x90000000
def lxNandPageTypeUserDataMask : BitVec 32 := 0x0FFFFFFF
def lxNandPageTypePageNumberMask : BitVec 32 := 0x000000FF
def lxNandPageTypeFreePage : BitVec 32 := 0xFFFFFF00

/-- The word for a page of some type; that of a free page is what an erase leaves. -/
def pageTypeWord : PageType → BitVec 32
  | .free => .allOnes 32
  | .deviceInfo => lxNandPageTypeDeviceInfo
  | .eraseCountTable page => lxNandPageTypeEraseCountTable ||| .ofNat 32 page.toNat
  | .blockMappingTable page => lxNandPageTypeBlockMappingTable ||| .ofNat 32 page.toNat
  | .blockStatusTable page => lxNandPageTypeBlockStatusTable ||| .ofNat 32 page.toNat
  | .blockLink => lxNandPageTypeBlockLink
  | .userData sector => lxNandPageTypeUserData ||| .ofNat 32 sector
  | .userDataReleased sector => lxNandPageTypeUserDataReleased ||| .ofNat 32 sector

/-- What the comparisons of `_lx_nand_flash_sector_release` and the switch of `_lx_nand_flash_open` make of
the word. -/
def pageTypeOf (word : BitVec 32) : Option PageType :=
  let sector := (word &&& lxNandPageTypeUserDataMask).toNat
  let dataType := word &&& ~~~lxNandPageTypeUserDataMask
  let page := UInt8.ofNat (word &&& lxNandPageTypePageNumberMask).toNat
  let pageType := word &&& ~~~lxNandPageTypePageNumberMask
  if dataType = lxNandPageTypeUserData then some (.userData sector)
  else if dataType = lxNandPageTypeUserDataReleased then some (.userDataReleased sector)
  else if pageType = lxNandPageTypeDeviceInfo then some .deviceInfo
  else if pageType = lxNandPageTypeEraseCountTable then some (.eraseCountTable page)
  else if pageType = lxNandPageTypeBlockMappingTable then some (.blockMappingTable page)
  else if pageType = lxNandPageTypeBlockStatusTable then some (.blockStatusTable page)
  else if pageType = lxNandPageTypeFreePage then some .free
  else if pageType = lxNandPageTypeBlockLink then some .blockLink
  else none

/-- The sector numbers that leave the type in the word alone. -/
def Fits (type : PageType) : Prop := ∀ sector, type.sector? = some sector → sector < 0x10000000

instance Fits.decidable (type : PageType) : Decidable (Fits type) :=
  match h : type.sector? with
  | none => .isTrue (by simp [Fits, h])
  | some sector => decidable_of_iff (sector < 0x10000000) (by simp [Fits, h])

/-- A type and a number under a mask, where the type has no bits under it and the number no others. -/
theorem masked {mask type number : BitVec 32} (htype : type &&& mask = 0#32) (hnumber : number &&& mask = number) :
    (type ||| number) &&& mask = number ∧ (type ||| number) &&& ~~~mask = type := by
  have hrest : number &&& ~~~mask = 0#32 := by
    rw [← hnumber, BitVec.and_assoc, BitVec.and_not_self]
    exact BitVec.and_zero
  have hother : type &&& ~~~mask = type := by
    have hall : type &&& (mask ||| ~~~mask) = type := by rw [BitVec.or_not_self, BitVec.and_allOnes]
    rw [BitVec.and_or_distrib_left, htype] at hall
    rwa [BitVec.zero_or] at hall
  rw [BitVec.and_or_distrib_right, BitVec.and_or_distrib_right, htype, hnumber, hrest, hother]
  exact ⟨BitVec.zero_or, BitVec.or_zero⟩

theorem and_mask {bits number : ℕ} (h : number < 2 ^ bits) (hbits : bits ≤ 32) :
    BitVec.ofNat 32 number &&& BitVec.ofNat 32 (2 ^ bits - 1) = BitVec.ofNat 32 number := by
  have hle : 2 ^ bits ≤ 2 ^ 32 := Nat.pow_le_pow_right (by decide) hbits
  have hpos : 0 < 2 ^ bits := Nat.two_pow_pos bits
  apply BitVec.eq_of_toNat_eq
  rw [BitVec.toNat_and, BitVec.toNat_ofNat, BitVec.toNat_ofNat, Nat.mod_eq_of_lt (by omega),
    Nat.mod_eq_of_lt (by omega), Nat.and_two_pow_sub_one_eq_mod, Nat.mod_eq_of_lt h]

theorem userData_masked (type : BitVec 32) {sector : ℕ} (htype : type &&& lxNandPageTypeUserDataMask = 0#32)
    (hsector : sector < 0x10000000) :
    ((type ||| .ofNat 32 sector) &&& lxNandPageTypeUserDataMask).toNat = sector ∧
      (type ||| .ofNat 32 sector) &&& ~~~lxNandPageTypeUserDataMask = type := by
  have hlt : sector < 2 ^ 28 := hsector
  have hmask : BitVec.ofNat 32 sector &&& lxNandPageTypeUserDataMask = .ofNat 32 sector := and_mask hlt (by decide)
  obtain ⟨hnumber, hrest⟩ := masked htype hmask
  refine ⟨?_, hrest⟩
  rw [hnumber]
  exact Nat.mod_eq_of_lt (by omega)

theorem table_masked (type : BitVec 32) (page : UInt8) (htype : type &&& lxNandPageTypePageNumberMask = 0#32) :
    UInt8.ofNat ((type ||| .ofNat 32 page.toNat) &&& lxNandPageTypePageNumberMask).toNat = page ∧
      (type ||| .ofNat 32 page.toNat) &&& ~~~lxNandPageTypePageNumberMask = type := by
  have hpage : page.toNat < 2 ^ 8 := page.toNat_lt
  have hmask : BitVec.ofNat 32 page.toNat &&& lxNandPageTypePageNumberMask = .ofNat 32 page.toNat :=
    and_mask hpage (by decide)
  obtain ⟨hnumber, hrest⟩ := masked htype hmask
  refine ⟨?_, hrest⟩
  have hsmall : page.toNat % 2 ^ 32 = page.toNat := Nat.mod_eq_of_lt (by omega)
  rw [hnumber, BitVec.toNat_ofNat, hsmall, UInt8.ofNat_toNat]

/-- The page number of a table is no part of what tells the data of sectors apart. -/
theorem table_dataType (type : BitVec 32) (page : UInt8) (htype : type &&& lxNandPageTypeUserDataMask = 0#32) :
    (type ||| .ofNat 32 page.toNat) &&& ~~~lxNandPageTypeUserDataMask = type := by
  have hpage : page.toNat < 0x10000000 := Nat.lt_of_lt_of_le page.toNat_lt (by decide)
  exact (userData_masked type htype hpage).2

theorem pageTypeOf_pageTypeWord {type : PageType} (h : Fits type) : pageTypeOf (pageTypeWord type) = some type := by
  cases type with
  | free => decide
  | deviceInfo => decide
  | blockLink => decide
  | userData sector =>
    obtain ⟨hnumber, htype⟩ := userData_masked lxNandPageTypeUserData (by decide) (h sector rfl)
    rw [pageTypeOf, pageTypeWord, hnumber, htype, if_pos rfl]
  | userDataReleased sector =>
    obtain ⟨hnumber, htype⟩ := userData_masked lxNandPageTypeUserDataReleased (by decide) (h sector rfl)
    rw [pageTypeOf, pageTypeWord, hnumber, htype, if_neg (by decide), if_pos rfl]
  | eraseCountTable page =>
    have hdata := table_dataType lxNandPageTypeEraseCountTable page (by decide)
    obtain ⟨hnumber, htype⟩ := table_masked lxNandPageTypeEraseCountTable page (by decide)
    rw [pageTypeOf, pageTypeWord, hdata, hnumber, htype]
    rfl
  | blockMappingTable page =>
    have hdata := table_dataType lxNandPageTypeBlockMappingTable page (by decide)
    obtain ⟨hnumber, htype⟩ := table_masked lxNandPageTypeBlockMappingTable page (by decide)
    rw [pageTypeOf, pageTypeWord, hdata, hnumber, htype]
    rfl
  | blockStatusTable page =>
    have hdata := table_dataType lxNandPageTypeBlockStatusTable page (by decide)
    obtain ⟨hnumber, htype⟩ := table_masked lxNandPageTypeBlockStatusTable page (by decide)
    rw [pageTypeOf, pageTypeWord, hdata, hnumber, htype]
    rfl

theorem sector_of_type {word : BitVec 32} {type : PageType} {sector : ℕ} (h : pageTypeOf word = some type)
    (hsector : type.sector? = some sector) : (word &&& lxNandPageTypeUserDataMask).toNat = sector := by
  simp only [pageTypeOf] at h
  split_ifs at h <;> cases h <;> first | exact Option.some.inj hsector | cases hsector

def longGet (bytes : List UInt8) (offset : ℕ) : BitVec 32 := .ofNat 32 (numberOf ((bytes.drop offset).take 4))

/-- The spare bytes of a new page, with the number of the metadata block behind the type. -/
def spareBytes (number : ℕ) (type : PageType) : Page :=
  overlay (overlay erasedPage gd25SpareBlock2Offset (bytesOf 2 number)) gd25SpareBlockOffset
    (bytesOf 4 (pageTypeWord type).toNat)

theorem numberOf_word (word : BitVec 32) : BitVec.ofNat 32 (numberOf (bytesOf 4 word.toNat)) = word := by
  have hlt : word.toNat < 256 ^ 4 := word.isLt
  rw [numberOf_bytesOf hlt, BitVec.ofNat_toNat, BitVec.setWidth_eq]

theorem drop_take_slice {columns : Page} {start len offset : ℕ} {bytes : List UInt8}
    (hlen : offset + bytes.length ≤ len)
    (h : ∀ i < bytes.length, columns (start + (offset + i)) = bytes.getD i 0) :
    ((slice columns start len).drop offset).take bytes.length = bytes := by
  apply List.ext_getElem?
  intro i
  rw [List.getElem?_take]
  split
  · next hi =>
    rw [List.getElem?_drop, slice_getElem?, if_pos (by omega), h i hi, List.getD_eq_getElem?_getD,
      List.getElem?_eq_getElem hi, Option.getD_some]
  · next hi => rw [List.getElem?_eq_none (by omega)]

theorem spareBytes_word (number : ℕ) (type : PageType) {i : ℕ} (hi : i < 4) :
    spareBytes number type (gd25SpareBlockOffset + i) = (bytesOf 4 (pageTypeWord type).toNat).getD i 0 := by
  have hlength : i < (bytesOf 4 (pageTypeWord type).toNat).length := by rw [length_bytesOf]; exact hi
  rw [spareBytes, overlay, if_pos (Nat.le_add_right _ i), Nat.add_sub_cancel_left, List.getD_eq_getElem?_getD,
    List.getD_eq_getElem?_getD, List.getElem?_eq_getElem hlength]
  rfl

end EtherBench.LevelX.SpareBytes
