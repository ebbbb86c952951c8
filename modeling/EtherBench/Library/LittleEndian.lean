import Mathlib.Data.List.Basic
import Mathlib.Data.Nat.Digits.Defs

/-! # Records of little-endian numbers

A number in a given width, strings of 16-bit units, and the reading of a record field by field from
the front of a list.
-/

namespace EtherBench.Library.LittleEndian

def bytesOf : ℕ → ℕ → List UInt8
  | 0, _ => []
  | width + 1, value => .ofNat value :: bytesOf width (value / 256)

def numberOf (bytes : List UInt8) : ℕ := Nat.ofDigits 256 (bytes.map UInt8.toNat)

@[simp] theorem length_bytesOf (width value : ℕ) : (bytesOf width value).length = width := by
  induction width generalizing value with
  | zero => rfl
  | succ width ih => simp [bytesOf, ih]

theorem numberOf_bytesOf {width value : ℕ} (h : value < 256 ^ width) : numberOf (bytesOf width value) = value := by
  induction width generalizing value with
  | zero => simp_all [bytesOf, numberOf]
  | succ width ih =>
    have hrest := ih (Nat.div_lt_of_lt_mul (by rwa [Nat.pow_succ, Nat.mul_comm] at h))
    rw [numberOf] at hrest
    rw [bytesOf, numberOf, List.map_cons, Nat.ofDigits_cons, hrest, UInt8.toNat_ofNat']
    exact Nat.mod_add_div value 256

def unitBytes (units : List UInt16) : List UInt8 := units.flatMap fun unit => bytesOf 2 unit.toNat

def unitsOf : List UInt8 → List UInt16
  | low :: high :: rest => .ofNat (numberOf [low, high]) :: unitsOf rest
  | _ => []

@[simp] theorem length_unitBytes (units : List UInt16) : (unitBytes units).length = 2 * units.length := by
  induction units with
  | nil => rfl
  | cons unit units ih => simp [unitBytes] at ih ⊢; omega

theorem unitsOf_unitBytes (units : List UInt16) : unitsOf (unitBytes units) = units := by
  induction units with
  | nil => rfl
  | cons unit units ih =>
    have hunit : numberOf (bytesOf 2 unit.toNat) = unit.toNat := numberOf_bytesOf unit.toNat_lt
    change .ofNat (numberOf (bytesOf 2 unit.toNat)) :: unitsOf (unitBytes units) = _
    rw [hunit, ih, UInt16.ofNat_toNat]

/-! ## Reading a record -/

def takeBytes (count : ℕ) (bytes : List UInt8) : Option (List UInt8 × List UInt8) :=
  if count ≤ bytes.length then some (bytes.splitAt count) else none

def takeNumber (width : ℕ) (bytes : List UInt8) : Option (ℕ × List UInt8) :=
  (takeBytes width bytes).map fun field => (numberOf field.1, field.2)

theorem takeBytes_append {count : ℕ} {field : List UInt8} (h : field.length = count) (rest : List UInt8) :
    takeBytes count (field ++ rest) = some (field, rest) := by
  subst h
  simp [takeBytes]

theorem takeNumber_append {width value : ℕ} (h : value < 256 ^ width) (rest : List UInt8) :
    takeNumber width (bytesOf width value ++ rest) = some (value, rest) := by
  rw [takeNumber, takeBytes_append (length_bytesOf width value), Option.map_some, numberOf_bytesOf h]

end EtherBench.Library.LittleEndian
