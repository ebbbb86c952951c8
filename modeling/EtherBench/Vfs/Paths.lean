import Mathlib.Algebra.Group.Nat.Defs
import Mathlib.Data.List.Basic

/-! # Paths of the virtual file system

`_vfs_get_config` in `filex/app/src/vfs.c` compares the start of a path with four
identifiers and scans the sector number of the two raw mounts with `sscanf`. A path is
the list of its characters before the terminator.
-/

namespace EtherBench.Vfs.Paths

def settingsId : List Char := "/settings/sector".toList
def backtraceId : List Char := "/backtrace/sector".toList
def sdId : List Char := "/sd/".toList
def flashId : List Char := "/flash/".toList

/-- `strncmp(path, id, sizeof(id) - 1) == 0`. -/
def strncmpEq (path id : List Char) : Bool := id.isPrefixOf path

theorem strncmpEq_iff {path id : List Char} : strncmpEq path id = true ↔ id <+: path :=
  List.isPrefixOf_iff_prefix

/-- `isspace` of the C locale. -/
def isSpace (c : Char) : Bool := c = ' ' ∨ ('\t' ≤ c ∧ c ≤ '\r')

/-- The sign that a conversion of `sscanf` accepts, and the rest. -/
def scanSign : List Char → Bool × List Char
  | '-' :: s => (true, s)
  | '+' :: s => (false, s)
  | s => (false, s)

def digitsValue (digits : List Char) : ℕ :=
  digits.foldl (fun n c => 10 * n + (c.toNat - '0'.toNat)) 0

/-- `strtoul` on 32 bits: too large a value saturates, a sign negates modulo `2 ^ 32`. -/
def toUlong (negative : Bool) (n : ℕ) : ℕ :=
  if 2 ^ 32 ≤ n then 2 ^ 32 - 1
  else if negative then (2 ^ 32 - n) % 2 ^ 32
  else n

/-- `sscanf(s, "%lu", &sector)`: blanks, a sign, then at least one digit; `none` is
every outcome other than one conversion. -/
def scanUlong (s : List Char) : Option ℕ :=
  let signed := scanSign (s.dropWhile isSpace)
  match signed.2.takeWhile Char.isDigit with
  | [] => none
  | digits => some (toUlong signed.1 (digitsValue digits))

end EtherBench.Vfs.Paths
