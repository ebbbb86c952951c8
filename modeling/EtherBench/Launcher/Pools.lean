import Mathlib.Algebra.Group.Nat.Defs
import EtherBench.Muxer.Wire
import EtherBench.ThreadX.BlockPools

/-! # The pools that `launcher` creates

`ShellStreamConfig.h` and `task_muxer.h` compute the memory of a pool from the size of its
messages and the depth of its queue. All sizes are those of the target, with 32-bit words.
-/

namespace EtherBench.Launcher.Pools
open ThreadX BlockPools Muxer.Wire

structure Field where
  size : ℕ
  align : ℕ

/-- The end of a field that is laid behind `offset` bytes. -/
def place (offset : ℕ) (field : Field) : ℕ := alignUp field.align offset + field.size

/-- `sizeof` of a structure whose strictest field is a word. -/
def structSize (fields : List Field) : ℕ := alignUp 4 (fields.foldl place 0)

def pointer : Field := ⟨pointerSize, pointerSize⟩
def word : Field := ⟨4, 4⟩
def halfword : Field := ⟨2, 2⟩

def enumField : EnumAbi → ℕ → Field
  | .int, _ => word
  | .short, largest => if largest < 2 ^ 8 then ⟨1, 1⟩ else if largest < 2 ^ 16 then halfword else word

def shellStructSize (shellLineLength : ℕ) : ℕ := structSize [pointer, ⟨shellLineLength, 1⟩]

def shellPoolTotalSize (shellLineLength shellCommandFifoDepth : ℕ) : ℕ :=
  shellStructSize shellLineLength + pointerSize * shellCommandFifoDepth

/-- `ROUTER_COMMAND_SIZE`: source, destination, type, info, count, payload and its size. -/
def routerCommandSize (abi : EnumAbi) : ℕ :=
  structSize [enumField abi (1 <<< 11), enumField abi 0xFFFF, enumField abi 2, halfword, halfword, pointer, word]

def routerCommandFifoSize (abi : EnumAbi) (routerCommandFifoDepth : ℕ) : ℕ :=
  routerCommandFifoDepth * 2 + pointerSize * routerCommandSize abi

def parserPool (shellLineLength shellCommandFifoDepth memory : ℕ) : BlockPool ℕ :=
  txBlockPoolCreate (shellStructSize shellLineLength) memory
    (shellPoolTotalSize shellLineLength shellCommandFifoDepth)

def routerPool (abi : EnumAbi) (routerCommandFifoDepth memory : ℕ) : BlockPool ℕ :=
  txBlockPoolCreate (routerCommandSize abi) memory (routerCommandFifoSize abi routerCommandFifoDepth)

theorem create_serves_iff {blockSize poolSize depth : ℕ} (memory : ℕ) (hblock : 4 ∣ blockSize) :
    Serves depth (txBlockPoolCreate blockSize memory poolSize) ↔
      depth * (blockSize + pointerSize) ≤ poolSize := by
  have halign : alignUp alignTypeSize blockSize = blockSize := by
    rw [alignUp, alignTypeSize]
    omega
  rw [serves_iff, txBlockPoolCreate]
  simp only [length_linkBlocks, halign]
  rw [Nat.le_div_iff_mul_le (by rw [pointerSize]; omega)]
  obtain ⟨words, rfl⟩ := hblock
  have hstride : depth * (4 * words + pointerSize) = depth * (words + 1) * alignTypeSize := by
    rw [Nat.mul_assoc, pointerSize, alignTypeSize, Nat.add_mul, Nat.mul_comm 4]
  rw [hstride, alignTypeSize]
  omega

theorem structSize_dvd (fields : List Field) : 4 ∣ structSize fields := Nat.dvd_mul_left _ _

theorem shellStructSize_pos (shellLineLength : ℕ) : 0 < shellStructSize shellLineLength := by
  simp only [shellStructSize, structSize, List.foldl_cons, List.foldl_nil, place, alignUp, pointer, pointerSize]
  omega

theorem parserPool_serves_iff (shellLineLength shellCommandFifoDepth memory : ℕ) :
    Serves shellCommandFifoDepth (parserPool shellLineLength shellCommandFifoDepth memory) ↔
      shellCommandFifoDepth ≤ 1 := by
  refine (create_serves_iff memory (structSize_dvd _)).trans ?_
  rw [shellPoolTotalSize, Nat.mul_add, Nat.mul_comm pointerSize, Nat.add_le_add_iff_right]
  have hscale : shellCommandFifoDepth * shellStructSize shellLineLength ≤
      1 * shellStructSize shellLineLength ↔ shellCommandFifoDepth ≤ 1 :=
    Nat.mul_le_mul_right_iff (shellStructSize_pos shellLineLength)
  rwa [Nat.one_mul] at hscale

theorem routerPool_serves_iff (abi : EnumAbi) (routerCommandFifoDepth memory : ℕ) :
    Serves routerCommandFifoDepth (routerPool abi routerCommandFifoDepth memory) ↔
      routerCommandFifoDepth ≤ 3 := by
  refine (create_serves_iff memory (structSize_dvd _)).trans ?_
  change routerCommandFifoDepth * (routerCommandSize abi + pointerSize) ≤ _ ↔ _
  rw [routerCommandFifoSize]
  cases abi with
  | int =>
    rw [show routerCommandSize .int = 24 from rfl, pointerSize]
    omega
  | short =>
    rw [show routerCommandSize .short = 20 from rfl, pointerSize]
    omega

/-- The parser's memory has room for one block, whatever the length of a line, and the router's
for three. -/
theorem pools_serve_iff (abi : EnumAbi)
    (shellLineLength shellCommandFifoDepth routerCommandFifoDepth parserMemory routerMemory : ℕ) :
    (Serves shellCommandFifoDepth (parserPool shellLineLength shellCommandFifoDepth parserMemory) ∧
        Serves routerCommandFifoDepth (routerPool abi routerCommandFifoDepth routerMemory)) ↔
      shellCommandFifoDepth ≤ 1 ∧ routerCommandFifoDepth ≤ 3 := by
  rw [parserPool_serves_iff, routerPool_serves_iff]

/-- With the depths of the build, one allocated command leaves none for the four others, and the
router's pool is empty after eight of 64 messages. -/
theorem shipped_pools_starve :
    ¬ Serves 5 (parserPool 128 5 0) ∧ ¬ Serves 64 (routerPool .short 64 0) ∧
      ¬ Serves 64 (routerPool .int 64 0) := by
  simp [parserPool_serves_iff, routerPool_serves_iff]

end EtherBench.Launcher.Pools
