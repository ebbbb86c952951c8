import Mathlib.Algebra.Group.Nat.Defs
import EtherBench.Parser.Generator

/-! # The shell streams

`ShellStreamBase` of `tasks/shell/src/ShellStream/ShellStreamBase.cpp` edits a line in a
buffer of its own and hands it over to the parser. A `char` is a byte. What the stream sends
to `hw_transmit` is kept, and so is every command that `build_request` puts in `parser_input`.
-/

namespace EtherBench.Shell.StreamBase
open Parser.Command

def ascii (text : String) : List UInt8 := text.toList.map fun c => c.toNat.toUInt8

def shellNewLine : List UInt8 := ascii "\n\rEtherBench > "

/-- What `build_request` meets in `parser_pool` and in `parser_input`. -/
inductive Submission where
  | accepted
  | noMemory
  | fifoFull
  deriving DecidableEq

/-- `ShellStreamBase`, with the requests that it has made so far. -/
structure ShellStream where
  lineBuffer : List UInt8
  currentLen : ℕ
  echoEnabled : Bool
  requests : ℕ
  parserInput : List (List UInt8)
  transmitted : List UInt8

/-- The constructor clears the buffer it is given. -/
def shellStreamBase (bufferSize : ℕ) (enableEcho : Bool) : ShellStream :=
  ⟨List.replicate bufferSize 0, 0, enableEcho, 0, [], []⟩

namespace ShellStream

def transmit (s : ShellStream) (str : List UInt8) : ShellStream :=
  { s with transmitted := s.transmitted ++ str }

/-- `if (this->echo_enabled) this->transmit(str);` -/
def echo (s : ShellStream) (str : List UInt8) : ShellStream := if s.echoEnabled then s.transmit str else s

def store (s : ShellStream) (i : ℕ) (ch : UInt8) : ShellStream :=
  { s with lineBuffer := s.lineBuffer.set i ch }

end ShellStream

/-- `strncpy`: the characters before the terminator, and zeros up to `n` bytes. -/
def strncpy (src : List UInt8) (n : ℕ) : List UInt8 :=
  let text := (src.take n).takeWhile (· ≠ 0)
  text ++ List.replicate (n - text.length) 0

/-- The `command` array of a request. -/
def commandOf (lineBuffer : List UInt8) : List UInt8 :=
  (strncpy lineBuffer shellLineLength).set (shellLineLength - 1) 0

def buildRequest (answers : ℕ → Submission) (s : ShellStream) : ShellStream :=
  if s.currentLen = 0 then s
  else
    let t := { s with requests := s.requests + 1 }
    match answers s.requests with
    | .noMemory => t.echo (ascii "Could not transmit the command. Could not fetch enough memory.")
    | .fifoFull => t.echo (ascii "Could not send the command to the parser. The FIFO is full.")
    | .accepted => { t with parserInput := t.parserInput ++ [commandOf t.lineBuffer] }

def carriageReturn : UInt8 := 13
def lineFeed : UInt8 := 10
def backspace : UInt8 := 8
def delete : UInt8 := 0x7F

/-- One turn of the loop of `process`. -/
def processChar (answers : ℕ → Submission) (s : ShellStream) (ch : UInt8) : ShellStream :=
  if ch = carriageReturn ∨ ch = lineFeed then
    if s.currentLen = 0 ∧ ch = lineFeed then s
    else
      let t := buildRequest answers (s.store s.currentLen 0)
      { t with currentLen := 0 }.transmit shellNewLine
  else if ch = backspace ∨ ch = delete then
    if 0 < s.currentLen then
      ({ s with currentLen := s.currentLen - 1 }.store (s.currentLen - 1) 0).echo (ascii "\x08 \x08")
    else s
  else if 32 ≤ ch ∧ ch ≤ 126 then
    if s.currentLen < shellLineLength - 1 then
      { s.store s.currentLen ch with currentLen := s.currentLen + 1 }.echo [ch]
    else s
  else s

/-- The bytes of one call of `process`. An array is never larger than `PTRDIFF_MAX`. -/
structure Chunk where
  bytes : List UInt8
  fits : bytes.length < 2 ^ 31

def toInt (len : ℕ) : ℤ := (BitVec.ofNat 32 len).toInt

/-- `process`: the loop counts up to the length as an `int`. A null pointer and a length of
zero end it at once, and so does an empty chunk. -/
def process (answers : ℕ → Submission) (s : ShellStream) (chunk : Chunk) : ShellStream :=
  (chunk.bytes.take (toInt chunk.bytes.length).toNat).foldl (processChar answers) s

theorem toInt_eq {len : ℕ} (h : len < 2 ^ 31) : toInt len = len := by
  rw [toInt, BitVec.toInt_eq_toNat_of_lt]
  · rw [BitVec.toNat_ofNat, Nat.mod_eq_of_lt (by omega)]
  · rw [BitVec.toNat_ofNat, Nat.mod_eq_of_lt (by omega)]
    omega

/-- The conversion loses nothing of a chunk. -/
theorem process_eq (answers : ℕ → Submission) (s : ShellStream) (chunk : Chunk) :
    process answers s chunk = chunk.bytes.foldl (processChar answers) s := by
  rw [process, toInt_eq chunk.fits, Int.toNat_natCast, List.take_length]

theorem strncpy_cons {ch : UInt8} (h : ch ≠ 0) (src : List UInt8) (n : ℕ) :
    strncpy (ch :: src) (n + 1) = ch :: strncpy src n := by
  simp [strncpy, h]

theorem strncpy_stop {src : List UInt8} (h : src.headD 0 = 0) (n : ℕ) :
    strncpy src n = List.replicate n 0 := by
  cases src with
  | nil => simp [strncpy]
  | cons ch src =>
    cases n with
    | zero => simp [strncpy]
    | succ n => simp_all [strncpy]

theorem strncpy_text (src : List UInt8) (n : ℕ) :
    ((strncpy src (n + 1)).set n 0).takeWhile (· ≠ 0) = (src.takeWhile (· ≠ 0)).take n := by
  induction n generalizing src with
  | zero =>
    cases hcopy : strncpy src 1 <;> simp
  | succ n ih =>
    cases src with
    | nil => simp [strncpy_stop, List.replicate_succ]
    | cons ch src =>
      by_cases hzero : ch = 0
      · subst hzero
        simp [strncpy_stop, List.replicate_succ]
      · rw [strncpy_cons hzero, List.set_cons_succ, List.takeWhile_cons_of_pos (by simpa using hzero), ih,
          List.takeWhile_cons_of_pos (by simpa using hzero), List.take_succ_cons]

def chars (bytes : List UInt8) : List Char := bytes.map fun b => Char.ofNat b.toNat

theorem charOfByte_eq_nul (b : UInt8) : Char.ofNat b.toNat = '\x00' ↔ b = 0 :=
  Parser.Generator.charOfByte_injective.eq_iff' rfl

/-- The command array holds the text that the parser's model of `build_request` gives it. -/
theorem commandOf_text {S : Type*} (stream : S) (lineBuffer : List UInt8) :
    chars ((commandOf lineBuffer).takeWhile (· ≠ 0)) = (fillRequest stream (chars lineBuffer)).command := by
  have htext : (commandOf lineBuffer).takeWhile (· ≠ 0) =
      (lineBuffer.takeWhile (· ≠ 0)).take (shellLineLength - 1) := strncpy_text lineBuffer _
  have hnul : (fun b : UInt8 => decide (Char.ofNat b.toNat ≠ '\x00')) = fun b => decide (b ≠ 0) := by
    funext b
    simp only [ne_eq, charOfByte_eq_nul]
  rw [htext, fillRequest, cString, chars, chars, List.takeWhile_map, ← List.map_take]
  exact congrArg (fun p => (((lineBuffer.takeWhile p).take (shellLineLength - 1)).map _)) hnul.symm

end EtherBench.Shell.StreamBase
