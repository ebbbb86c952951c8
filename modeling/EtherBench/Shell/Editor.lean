import Mathlib.Data.List.Forall2
import EtherBench.Library.LineEditor
import EtherBench.Shell.StreamBase

/-! # The shell streams are line editors

What a stream types and submits is what a line editor of `SHELL_LINE_LENGTH - 1` characters
does with the same bytes. The buffer may hold anything after the line that is being edited.
-/

namespace EtherBench.Shell.Editor
open Parser.Command StreamBase Library.LineEditor

/-- The specification of the keys. -/
def shellKey (ch : UInt8) : Key :=
  if 32 ≤ ch ∧ ch ≤ 126 then .print
  else if ch = backspace ∨ ch = delete then .erase
  else if ch = carriageReturn ∨ ch = lineFeed then .submit
  else .ignore

/-- The lines that fit in the buffer with their terminator. -/
abbrev ShellLine := Line shellKey (shellLineLength - 1)

def asCommand (l : ShellLine) : List UInt8 := l.text ++ List.replicate (shellLineLength - l.text.length) 0

theorem shellKey_zero : shellKey 0 = .ignore := by decide

theorem print_ne_zero {ch : UInt8} (h : shellKey ch = .print) : ch ≠ 0 := by
  rintro rfl
  rw [shellKey_zero] at h
  cases h

theorem text_length_lt (l : ShellLine) : l.text.length < shellLineLength := by
  have h := l.bounded
  simp only [shellLineLength] at *
  omega

/-- The line that a stream is editing. -/
structure Holds (s : ShellStream) (l : ShellLine) : Prop where
  size : s.lineBuffer.length = shellLineLength
  len : s.currentLen = l.text.length
  text : s.lineBuffer.take s.currentLen = l.text

theorem shellStreamBase_holds (enableEcho : Bool) :
    Holds (shellStreamBase shellLineLength enableEcho) Line.empty := by
  constructor
  · exact List.length_replicate
  · rfl
  · rfl

theorem Holds.empty_of_zero {s : ShellStream} {l : ShellLine} (h : Holds s l) (hzero : s.currentLen = 0) :
    l = Line.empty := by
  have hnil : l.text = [] := List.eq_nil_of_length_eq_zero (h.len.symm.trans hzero)
  cases l with
  | mk text bounded printed =>
    subst hnil
    rfl

theorem Holds.congr {s t : ShellStream} {l : ShellLine} (h : Holds s l)
    (hbuffer : t.lineBuffer = s.lineBuffer) (hlen : t.currentLen = s.currentLen) : Holds t l := by
  constructor
  · rw [hbuffer]
    exact h.size
  · rw [hlen]
    exact h.len
  · rw [hbuffer, hlen]
    exact h.text

@[simp] theorem transmit_parserInput (s : ShellStream) (str : List UInt8) :
    (s.transmit str).parserInput = s.parserInput := rfl

@[simp] theorem echo_parserInput (s : ShellStream) (str : List UInt8) :
    (s.echo str).parserInput = s.parserInput := by
  unfold ShellStream.echo
  split <;> rfl

@[simp] theorem echo_lineBuffer (s : ShellStream) (str : List UInt8) :
    (s.echo str).lineBuffer = s.lineBuffer := by
  unfold ShellStream.echo
  split <;> rfl

@[simp] theorem echo_currentLen (s : ShellStream) (str : List UInt8) :
    (s.echo str).currentLen = s.currentLen := by
  unfold ShellStream.echo
  split <;> rfl

@[simp] theorem echo_requests (s : ShellStream) (str : List UInt8) :
    (s.echo str).requests = s.requests := by
  unfold ShellStream.echo
  split <;> rfl

section BuildRequest
variable (answers : ℕ → Submission) (s : ShellStream)

@[simp] theorem buildRequest_lineBuffer : (buildRequest answers s).lineBuffer = s.lineBuffer := by
  unfold buildRequest
  split
  · rfl
  · cases answers s.requests <;> simp

theorem buildRequest_requests (h : s.currentLen ≠ 0) :
    (buildRequest answers s).requests = s.requests + 1 := by
  unfold buildRequest
  rw [if_neg h]
  cases answers s.requests <;> simp

theorem buildRequest_parserInput (h : s.currentLen ≠ 0) : (buildRequest answers s).parserInput =
    s.parserInput ++ if answers s.requests = .accepted then [commandOf s.lineBuffer] else [] := by
  unfold buildRequest
  rw [if_neg h]
  cases answers s.requests <;> simp

end BuildRequest

theorem asCommand_length (l : ShellLine) : (asCommand l).length = shellLineLength := by
  have hlt := text_length_lt l
  rw [asCommand, List.length_append, List.length_replicate]
  omega

theorem strncpy_terminated (l : ShellLine) (rest : List UInt8) :
    strncpy (l.text ++ 0 :: rest) shellLineLength = asCommand l := by
  obtain ⟨room, hroom⟩ : ∃ room, shellLineLength - l.text.length = room + 1 := by
    have hlt := text_length_lt l
    exact ⟨shellLineLength - l.text.length - 1, by omega⟩
  have hnonzero : ∀ ch ∈ l.text, decide (ch ≠ 0) = true := by
    intro ch hch
    exact decide_eq_true (print_ne_zero (l.printed ch hch))
  have hlong : l.text.length ≤ shellLineLength := Nat.le_of_lt (text_length_lt l)
  have htext : ((l.text ++ 0 :: rest).take shellLineLength).takeWhile (· ≠ 0) = l.text := by
    rw [List.take_append, List.take_of_length_le hlong, hroom, List.take_succ_cons,
      List.takeWhile_append_of_pos hnonzero]
    simp
  simp only [strncpy, htext]
  rfl

/-- The terminator that `build_request` adds is there already. -/
theorem commandOf_terminated (l : ShellLine) (rest : List UInt8) :
    commandOf (l.text ++ 0 :: rest) = asCommand l := by
  rw [commandOf, strncpy_terminated]
  apply List.ext_getElem?
  intro i
  rw [List.getElem?_set]
  split
  · next hi =>
    subst hi
    have hlt := text_length_lt l
    have hroom : shellLineLength - 1 - l.text.length < shellLineLength - l.text.length := by omega
    rw [asCommand_length, asCommand, List.getElem?_append_right (by omega), List.getElem?_replicate,
      if_pos hroom, if_pos (by decide)]
  · rfl

section Keys
variable (answers : ℕ → Submission) (s : ShellStream) {ch : UInt8}

/-- The branches of the loop, by the key that a byte stands for. -/
theorem processChar_submit (hkey : shellKey ch = .submit) : processChar answers s ch =
    if s.currentLen = 0 ∧ ch = lineFeed then s
    else
      { buildRequest answers (s.store s.currentLen 0) with currentLen := 0 }.transmit shellNewLine := by
  unfold shellKey at hkey
  split at hkey
  · cases hkey
  · split at hkey
    · cases hkey
    · split at hkey
      · next hreturn => rw [processChar, if_pos hreturn]
      · cases hkey

theorem processChar_erase (hkey : shellKey ch = .erase) : processChar answers s ch =
    if 0 < s.currentLen then
      ({ s with currentLen := s.currentLen - 1 }.store (s.currentLen - 1) 0).echo (ascii "\x08 \x08")
    else s := by
  unfold shellKey at hkey
  split at hkey
  · cases hkey
  · split at hkey
    · next herase =>
      have hreturn : ¬ (ch = carriageReturn ∨ ch = lineFeed) := by
        rcases herase with rfl | rfl <;> decide
      rw [processChar, if_neg hreturn, if_pos herase]
    · split at hkey <;> cases hkey

theorem processChar_print (hkey : shellKey ch = .print) : processChar answers s ch =
    if s.currentLen < shellLineLength - 1 then
      { s.store s.currentLen ch with currentLen := s.currentLen + 1 }.echo [ch]
    else s := by
  unfold shellKey at hkey
  split at hkey
  · next hprint =>
    have hreturn : ¬ (ch = carriageReturn ∨ ch = lineFeed) := by
      rintro (rfl | rfl)
      · exact absurd hprint (by decide)
      · exact absurd hprint (by decide)
    have herase : ¬ (ch = backspace ∨ ch = delete) := by
      rintro (rfl | rfl)
      · exact absurd hprint (by decide)
      · exact absurd hprint (by decide)
    rw [processChar, if_neg hreturn, if_neg herase, if_pos hprint]
  · split at hkey
    · cases hkey
    · split at hkey <;> cases hkey

theorem processChar_ignore (hkey : shellKey ch = .ignore) : processChar answers s ch = s := by
  unfold shellKey at hkey
  split at hkey
  · cases hkey
  · next hprint =>
    split at hkey
    · cases hkey
    · next herase =>
      split at hkey
      · cases hkey
      · next hreturn => rw [processChar, if_neg hreturn, if_neg herase, if_neg hprint]

end Keys

theorem Holds.split {s : ShellStream} {l : ShellLine} (h : Holds s l) :
    ∃ ch rest, s.lineBuffer = l.text ++ ch :: rest := by
  have hlt := text_length_lt l
  have hdrop : (s.lineBuffer.drop s.currentLen).length ≠ 0 := by
    rw [List.length_drop, h.size, h.len]
    omega
  obtain ⟨ch, rest, hrest⟩ := List.exists_cons_of_length_pos (Nat.pos_of_ne_zero hdrop)
  exact ⟨ch, rest, by rw [← hrest, ← h.text, List.take_append_drop]⟩

theorem Holds.of_append {s : ShellStream} {l : ShellLine} (rest : List UInt8)
    (hbuffer : s.lineBuffer = l.text ++ rest) (hsize : s.lineBuffer.length = shellLineLength)
    (hlen : s.currentLen = l.text.length) : Holds s l where
  size := hsize
  len := hlen
  text := by rw [hbuffer, hlen, List.take_left]

/-- The items whose request is accepted; the first of them is request number `n`. -/
def granted {β : Type*} (answers : ℕ → Submission) : ℕ → List β → List β
  | _, [] => []
  | n, b :: bs => (if answers n = .accepted then [b] else []) ++ granted answers (n + 1) bs

section Granted
variable {β : Type*} (answers : ℕ → Submission)

@[simp] theorem granted_nil (n : ℕ) : granted answers n ([] : List β) = [] := rfl

theorem granted_singleton (n : ℕ) (b : β) :
    granted answers n [b] = if answers n = .accepted then [b] else [] := List.append_nil _

theorem granted_append (n : ℕ) (as bs : List β) :
    granted answers n (as ++ bs) = granted answers n as ++ granted answers (n + as.length) bs := by
  induction as generalizing n with
  | nil => rfl
  | cons a as ih =>
    have hindex : n + 1 + as.length = n + (a :: as).length := by
      rw [List.length_cons]
      omega
    rw [List.cons_append, granted, ih, granted, List.append_assoc, hindex]

theorem granted_all (n : ℕ) (bs : List β) : granted (fun _ => .accepted) n bs = bs := by
  induction bs generalizing n with
  | nil => rfl
  | cons b bs ih => rw [granted, ih, if_pos rfl, List.singleton_append]

theorem granted_shift (k r i : ℕ) (bs : List β) :
    granted (fun n => answers (k + (n - r))) (r + i) bs = granted answers (k + i) bs := by
  induction bs generalizing i with
  | nil => rfl
  | cons b bs ih =>
    rw [granted, granted, Nat.add_sub_cancel_left, Nat.add_assoc r i 1, Nat.add_assoc k i 1, ih]

end Granted

/-- What a stream has sent to the parser after some keys, and the line it is left with. -/
structure Typed (answers : ℕ → Submission) (s t : ShellStream) (r : ShellLine × List ShellLine) : Prop where
  holds : Holds t r.1
  requests : t.requests = s.requests + r.2.length
  sent : t.parserInput = s.parserInput ++ (granted answers s.requests r.2).map asCommand

theorem Typed.refl {answers : ℕ → Submission} {s : ShellStream} {l : ShellLine} (h : Holds s l) :
    Typed answers s s (l, []) :=
  ⟨h, rfl, (List.append_nil _).symm⟩

theorem Typed.quiet {answers : ℕ → Submission} {s t : ShellStream} {l : ShellLine} (h : Holds t l)
    (hrequests : t.requests = s.requests) (hsent : t.parserInput = s.parserInput) :
    Typed answers s t (l, []) :=
  ⟨h, hrequests, hsent.trans (List.append_nil _).symm⟩

section Step
variable {answers : ℕ → Submission} {s : ShellStream} {l : ShellLine} {ch : UInt8}

theorem print_typed (h : Holds s l) (hkey : shellKey ch = .print) :
    Typed answers s (processChar answers s ch) (l.push ch hkey, []) := by
  rw [processChar_print answers s hkey, Line.push, h.len]
  split
  · obtain ⟨old, rest, hbuffer⟩ := h.split
    have hset : (s.store l.text.length ch).lineBuffer = (l.text ++ [ch]) ++ rest := by
      simp [ShellStream.store, hbuffer]
    apply Typed.quiet
    · apply Holds.of_append rest
      · rw [echo_lineBuffer]
        exact hset
      · rw [echo_lineBuffer]
        exact List.length_set.trans h.size
      · simp
    · simp [ShellStream.store]
    · simp [ShellStream.store]
  · exact Typed.refl h

theorem erase_typed (h : Holds s l) (hkey : shellKey ch = .erase) :
    Typed answers s (processChar answers s ch) (l.pop, []) := by
  rw [processChar_erase answers s hkey, h.len]
  split
  · next hpos =>
    obtain ⟨old, rest, hbuffer⟩ := h.split
    have hne : l.text ≠ [] := List.ne_nil_of_length_pos hpos
    have hlast : l.text.dropLast ++ [l.text.getLast hne] = l.text := List.dropLast_append_getLast hne
    have hset : s.lineBuffer.set (l.text.length - 1) 0 = l.text.dropLast ++ 0 :: old :: rest := by
      rw [hbuffer, ← hlast]
      simp
    apply Typed.quiet
    · apply Holds.of_append (0 :: old :: rest)
      · rw [echo_lineBuffer]
        exact hset
      · rw [echo_lineBuffer]
        exact List.length_set.trans h.size
      · rw [echo_currentLen]
        exact List.length_dropLast.symm
    · simp [ShellStream.store]
    · simp [ShellStream.store]
  · next hzero =>
    have hnil : l.text = [] := List.eq_nil_of_length_eq_zero (by omega)
    have hpop : l.pop = l := by
      cases l with
      | mk text bounded printed => simp_all [Line.pop]
    rw [hpop]
    exact Typed.refl h

theorem Holds.terminate (h : Holds s l) : Holds (s.store s.currentLen 0) l ∧
    commandOf (s.store s.currentLen 0).lineBuffer = asCommand l := by
  obtain ⟨old, rest, hbuffer⟩ := h.split
  have hset : (s.store s.currentLen 0).lineBuffer = l.text ++ 0 :: rest := by
    simp [ShellStream.store, hbuffer, h.len]
  refine ⟨Holds.of_append (0 :: rest) hset (List.length_set.trans h.size) h.len, ?_⟩
  rw [hset]
  exact commandOf_terminated l rest

theorem submit_typed (h : Holds s l) (hkey : shellKey ch = .submit) :
    Typed answers s (processChar answers s ch) (if l.text = [] then (l, []) else (Line.empty, [l])) := by
  rw [processChar_submit answers s hkey]
  obtain ⟨hheld, hcommand⟩ := h.terminate
  by_cases hnil : l.text = []
  · have hzero : s.currentLen = 0 := by rw [h.len, hnil, List.length_nil]
    rw [if_pos hnil]
    split
    · exact Typed.refl h
    · have hrefused : buildRequest answers (s.store s.currentLen 0) = s.store s.currentLen 0 :=
        if_pos hzero
      rw [hrefused]
      exact Typed.quiet (hheld.congr rfl hzero.symm) rfl rfl
  · have hpos : s.currentLen ≠ 0 := by
      rw [h.len]
      exact mt List.eq_nil_of_length_eq_zero hnil
    have hbuilt : (s.store s.currentLen 0).currentLen ≠ 0 := hpos
    rw [if_neg fun hempty => hpos hempty.1, if_neg hnil]
    constructor
    · apply Holds.of_append (s.lineBuffer.set s.currentLen 0)
      · exact buildRequest_lineBuffer answers _
      · change (buildRequest answers (s.store s.currentLen 0)).lineBuffer.length = shellLineLength
        rw [buildRequest_lineBuffer]
        exact hheld.size
      · rfl
    · exact buildRequest_requests answers _ hbuilt
    · change (buildRequest answers (s.store s.currentLen 0)).parserInput =
        s.parserInput ++ (granted answers s.requests [l]).map asCommand
      rw [buildRequest_parserInput answers _ hbuilt, hcommand, granted_singleton, apply_ite (List.map asCommand)]
      rfl

/-- One byte: the stream does what the line editor does. -/
theorem processChar_typed (h : Holds s l) (ch : UInt8) :
    Typed answers s (processChar answers s ch) (l.feed ch) := by
  cases hkey : shellKey ch with
  | print =>
    rw [Line.feed_print hkey]
    exact print_typed h hkey
  | erase =>
    rw [Line.feed_erase hkey]
    exact erase_typed h hkey
  | submit =>
    rw [Line.feed_submit hkey]
    exact submit_typed h hkey
  | ignore =>
    rw [Line.feed_ignore hkey, processChar_ignore answers s hkey]
    exact Typed.refl h

end Step

theorem Typed.trans {answers : ℕ → Submission} {s t u : ShellStream} {l m : ShellLine}
    {ls ms : List ShellLine} (h : Typed answers s t (l, ls)) (hrest : Typed answers t u (m, ms)) :
    Typed answers s u (m, ls ++ ms) where
  holds := hrest.holds
  requests := by
    rw [hrest.requests, h.requests, List.length_append, Nat.add_assoc]
  sent := by
    rw [hrest.sent, h.sent, h.requests, granted_append, List.map_append, List.append_assoc]

theorem foldl_typed {answers : ℕ → Submission} {s : ShellStream} {l : ShellLine} (h : Holds s l)
    (bytes : List UInt8) : Typed answers s (bytes.foldl (processChar answers) s) (l.type bytes) := by
  induction bytes generalizing s l with
  | nil => exact Typed.refl h
  | cons ch bytes ih =>
    have hfirst : Typed answers s _ _ := processChar_typed h ch
    rw [Line.type_cons]
    exact hfirst.trans (ih hfirst.holds)

theorem process_typed {answers : ℕ → Submission} {s : ShellStream} {l : ShellLine} (h : Holds s l)
    (chunk : Chunk) : Typed answers s (process answers s chunk) (l.type chunk.bytes) := by
  rw [process_eq]
  exact foldl_typed h chunk.bytes

theorem chunks_typed {answers : ℕ → Submission} {s : ShellStream} {l : ShellLine} (h : Holds s l)
    (chunks : List Chunk) :
    Typed answers s (chunks.foldl (process answers) s) (l.type (chunks.flatMap Chunk.bytes)) := by
  induction chunks generalizing s l with
  | nil => exact Typed.refl h
  | cons chunk chunks ih =>
    have hfirst : Typed answers s _ _ := process_typed h chunk
    rw [List.flatMap_cons, Line.type_append]
    exact hfirst.trans (ih hfirst.holds)

/-- A command buffer with the text of a line: its terminator lies inside of the buffer, and
nothing is left behind it. -/
structure Carries (l : ShellLine) (command : List UInt8) : Prop where
  size : command.length = shellLineLength
  terminated : l.text.length < shellLineLength
  text : command.takeWhile (· ≠ 0) = l.text
  clean : ∀ i, l.text.length ≤ i → i < shellLineLength → command[i]? = some 0

theorem asCommand_carries (l : ShellLine) : Carries l (asCommand l) where
  size := asCommand_length l
  terminated := text_length_lt l
  text := by
    have hnonzero : ∀ ch ∈ l.text, decide (ch ≠ 0) = true := by
      intro ch hch
      exact decide_eq_true (print_ne_zero (l.printed ch hch))
    rw [asCommand, List.takeWhile_append_of_pos hnonzero]
    simp
  clean := by
    intro i hlow hhigh
    rw [asCommand, List.getElem?_append_right hlow, List.getElem?_replicate, if_pos (by omega)]

/-- However the bytes are cut into calls of `process`, the commands sent to the parser are the
lines of a line editor, none of them empty, each alone in its buffer. -/
theorem process_refines (enableEcho : Bool) (chunks : List Chunk) :
    let stream := chunks.foldl (process fun _ => .accepted) (shellStreamBase shellLineLength enableEcho)
    let lines := ((Line.empty : ShellLine).type (chunks.flatMap Chunk.bytes)).2
    List.Forall₂ Carries lines stream.parserInput ∧ ∀ l ∈ lines, l.text ≠ [] := by
  intro stream lines
  have htyped : Typed (fun _ => .accepted) _ stream _ :=
    chunks_typed (shellStreamBase_holds enableEcho) chunks
  have hsent : stream.parserInput = lines.map asCommand := by
    rw [← granted_all 0 lines]
    exact htyped.sent
  constructor
  · rw [hsent, List.forall₂_map_right_iff]
    exact List.forall₂_same.mpr fun l _ => asCommand_carries l
  · intro l hl
    exact Line.type_ne_nil hl

example : ((Line.empty : ShellLine).type (ascii "lx\x08s\r\n")).2.map Line.text = [ascii "ls"] := by decide

end EtherBench.Shell.Editor
