import EtherBench.Logger.TaskLogger

/-! # Formatting a line of the log

`add_log` of `tasks/logger/src/task_logger.cpp` with its local buffer, and the call that `_write` of
`filex/app/src/vfs_syscall.c` makes. The `printf` functions return the length that the whole text
would have had, and `local_buffer` is indexed with it.
-/

namespace EtherBench.Logger.AddLog
open Library.Memory Library.Transition TaskLogger

def decimal (n : ℤ) : List UInt8 :=
  (if n < 0 then [45] else []) ++ (Nat.toDigits 10 n.natAbs).map fun c => UInt8.ofNat c.toNat

/-- `"[%s] (%s:%d) "` -/
def headerText (logModule file : List UInt8) (line : ℤ) : List UInt8 :=
  [91] ++ logModule ++ [93, 32, 40] ++ file ++ [58] ++ decimal line ++ [41, 32]

/-- The arguments of `add_log`, with the text that the format and its arguments give. The
`printf` functions return an `int`. -/
structure LogCall where
  logModule : List UInt8
  file : List UInt8
  line : ℤ
  text : List UInt8
  header_lt : (headerText logModule file line).length < 2 ^ 31
  text_lt : text.length < 2 ^ 31

/-- What `snprintf` and `vsnprintf` store: the text as far as the size admits it and a terminator. -/
def snprintf (size : ℕ) (text : List UInt8) : List UInt8 :=
  if size = 0 then [] else text.take (size - 1) ++ [0]

namespace LogCall
variable (c : LogCall)

def header : List UInt8 := headerText c.logModule c.file c.line

def headerLen : ℕ := c.header.length

/-- `sizeof(local_buffer) - header_len`, the size that `vsnprintf` is given. -/
def sizeLeft : ℕ := (logMaxLength + 2 ^ 32 - c.headerLen) % 2 ^ 32

def lineEnd : ℕ := (c.text.length + c.headerLen) % 2 ^ 32

def messageLen : ℕ := (c.lineEnd + 2) % 2 ^ 32

/-- The stores relative to `local_buffer`, in their order, each with the index it starts at. -/
def stores : List (ℕ × List UInt8) :=
  [(0, snprintf logMaxLength c.header),
    (c.headerLen, snprintf c.sizeLeft c.text),
    (c.lineEnd, [10]),
    ((c.lineEnd + 1) % 2 ^ 32, [13]),
    ((c.lineEnd + 2) % 2 ^ 32, [0])]

/-- The stack from `local_buffer` on, over what it held before. -/
def localBuffer (stack : ℕ → UInt8) : ℕ → UInt8 :=
  c.stores.foldl (fun m entry => write m entry.1 entry.2) stack

def copied (stack : ℕ → UInt8) : List UInt8 := slice (c.localBuffer stack) 0 c.messageLen

/-- Header and text leave room for the line end and the terminator. -/
def Fits : Prop := c.headerLen + c.text.length + 3 ≤ logMaxLength

instance : Decidable c.Fits := inferInstanceAs (Decidable (_ ≤ _))

end LogCall

variable (s : State) (c : LogCall) (stack : ℕ → UInt8)

def newSize : ℕ := (s.bufferSize s.activeBuffer + c.messageLen) % 2 ^ 32

/-- `add_log`, where `stack` is what lies from `local_buffer` on before. -/
def addLog : State :=
  if newSize s c < logBufferSize then
    { s.store s.activeBuffer (s.bufferSize s.activeBuffer) (c.copied stack) with
      bufferSize := Function.update s.bufferSize s.activeBuffer (newSize s c)
      dmaTrigger :=
        if s.bufferSize s.activeBuffer < logBufferThreshold ∧ logBufferThreshold ≤ newSize s c then
          s.dmaTrigger + 1
        else s.dmaTrigger
      accepted := s.accepted ++ c.copied stack }
  else s

/-- `add_log` stays inside its buffers. -/
structure Contained : Prop where
  /-- every store into `local_buffer` -/
  stores : ∀ entry ∈ c.stores, ∀ i < entry.2.length, entry.1 + i < logMaxLength
  /-- the size for `vsnprintf` does not wrap -/
  sizeLeft : c.headerLen + c.sizeLeft = logMaxLength
  /-- `memcpy` reads nothing behind `local_buffer` -/
  source : newSize s c < logBufferSize → c.messageLen ≤ logMaxLength
  /-- and writes nothing behind the active buffer -/
  target : newSize s c < logBufferSize →
    s.bufferSize s.activeBuffer + c.messageLen ≤ logBufferSize
  /-- every buffer has room for what it is said to hold -/
  filled : ∀ b, (addLog s c stack).bufferSize b ≤ logBufferSize

/-- What happens to the logger: calls with any text, and everything that `logger_task` does. -/
inductive Event where
  | call (c : LogCall) (stack : ℕ → UInt8)
  | task (a : Action)

def step (s : State) : Event → Option State
  | .call c stack => some (addLog s c stack)
  | .task a => TaskLogger.step s a

def Bounded (s : State) : Prop := ∀ b, s.bufferSize b < logBufferSize

variable {s c stack}

theorem Bounded.update (h : Bounded s) {b : Fin 2} {size : ℕ} (hsize : size < logBufferSize) (b' : Fin 2) :
    Function.update s.bufferSize b size b' < logBufferSize := by
  by_cases hb : b' = b
  · subst b'
    rwa [Function.update_self]
  · rw [Function.update_of_ne hb]
    exact h b'

theorem addLog_bounded (h : Bounded s) (c : LogCall) (stack : ℕ → UInt8) : Bounded (addLog s c stack) := by
  rw [addLog]
  split
  · next hfit => exact h.update hfit
  · exact h

theorem task_bounded {t : State} {a : Action} (h : Bounded s) (hstep : TaskLogger.step s a = some t) :
    Bounded t := by
  have hzero : 0 < logBufferSize := by decide
  cases step_moves hstep with
  | stored hfit => exact h.update hfit
  | clearSize => exact h.update hzero
  | swap => exact h.update hzero
  | _ => exact h

theorem run_bounded {events : List Event} (hrun : run step initial events = some s) : Bounded s := by
  refine run_invariant ?_ (fun _ => Nat.zero_lt_succ 1023) hrun
  intro u e v hu hstep
  cases e with
  | call c stack =>
    have hadded : addLog u c stack = v := Option.some.inj hstep
    rw [← hadded]
    exact addLog_bounded hu c stack
  | task a => exact task_bounded hu hstep

theorem snprintf_length_le (size : ℕ) (text : List UInt8) : (snprintf size text).length ≤ size := by
  rw [snprintf]
  split
  · exact Nat.zero_le size
  · rw [List.length_append, List.length_take, List.length_singleton]
    omega

theorem LogCall.lineEnd_eq (c : LogCall) : c.lineEnd = c.headerLen + c.text.length := by
  have hheader : c.headerLen < 2 ^ 31 := c.header_lt
  have htext := c.text_lt
  rw [LogCall.lineEnd]
  omega

theorem LogCall.Fits.messageLen (h : c.Fits) : c.messageLen = c.headerLen + c.text.length + 2 := by
  rw [LogCall.Fits, logMaxLength] at h
  rw [LogCall.messageLen, c.lineEnd_eq]
  omega

theorem LogCall.Fits.sizeLeft (h : c.Fits) : c.headerLen + c.sizeLeft = logMaxLength := by
  rw [LogCall.Fits, logMaxLength] at h
  rw [LogCall.sizeLeft, logMaxLength]
  omega

theorem LogCall.Fits.newSize (h : c.Fits) (hs : Bounded s) :
    newSize s c = s.bufferSize s.activeBuffer + (c.headerLen + c.text.length + 2) := by
  have hsize : s.bufferSize s.activeBuffer < 1024 := hs s.activeBuffer
  rw [AddLog.newSize, h.messageLen]
  rw [LogCall.Fits, logMaxLength] at h
  omega

theorem contained_of_fits (hs : Bounded s) (h : c.Fits) : Contained s c stack := by
  have hend := c.lineEnd_eq
  have hfits : c.headerLen + c.text.length + 3 ≤ 256 := h
  constructor
  · intro entry hentry i hi
    simp only [LogCall.stores, List.mem_cons, List.not_mem_nil, or_false] at hentry
    rcases hentry with rfl | rfl | rfl | rfl | rfl
    · have hlength := snprintf_length_le logMaxLength c.header
      rw [Nat.zero_add]
      exact Nat.lt_of_lt_of_le hi hlength
    · have hlength := snprintf_length_le c.sizeLeft c.text
      have hroom := h.sizeLeft
      exact Nat.lt_of_lt_of_le (Nat.add_lt_add_left (Nat.lt_of_lt_of_le hi hlength) _) hroom.le
    all_goals
      simp only [List.length_singleton, logMaxLength] at hi ⊢
      omega
  · exact h.sizeLeft
  · intro _
    rw [h.messageLen, logMaxLength]
    omega
  · intro hfit
    rw [h.newSize hs] at hfit
    rw [h.messageLen]
    exact hfit.le
  · exact fun b => (addLog_bounded hs c stack b).le

theorem Contained.fits (h : Contained s c stack) : c.Fits := by
  have hend := c.lineEnd_eq
  have hnewline := h.stores (c.lineEnd, [10]) (by simp [LogCall.stores]) 0 Nat.zero_lt_one
  have hterminator := h.stores ((c.lineEnd + 2) % 2 ^ 32, [0]) (by simp [LogCall.stores]) 0 Nat.zero_lt_one
  simp only [logMaxLength] at hnewline hterminator
  rw [LogCall.Fits, logMaxLength]
  omega

theorem snprintf_room {size : ℕ} {text : List UInt8} (h : text.length < size) :
    snprintf size text = text ++ [0] := by
  rw [snprintf, if_neg (by omega), List.take_of_length_le (by omega)]

/-- What is copied is the line that the call asks for. -/
theorem copied_eq (h : c.Fits) (stack : ℕ → UInt8) : c.copied stack = c.header ++ c.text ++ [10, 13] := by
  have hend := c.lineEnd_eq
  have hroom := h.sizeLeft
  have hfits : c.headerLen + c.text.length + 3 ≤ 256 := h
  have hreturn : (c.lineEnd + 1) % 2 ^ 32 = c.headerLen + c.text.length + 1 := by omega
  have hlast : (c.lineEnd + 2) % 2 ^ 32 = c.headerLen + c.text.length + 2 := by omega
  have hheader : snprintf logMaxLength c.header = c.header ++ [0] :=
    snprintf_room (show c.headerLen < 256 by omega)
  have htext : snprintf c.sizeLeft c.text = c.text ++ [0] := by
    apply snprintf_room
    rw [logMaxLength] at hroom
    omega
  rw [LogCall.copied, h.messageLen, LogCall.localBuffer, LogCall.stores, hheader, htext, hreturn, hlast, hend]
  simp only [List.foldl_cons, List.foldl_nil]
  -- the stores from the last one to the first
  rw [slice_write_before _ (Nat.zero_add _).le]
  rw [show c.headerLen + c.text.length + 2 = c.headerLen + c.text.length + 1 + [(13 : UInt8)].length from rfl,
    slice_write_append]
  rw [show c.headerLen + c.text.length + 1 = c.headerLen + c.text.length + [(10 : UInt8)].length from rfl,
    slice_write_append]
  rw [write_append, slice_write_before _ (Nat.zero_add _).le, slice_write_append, write_append,
    slice_write_before _ (by rw [LogCall.headerLen])]
  rw [LogCall.headerLen, slice_write, List.append_assoc _ [10] [13]]
  rfl

def LogCall.message (c : LogCall) (h : c.Fits) : Message where
  text := c.header ++ c.text
  fits := by
    rw [List.length_append]
    exact h

/-- A call that fits is a message for the logger. -/
theorem addLog_refines (hs : Bounded s) (h : c.Fits) (stack : ℕ → UInt8) :
    addLog s c stack = TaskLogger.addLog s (c.message h) := by
  have hbytes : c.copied stack = (c.message h).bytes := copied_eq h stack
  have hlength : (c.message h).bytes.length = c.headerLen + c.text.length + 2 := by
    rw [Message.bytes, LogCall.message, List.length_append, List.length_append]
    rfl
  rw [addLog, TaskLogger.addLog, stored, hbytes, h.newSize hs, hlength]

/-- The text of `%.*s`. A negative precision counts as none. -/
def precision (len : ℤ) (ptr : List UInt8) : List UInt8 :=
  (if len < 0 then ptr else ptr.take len.toNat).takeWhile (· ≠ 0)

/-- The call that `_write` makes for `VFS_FD_STDOUT` and `VFS_FD_STDERR`. The build names the file. -/
def writeCall (file ptr : List UInt8) (len : ℤ)
    (hheader : (headerText [83, 89, 83, 67, 65, 76, 76] file 98).length < 2 ^ 31)
    (htext : (precision len ptr).length < 2 ^ 31) : LogCall where
  logModule := [83, 89, 83, 67, 65, 76, 76]
  file := file
  line := 98
  text := precision len ptr
  header_lt := hheader
  text_lt := htext

theorem precision_replicate (n : ℕ) : precision n (List.replicate n 65) = List.replicate n 65 := by
  rw [precision, if_neg (by omega), Int.toNat_natCast, List.take_of_length_le (by simp)]
  simp

def longWrite : LogCall :=
  writeCall [118, 102, 115] (List.replicate 300 65) (300 : ℕ) (by decide) (by
    rw [precision_replicate, List.length_replicate]
    decide)

/-- After any history, `add_log` stays inside its buffers exactly when header and text leave room
for the line end and the terminator. -/
theorem addLog_contained_iff {events : List Event} (hrun : run step initial events = some s) (c : LogCall)
    (stack : ℕ → UInt8) : Contained s c stack ↔ c.Fits :=
  ⟨Contained.fits, contained_of_fits (run_bounded hrun)⟩

/-- A short line at the start of the system. -/
theorem word_contained :
    Contained initial (writeCall [118, 102, 115] [104, 105] 2 (by decide) (by decide)) (fun _ => 0) :=
  (addLog_contained_iff (show run step initial [] = some initial from rfl) _ _).mpr (by decide)

/-- `_write` hands over more than `local_buffer` holds. -/
theorem longWrite_overruns :
    ¬ ∀ (events : List Event) (s : State), run step initial events = some s →
      ∀ (c : LogCall) (stack : ℕ → UInt8), Contained s c stack := by
  intro h
  have hfits := (h [] initial rfl longWrite (fun _ => 0)).fits
  have htext : longWrite.text = List.replicate 300 65 := precision_replicate 300
  rw [LogCall.Fits, htext, List.length_replicate, logMaxLength] at hfits
  omega

end EtherBench.Logger.AddLog
