import EtherBench.Library.Transition
import EtherBench.Shell.Editor
import EtherBench.Shell.Bridges

/-! # Sessions of the shell streams

A session is what arrives between an opening of a connection and the next one. The events of
all sessions meet in one stream object. A run in which nobody types into the line of another
session gives each session a line editor of its own.
-/

namespace EtherBench.Shell.Sessions
open Library.Transition Library.LineEditor StreamBase Editor Bridges

/-- A stream may send text between two keys; its line and its requests are as they were. -/
structure Untouched (s t : ShellStream) : Prop where
  lineBuffer : t.lineBuffer = s.lineBuffer
  currentLen : t.currentLen = s.currentLen
  requests : t.requests = s.requests
  parserInput : t.parserInput = s.parserInput

theorem Untouched.refl (s : ShellStream) : Untouched s s := ⟨rfl, rfl, rfl, rfl⟩

theorem welcome_untouched (s : ShellStream) : Untouched s (welcome s) := ⟨rfl, rfl, rfl, rfl⟩

/-- One stream object and what its bridge does with it, for connections named by `C`. -/
structure Port (C σ : Type) where
  base : σ → ShellStream
  initial : σ
  connect : σ → C → σ
  disconnect : σ → σ
  pushData : (ℕ → Submission) → σ → Chunk → σ
  initial_base : base initial = shellStreamBase Parser.Command.shellLineLength true
  connect_untouched : ∀ s c, Untouched (base s) (base (connect s c))
  disconnect_untouched : ∀ s, Untouched (base s) (base (disconnect s))
  pushData_process : ∀ answers s chunk, ∃ t, Untouched (base s) t ∧
    base (pushData answers s chunk) = process answers t chunk

theorem process_empty (answers : ℕ → Submission) (s : ShellStream) {chunk : Chunk}
    (h : chunk.bytes = []) : process answers s chunk = s := by
  rw [process_eq, h, List.foldl_nil]

def telnet : Port UInt32 ShellStreamTelnet where
  base := ShellStreamTelnet.base
  initial := telnetStream
  connect := ShellStreamTelnet.connect
  disconnect := ShellStreamTelnet.disconnect
  pushData := telnetPushData
  initial_base := rfl
  connect_untouched s _ := welcome_untouched s.base
  disconnect_untouched s := Untouched.refl s.base
  pushData_process answers s chunk := by
    refine ⟨s.base, Untouched.refl s.base, ?_⟩
    by_cases hempty : chunk.bytes = []
    · rw [telnetPushData, if_pos hempty, process_empty answers s.base hempty]
    · rw [telnetPushData, if_neg hempty]

/-- The USB terminal is the only connection of its stream. -/
def usb : Port Unit ShellStreamCdc where
  base := ShellStreamCdc.base
  initial := usbStream
  connect s _ := s.connect
  disconnect := ShellStreamCdc.disconnect
  pushData := usbPushData
  initial_base := rfl
  connect_untouched s _ := Untouched.refl s.base
  disconnect_untouched s := Untouched.refl s.base
  pushData_process answers s chunk := by
    by_cases hempty : chunk.bytes = []
    · refine ⟨s.base, Untouched.refl s.base, ?_⟩
      rw [usbPushData, if_pos hempty, process_empty answers s.base hempty]
    · rw [usbPushData, if_neg hempty]
      cases hpending : s.welcomePending with
      | true =>
        refine ⟨welcome s.base, welcome_untouched s.base, ?_⟩
        simp [ShellStreamCdc.process, hpending]
      | false =>
        refine ⟨s.base, Untouched.refl s.base, ?_⟩
        simp [ShellStreamCdc.process, hpending]

/-- The stream is shared, the bytes are typed: a chunk does to the line what the editor does. -/
theorem Port.pushData_typed {C σ : Type} (port : Port C σ) {answers : ℕ → Submission} {s : σ}
    {l : ShellLine} (h : Holds (port.base s) l) (chunk : Chunk) :
    Typed answers (port.base s) (port.base (port.pushData answers s chunk)) (l.type chunk.bytes) := by
  obtain ⟨t, ht, hprocess⟩ := port.pushData_process answers s chunk
  have htyped : Typed answers t _ _ := process_typed (h.congr ht.lineBuffer ht.currentLen) chunk
  rw [hprocess]
  constructor
  · exact htyped.holds
  · rw [htyped.requests, ht.requests]
  · rw [htyped.sent, ht.requests, ht.parserInput]

/-- A connection and how often it has been opened. -/
abbrev Session (C : Type) := C × ℕ

inductive Event (C : Type) where
  | connect (c : C)
  | data (c : C) (chunk : Chunk)
  | disconnect (c : C)

/-- The stream object, with what has happened to each session: the bytes it has received, the
requests made and the commands put in `parser_input` while its data was processed. The
typist is the last session that has pressed a key. -/
structure State (C σ : Type) where
  stream : σ
  opened : C → ℕ
  typist : Option (Session C)
  received : Session C → List UInt8
  asked : Session C → ℕ
  commands : Session C → List (List UInt8)

/-- A chunk with a key that the editor does not ignore. -/
def Typing (chunk : Chunk) : Prop := ∃ ch ∈ chunk.bytes, shellKey ch ≠ .ignore

instance (chunk : Chunk) : Decidable (Typing chunk) :=
  inferInstanceAs (Decidable (∃ ch ∈ chunk.bytes, shellKey ch ≠ .ignore))

section Serve
variable {C σ : Type} [DecidableEq C] (port : Port C σ) (answers : Session C → ℕ → Submission)

def start : State C σ :=
  ⟨port.initial, fun _ => 0, none, fun _ => [], fun _ => 0, fun _ => []⟩

/-- The data of a session: the `k`-th request made for it gets the `k`-th answer. -/
def receive (s : State C σ) (x : Session C) (chunk : Chunk) : State C σ :=
  let before := port.base s.stream
  let stream := port.pushData (fun n => answers x (s.asked x + (n - before.requests))) s.stream chunk
  let after := port.base stream
  { s with
    stream := stream
    typist := if Typing chunk then some x else s.typist
    received := Function.update s.received x (s.received x ++ chunk.bytes)
    asked := Function.update s.asked x (s.asked x + (after.requests - before.requests))
    commands := Function.update s.commands x
      (s.commands x ++ after.parserInput.drop before.parserInput.length) }

def serve (s : State C σ) : Event C → State C σ
  | .connect c =>
    { s with
      stream := port.connect s.stream c
      opened := Function.update s.opened c (s.opened c + 1) }
  | .data c chunk => receive port answers s (c, s.opened c) chunk
  | .disconnect _ => { s with stream := port.disconnect s.stream }

def history (events : List (Event C)) : State C σ := events.foldl (serve port answers) (start port)

/-- A session starts to type when the line is empty, or it goes on with its own line. -/
def Undisturbed (s : State C σ) : Event C → Prop
  | .data c chunk =>
    Typing chunk → (port.base s.stream).currentLen = 0 ∨ s.typist = some (c, s.opened c)
  | _ => True

instance (s : State C σ) : (e : Event C) → Decidable (Undisturbed port s e)
  | .connect _ => .isTrue trivial
  | .data c chunk => inferInstanceAs
      (Decidable (Typing chunk → (port.base s.stream).currentLen = 0 ∨ s.typist = some (c, s.opened c)))
  | .disconnect _ => .isTrue trivial

end Serve

/-- A line editor that has seen the bytes of one session only. -/
def editor {C σ : Type} (s : State C σ) (x : Session C) : ShellLine × List ShellLine :=
  Line.empty.type (s.received x)

/-- The stream holds the line of the typist. The lines of all other sessions are empty. -/
structure Tracks {C σ : Type} [DecidableEq C] (port : Port C σ) (answers : Session C → ℕ → Submission)
    (s : State C σ) (l : ShellLine) : Prop where
  held : Holds (port.base s.stream) l
  line : ∀ x, (editor s x).1 = if s.typist = some x then l else Line.empty
  asked : ∀ x, s.asked x = (editor s x).2.length
  commands : ∀ x, s.commands x = (granted (answers x) 0 (editor s x).2).map asCommand

section Isolation
variable {C σ : Type} [DecidableEq C] {port : Port C σ} {answers : Session C → ℕ → Submission}
  {s : State C σ} {l : ShellLine}

theorem start_tracks : Tracks port answers (start port) Line.empty where
  held := by
    change Holds (port.base port.initial) _
    rw [port.initial_base]
    exact shellStreamBase_holds true
  line x := (ite_self _).symm
  asked x := rfl
  commands x := rfl

theorem Tracks.untouched (h : Tracks port answers s l) {t : State C σ}
    (hstream : Untouched (port.base s.stream) (port.base t.stream)) (htypist : t.typist = s.typist)
    (hreceived : t.received = s.received) (hasked : t.asked = s.asked)
    (hcommands : t.commands = s.commands) : Tracks port answers t l := by
  have heditor : editor t = editor s := by
    funext x
    rw [editor, editor, hreceived]
  constructor
  · exact h.held.congr hstream.lineBuffer hstream.currentLen
  · rw [heditor, htypist]
    exact h.line
  · rw [heditor, hasked]
    exact h.asked
  · rw [heditor, hcommands]
    exact h.commands

/-- The editor of the session whose data arrives, when it may type into the line. -/
theorem Tracks.line_typist (h : Tracks port answers s l) {x : Session C}
    (hfree : (port.base s.stream).currentLen = 0 ∨ s.typist = some x) : (editor s x).1 = l := by
  rw [h.line x]
  split
  · rfl
  · next hother =>
    rcases hfree with hzero | htypist
    · exact (h.held.empty_of_zero hzero).symm
    · exact absurd htypist hother

theorem Tracks.line_other (h : Tracks port answers s l) {x y : Session C} (hne : y ≠ x)
    (hfree : (port.base s.stream).currentLen = 0 ∨ s.typist = some x) : (editor s y).1 = Line.empty := by
  rw [h.line y]
  split
  · next hy =>
    rcases hfree with hzero | htypist
    · exact h.held.empty_of_zero hzero
    · exact absurd (Option.some.inj (hy.symm.trans htypist)) hne
  · rfl

section Receive
variable {x y : Session C} {chunk : Chunk}

theorem receive_received : (receive port answers s x chunk).received x = s.received x ++ chunk.bytes :=
  Function.update_self x _ s.received

theorem receive_asked : (receive port answers s x chunk).asked x = s.asked x +
    ((port.base (receive port answers s x chunk).stream).requests - (port.base s.stream).requests) :=
  Function.update_self x _ s.asked

theorem receive_commands : (receive port answers s x chunk).commands x = s.commands x ++
    (port.base (receive port answers s x chunk).stream).parserInput.drop
      (port.base s.stream).parserInput.length :=
  Function.update_self x _ s.commands

theorem receive_of_ne (hne : y ≠ x) : (receive port answers s x chunk).received y = s.received y ∧
    (receive port answers s x chunk).asked y = s.asked y ∧
    (receive port answers s x chunk).commands y = s.commands y :=
  ⟨Function.update_of_ne hne _ _, Function.update_of_ne hne _ _, Function.update_of_ne hne _ _⟩

end Receive

theorem editor_receive (x : Session C) (chunk : Chunk) :
    editor (receive port answers s x chunk) x = (((editor s x).1.type chunk.bytes).1,
      (editor s x).2 ++ ((editor s x).1.type chunk.bytes).2) := by
  rw [editor, receive_received, Line.type_append]
  rfl

theorem editor_receive_other {x y : Session C} (hne : y ≠ x) (chunk : Chunk) :
    editor (receive port answers s x chunk) y = editor s y := by
  rw [editor, (receive_of_ne hne).1]
  rfl

theorem Tracks.line_receive (h : Tracks port answers s l) (x : Session C) (chunk : Chunk)
    (hfree : Typing chunk → (port.base s.stream).currentLen = 0 ∨ s.typist = some x) (y : Session C) :
    (editor (receive port answers s x chunk) y).1 =
      if (receive port answers s x chunk).typist = some y then (l.type chunk.bytes).1 else Line.empty := by
  by_cases htyping : Typing chunk
  · have htypist : (receive port answers s x chunk).typist = some x := if_pos htyping
    rw [htypist]
    by_cases hy : y = x
    · subst hy
      rw [editor_receive, if_pos rfl, h.line_typist (hfree htyping)]
    · rw [editor_receive_other hy, if_neg fun hxy => hy (Option.some.inj hxy).symm,
        h.line_other hy (hfree htyping)]
  · have htypist : (receive port answers s x chunk).typist = s.typist := if_neg htyping
    have hignored : ∀ ch ∈ chunk.bytes, shellKey ch = .ignore := by
      intro ch hch
      by_contra hkey
      exact htyping ⟨ch, hch, hkey⟩
    rw [htypist, Line.type_ignored l hignored, ← h.line y]
    by_cases hy : y = x
    · subst hy
      rw [editor_receive, Line.type_ignored _ hignored]
    · rw [editor_receive_other hy]

theorem Tracks.lines_receive (h : Tracks port answers s l) (x : Session C) (chunk : Chunk)
    (hfree : Typing chunk → (port.base s.stream).currentLen = 0 ∨ s.typist = some x) :
    (editor (receive port answers s x chunk) x).2 = (editor s x).2 ++ (l.type chunk.bytes).2 := by
  rw [editor_receive]
  by_cases htyping : Typing chunk
  · rw [h.line_typist (hfree htyping)]
  · have hignored : ∀ ch ∈ chunk.bytes, shellKey ch = .ignore := by
      intro ch hch
      by_contra hkey
      exact htyping ⟨ch, hch, hkey⟩
    rw [Line.type_ignored l hignored, Line.type_ignored _ hignored]

theorem Tracks.receive (h : Tracks port answers s l) (x : Session C) (chunk : Chunk)
    (hfree : Typing chunk → (port.base s.stream).currentLen = 0 ∨ s.typist = some x) :
    Tracks port answers (receive port answers s x chunk) (l.type chunk.bytes).1 := by
  have htyped : Typed (fun n => answers x (s.asked x + (n - (port.base s.stream).requests))) _
    (port.base (Sessions.receive port answers s x chunk).stream) _ := port.pushData_typed h.held chunk
  have hlines := h.lines_receive x chunk hfree
  constructor
  · exact htyped.holds
  · exact h.line_receive x chunk hfree
  · intro y
    by_cases hy : y = x
    · subst hy
      rw [receive_asked, hlines, List.length_append, ← h.asked y, htyped.requests,
        Nat.add_sub_cancel_left]
    · rw [(receive_of_ne hy).2.1, editor_receive_other hy, h.asked y]
  · intro y
    by_cases hy : y = x
    · subst hy
      have hshift := granted_shift (answers y) (s.asked y) (port.base s.stream).requests 0
        (l.type chunk.bytes).2
      rw [Nat.add_zero, Nat.add_zero] at hshift
      rw [receive_commands, hlines, granted_append, Nat.zero_add, ← h.asked y, List.map_append,
        ← h.commands y, htyped.sent, List.drop_left, hshift]
    · rw [(receive_of_ne hy).2.2, editor_receive_other hy, h.commands y]

/-- Step rule: an event that disturbs nobody's line keeps all editors apart. -/
theorem serve_tracks (h : Tracks port answers s l) {e : Event C} (he : Undisturbed port s e) :
    ∃ m, Tracks port answers (serve port answers s e) m := by
  cases e with
  | connect c => exact ⟨l, h.untouched (port.connect_untouched s.stream c) rfl rfl rfl rfl⟩
  | data c chunk => exact ⟨_, h.receive (c, s.opened c) chunk he⟩
  | disconnect c => exact ⟨l, h.untouched (port.disconnect_untouched s.stream) rfl rfl rfl rfl⟩

end Isolation

/-- The events of a run, none of which disturbs a line. -/
def Orderly {C σ : Type} [DecidableEq C] (port : Port C σ) (answers : Session C → ℕ → Submission)
    (events : List (Event C)) : Prop :=
  Along (fun s e => some (serve port answers s e)) (Undisturbed port) (start port) events

instance {C σ : Type} [DecidableEq C] (port : Port C σ) (answers : Session C → ℕ → Submission)
    (events : List (Event C)) : Decidable (Orderly port answers events) :=
  inferInstanceAs (Decidable (Along _ (Undisturbed port) (start port) events))

/-- Run rule: each session has a line editor of its own. -/
theorem history_tracks {C σ : Type} [DecidableEq C] {port : Port C σ}
    {answers : Session C → ℕ → Submission} {events : List (Event C)}
    (h : Orderly port answers events) : ∃ l, Tracks port answers (history port answers events) l := by
  have hkeep : ∀ s e t, (∃ l, Tracks port answers s l) → Undisturbed port s e →
      some (serve port answers s e) = some t → ∃ l, Tracks port answers t l := by
    rintro s e t ⟨l, hl⟩ he ht
    cases ht
    exact serve_tracks hl he
  exact (always_of_along hkeep ⟨Line.empty, start_tracks⟩ h).last (run_total _ _ _)

/-- As long as nobody types into another's line, the commands of a session depend on its own
bytes, and on whether its own requests find memory and room, and on nothing else. -/
theorem sessions_isolated {C σ : Type} [DecidableEq C] (port : Port C σ)
    {answers answers' : Session C → ℕ → Submission} {events events' : List (Event C)} {x : Session C}
    (h : Orderly port answers events) (h' : Orderly port answers' events')
    (hanswers : answers x = answers' x)
    (hreceived : (history port answers events).received x = (history port answers' events').received x) :
    (history port answers events).commands x = (history port answers' events').commands x := by
  obtain ⟨l, hl⟩ := history_tracks h
  obtain ⟨l', hl'⟩ := history_tracks h'
  rw [hl.commands x, hl'.commands x, editor, editor, hreceived, hanswers]

/-- A client types, drops its connection, and the next one types a command. -/
def visits {C : Type} (c : C) (first : Chunk) : List (Event C) :=
  [.connect c, .data c first, .disconnect c, .connect c, .data c ⟨ascii "s\r", by decide⟩]

/-- A first client that finishes its line, on both streams. -/
theorem sessions_isolated_visits :
    (history telnet (fun _ _ => .accepted) (visits 0 ⟨ascii "l\r", by decide⟩)).commands (0, 2) =
        (history telnet (fun _ _ => .accepted) (visits 0 ⟨ascii "p\r", by decide⟩)).commands (0, 2) ∧
      (history usb (fun _ _ => .accepted) (visits () ⟨ascii "l\r", by decide⟩)).commands ((), 2) =
        (history usb (fun _ _ => .accepted) (visits () ⟨ascii "p\r", by decide⟩)).commands ((), 2) :=
  ⟨sessions_isolated telnet (by decide) (by decide) rfl (by decide),
    sessions_isolated usb (by decide) (by decide) rfl (by decide)⟩

/-- What the first client left in the line ends up in the command of the second one. -/
theorem halfLine_leaks :
    (∃ first first' : Chunk, let run := fun chunk => history telnet (fun _ _ => .accepted) (visits 0 chunk)
      (run first).received (0, 2) = (run first').received (0, 2) ∧
        (run first).commands (0, 2) ≠ (run first').commands (0, 2)) ∧
    ∃ first first' : Chunk, let run := fun chunk => history usb (fun _ _ => .accepted) (visits () chunk)
      (run first).received ((), 2) = (run first').received ((), 2) ∧
        (run first).commands ((), 2) ≠ (run first').commands ((), 2) :=
  ⟨⟨⟨ascii "l", by decide⟩, ⟨ascii "p", by decide⟩, by decide, by decide⟩,
    ⟨ascii "l", by decide⟩, ⟨ascii "p", by decide⟩, by decide, by decide⟩

end EtherBench.Shell.Sessions
