import Mathlib.Data.List.Basic
import Mathlib.Data.Int.Notation

/-! # One command line through the parser task

`tasks/parser/src/task_parser.cpp` takes a `parserInput_t`, lower-cases its text, decides
between the shell and the SCPI table, splits the head from its arguments and looks the
head up. A C string is the list of its characters before the terminator.
-/

namespace EtherBench.Parser.Command

variable {S H : Type*}

/-- `SHELL_LINE_LENGTH`, the size of a command buffer with its terminator. -/
def shellLineLength : ℕ := 128

/-- The C string a character buffer holds: everything before the first NUL. -/
def cString (buffer : List Char) : List Char := buffer.takeWhile (· ≠ '\x00')

/-- `parserInput_t`; a null stream pointer is `none`. -/
structure ParserInput (S : Type*) where
  replyStream : Option S
  command : List Char

/-- The message `build_request` fills: `strncpy` of the line, then a terminator in the last place. -/
def fillRequest (stream : S) (lineBuffer : List Char) : ParserInput S :=
  ⟨some stream, (cString lineBuffer).take (shellLineLength - 1)⟩

/-- `scpi_command_entry`; a null handler is `none`. -/
structure CommandEntry (H : Type*) where
  name : List Char
  handler : Option H
  deriving DecidableEq

structure Tables (H : Type*) where
  findShellCommand : List Char → Option (CommandEntry H)
  findScpiCommand : List Char → Option (CommandEntry H)

def strchr (s : List Char) (c : Char) : Option ℕ := s.findIdx? (· = c)

def normalise (command : List Char) : List Char := command.map Char.toLower

def tokens : List Char := ['*', ':', '?']

/-- The `do ... while` over the tokens. A token counts only when `strchr` finds it after
the first character of the command. -/
def isShellLoop (command : List Char) : List Char → Bool
  | [] => true
  | token :: rest =>
    match strchr command token with
    | some (_ + 1) => false
    | _ => isShellLoop command rest

def isShell (command : List Char) : Bool := isShellLoop command tokens

/-- Head and arguments: the text before the first blank, and at most
`SHELL_LINE_LENGTH - 1` characters of the text after it. -/
def splitArgs (command : List Char) : List Char × List Char :=
  match strchr command ' ' with
  | some i => (command.take i, (command.drop (i + 1)).take (shellLineLength - 1))
  | none => (command, [])

/-- The table entry that the parser finds for a command text, with the arguments it copied. -/
def lookup (t : Tables H) (command : List Char) : Option (CommandEntry H) × List Char :=
  let command := normalise command
  let split := splitArgs command
  (if isShell command then t.findShellCommand split.1 else t.findScpiCommand split.1, split.2)

/-- How one iteration of the `parser_task` loop ends. `executed` carries the entry whose
handler, when not null, is called with the arguments, and the handler's result. -/
inductive Exit (H : Type*) where
  | nullCommand
  | noStream
  | notFound
  | executed (entry : CommandEntry H) (args : List Char) (retval : ℤ)
  deriving DecidableEq

/-- Only the last exit reaches `tx_block_release`; the others `continue` before it. -/
def Exit.releases : Exit H → Bool
  | .executed _ _ _ => true
  | _ => false

/-- One iteration of the loop of `parser_task` on the message it received. -/
def parserTask (t : Tables H) (cmd : Option (ParserInput S)) (retval : ℤ) : Exit H :=
  match cmd with
  | none => .nullCommand
  | some msg =>
    match msg.replyStream with
    | none => .noStream
    | some _ =>
      match lookup t msg.command with
      | (none, _) => .notFound
      | (some entry, args) => .executed entry args retval

/-- The head of the command is in the table it is looked up in. -/
def Known (t : Tables H) (command : List Char) : Prop := (lookup t command).1.isSome

instance (t : Tables H) (command : List Char) : Decidable (Known t command) :=
  inferInstanceAs (Decidable ((lookup t command).1.isSome = true))

/-- On a message with a stream the iteration reaches the release exactly for a known command. -/
theorem parserTask_releases (t : Tables H) (stream : S) (command : List Char) (retval : ℤ) :
    (parserTask t (some ⟨some stream, command⟩) retval).releases = true ↔ Known t command := by
  unfold parserTask Known
  rcases h : lookup t command with ⟨_ | entry, args⟩ <;> simp [h, Exit.releases]

end EtherBench.Parser.Command
