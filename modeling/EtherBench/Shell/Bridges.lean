import EtherBench.Shell.StreamBase

/-! # The telnet and the USB streams

The classes of `ShellStreamTelnet.cpp` and `ShellStreamCdc.cpp` with the functions of
`telnet_bridge.cpp` and `usb_bridge.cpp`. There is one stream object for all the logical
connections of the telnet server, and one for the USB terminal. Of the instance that a stream
is connected to only its presence matters.
-/

namespace EtherBench.Shell.Bridges
open Parser.Command StreamBase

def shellWelcome : List UInt8 := ascii <|
  "========================================================\n\r" ++
  "Welcome to the EtherBench CLI !\n\r" ++
  "========================================================\n\r"

def welcome (s : ShellStream) : ShellStream := (s.transmit shellWelcome).transmit shellNewLine

structure ShellStreamTelnet where
  base : ShellStream
  connected : Bool
  logicalConnection : UInt32

namespace ShellStreamTelnet

def connect (s : ShellStreamTelnet) (logicalConnection : UInt32) : ShellStreamTelnet :=
  { s with base := welcome s.base, connected := true, logicalConnection := logicalConnection }

def disconnect (s : ShellStreamTelnet) : ShellStreamTelnet :=
  { s with connected := false, logicalConnection := -1 }

end ShellStreamTelnet

/-- `telnet_stream`, as the start-up code leaves it. -/
def telnetStream : ShellStreamTelnet := ⟨shellStreamBase shellLineLength true, false, 0⟩

/-- `telnet_push_data`, which nothing tells where the data comes from. -/
def telnetPushData (answers : ℕ → Submission) (s : ShellStreamTelnet) (chunk : Chunk) : ShellStreamTelnet :=
  if chunk.bytes = [] then s else { s with base := process answers s.base chunk }

structure ShellStreamCdc where
  base : ShellStream
  connected : Bool
  welcomePending : Bool

namespace ShellStreamCdc

def connect (s : ShellStreamCdc) : ShellStreamCdc := { s with connected := true, welcomePending := true }

def disconnect (s : ShellStreamCdc) : ShellStreamCdc := { s with connected := false }

/-- The banner goes out with the first data. -/
def process (answers : ℕ → Submission) (s : ShellStreamCdc) (chunk : Chunk) : ShellStreamCdc :=
  let t := if s.welcomePending then { s with base := welcome s.base, welcomePending := false } else s
  { t with base := StreamBase.process answers t.base chunk }

end ShellStreamCdc

/-- `usb_stream`, as the start-up code leaves it. -/
def usbStream : ShellStreamCdc := ⟨shellStreamBase shellLineLength true, false, false⟩

def usbPushData (answers : ℕ → Submission) (s : ShellStreamCdc) (chunk : Chunk) : ShellStreamCdc :=
  if chunk.bytes = [] then s else s.process answers chunk

end EtherBench.Shell.Bridges
