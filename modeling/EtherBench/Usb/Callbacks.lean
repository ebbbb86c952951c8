import EtherBench.Library.Transition

/-! # The USB terminal and the shell

The callbacks `USBX_TerminalEnable`, `USBX_TerminalChange` and `USBX_TerminalDisable` of
`usbx/app/src/app_usbx_status.c`, down to the instance that the shell stream writes to.
Only `USBX_TerminalChange` is prepared for a null pointer.
-/

namespace EtherBench.Usb.Callbacks
open Library.Transition

def uxFalse : UInt8 := 0
def uxTrue : UInt8 := 1
def cdcTerminalConnected : BitVec 32 := 0x100
def cdcTerminalChangeRequired : BitVec 32 := 0x200

structure ShellStreamCdc (ι : Type*) where
  cdcInstance : Option ι
  welcomePending : Bool

/-- What the callbacks work on, with the `static` variable of `USBX_TerminalChange`. -/
structure State (ι : Type*) where
  usbxAppFlags : BitVec 32
  usbxTerminal : Option ι
  lastDtrState : UInt8
  usbStream : ShellStreamCdc ι

variable {ι : Type*}

namespace ShellStreamCdc

def connect (s : ShellStreamCdc ι) (cdc : ι) : ShellStreamCdc ι :=
  { s with cdcInstance := some cdc, welcomePending := true }

def disconnect (s : ShellStreamCdc ι) : ShellStreamCdc ι := { s with cdcInstance := none }

end ShellStreamCdc

def initial : State ι where
  usbxAppFlags := 0
  usbxTerminal := none
  lastDtrState := uxFalse
  usbStream := ⟨none, false⟩

def usbxTerminalDisable (cdcInstance : ι) (s : State ι) : State ι :=
  { s with
    usbxTerminal := some cdcInstance
    usbxAppFlags := s.usbxAppFlags &&& ~~~cdcTerminalConnected
    usbStream := s.usbStream.disconnect }

def usbxTerminalEnable (cdcInstance : ι) (s : State ι) : State ι :=
  { s with
    usbxTerminal := some cdcInstance
    usbxAppFlags := s.usbxAppFlags ||| cdcTerminalConnected }

/-- `dtr` is the DTR state that the instance holds. -/
def usbxTerminalChange (cdcInstance : Option ι) (dtr : UInt8) (s : State ι) : State ι :=
  let t := { s with
    usbxAppFlags := s.usbxAppFlags ||| cdcTerminalChangeRequired
    usbxTerminal := cdcInstance }
  match cdcInstance with
  | none => t
  | some cdc =>
    if dtr ≠ s.lastDtrState then
      { t with
        lastDtrState := dtr
        usbStream := if dtr = uxTrue then s.usbStream.connect cdc else s.usbStream }
    else t

inductive Event (ι : Type*) where
  | enable (cdcInstance : ι)
  | change (cdcInstance : Option ι) (dtr : UInt8)
  | disable (cdcInstance : ι)

def callback (s : State ι) : Event ι → State ι
  | .enable cdc => usbxTerminalEnable cdc s
  | .change cdc dtr => usbxTerminalChange cdc dtr s
  | .disable cdc => usbxTerminalDisable cdc s

/-- What the callbacks tell about the terminal. -/
structure Terminal (ι : Type*) where
  /-- the current instance, while the terminal is enabled -/
  current : Option ι
  /-- the last DTR state reported since then -/
  dtr : UInt8
  /-- the last DTR state reported at all -/
  reported : UInt8

namespace Terminal

def off : Terminal ι := ⟨none, uxFalse, uxFalse⟩

def next (t : Terminal ι) : Event ι → Terminal ι
  | .enable cdc => { t with current := some cdc, dtr := uxFalse }
  | .change none _ => t
  | .change (some cdc) dtr => ⟨t.current.map fun _ => cdc, dtr, dtr⟩
  | .disable _ => { t with current := none }

/-- Where the output of the shell belongs. -/
def outlet (t : Terminal ι) : Option ι := if t.dtr = uxTrue then t.current else none

end Terminal

structure System (ι : Type*) where
  code : State ι
  terminal : Terminal ι

def start : System ι := ⟨initial, .off⟩

def step (s : System ι) (e : Event ι) : Option (System ι) := some ⟨callback s.code e, s.terminal.next e⟩

/-- The shell writes to the terminal that is open, and to nothing else. -/
def Follows (s : System ι) : Prop := s.code.usbStream.cdcInstance = s.terminal.outlet

/-- A callback that the code has an answer to. An open terminal is not enabled again and does not
lower DTR, and DTR rises only while the terminal is enabled and after it has been reported low. -/
def Answered (t : Terminal ι) : Event ι → Prop
  | .enable _ => t.outlet = none
  | .change none _ => True
  | .change (some cdc) dtr =>
    if dtr = uxTrue then
      if t.current.isSome then t.reported ≠ uxTrue ∨ t.outlet = some cdc else t.reported = uxTrue
    else t.outlet = none
  | .disable _ => True

/-- The static variable is the last DTR state reported, whatever has been unplugged since. -/
structure Tracks (s : System ι) : Prop where
  follows : Follows s
  lastDtr : s.code.lastDtrState = s.terminal.reported

@[simp] theorem outlet_enable (t : Terminal ι) (cdc : ι) : (t.next (.enable cdc)).outlet = none := rfl

@[simp] theorem outlet_disable (t : Terminal ι) (cdc : ι) : (t.next (.disable cdc)).outlet = none := by
  rw [Terminal.outlet]
  exact ite_self none

theorem outlet_raised (t : Terminal ι) (cdc : ι) :
    (t.next (.change (some cdc) uxTrue)).outlet = t.current.map fun _ => cdc := if_pos rfl

theorem outlet_lowered (t : Terminal ι) (cdc : ι) {dtr : UInt8} (h : dtr ≠ uxTrue) :
    (t.next (.change (some cdc) dtr)).outlet = none := if_neg h

theorem outlet_off {t : Terminal ι} (h : t.current = none) : t.outlet = none := by
  rw [Terminal.outlet, h, ite_self]

/-- The static variable keeps track of every report. -/
theorem lastDtr_change (s : State ι) (cdc : ι) (dtr : UInt8) :
    (usbxTerminalChange (some cdc) dtr s).lastDtrState = dtr := by
  simp only [usbxTerminalChange]
  split
  · rfl
  · next h => exact (not_not.mp h).symm

theorem cdcInstance_change (s : State ι) (cdc : ι) (dtr : UInt8) :
    (usbxTerminalChange (some cdc) dtr s).usbStream.cdcInstance =
      if dtr = uxTrue ∧ s.lastDtrState ≠ uxTrue then some cdc else s.usbStream.cdcInstance := by
  simp only [usbxTerminalChange]
  by_cases htrue : dtr = uxTrue
  · subst htrue
    by_cases hlast : s.lastDtrState = uxTrue
    · rw [if_neg (not_not.mpr hlast.symm), if_neg fun h => h.2 hlast]
    · rw [if_pos (Ne.symm hlast), if_pos rfl, if_pos ⟨rfl, hlast⟩]
      rfl
  · have hkeep : ¬ (dtr = uxTrue ∧ s.lastDtrState ≠ uxTrue) := fun h => htrue h.1
    rw [if_neg hkeep, if_neg htrue]
    split
    · rfl
    · rfl

theorem lastDtr_step {s t : System ι} {e : Event ι} (h : s.code.lastDtrState = s.terminal.reported)
    (hstep : step s e = some t) : t.code.lastDtrState = t.terminal.reported := by
  cases hstep
  match e with
  | .enable _ => exact h
  | .change none _ => exact h
  | .change (some cdc) dtr => exact lastDtr_change s.code cdc dtr
  | .disable _ => exact h

/-- `USBX_STATUS_CDC_TERMINAL_CONNECTED` is set while the terminal is enabled. -/
def Flagged (s : System ι) : Prop := s.code.usbxAppFlags.getLsbD 8 = s.terminal.current.isSome

theorem flagged_step {s t : System ι} {e : Event ι} (h : Flagged s) (hstep : step s e = some t) : Flagged t := by
  rw [Flagged] at h
  cases hstep
  match e with
  | .enable _ =>
    change (s.code.usbxAppFlags ||| cdcTerminalConnected).getLsbD 8 = true
    rw [BitVec.getLsbD_or, show cdcTerminalConnected.getLsbD 8 = true from rfl, Bool.or_true]
  | .change none _ =>
    change (s.code.usbxAppFlags ||| cdcTerminalChangeRequired).getLsbD 8 = _
    rw [BitVec.getLsbD_or, show cdcTerminalChangeRequired.getLsbD 8 = false from rfl, Bool.or_false, h]
    rfl
  | .change (some cdc) dtr =>
    have hflags : (usbxTerminalChange (some cdc) dtr s.code).usbxAppFlags =
        s.code.usbxAppFlags ||| cdcTerminalChangeRequired := by
      simp only [usbxTerminalChange]
      split
      · rfl
      · rfl
    change (usbxTerminalChange (some cdc) dtr s.code).usbxAppFlags.getLsbD 8 = (s.terminal.current.map _).isSome
    rw [hflags, BitVec.getLsbD_or, show cdcTerminalChangeRequired.getLsbD 8 = false from rfl, Bool.or_false, h,
      Option.isSome_map]
  | .disable _ =>
    change (s.code.usbxAppFlags &&& ~~~cdcTerminalConnected).getLsbD 8 = false
    rw [BitVec.getLsbD_and, show (~~~cdcTerminalConnected).getLsbD 8 = false from rfl, Bool.and_false]

theorem flagged {events : List (Event ι)} {s : System ι} (hrun : run step start events = some s) : Flagged s := by
  have hstart : Flagged (start : System ι) := by
    change (0 : BitVec 32).getLsbD 8 = false
    rfl
  exact run_invariant (fun _ _ _ => flagged_step) hstart hrun

/-- One callback keeps the shell with the terminal exactly when it is answered. -/
theorem follows_step {s t : System ι} {e : Event ι} (hs : Tracks s) (hstep : step s e = some t) :
    Follows t ↔ Answered s.terminal e := by
  have hcdc := hs.follows
  rw [Follows] at hcdc
  cases hstep
  match e with
  | .enable cdc =>
    change s.code.usbStream.cdcInstance = none ↔ _
    rw [hcdc]
    rfl
  | .change none dtr => exact iff_of_true hcdc trivial
  | .disable cdc =>
    refine iff_of_true ?_ trivial
    exact (outlet_disable s.terminal cdc).symm
  | .change (some cdc) dtr =>
    change (usbxTerminalChange (some cdc) dtr s.code).usbStream.cdcInstance = _ ↔ _
    rw [cdcInstance_change, hs.lastDtr, hcdc, Answered]
    by_cases htrue : dtr = uxTrue
    · subst htrue
      rw [outlet_raised, if_pos rfl]
      cases hcurrent : s.terminal.current with
      | none =>
        rw [outlet_off hcurrent]
        simp
      | some other =>
        by_cases hreported : s.terminal.reported = uxTrue
        · simp [hreported]
        · simp [hreported]
    · rw [outlet_lowered s.terminal cdc htrue, if_neg htrue, if_neg fun h => htrue h.1]

/-- The shell output follows the terminal through a history of callbacks exactly when every one of
them is answered. -/
theorem follows_iff (events : List (Event ι)) :
    Always step Follows start events ↔ Along step (fun s e => Answered s.terminal e) start events := by
  apply always_iff_along fun s (h : Tracks s) => h.follows
  · intro s e t hs hanswered hstep
    exact ⟨(follows_step hs hstep).mpr hanswered, lastDtr_step hs.lastDtr hstep⟩
  · intro s e t hs hmissed hstep hfollows
    exact hmissed ((follows_step hs hstep).mp hfollows)
  · exact ⟨rfl, rfl⟩

/-- After a terminal has been unplugged while DTR was high, the next one stays mute. -/
theorem replugged_mute : ¬ ∀ events : List (Event ℕ), Always step Follows start events := by
  intro h
  have hlast := (h [.enable 0, .change (some 0) uxTrue, .disable 0, .enable 0, .change (some 0) uxTrue]).last rfl
  cases hlast

end EtherBench.Usb.Callbacks
