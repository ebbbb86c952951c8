import Mathlib.Data.List.Basic
import Mathlib.Data.Nat.Notation

/-! # The modes of the probe

`ProbeController::configureMode` of `tasks/programmer/src/ProbeController/ProbeController.cpp` with
the functions that it calls. A write to a peripheral whose clock is off is lost, and `LL_SPI_Init`
leaves a peripheral alone that is enabled.
-/

namespace EtherBench.Programmer.ProbeController

inductive TargetProtocol where
  | none
  | swd
  | swdo
  | jtag
  | cjag
  | icsp
  | spi
  deriving DecidableEq

inductive PinMode where
  | input
  | output
  | analog
  | alternate (af : ℕ)
  deriving DecidableEq

inductive TransferDirection where
  | fullDuplex
  | halfDuplexRx
  | halfDuplexTx
  deriving DecidableEq

inductive SpiMode where
  | master
  | slave
  deriving DecidableEq

inductive Nss where
  | soft
  | hardInput
  | hardOutput
  deriving DecidableEq

inductive Level where
  | low
  | high
  deriving DecidableEq

structure SpiConfig where
  transferDirection : TransferDirection
  mode : SpiMode
  dataWidth : ℕ
  clockPolarity : Level
  /-- the clock edge that samples -/
  clockPhase : ℕ
  nss : Nss
  /-- the divider of the clock -/
  baudRate : ℕ
  msbFirst : Bool
  crcCalculation : Bool
  deriving DecidableEq

structure Spi where
  enabled : Bool
  config : SpiConfig
  nssPolarity : Level
  internalSs : Level
  fifoThreshold : ℕ
  deriving DecidableEq

def Spi.reset : Spi where
  enabled := false
  config := ⟨.fullDuplex, .slave, 8, .low, 1, .hardInput, 2, true, false⟩
  nssPolarity := .low
  internalSs := .low
  fifoThreshold := 1

/-- `LL_SPI_Init`. The internal select signal is only ever raised. -/
def Spi.init (config : SpiConfig) (s : Spi) : Spi :=
  if s.enabled then s
  else
    { s with
      config := config
      internalSs :=
        if config.nss = .soft ∧ (s.nssPolarity = .low ∧ config.mode = .master ∨
            s.nssPolarity = .high ∧ config.mode = .slave) then .high
        else s.internalSs }

structure Pins where
  sclk : PinMode
  mosi : PinMode
  miso : PinMode
  deriving DecidableEq

structure Interface where
  pins : Pins
  clock : Bool
  spi : Spi
  deriving DecidableEq

namespace Interface

def enableClock (i : Interface) : Interface := { i with clock := true }

def disableClock (i : Interface) : Interface := { i with clock := false }

def write (i : Interface) (f : Spi → Spi) : Interface := if i.clock then { i with spi := f i.spi } else i

def llSpiEnable (i : Interface) : Interface := i.write fun s => { s with enabled := true }

def llSpiDisable (i : Interface) : Interface := i.write fun s => { s with enabled := false }

def llSpiSetFifoThreshold (i : Interface) (threshold : ℕ) : Interface :=
  i.write fun s => { s with fifoThreshold := threshold }

def llSpiInit (i : Interface) (config : SpiConfig) : Interface := i.write (Spi.init config)

/-- `LL_GPIO_Init`, a function for each pin. -/
def initSclk (i : Interface) (mode : PinMode) : Interface := { i with pins.sclk := mode }

def initMosi (i : Interface) (mode : PinMode) : Interface := { i with pins.mosi := mode }

def initMiso (i : Interface) (mode : PinMode) : Interface := { i with pins.miso := mode }

end Interface

structure Hardware where
  spim : Interface
  spis : Interface
  deriving DecidableEq

/-- `spim_config`, the same in every mode. -/
def spimConfig : SpiConfig := ⟨.halfDuplexTx, .master, 8, .low, 1, .soft, 8, true, false⟩

/-- `spis_config`, of which only `Mode` depends on the mode of the probe. -/
def spisConfig (mode : SpiMode) : SpiConfig := ⟨.fullDuplex, mode, 8, .low, 1, .soft, 8, true, false⟩

namespace Hardware
variable (h : Hardware)

def initAsSWD : Hardware :=
  { h with
    spim := h.spim.enableClock
      |>.initSclk (.alternate 5) |>.initMosi (.alternate 5)
      |>.llSpiInit spimConfig |>.llSpiSetFifoThreshold 1 |>.llSpiEnable }

def deinitAsSWD : Hardware :=
  { h with
    spim := h.spim.initSclk .analog |>.initMosi .analog |>.llSpiDisable |>.disableClock }

def initAsSWDO : Hardware :=
  { h.initAsSWD with spis := h.spis.enableClock }

def deinitAsSWDO : Hardware :=
  { h.deinitAsSWD with
    spis := h.spis.initMiso .analog |>.llSpiDisable |>.disableClock }

def initAsJTAG : Hardware where
  spim := h.spim.enableClock
    |>.initSclk (.alternate 5) |>.initMosi (.alternate 5)
    |>.llSpiInit spimConfig |>.llSpiSetFifoThreshold 1 |>.llSpiEnable
  spis := h.spis.enableClock
    |>.initMosi (.alternate 7) |>.initMiso (.alternate 6) |>.initSclk (.alternate 6)
    |>.llSpiInit (spisConfig .slave) |>.llSpiSetFifoThreshold 1 |>.llSpiEnable

/-- MOSI of the SPIS is reset twice and its MISO never, and the clocks go first. -/
def deinitAsJTAG : Hardware where
  spim := h.spim.initSclk .analog |>.initMosi .analog |>.disableClock |>.llSpiDisable
  spis := h.spis.initSclk .analog |>.initMosi .analog |>.initMosi .analog
    |>.disableClock |>.llSpiDisable

def initAsSPI : Hardware :=
  { h with
    spis := h.spis.enableClock
      |>.initMosi (.alternate 7) |>.initMiso (.alternate 6) |>.initSclk (.alternate 6)
      |>.llSpiInit (spisConfig .master) |>.llSpiSetFifoThreshold 1 |>.llSpiEnable }

/-- Here too the clock goes first. -/
def deinitAsSPI : Hardware :=
  { h with
    spis := h.spis.initSclk .analog |>.initMosi .analog |>.initMiso .analog
      |>.disableClock |>.llSpiDisable }

end Hardware

structure Probe where
  mode : TargetProtocol
  hardware : Hardware
  deriving DecidableEq

/-- The constructor, on hardware whose pins have any mode. -/
def probeController (spimPins spisPins : Pins) : Probe :=
  ⟨.none, ⟨⟨spimPins, false, .reset⟩, ⟨spisPins, false, .reset⟩⟩⟩

def leave (mode : TargetProtocol) (h : Hardware) : Hardware :=
  match mode with
  | .jtag => h.deinitAsJTAG
  | .swd => h.deinitAsSWD
  | .swdo => h.deinitAsSWDO
  | .spi => h.deinitAsSPI
  | .none | .cjag | .icsp => h

def enter (request : TargetProtocol) (h : Hardware) : Hardware :=
  match request with
  | .jtag => h.initAsJTAG
  | .swd => h.initAsSWD
  | .swdo => h.initAsSWDO
  | .spi => h.initAsSPI
  | .none | .cjag | .icsp => h

def configureMode (p : Probe) (request : TargetProtocol) : Probe :=
  if p.mode = request then p else ⟨request, enter request (leave p.mode p.hardware)⟩

/-- The probe after a sequence of requests. -/
def after (spimPins spisPins : Pins) (requests : List TargetProtocol) : Probe :=
  requests.foldl configureMode (probeController spimPins spisPins)

theorem after_concat (spimPins spisPins : Pins) (requests : List TargetProtocol) (request : TargetProtocol) :
    after spimPins spisPins (requests ++ [request]) = configureMode (after spimPins spisPins requests) request := by
  rw [after, List.foldl_append]
  rfl

theorem configureMode_mode (p : Probe) (request : TargetProtocol) : (configureMode p request).mode = request := by
  rw [configureMode]
  split
  · next h => exact h
  · rfl

end EtherBench.Programmer.ProbeController
