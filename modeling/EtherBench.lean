import EtherBench.Library.Bits
import EtherBench.Library.Holders
import EtherBench.Library.Transition
import EtherBench.Library.Locks
import EtherBench.Library.Effects
import EtherBench.Library.Triples
import EtherBench.Library.Memory
import EtherBench.ThreadX.Objects
import EtherBench.ThreadX.BlockPools
import EtherBench.Library.Circular
import EtherBench.ThreadX.Queues
import EtherBench.ThreadX.Mailboxes
import EtherBench.ThreadX.Delivery
import EtherBench.ThreadX.Histories
import EtherBench.Launcher.Pools
import EtherBench.Library.LineEditor
import EtherBench.Parser.Command
import EtherBench.Parser.Requests
import EtherBench.Parser.Generator
import EtherBench.Parser.Dispatch
import EtherBench.Parser.Spellings
import EtherBench.Parser.GeneratedTables
import EtherBench.Parser.ShellLines
import EtherBench.Muxer.Message
import EtherBench.Muxer.Routing
import EtherBench.Muxer.Wire
import EtherBench.Muxer.Lifetime
import EtherBench.Muxer.Sequential
import EtherBench.Muxer.Ownership
import EtherBench.Muxer.Ownership.Creation
import EtherBench.Muxer.Ownership.Consumption
import EtherBench.Muxer.Ownership.Soundness
import EtherBench.Vfs.Paths
import EtherBench.Vfs.File
import EtherBench.Vfs.Syscall
import EtherBench.Vfs.Storage
import EtherBench.Vfs.Descriptors
import EtherBench.Vfs.Persistence
import EtherBench.Vfs.Exclusion
import EtherBench.Vfs.Slots
import EtherBench.Vfs.Validity
import EtherBench.Nand.Device
import EtherBench.Nand.Hal
import EtherBench.Nand.Driver
import EtherBench.Nand.Isolation
import EtherBench.Nand.Partition
import EtherBench.Nand.Operations
import EtherBench.Nand.Contracts
import EtherBench.Nand.Outcomes
import EtherBench.Nand.Failures
import EtherBench.Nand.Completion
import EtherBench.Nand.Configuration
import EtherBench.Nand.PageStore
import EtherBench.Nand.RoundTrip
import EtherBench.Shell.StreamBase
import EtherBench.Shell.Editor
import EtherBench.Shell.Bridges
import EtherBench.Shell.Sessions
import EtherBench.Usb.Callbacks
import EtherBench.Logger.TaskLogger
import EtherBench.Logger.Transfers
import EtherBench.Logger.Conservation
import EtherBench.Logger.AddLog
import EtherBench.Programmer.ProbeController
import EtherBench.Programmer.Requests
import EtherBench.Programmer.Interfaces
import EtherBench.Programmer.History
import EtherBench.Leds.Display
import EtherBench.LevelX.NandFlash
import EtherBench.LevelX.SectorStore
import EtherBench.LevelX.BlockPages
import EtherBench.LevelX.Custody
import EtherBench.LevelX.Upkeep
import EtherBench.LevelX.Sectors
import EtherBench.LevelX.Mount
import EtherBench.LevelX.Recording
import EtherBench.LevelX.MetadataBlocks
import EtherBench.LevelX.Remount
import EtherBench.LevelX.Format
import EtherBench.LevelX.Service
import EtherBench.LevelX.Capacity
import EtherBench.Nand.Readiness
import EtherBench.Nand.Areas
import EtherBench.Nand.EraseVerify
import EtherBench.Nand.PageCopy
import EtherBench.LevelX.SpareBytes
import EtherBench.LevelX.OnChip
import EtherBench.LevelX.ChipReads
import EtherBench.FileX.LevelxDriver
import EtherBench.Vfs.Lengths
import EtherBench.Vfs.Seek
import EtherBench.Vfs.Grammar
import EtherBench.Usb.BridgeCallbacks
import EtherBench.Leds.Encoding
import EtherBench.Leds.Animation
import EtherBench.Programmer.BusTiming
import EtherBench.Shell.Transmission
import EtherBench.Library.LittleEndian
import EtherBench.Usb.FriendlyName
