import Rockling.Lib.GlitchFilter
import Rockling.Lib.FilterPair
import Rockling.Lib.Clocked
import Rockling.Lib.SinceLast
import Rockling.Lib.Oscillation
import Rockling.Lib.Fifo
import Rockling.Lib.Memory
import Rockling.Lib.Interaction
import Rockling.Lib.TwoWire
import Rockling.Lib.Target
import Rockling.Lib.Eventually
import Rockling.Lib.Feedback
import Rockling.Lib.Rounding
import Rockling.Lib.Process
import Rockling.Rtl.BitCtrl
import Rockling.Rtl.ByteCtrl
import Rockling.Rtl.Core
import Rockling.Rtl.BitTiming
import Rockling.Rtl.Dormant
import Rockling.Rtl.Top
import Rockling.Rtl.FreqCounter
import Rockling.Rtl.FreqBound
import Rockling.Rtl.FreqCtrl
import Rockling.Rtl.FreqReport
import Rockling.Rtl.Messible
import Rockling.Rtl.Polling
import Rockling.Rtl.Phases
import Rockling.Rtl.Jobs
import Rockling.Rtl.Running
import Rockling.Rtl.Pace
import Rockling.Rtl.Progress
import Rockling.Rtl.Ownership
import Rockling.Rtl.BusClock
import Rockling.Rtl.Waveform
import Rockling.Rtl.Sampling
import Rockling.Rtl.Transcript
import Rockling.Rtl.Wires
import Rockling.Rtl.Peripherals
import Rockling.Rtl.SoleController
import Rockling.Rtl.Outcome
import Rockling.Rtl.Release
import Rockling.Driver.I2c
import Rockling.Driver.BusRelease
import Rockling.Driver.Devices
import Rockling.Driver.SelfTest
import Rockling.Driver.RegisterFile
import Rockling.Driver.Execution
import Rockling.Driver.Scene
import Rockling.Driver.Handshake
import Rockling.Driver.Calls
import Rockling.Driver.ErrorCodes
import Rockling.Driver.Released
import Rockling.Driver.Transcript
import Rockling.Driver.Transactions
import Rockling.Driver.Served
import Rockling.Driver.Attached
import Rockling.Driver.Plant
import Rockling.Driver.Obliging
import Rockling.Driver.OnTheWires
import Rockling.Driver.Firmware
import Rockling.Remote.Etherbone
import Rockling.Remote.Framing
import Rockling.Remote.FailClosed
import Rockling.Remote.Packets
import Rockling.Remote.Board
import Rockling.Remote.Peer
import Rockling.Remote.Gateware
import Rockling.Remote.Connection
