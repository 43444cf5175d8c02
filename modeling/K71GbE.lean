import K71GbE.Clocked.Machine
import K71GbE.Clocked.Fifo
import K71GbE.Pulse2pulse
import K71GbE.PulseHandshake
import K71GbE.Sdram.Buffer
import K71GbE.Clocked.Ring
import K71GbE.Clocked.RingStore
import K71GbE.Sdram.Steps
import K71GbE.Sdram.WriteRun
import K71GbE.Sdram.Coverage
import K71GbE.Sdram.Stream
import K71GbE.Sdram.Pairing
import K71GbE.Sdram.Ownership
import K71GbE.Sdram.Reset
import K71GbE.Sdram.StopTrigger
import K71GbE.Sdram.ReadRun
import K71GbE.Sdram.Playback
import K71GbE.Sdram.History
import K71GbE.Clocked.Parts
import K71GbE.Clocked.Frames
import K71GbE.Clocked.GrayCode
import K71GbE.Control.Interface
import K71GbE.Clocked.Refinement
import K71GbE.Control.System
import K71GbE.Control.Steps
import K71GbE.Control.Refinement
import K71GbE.Control.Responses
import K71GbE.Clocked.Progress
import K71GbE.Control.Consumption
import K71GbE.Clocked.Lanes
import K71GbE.Clocked.Conduit
import K71GbE.Sampling.ChannelSel
import K71GbE.Sampling.Chain
import K71GbE.Sdram.Attribution
import K71GbE.Clocked.SetBits
import K71GbE.Host.Fmc112
import K71GbE.Host.Command
import K71GbE.Sampling.EndToEnd
import K71GbE.Sampling.Selection
import K71GbE.Host.Calls
import K71GbE.Host.DataFifo
import K71GbE.Control.Pulses
import K71GbE.Control.DataTransfer
import K71GbE.Control.CounterRange
import K71GbE.Host.Device
import K71GbE.Host.Execution
import K71GbE.Host.Sip
import K71GbE.TenGigEth.RxParser
import K71GbE.TenGigEth.RxBeats
import K71GbE.TenGigEth.RxFrames
import K71GbE.TenGigEth.RxDelivery
import K71GbE.TenGigEth.RxLeakage
import K71GbE.StartPulses
import K71GbE.Host.Tge
import K71GbE.TenGigEth.PacketGen
import K71GbE.TenGigEth.Transmit
import K71GbE.TenGigEth.StartCommand
import K71GbE.TenGigEth.Stations
import K71GbE.TenGigEth.AxiFifo
import K71GbE.TenGigEth.FifoStreams
import K71GbE.TenGigEth.FifoRead
import K71GbE.TenGigEth.FifoRun
import K71GbE.TenGigEth.TxFifoWrite
import K71GbE.TenGigEth.TxFifo
import K71GbE.TenGigEth.Transmission
import K71GbE.TenGigEth.RxFifoWrite
import K71GbE.TenGigEth.RxFifo
import K71GbE.TenGigEth.Reception
import K71GbE.Clocked.TwoWire
import K71GbE.I2c.MasterCore
import K71GbE.I2c.Period
import K71GbE.I2c.ErrorFlag
import K71GbE.I2c.Bytes
import K71GbE.I2c.Transfer
import K71GbE.I2c.Protocol
import K71GbE.I2c.Transaction
import K71GbE.I2c.Reset
import K71GbE.I2c.Master
import K71GbE.I2c.Operation
import K71GbE.I2c.WriteRegmap
import K71GbE.I2c.Configuration
import K71GbE.Hdf5.Store
import K71GbE.Hdf5.RawWaveformIo
import K71GbE.Hdf5.Writing
import K71GbE.Hdf5.EventFiles
import K71GbE.Clocked.Accumulator
import K71GbE.Clocked.Countdown
import K71GbE.Sampling.ChannelAvg
import K71GbE.Sampling.SteadyAverage
import K71GbE.Sampling.TriggeredAverage
import K71GbE.Host.Socket
import K71GbE.Host.ReadSave
import K71GbE.Host.ReadBounds
import K71GbE.Host.EventLoop
import K71GbE.Host.ArmAcquire
import K71GbE.Host.ReadReg
import K71GbE.Clocked.OnesComplement
import K71GbE.Host.UdpHeader
import K71GbE.TenGigEth.Framing
import K71GbE.Clocked.ShiftRegister
import K71GbE.Uart.Uartio
import K71GbE.Uart.Loopback
import K71GbE.Clocked.Turns
import K71GbE.Uart.Tickgen
import K71GbE.Uart.Byte2cmd
import K71GbE.GlobalResetter
import K71GbE.ResetSequence
import K71GbE.ResetRelease
