import SmartEth.Framework.Run
import SmartEth.Framework.Bytes
import SmartEth.Framework.Mem
import SmartEth.Framework.Prog
import SmartEth.Framework.Task
import SmartEth.Framework.Ring
import SmartEth.Framework.Reader
import SmartEth.Framework.Frames
import SmartEth.Framework.Writers
import SmartEth.Framework.Locks
import SmartEth.Framework.Digits
import SmartEth.Impl.Protocol
import SmartEth.Impl.RegBlock
import SmartEth.Impl.DmaEngine
import SmartEth.Impl.PktProc
import SmartEth.Impl.Nic
import SmartEth.Impl.DescRing
import SmartEth.Impl.PcieBridge
import SmartEth.Impl.ScBridge
import SmartEth.Impl.Payload
import SmartEth.Impl.Layout
import SmartEth.Impl.SmartEthPci
import SmartEth.Impl.SmartEthMain
import SmartEth.Impl.NetIf
import SmartEth.Impl.PciConfig
import SmartEth.Impl.ProbeCalls
import SmartEth.Impl.Uart
import SmartEth.Impl.SelfTest
import SmartEth.System.TxRing
import SmartEth.System.RxRing
import SmartEth.System.Kernel
import SmartEth.System.Link
import SmartEth.System.DmaCalls
import SmartEth.System.Readers
import SmartEth.System.LossyReaders
import SmartEth.System.LockLink
import SmartEth.System.Publish
import SmartEth.System.SendAll
import SmartEth.System.BridgeLocks
import SmartEth.System.MmioOrder
import SmartEth.System.DmaTransfer
import SmartEth.System.RegFiles
import SmartEth.System.Phases
import SmartEth.System.NicRun
import SmartEth.System.Connection
import SmartEth.System.Driver
import SmartEth.System.TxPosition
import SmartEth.System.PciRun
import SmartEth.System.Outcomes
import SmartEth.System.TxRetry
import SmartEth.System.TxActivation
import SmartEth.System.IrqRun
import SmartEth.System.RingBounds
import SmartEth.System.NetSockets
import SmartEth.System.TestRun
import SmartEth.System.PktParse
import SmartEth.System.LoopBack
import SmartEth.System.WideAccess
import SmartEth.System.PciConfig
import SmartEth.System.ProbeCalls
import SmartEth.System.TxCalls
import SmartEth.System.Uart
import SmartEth.System.SelfTest
import SmartEth.Proof.Buffers
import SmartEth.Proof.TxRing
import SmartEth.Proof.TxDoorbell
import SmartEth.Proof.RxRing
import SmartEth.Proof.DmaStatus
import SmartEth.Proof.Orphan
import SmartEth.Proof.LockHeld
import SmartEth.Proof.DmaCalls
import SmartEth.Proof.Readers
import SmartEth.Proof.LossyReaders
import SmartEth.Proof.LockLink
import SmartEth.Proof.PublishMem
import SmartEth.Proof.Publish
import SmartEth.Proof.Payload
import SmartEth.Proof.RoundTrip
import SmartEth.Proof.SocketThread
import SmartEth.Proof.SendAll
import SmartEth.Proof.BridgeLocks
import SmartEth.Proof.MmioOrder
import SmartEth.Proof.DmaRead
import SmartEth.Proof.DmaWrite
import SmartEth.Proof.RegFiles
import SmartEth.Proof.Phases
import SmartEth.Proof.NicRun
import SmartEth.Proof.NicFrame
import SmartEth.Proof.PlainRegs
import SmartEth.Proof.Connection
import SmartEth.Proof.Driver
import SmartEth.Proof.TxPass
import SmartEth.Proof.TxPosition
import SmartEth.Proof.PciRun
import SmartEth.Proof.RxOutcome
import SmartEth.Proof.DmaOutcome
import SmartEth.Proof.TxRetry
import SmartEth.Proof.TxActivation
import SmartEth.Proof.IrqRun
import SmartEth.Proof.RingBounds
import SmartEth.Proof.NetRx
import SmartEth.Proof.TestRun
import SmartEth.Proof.NetTx
import SmartEth.Proof.PktParse
import SmartEth.Proof.LoopBack
import SmartEth.Proof.WideAccess
import SmartEth.Proof.PciConfig
import SmartEth.Proof.ProbeCalls
import SmartEth.Proof.TxCalls
import SmartEth.Proof.Uart
import SmartEth.Proof.DmaPoll
import SmartEth.Proof.Console
import SmartEth.Proof.Printing
import SmartEth.Proof.Firmware
import SmartEth.Proof.Plic
import SmartEth.Proof.Echo
import SmartEth.Proof.IoThread
import SmartEth.Proof.LibcSupp
import SmartEth.Proof.PciJobs
import SmartEth.Proof.RxProbe
import SmartEth.Proof.TxPath
import SmartEth.Proof.SelfTest
import SmartEth.Proof.BarTests
import SmartEth.Proof.PciSelfTest
import SmartEth.Proof.ScSelfTest
import SmartEth.Proof.Confined
