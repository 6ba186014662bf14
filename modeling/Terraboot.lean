import Terraboot.StreamScanner
import Terraboot.Frame
import Terraboot.FindBlock
import Terraboot.ReceiveLoop
import Terraboot.Kconfig
import Terraboot.NorFlash
import Terraboot.FlashCommon
import Terraboot.Stm32Flash
import Terraboot.Lpc176xFlash
import Terraboot.Rp2040Flash
import Terraboot.AppValidate
import Terraboot.Device
import Terraboot.FlashCmd
import Terraboot.Dispatch
import Terraboot.FlashConfinement
import Terraboot.WrapClock
import Terraboot.Sched
import Terraboot.IdleTimeout
import Terraboot.IdleSession
import Terraboot.UsbReceive
import Terraboot.Boot
import Terraboot.FlashTool
import Terraboot.CanSocket
import Terraboot.Upload
import Terraboot.Stm32Pages
import Terraboot.Stm32Deliveries
import Terraboot.Stm32Upload
import Terraboot.BlockRun
import Terraboot.Lpc176xUnits
import Terraboot.Lpc176xRun
import Terraboot.Lpc176xUpload
import Terraboot.Rp2040Run
import Terraboot.Rp2040Upload
import Terraboot.Deployer
import Terraboot.CanBus
import Terraboot.Transmit
import Terraboot.CanReceive
import Terraboot.CanWake
import Terraboot.RingLog
import Terraboot.AdminQueue
import Terraboot.ConflictFlag
import Terraboot.FlashSession
import Terraboot.Stm32Session
import Terraboot.Rp2040Session
import Terraboot.Lpc176xStage
import Terraboot.Lpc176xSession
import Terraboot.CleanSession
import Terraboot.CanFlasher
import Terraboot.FrameLink
import Terraboot.FlashLink
import Terraboot.NoFalseSuccess
import Terraboot.FrameDelivery
import Terraboot.ResponseRead
import Terraboot.TransmitOwner
import Terraboot.PopInput
import Terraboot.UartTransmit
import Terraboot.ByteNumbers
import Terraboot.Mixing
import Terraboot.HashLanes
import Terraboot.ReflectedCrc
import Terraboot.Crc16
import Terraboot.CanUuid
import Terraboot.Heartbeat
import Terraboot.ConnectMetadata
import Terraboot.EraseSelect
import Terraboot.NodeidAck
import Terraboot.FlashRejects
import Terraboot.Packets
import Terraboot.UsbControl
import Terraboot.UsbTransfer
import Terraboot.UsbRequests
import Terraboot.TimerHigh
import Terraboot.BitStuffing
import Terraboot.DirectCrc
import Terraboot.Can2040Crc
import Terraboot.Can2040Stuff
import Terraboot.Can2040Transmit
import Terraboot.Can2040
import Terraboot.Can2040Serial
import Terraboot.Can2040Delivery
import Terraboot.CanFilter
import Terraboot.CanTiming
import Terraboot.Handoff
import Terraboot.Rp2040BulkOut
import Terraboot.Rp2040BulkIn
import Terraboot.UsbfsMemory
import Terraboot.UsbfsRegister
import Terraboot.UsbfsBulkOut
import Terraboot.UsbfsBulkIn
