import CanmvK230.Lib.Bytes
import CanmvK230.Lib.Run
import CanmvK230.Burn.Burner
import CanmvK230.Burn.Gadget
import CanmvK230.Burn.Commands
import CanmvK230.Burn.Data
import CanmvK230.Burn.Session
import CanmvK230.Burn.Download
import CanmvK230.Burn.Requeue
import CanmvK230.Burn.Admission
import CanmvK230.Burn.NullBurner
import CanmvK230.Burn.Mtd
import CanmvK230.Burn.NandBurn
import CanmvK230.Burn.Packet
import CanmvK230.Boot.FirmwareHead
import CanmvK230.Boot.BootSys
import CanmvK230.Boot.FailClosed
import CanmvK230.Boot.SecureBoot
import CanmvK230.Boot.FirmwareGen
import CanmvK230.Boot.Load
import CanmvK230.Boot.RoundTrip
import CanmvK230.Boot.Pack
import CanmvK230.Burn.Mmc
import CanmvK230.Burn.MtdLog
import CanmvK230.Burn.NandCore
import CanmvK230.Burn.Buffer
import CanmvK230.Boot.Command
import CanmvK230.Boot.Contained
import CanmvK230.Burn.SpiFlash
import CanmvK230.Env.Spinand
import CanmvK230.Burn.Walk
import CanmvK230.Burn.Complete
import CanmvK230.Burn.EraseFirst
import CanmvK230.Burn.WornChip
import CanmvK230.Burn.NorWrite
import CanmvK230.Burn.MmcProbe
import CanmvK230.Boot.Windows
import CanmvK230.Boot.Llt
import CanmvK230.Boot.Destination
import CanmvK230.Boot.Atomic
import CanmvK230.Boot.Retry
import CanmvK230.Env.EraseRange
import CanmvK230.Burn.DeviceEnd
import CanmvK230.Burn.Setup
import CanmvK230.Burn.PageEmpty
import CanmvK230.Lib.Probing
import CanmvK230.Lib.ShellSort
import CanmvK230.Lib.Crc
import CanmvK230.Lib.Radix
import CanmvK230.Lib.BitField
import CanmvK230.Env.Hashtable
import CanmvK230.Env.HashVars
import CanmvK230.Env.Linear
import CanmvK230.Env.Export
import CanmvK230.Env.Reimport
import CanmvK230.Env.Crc32
import CanmvK230.Env.Common
import CanmvK230.Env.LinearGet
import CanmvK230.Env.Saved
import CanmvK230.Env.Complete
import CanmvK230.Boot.Burnt
import CanmvK230.Burn.MmcRead
import CanmvK230.Burn.NorCore
import CanmvK230.Burn.NandPos
import CanmvK230.Burn.Bbt
import CanmvK230.Burn.SpinandIo
import CanmvK230.Burn.MediumDownload
