import FreeLwip.Lib.Run
import FreeLwip.Lib.Singly
import FreeLwip.Lib.Ring
import FreeLwip.Lib.DeltaList
import FreeLwip.Lib.Linked
import FreeLwip.Lib.Nios2
import FreeLwip.Err
import FreeLwip.Port.Irq
import FreeLwip.Port.Critical
import FreeLwip.Port.Asm
import FreeLwip.Ip.Route
import FreeLwip.Ip.Etharp
import FreeLwip.Ip.Output
import FreeLwip.Ip.Source
import FreeLwip.Ip.Owner
import FreeLwip.Ip.UdpInput
import FreeLwip.Ip.PingRecv
import FreeLwip.Ip.Ping
import FreeLwip.Ip.Dhcp
import FreeLwip.Ip.DhcpLease
import FreeLwip.Driver.Ethernetif
import FreeLwip.Driver.RxRing
import FreeLwip.Driver.Conservation
import FreeLwip.Driver.InputTask
import FreeLwip.Driver.LinkState
import FreeLwip.Driver.Initialize
import FreeLwip.Driver.Transmit
import FreeLwip.Kernel.TimeOut
import FreeLwip.SysArch.Timers
import FreeLwip.SysArch.Starvation
import FreeLwip.Kernel.Queue
import FreeLwip.Kernel.Semaphore
import FreeLwip.Kernel.Mutex
import FreeLwip.Kernel.HeapLock
import FreeLwip.SysArch.Mbox
import FreeLwip.Sockets.Select
import FreeLwip.Sockets.Waiting
import FreeLwip.Sockets.Wakeup
import FreeLwip.Api.Table
import FreeLwip.Api.Sockets
import FreeLwip.Api.Descriptors
import FreeLwip.Api.Events
import FreeLwip.Lib.TaskCount
import FreeLwip.Api.Waiting
import FreeLwip.Api.Lost
import FreeLwip.Port.Context
import FreeLwip.Port.Switch
import FreeLwip.Port.NewTask
import FreeLwip.Port.Usleep
import FreeLwip.Port.Exceptions
import FreeLwip.Lib.Ones
import FreeLwip.Ip.InetChksum
import FreeLwip.Ip.ChksumFields
import FreeLwip.Lib.Blocks
import FreeLwip.Core.Mem
import FreeLwip.Core.Heap
import FreeLwip.Core.HeapUse
import FreeLwip.Lib.Pieces
import FreeLwip.Ip.Reass
import FreeLwip.Ip.ReassChain
import FreeLwip.Ip.ReassQueue
import FreeLwip.Ip.ReassRun
import FreeLwip.Ip.ReassData
import FreeLwip.Ip.FragReass
import FreeLwip.Lib.Serial
import FreeLwip.Lib.Text
import FreeLwip.Tcp.Receive
import FreeLwip.Tcp.Ooseq
import FreeLwip.Tcp.Delivery
import FreeLwip.Tcp.ReceiveRun
import FreeLwip.Tcp.Window
