import NetTool.Lib.CInt
import NetTool.Lib.TailQueue
import NetTool.Lib.Loop
import NetTool.Lib.Bytes
import NetTool.Lib.Frames
import NetTool.Listq
import NetTool.Proofs.Heap
import NetTool.Proofs.ListqRep
import NetTool.Proofs.ListqRun
import NetTool.Netlink
import NetTool.Proofs.Netlink
import NetTool.Util
import NetTool.IpLink
import NetTool.Proofs.LinkInfo
import NetTool.Proofs.LinkCalls
import NetTool.Proofs.LinkNotify
import NetTool.Show
import NetTool.Proofs.Show
import NetTool.Request
import NetTool.Proofs.Request
import NetTool.Event
import NetTool.Proofs.ReadEvent
import NetTool.Proofs.NewLink
import NetTool.Proofs.LinkReceive
import NetTool.Proofs.Senders
import NetTool.Proofs.Attributes
import NetTool.Proofs.NewAddr
import NetTool.Lib.Fields
import NetTool.Lib.Hex
import NetTool.Lib.Inet6
import NetTool.Network
import NetTool.Proofs.Network
import NetTool.Proofs.Dispatch
import NetTool.Proofs.ListqClean
import NetTool.Proofs.ListqHandles
import NetTool.Proofs.SizeWalk
import NetTool.Proofs.Gateway
import NetTool.Lib.Quad
import NetTool.Proofs.DottedQuad
import NetTool.Proofs.AddressFamily
import NetTool.Proofs.WaitGpio
import NetTool.Proofs.WaitFifo
import NetTool.Lib.Radix
import NetTool.Timespec
import NetTool.Proofs.Timespec
import NetTool.NetLib
import NetTool.Proofs.NetLib
import NetTool.IfaceWatch
import NetTool.Ipcalc
import NetTool.IpcalcMain
import NetTool.Lib.Block
import NetTool.Main
import NetTool.Proofs.EventLoop
import NetTool.Proofs.IfaceWatch
import NetTool.Proofs.Ipcalc
import NetTool.Proofs.IpcalcMain
import NetTool.Proofs.IpcalcReverse
import NetTool.Proofs.IpcalcTypes
import NetTool.Proofs.Main
import NetTool.Proofs.Records
import NetTool.Proofs.RoundTrip
import NetTool.Common
import NetTool.Proofs.Common
