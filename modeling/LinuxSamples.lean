import LinuxSamples.RwLockStrand
import LinuxSamples.BarrierRounds
import LinuxSamples.BarrierDestroy
import LinuxSamples.GlobalFifoFail
import LinuxSamples.PciMemTest
import LinuxSamples.PciRetrain
import LinuxSamples.VmemDiskRequests
import LinuxSamples.VmemDiskSetup
import LinuxSamples.MinivoscPeriod
import LinuxSamples.WorkQueueSleep
import LinuxSamples.WorkQueueFail
import LinuxSamples.PipeProgress
import LinuxSamples.CrewTree
import LinuxSamples.CrewSearch
import LinuxSamples.ProduceConsume
import LinuxSamples.SemBuffer
import LinuxSamples.Backoff
import LinuxSamples.Susp
import LinuxSamples.ThreadPoolStop
import LinuxSamples.AlarmDelivery
import LinuxSamples.TtyServerServe
import LinuxSamples.TtyServerText
import LinuxSamples.Snull
import LinuxSamples.EchoServerListen
import LinuxSamples.SelectServer
import LinuxSamples.Ping
import LinuxSamples.Sniffer
import LinuxSamples.ProcVectorTokens
import LinuxSamples.ProcLines
import LinuxSamples.RegCharDev
import LinuxSamples.SecondTimer
import LinuxSamples.MessageText
import LinuxSamples.GlobalMem
import LinuxSamples.SvshmTransfer
import LinuxSamples.NetlinkFields
import LinuxSamples.UsbSkelRead
import LinuxSamples.UsbSkelDisconnect
import LinuxSamples.UsbSkelWrite
import LinuxSamples.ViviOwner
import LinuxSamples.InotifyDtreeMirror
import LinuxSamples.TaskManagerUptime
import LinuxSamples.TaskManagerProcs
import LinuxSamples.DirDetail
import LinuxSamples.Bank
import LinuxSamples.StringClassSound
import LinuxSamples.ReadLine
import LinuxSamples.ReadFullFile
import LinuxSamples.MultiJoinReaps
import LinuxSamples.FifoSeqnumProgress
import LinuxSamples.MqNotify
