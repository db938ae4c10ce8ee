import Xv6.LogCrash
import Xv6.LogSpace
import Xv6.Sbrk
import Xv6.ForkCopy
import Xv6.ForkFail
import Xv6.CopyOut
import Xv6.ExecCall
import Xv6.ExecArgs
import Xv6.OpenFiles
import Xv6.ProcReap
import Xv6.FsDangling
import Xv6.BlockAlloc
import Xv6.Pipes
import Xv6.SchedPolicy
import Xv6.Killed
import Xv6.Uthread
import Xv6.SyscallArgs
import Xv6.I8254
import Xv6.Arp
import Xv6.TcpStream
import Xv6.TcpChksum
import Xv6.Console
import Xv6.IdeRun
import Xv6.UthreadSwitch
import Xv6.BufCache
import Xv6.BufRoom
import Xv6.IcacheCoherent
import Xv6.MkfsRead
import Xv6.Starvation
import Xv6.Fairness
import Xv6.DiskErrors
import Xv6.FileData
import Xv6.SharedFile
import Xv6.Strings
import Xv6.Dirents
import Xv6.Paths
import Xv6.LogBlocks
import Xv6.LogBound
import Xv6.DirGrowth
import Xv6.Icmp
import Xv6.Ipv4
import Xv6.Holding
import Xv6.KernelMap
import Xv6.Madt
import Xv6.Memmove
import Xv6.Grep
import Xv6.Spinlock
