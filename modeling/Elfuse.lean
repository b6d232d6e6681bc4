import Elfuse.Core.BootImage
import Elfuse.Core.GvaTlb
import Elfuse.Core.TlbiRuns
import Elfuse.Syscall.RegionFds
import Elfuse.Syscall.CasefoldWalk
import Elfuse.Syscall.PathFold
import Elfuse.Syscall.Symlinkat
import Elfuse.Syscall.Gap
import Elfuse.Syscall.Mprotect
import Elfuse.Syscall.Dispositions
import Elfuse.Syscall.AltStack
import Elfuse.Syscall.SpecialFd
import Elfuse.Runtime.FutexWakes
import Elfuse.Runtime.FutexPi
import Elfuse.Syscall.FdLifetime
import Elfuse.Syscall.CloseExec
import Elfuse.Syscall.Semop
import Elfuse.Syscall.EpollUndo
import Elfuse.Syscall.EpollPark
import Elfuse.Syscall.WaitDeadline
import Elfuse.Syscall.ProcessVm
import Elfuse.Syscall.Recvmsg
import Elfuse.Syscall.ChownOverlay
import Elfuse.Syscall.Shebang
