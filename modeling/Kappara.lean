import Kappara.Core.Allocation
import Kappara.Fs.Descriptors
import Kappara.Fs.Failure
import Kappara.Fs.Pipeline
import Kappara.Fs.Remount
import Kappara.Io.Coherence
import Kappara.Io.Completion
import Kappara.Io.Dirty
import Kappara.Io.Sleep
import Kappara.Io.TerminalBounds
import Kappara.Kernel.Interrupt
import Kappara.Kernel.Privilege
import Kappara.Kernel.UserMemory
import Kappara.Libc.String
import Kappara.Net.Encode
import Kappara.Net.Reclaim
import Kappara.Net.Slip
import Kappara.Net.Transfer
import Kappara.Proc.Waits
import Kappara.Sched.Dispatch
import Kappara.Streams.Creation
import Kappara.Streams.Dangling
import Kappara.Streams.Getmsg
import Kappara.Streams.Hooks
import Kappara.Streams.Ioctl
import Kappara.Streams.Pipe
import Kappara.Streams.Putq
import Kappara.Tcp.Answers
import Kappara.Tcp.Close
import Kappara.Tcp.Estimate
import Kappara.Tcp.Listener
import Kappara.Tcp.Primitives
import Kappara.Tcp.Segments
import Kappara.Tcp.Silence
import Kappara.Tcp.Window
import Kappara.Vm.Loading
import Kappara.Vm.Placement
import Kappara.Vm.Stack
