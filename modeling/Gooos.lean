import Gooos.Lib.Circle
import Gooos.Lib.RingQueue
import Gooos.Tcp.Segment
import Gooos.Tcp.Tcb
import Gooos.Tcp.Flow
import Gooos.Tcp.Listener
import Gooos.Tcp.Threads
import Gooos.Lib.Trace
import Gooos.Tcp.Kernel
import Gooos.Tcp.Frames
import Gooos.Tcp.History
import Gooos.Tcp.Inversion
import Gooos.Tcp.SendStream
import Gooos.Tcp.ReceiveStream
import Gooos.Tcp.Leftover
import Gooos.Tcp.SlotReuse
import Gooos.Tcp.Handles
import Gooos.Tcp.AcceptQueue
import Gooos.Tcp.FinAck
import Gooos.Tcp.RetxQueue
import Gooos.Tcp.Retransmit
import Gooos.Tcp.SendSpace
import Gooos.Tcp.SegmentArrives
import Gooos.Tcp.Unacceptable
import Gooos.Tcp.StateMachine
import Gooos.Tcp.ReceiveWindow
import Gooos.Tcp.Drained
import Gooos.Tcp.EndOfFile
import Gooos.Tcp.EchoService
import Gooos.Tcp.FailedConnect
import Gooos.Tcp.FourTuple
import Gooos.Lib.Span
import Gooos.User.Handlers
import Gooos.User.Confinement
import Gooos.Sched.State
import Gooos.Sched.Steps
import Gooos.Lib.Places
import Gooos.Sched.Moves
import Gooos.Sched.Placement
import Gooos.Sched.Handover
import Gooos.Sched.Homed
import Gooos.Sched.Orderly
import Gooos.Sched.Slots
import Gooos.Sched.Depth
import Gooos.Sched.Hosting
import Gooos.Sched.Tiers
import Gooos.Sched.Identity
import Gooos.Lib.Radix
import Gooos.Mem.Elf
import Gooos.Mem.ElfBounds
import Gooos.Mem.Heap
import Gooos.Mem.Isolation
import Gooos.Mem.Leak
import Gooos.Mem.Race
import Gooos.Fd.Effects
import Gooos.Fd.Foreground
import Gooos.Fd.Shell
import Gooos.Fd.ShellTable
import Gooos.Fd.Wiring
import Gooos.Fs.FileSystem
import Gooos.Lib.ByteMem
import Gooos.User.Signal
import Gooos.User.SignalReturn
import Gooos.Fs.Editor
import Gooos.Fs.EditorSave
import Gooos.Lib.Comp
import Gooos.Tinyc.Behaviour
import Gooos.Tcp.RingBuffer
import Gooos.Timer.Service
import Gooos.Timer.Sound
import Gooos.Tcp.RttEstimator
import Gooos.Lib.BigEndian
import Gooos.Tcp.Options
import Gooos.Tcp.Wire
import Gooos.Lib.OnesSum
import Gooos.Net.Icmp
import Gooos.Fs.Sdk
import Gooos.Fs.EditorText
import Gooos.Fs.EditorEdits
import Gooos.Mem.FrameAlloc
import Gooos.Sched.ReadyQueue
