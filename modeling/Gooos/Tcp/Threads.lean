import Mathlib
import Gooos.Lib.Interleave
import Gooos.Tcp.Listener

/-!
# Threads of the TCP stack

Four kinds of threads run the stack: the receive loop, the RTO scanner, the echo
server and one thread for each process. A program counter names the atomic section
a thread is about to run, with the local variables that are still needed: a section
under `tcbTableLock` or `tcpListenLock`, a transmission, or the unlocked code between.
-/

namespace Gooos

open Function

/-- The receive loop inside `tcpHandle`. -/
inductive RxPc where
  | idle
  | lookup (hdr : IPv4Header) (h : TCPHeader) (payload : List UInt8)
  | dispatch (t : TcbRef) (h : TCPHeader) (payload : List UInt8)
  | synSent (t : TcbRef) (h : TCPHeader) (payload : List UInt8)
  | synReceived (t : TcbRef) (h : TCPHeader) (payload : List UInt8)
  | promote (l : Fin 4) (t : TcbRef) (h : TCPHeader) (payload : List UInt8)
  | established (t : TcbRef) (h : TCPHeader) (payload : List UInt8)
  | finWait1 (t : TcbRef) (h : TCPHeader) (payload : List UInt8)
  | finWait2 (t : TcbRef) (h : TCPHeader) (payload : List UInt8)
  | closing (t : TcbRef) (h : TCPHeader)
  | timeWait (t : TcbRef)
  | sendAck (t : TcbRef) (again : Option (TCPHeader × List UInt8))
  | free (t : TcbRef)
  | reset (seg : Segment) (andFree : Option TcbRef)
  | openLookup (hdr : IPv4Header) (h : TCPHeader) (payload : List UInt8)
  | openAlloc (l : Fin 4) (hdr : IPv4Header) (h : TCPHeader) (payload : List UInt8)
  | openInit (l : Fin 4) (t : TcbRef) (h : TCPHeader)
  | openPush (l : Fin 4) (t : TcbRef)
  | openRollback (l : Fin 4) (t : TcbRef)
  | openSend (l : Fin 4) (t : TcbRef) (origSndNxt : UInt32)
  | openRestore (l : Fin 4) (t : TcbRef) (origSndNxt : UInt32) (ok : Bool)
  | openRemove (l : Fin 4) (t : TcbRef)
  deriving DecidableEq, Repr

/-- The slots `tcpRTOScanPass` selected for each timer. -/
structure FireSet where
  rto : Slot → Bool
  timeWait : Slot → Bool
  persist : Slot → Bool
  delack : Slot → Bool

/-- The RTO scanner inside `tcpRTOScanPass`. -/
inductive ScanPc where
  | idle
  | select
  | rto (i : Slot) (f : FireSet)
  | rtoFree (i : Slot) (f : FireSet)
  | rtoSend (i : Slot) (f : FireSet) (retxFlags : UInt8) (savedSndNxt : UInt32)
  | rtoRestore (i : Slot) (f : FireSet) (savedSndNxt : UInt32)
  | persist (i : Slot) (f : FireSet)
  | persistSend (i : Slot) (f : FireSet) (probe : List UInt8)
  | delack (i : Slot) (f : FireSet)
  | delackSend (i : Slot) (f : FireSet)
  | timeWait (i : Slot) (f : FireSet)

/-- The echo server inside `tcpEchoPass`. -/
inductive EchoPc where
  | idle
  | check (i : Slot)
  | send (i : Slot) (bytes : List UInt8)
  | commit (i : Slot) (n : ℕ)
  | finSend (i : Slot)
  | finCommit (i : Slot)
  deriving DecidableEq, Repr

/-- What the caller of `tcpClose` does when it returns. -/
inductive AfterClose where
  | ret (rax : UInt64)
  | closeConn (s : ℕ)
  | shutdown (how : ℕ)
  | closeListener (ts : List TcbRef) (s : ℕ)
  deriving DecidableEq, Repr

/-- A process thread inside a socket syscall. -/
inductive ProcPc where
  | idle
  | listen (s : ℕ)
  | accept (l : Fin 4) (infoPtr timeout deadline : UInt64)
  | acceptFd (t : TcbRef) (infoPtr : UInt64)
  | connPort (s : ℕ) (dstIP : UInt32) (dstPort : UInt16) (timeout : UInt64)
  | connAlloc (s : ℕ) (lp : UInt16) (dstIP : UInt32) (dstPort : UInt16) (timeout : UInt64)
  | connInit (s : ℕ) (t : TcbRef) (timeout : UInt64)
  | connRollback (s : ℕ) (t : TcbRef) (timeout : UInt64)
  | connSend (s : ℕ) (t : TcbRef) (timeout : UInt64) (origSndNxt : UInt32)
  | connRestore (s : ℕ) (t : TcbRef) (timeout : UInt64) (origSndNxt : UInt32) (ok : Bool)
  | connFree (t : TcbRef)
  | connPoll (s : ℕ) (t : TcbRef) (deadline : UInt64)
  | sendEnqueue (t : TcbRef) (buf : List UInt8)
  | drain (t : TcbRef) (n : ℕ)
  | drainSend (t : TcbRef) (n : ℕ) (d : Drain)
  | drainCommit (t : TcbRef) (n : ℕ) (d : Drain)
  | recv (t : TcbRef) (bufMax timeout deadline : UInt64)
  | closeMark (t : TcbRef) (k : AfterClose)
  | closeSend (t : TcbRef) (k : AfterClose)
  | closeCommit (t : TcbRef) (k : AfterClose)
  | shutdownReset (t : TcbRef)
  | listenerDrain (s : ℕ) (l : Fin 4)
  | listenerClear (ts : List TcbRef) (s : ℕ)
  | listenerCheck (t : TcbRef) (ts : List TcbRef) (s : ℕ)
  | listenerFree (t : TcbRef) (ts : List TcbRef) (s : ℕ)
  deriving DecidableEq, Repr

/-! ## Sockets -/

inductive SockKind where
  | tcpIdle | tcpListener | tcpConn
  deriving DecidableEq, Repr

/-- The TCP part of `socketFd`. -/
structure SocketFd where
  kind : SockKind
  localPort : UInt16
  bound : Bool
  tcpListener : Option (Fin 4)
  tcpTCB : Option TcbRef
  deriving DecidableEq, Repr

/-- An entry of a process's descriptor table: a TCP socket or another backend. -/
inductive FileDesc where
  | socket (s : ℕ)
  | other
  deriving DecidableEq, Repr

/-! ## Observations -/

/-- A process, by its slot in the `ring3StackPool` of `maxRing3Procs` entries. -/
abbrev ProcSlot := Fin 32

instance procSlotNeZero : NeZero 32 := ⟨by decide⟩

/-- What a step shows to the outside. -/
inductive Obs where
  /-- the TCB in slot `i` transmitted a segment -/
  | sent (i : Slot) (seg : Segment)
  /-- a stateless RST was transmitted -/
  | reset (seg : Segment)
  /-- `tcpRTOFire` retransmitted or gave up -/
  | rtoFired (i : Slot)
  /-- `tcpPersistFire` probed -/
  | persistFired (i : Slot)
  /-- `sys_tcp_recv` copied bytes to process `p` -/
  | delivered (p : ProcSlot) (bytes : List UInt8)
  /-- `sys_accept` told process `p` the peer's address -/
  | peer (p : ProcSlot) (ip : UInt32) (port : UInt16)
  /-- a syscall of process `p` returned -/
  | returned (p : ProcSlot) (rax : UInt64)
  deriving DecidableEq, Repr

/-! ## Kernel state -/

/-- The threads of the stack. -/
inductive Tid where
  | rx | scan | echo
  | proc (p : ProcSlot)
  deriving DecidableEq, Repr

/-- The control points of each thread. -/
@[reducible] def PcOf : Tid → Type
  | .rx => RxPc
  | .scan => ScanPc
  | .echo => EchoPc
  | .proc _ => ProcPc

/-- What the threads share. -/
structure Shared where
  tcb : Slot → TCB
  /-- How often each slot was allocated; not in the code. -/
  gen : Slot → ℕ
  listener : Fin 4 → TcpListener
  pitTicks : UInt64
  ourIP : UInt32
  sock : ℕ → SocketFd
  nSock : ℕ
  fds : ProcSlot → Fin 16 → Option FileDesc

abbrev Kernel := Interleave.Conf Shared PcOf

/-- What one atomic section does: where the thread goes on, and which shared
objects it writes. -/
structure Effect (π : Type) where
  next : π
  op : Option (Slot × TcbOp) := none
  listener : Option (Fin 4 × TcpListener) := none
  sock : Option (ℕ × SocketFd) := none
  fd : Option (ProcSlot × Fin 16 × Option FileDesc) := none
  obs : List Obs := []

/-- Overwrite one entry of a table, or none. -/
def put {ι : Type} [DecidableEq ι] {α : Type} (f : ι → α) : Option (ι × α) → ι → α
  | none => f
  | some (i,x) => update f i x

namespace Shared

def apply {π : Type} (s : Shared) (e : Effect π) : Shared :=
  { s with
    tcb := put s.tcb (e.op.map fun w => (w.1,w.2.run s.pitTicks (s.tcb w.1)))
    gen := put s.gen (e.op.map fun w => (w.1,if w.2.isAlloc then s.gen w.1+1 else s.gen w.1))
    listener := put s.listener e.listener
    sock := put s.sock e.sock
    nSock := match e.sock with
      | some (j,_) => max s.nSock (j+1)
      | none => s.nSock
    fds := match e.fd with
      | some (p,i,d) => update s.fds p (update (s.fds p) i d)
      | none => s.fds }

/-- The pointer to the current occupant of a slot. -/
def ref (s : Shared) (i : Slot) : TcbRef := ⟨i,s.gen i⟩

/-- The pointer `tcbAlloc` returns when it claims slot `i`. -/
def newRef (s : Shared) (i : Slot) : TcbRef := ⟨i,s.gen i+1⟩

end Shared

/-- The transmission of a segment as an observation, if it took place. -/
def sentObs (i : Slot) (seg : Option Segment) : List Obs := (seg.map (Obs.sent i)).toList

end Gooos
