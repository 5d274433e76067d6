import Mathlib
import Gooos.Lib.Trace
import Gooos.Tcp.Receive
import Gooos.Tcp.Services
import Gooos.Tcp.Syscalls

/-!
# The TCP stack as a transition system

A step is one atomic section of one thread, the arrival of a segment, the start of
a timer pass or of a syscall, or a timer tick. Threads interleave freely between
sections; an event whose thread is not ready leaves the kernel as it is.
-/

namespace Gooos

inductive Ev where
  /-- IRQ0: `pitTicks++` -/
  | tick
  /-- `sys_net_config` sets the address -/
  | setIP (ip : UInt32)
  /-- a segment with a valid checksum reaches `tcpHandle` -/
  | segment (hdr : IPv4Header) (h : TCPHeader) (payload : List UInt8)
  /-- the scanner starts a pass -/
  | scan
  /-- the echo server starts a pass -/
  | echo
  /-- process `p` enters a syscall -/
  | sys (p : ProcSlot) (c : Syscall)
  /-- a thread runs its next section; `ok` is the outcome of its transmission -/
  | run (τ : Tid) (ok : Bool)
  deriving DecidableEq, Repr

def ScanPc.isIdle : ScanPc → Bool
  | .idle => true
  | _ => false

/-- The next section of a thread. -/
def threadSection (s : Shared) (ok : Bool) : (τ : Tid) → PcOf τ → Effect (PcOf τ)
  | .rx, l => rxSection s ok l
  | .scan, l => scanSection s ok l
  | .echo, l => echoSection s ok l
  | .proc p, l => procSection s ok p l

/-- The thread an event sets in motion and what it does. -/
def Ev.effect (k : Kernel) : Ev → Option ((τ : Tid) × Effect (PcOf τ))
  | .tick => none
  | .setIP _ => none
  | .segment hdr h payload =>
    if k.pc .rx = RxPc.idle then some ⟨.rx,{ next := RxPc.lookup hdr h payload }⟩ else none
  | .scan => if (k.pc .scan).isIdle then some ⟨.scan,{ next := ScanPc.select }⟩ else none
  | .echo => if k.pc .echo = EchoPc.idle then some ⟨.echo,{ next := EchoPc.check 0 }⟩ else none
  | .sys p c =>
    if k.pc (.proc p) = ProcPc.idle then some ⟨.proc p,sysEntry k.shared p c⟩ else none
  | .run τ ok => some ⟨τ,threadSection k.shared ok τ (k.pc τ)⟩

/-- What an event changes without a thread. -/
def Ev.env (s : Shared) : Ev → Shared
  | .tick => { s with pitTicks := s.pitTicks+1 }
  | .setIP ip => { s with ourIP := ip }
  | _ => s

namespace Kernel

def step (k : Kernel) (e : Ev) : Kernel × List Obs :=
  match e.effect k with
  | none => (⟨e.env k.shared,k.pc⟩,[])
  | some ⟨τ,f⟩ => (k.move τ (k.shared.apply f) f.next,f.obs)

/-- The stack after `tcpInit`: an empty TCB table and the echo listener. -/
def boot : Kernel where
  shared :=
    { tcb := fun _ => .zero
      gen := fun _ => 0
      listener := put (fun _ => .zero)
        (tcpListenerAllocLocked (fun _ => .zero) tcpEchoListenPort (-1))
      pitTicks := 0
      ourIP := 0x0A00020F
      sock := fun _ => ⟨.tcpIdle,0,false,none,none⟩
      nSock := 0
      fds := fun _ i => if i.val < 3 then some .other else none }
  pc := fun
    | .rx => RxPc.idle
    | .scan => ScanPc.idle
    | .echo => EchoPc.idle
    | .proc _ => ProcPc.idle

end Kernel

end Gooos
