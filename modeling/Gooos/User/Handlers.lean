import Mathlib
import Gooos.Lib.Span
import Gooos.Tcp.Syscalls

/-!
# Syscall handlers and the memory they touch

`syscallDispatch` with the handlers that dereference a user pointer, as functions from
the saved registers and the kernel's state to the bytes read and written through those
pointers and the value left in `RAX`. What the rest of the kernel answers during the
call (a descriptor's `Read`, the file system, a socket's queue) is part of the state.
-/

namespace Gooos.User

open Span

/-- The argument registers of `SyscallFrame`. -/
structure Frame where
  rax : UInt64
  rdi : UInt64
  rsi : UInt64
  rdx : UInt64
  r10 : UInt64
  deriving DecidableEq, Repr

/-- What one call does: its accesses in order, and `RAX` afterwards (`none` if the call
does not return). -/
structure Call where
  touched : List Access
  rax : Option UInt64
  deriving DecidableEq, Repr

inductive FdErr where
  | ok | eof | pipe | bad
  deriving DecidableEq, Repr

def FdErr.code : FdErr → UInt64
  | .ok => 0
  | .eof => 1
  | .pipe => 2
  | .bad => 3

def sysFail (e : FdErr) : UInt64 := ~~~e.code+1

def minusOne : UInt64 := 0xFFFFFFFFFFFFFFFF

/-- The call returns without having touched memory. -/
def Call.ret (rax : UInt64) : Call := ⟨[],some rax⟩

def Call.after (pre : List Access) (c : Call) : Call := ⟨pre++c.touched,c.rax⟩

structure Datagram where
  data : List UInt8
  srcIP : UInt32
  srcPort : UInt16

/-- What `sysTcpRecvHandler`'s polling loop ends on. -/
inductive RecvEnd where
  | inactive
  | buffered (b : UInt8) (bs : List UInt8)
  | eof
  | timeout

/-- The TCB behind a connected socket, as the send and receive handlers find it. -/
structure TcbView where
  established : Bool
  free : UInt32
  recvEnd : RecvEnd

/-- `socketFd`; `kind` is `none` for a UDP socket. -/
structure SockView where
  kind : Option SockKind
  bound : Bool
  datagram : Option Datagram
  sends : Bool
  accepted : Option (UInt32 × UInt16)
  tcb : Option TcbView

/-- A descriptor: `read n` fills a buffer of `n` bytes, `write k bs` is the answer to the
`k`-th write of one call; `sock` is the type assertion to `*socketFd`. -/
structure FileDesc where
  read : ℕ → List UInt8 × FdErr
  write : ℕ → List UInt8 → ℕ × FdErr
  sock : Option SockView
  read_le : ∀ n, (read n).1.length ≤ n
  write_le : ∀ k bs, (write k bs).1 ≤ bs.length

def procMaxFDs : ℕ := 16
def maxFiles : ℕ := 32
def maxFileData : ℕ := 262144
def maxRing3Procs : ℕ := 32

/-- The calling process. -/
structure Proc where
  fds : Fin procMaxFDs → Option FileDesc
  args : List UInt8
  args_le : args.length ≤ 256

structure ChildView where
  ofCaller : Bool
  exited : Bool
  exitCode : UInt64

/-- The names `fsList` returns. -/
structure FileNames where
  names : List (List UInt8)
  count_le : names.length ≤ maxFiles
  short : ∀ n ∈ names, n.length ≤ 256

/-- Syscall numbers, in the order of `userspace.go`. -/
inductive Sysno where
  | exit | write | read | exec | fsRead | fsWrite | fsList | yield | sleep | getargs
  | sbrk | vgaClear | open | close | dup2 | spawn | wait | pipe | readKey | vgaWriteAt
  | vgaSetCursor | getcpuid | socket | bind | sendto | recvfrom | netConfig | sendtoBcast
  | listen | accept | connect | tcpSend | tcpRecv | shutdown | waitpid | sigaction
  | sigreturn | listprocs | shellReady
  deriving DecidableEq, Repr

def Sysno.all : List Sysno :=
  [.exit,.write,.read,.exec,.fsRead,.fsWrite,.fsList,.yield,.sleep,.getargs,
    .sbrk,.vgaClear,.open,.close,.dup2,.spawn,.wait,.pipe,.readKey,.vgaWriteAt,
    .vgaSetCursor,.getcpuid,.socket,.bind,.sendto,.recvfrom,.netConfig,.sendtoBcast,
    .listen,.accept,.connect,.tcpSend,.tcpRecv,.shutdown,.waitpid,.sigaction,
    .sigreturn,.listprocs,.shellReady]

/-- The kernel's state as one call finds it. -/
structure CallEnv where
  mem : UInt64 → UInt8
  currentProc : Option Proc
  foreground : Bool
  event : UInt32
  fsSendRead : List UInt8 → Option {data : List UInt8 // data.length ≤ maxFileData}
  fsSendWrite : List UInt8 → List UInt8 → Bool
  fsSendList : FileNames
  elfExec : List UInt8 → List UInt8 → Option UInt64
  elfSpawn : List UInt8 → List UInt8 → Option UInt32
  openFileFd : List UInt8 → UInt8 → Option FileDesc
  newPipe : FileDesc × FileDesc
  child : UInt32 → Option ChildView
  /-- `walkAndGetPaddrIn` finds a page in the caller's address space. -/
  mapped : UInt64 → Bool
  procs : List (Vector UInt8 64)
  mac : Vector UInt8 6
  /-- What the handlers without a pointer argument leave in `RAX`. -/
  answer : Sysno → Option UInt64

/-- The bytes a loop fetches from user memory. -/
def CallEnv.fetch (env : CallEnv) (p : UInt64) (n : ℕ) : List UInt8 :=
  (addrs p n).map env.mem

def le16 (v : UInt16) : List UInt8 := [v.toUInt8,(v>>>8).toUInt8]
def le32 (v : UInt32) : List UInt8 :=
  [v.toUInt8,(v>>>8).toUInt8,(v>>>16).toUInt8,(v>>>24).toUInt8]
def le64 (v : UInt64) : List UInt8 := le32 v.toUInt32++le32 (v>>>32).toUInt32

def procGetFD (p : Proc) (fd : ℤ) : Option FileDesc :=
  if h : 0 ≤ fd ∧ fd < procMaxFDs then p.fds ⟨fd.toNat,by omega⟩ else none

/-- The slot `procAllocFD` takes. -/
def lowestFree (p : Proc) : Option (Fin procMaxFDs) :=
  (List.finRange procMaxFDs).find? fun i => (p.fds i).isNone

def procAllocFD (p : Proc) (desc : FileDesc) : Option (Fin procMaxFDs × Proc) :=
  (lowestFree p).map fun i => (i,{ p with fds := Function.update p.fds i (some desc) })

/-- `int(r)` for a register. -/
def asInt (r : UInt64) : ℤ := r.toBitVec.toInt

/-- The calling process's descriptor in `RDI`; none if there is no process. -/
def callerFD (f : Frame) (env : CallEnv) : Option FileDesc :=
  env.currentProc.bind fun proc => procGetFD proc (asInt f.rdi)

/-- The length of a path, an argument string or a read, clamped to the scratch buffer. -/
def textLen (len : UInt64) : UInt64 := if len > 256 then 256 else len

/-- The chunk loop of `sysWriteHandler` from `written` bytes on. -/
def writeLoop (env : CallEnv) (desc : FileDesc) (buf : UInt64) (length k written : ℕ) : Call :=
  if written < length then
    let chunk := min (length-written) 256
    let src := buf+UInt64.ofNat written
    let r := desc.write k (env.fetch src chunk)
    if r.2 = .ok then
      if r.1 < chunk then ⟨copyIn src chunk,some (UInt64.ofNat (written+r.1))⟩
      else (writeLoop env desc buf length (k+1) (written+r.1)).after (copyIn src chunk)
    else if written = 0 then ⟨copyIn src chunk,some (sysFail r.2)⟩
    else ⟨copyIn src chunk,some (UInt64.ofNat written)⟩
  else .ret (UInt64.ofNat written)
termination_by length-written
decreasing_by
  show length-(written+r.1) < length-written
  omega

/-- The clamped length of a write. -/
def writeLen (len : UInt64) : UInt64 := if len > 4096 then 4096 else len

def sysWriteHandler (f : Frame) (env : CallEnv) : Call :=
  match callerFD f env with
  | none => .ret (sysFail .bad)
  | some desc => writeLoop env desc f.rsi (writeLen f.rdx).toNat 0 0

def sysReadHandler (f : Frame) (env : CallEnv) : Call :=
  match callerFD f env with
  | none => .ret (sysFail .bad)
  | some desc =>
    let r := desc.read (textLen f.rdx).toNat
    if r.2 ≠ .ok ∧ r.2 ≠ .eof then .ret (sysFail r.2)
    else ⟨copyOut f.rsi r.1,some (UInt64.ofNat r.1.length)⟩

/-- The two strings `sysExecHandler` and `sysSpawnHandler` copy in. -/
def textAccesses (f : Frame) : List Access :=
  copyIn f.rdi (textLen f.rsi).toNat++copyIn f.rdx (textLen f.r10).toNat

def sysExecHandler (f : Frame) (env : CallEnv) : Call :=
  match env.currentProc with
  | none => .ret minusOne
  | some _ =>
    let filename := env.fetch f.rdi (textLen f.rsi).toNat
    let args := env.fetch f.rdx (textLen f.r10).toNat
    ⟨textAccesses f,some ((env.elfExec filename args).getD minusOne)⟩

def sysSpawnHandler (f : Frame) (env : CallEnv) : Call :=
  match env.currentProc with
  | none => .ret (sysFail .bad)
  | some _ =>
    let filename := env.fetch f.rdi (textLen f.rsi).toNat
    let args := env.fetch f.rdx (textLen f.r10).toNat
    ⟨textAccesses f,some (((env.elfSpawn filename args).map UInt32.toUInt64).getD (sysFail .bad))⟩

def sysFsReadHandler (f : Frame) (env : CallEnv) : Call :=
  let pathLen := (textLen f.rsi).toNat
  match env.fsSendRead (env.fetch f.rdi pathLen) with
  | none => ⟨copyIn f.rdi pathLen,some minusOne⟩
  | some data =>
    let n := min data.1.length f.r10.toNat
    ⟨copyIn f.rdi pathLen++copyOut f.rdx (data.1.take n),some (UInt64.ofNat n)⟩

def sysFsWriteHandler (f : Frame) (env : CallEnv) : Call :=
  let pathLen := (textLen f.rsi).toNat
  if f.r10.toNat > maxFileData then ⟨copyIn f.rdi pathLen,some minusOne⟩
  else
    let data := env.fetch f.rdx f.r10.toNat
    ⟨copyIn f.rdi pathLen++copyIn f.rdx f.r10.toNat,
      some (if env.fsSendWrite (env.fetch f.rdi pathLen) data then 0 else minusOne)⟩

/-- The name loop of `sysFsListHandler` from `written` bytes on. -/
def listLoop (buf maxLen : UInt64) : ℕ → List (List UInt8) → List Access × ℕ
  | written,[] => ([],written)
  | written,name::names =>
    let needed := name.length+1
    if written+needed > maxLen.toNat then ([],written)
    else
      let (rest,total) := listLoop buf maxLen (written+needed) names
      (copyOut (buf+UInt64.ofNat written) (name++[0])++rest,total)

def sysFsListHandler (f : Frame) (env : CallEnv) : Call :=
  let (accesses,written) := listLoop f.rdi f.rsi 0 env.fsSendList.names
  ⟨accesses,some (UInt64.ofNat written)⟩

/-- `ArgLen` is read without a check for a process, so a call without one does not
return. -/
def sysGetargsHandler (f : Frame) (env : CallEnv) : Call :=
  match env.currentProc with
  | none => ⟨[],none⟩
  | some proc =>
    let n := min proc.args.length f.rsi.toNat
    ⟨copyOut f.rdi (proc.args.take n),some (UInt64.ofNat n)⟩

def sysOpenHandler (f : Frame) (env : CallEnv) : Call :=
  match env.currentProc with
  | none => .ret (sysFail .bad)
  | some proc =>
    let pathLen := (textLen f.rsi).toNat
    let reads := copyIn f.rdi pathLen
    match env.openFileFd (env.fetch f.rdi pathLen) f.rdx.toUInt8 with
    | none => ⟨reads,some (sysFail .bad)⟩
    | some desc =>
      match procAllocFD proc desc with
      | none => ⟨reads,some (sysFail .bad)⟩
      | some (fd,_) => ⟨reads,some (UInt64.ofNat fd)⟩

def sysPipeHandler (f : Frame) (env : CallEnv) : Call :=
  match env.currentProc with
  | none => .ret (sysFail .bad)
  | some proc =>
    match procAllocFD proc env.newPipe.1 with
    | none => .ret (sysFail .bad)
    | some (rdFd,proc) =>
      match procAllocFD proc env.newPipe.2 with
      | none => .ret (sysFail .bad)
      | some (wrFd,_) =>
        ⟨copyOut f.rdi (le64 (UInt64.ofNat rdFd)++le64 (UInt64.ofNat wrFd)),some 0⟩

def sysReadKeyHandler (f : Frame) (env : CallEnv) : Call :=
  if env.currentProc.isNone ∨ ¬env.foreground then .ret minusOne
  else ⟨copyOut f.rdi (le32 env.event),some 0⟩

def WNOHANG : UInt32 := 1

/-- The child `sysWaitpidHandler` finds, if the arguments name one of the caller's. -/
def waitpidChild (f : Frame) (env : CallEnv) : Option ChildView :=
  let pid := f.rdi.toUInt32
  let options := f.rsi.toUInt32
  if pid.toBitVec.toInt < 1 ∨ options &&& ~~~WNOHANG ≠ 0 ∨ options &&& WNOHANG = 0 then none
  else (env.child pid).filter ChildView.ofCaller

def sysWaitpidHandler (f : Frame) (env : CallEnv) : Call :=
  match env.currentProc,waitpidChild f env with
  | none,_ => .ret (sysFail .bad)
  | some _,none => .ret (sysFail .bad)
  | some _,some child =>
    if ¬child.exited then .ret 0
    else
      let status := if f.rdx ≠ 0
        then (copyOutWhile env.mapped f.rdx (le32 child.exitCode.toUInt32)).1 else []
      ⟨status,some f.rdi.toUInt32.toUInt64⟩

/-- The copy loop of `sysListprocsHandler` from entry `i` on. -/
def procInfoLoop (env : CallEnv) (buf : UInt64) : ℕ → List (Vector UInt8 64) → List Access × ℕ
  | i,[] => ([],i)
  | i,info::infos =>
    let (accesses,done) := copyOutWhile env.mapped (buf+UInt64.ofNat (64*i)) info.toList
    if done then
      let (rest,n) := procInfoLoop env buf (i+1) infos
      (accesses++rest,n)
    else (accesses,i)

/-- The number of entries `sysListprocsHandler` may return. -/
def procInfoMax (rsi : UInt64) : ℕ := min rsi.toUInt32.toNat maxRing3Procs

def sysListprocsHandler (f : Frame) (env : CallEnv) : Call :=
  if env.currentProc.isNone ∨ f.rdi = 0 ∨ f.rsi.toUInt32 = 0 then .ret (sysFail .bad)
  else
    let (accesses,n) := procInfoLoop env f.rdi 0 (env.procs.take (procInfoMax f.rsi))
    ⟨accesses,some (UInt64.ofNat n)⟩

def procSock (f : Frame) (env : CallEnv) : Option SockView :=
  (callerFD f env).bind FileDesc.sock

/-- `requireTCP`. -/
def requireTCP (f : Frame) (env : CallEnv) (wantKind : SockKind) : Option SockView :=
  (procSock f env).filter fun s => s.kind == some wantKind

def ipv4MaxPayload : ℕ := 1480
def udpHeaderSize : ℕ := 8

/-- `sysSendtoHandler` and `sysSendtoBcastHandler` up to the send. -/
def sendDatagram (f : Frame) (env : CallEnv) : Call :=
  match procSock f env with
  | none => .ret (sysFail .bad)
  | some sock =>
    if !userBufInRange f.rsi f.rdx then .ret (sysFail .bad)
    else if f.rdx.toNat > ipv4MaxPayload-udpHeaderSize then .ret (sysFail .bad)
    else ⟨copyIn f.rsi f.rdx.toNat,some (if sock.sends then f.rdx else sysFail .bad)⟩

def sysSendtoHandler (f : Frame) (env : CallEnv) : Call := sendDatagram f env

def sysSendtoBcastHandler (f : Frame) (env : CallEnv) : Call := sendDatagram f env

/-- The info block with the peer's address; none is written for a null pointer. -/
def infoAccesses (infoPtr : UInt64) (ip : UInt32) (port : UInt16) : List Access :=
  if infoPtr ≠ 0 then copyOut infoPtr (le32 ip++le16 port++le16 0) else []

def sysRecvfromHandler (f : Frame) (env : CallEnv) : Call :=
  match (procSock f env).filter SockView.bound with
  | none => .ret (sysFail .bad)
  | some sock =>
    if asInt f.rdx < 0 ∨ !userBufInRange f.rsi f.rdx then .ret (sysFail .bad)
    else if f.r10 ≠ 0 ∧ !userBufInRange f.r10 8 then .ret (sysFail .bad)
    else match sock.datagram with
      | none => .ret (sysFail .bad)
      | some dg =>
        let n := min dg.data.length (asInt f.rdx).toNat
        ⟨copyOut f.rsi (dg.data.take n)++infoAccesses f.r10 dg.srcIP dg.srcPort,
          some (UInt64.ofNat n)⟩

def netConfigGetMAC : UInt64 := 6

/-- The other operations of `sysNetConfigHandler` take values, not pointers. -/
def sysNetConfigHandler (f : Frame) (env : CallEnv) : Call :=
  if env.currentProc.isNone then .ret (sysFail .bad)
  else if f.rdi = netConfigGetMAC then
    if !userBufInRange f.rsi 6 then .ret (sysFail .bad)
    else ⟨copyOut f.rsi env.mac.toList,some 0⟩
  else ⟨[],env.answer .netConfig⟩

def sysAcceptHandler (f : Frame) (env : CallEnv) : Call :=
  match env.currentProc,requireTCP f env .tcpListener with
  | some proc,some sock =>
    if f.rsi ≠ 0 ∧ !userBufInRange f.rsi 8 then .ret (sysFail .bad)
    else match sock.accepted with
      | none => .ret (sysFail .bad)
      | some (remoteIP,remotePort) =>
        match lowestFree proc with
        | none => .ret (sysFail .bad)
        | some newFd => ⟨infoAccesses f.rsi remoteIP remotePort,some (UInt64.ofNat newFd)⟩
  | _,_ => .ret (sysFail .bad)

def sysTcpSendHandler (f : Frame) (env : CallEnv) : Call :=
  match requireTCP f env .tcpConn with
  | none => .ret (sysFail .bad)
  | some sock =>
    if f.rdx = 0 then .ret 0
    else if !userBufInRange f.rsi f.rdx then .ret (sysFail .bad)
    else match sock.tcb with
      | none => .ret (sysFail .bad)
      | some tcb =>
        if !tcb.established then .ret (sysFail .bad)
        else
          let n := min f.rdx.toUInt32.toNat tcb.free.toNat
          ⟨copyIn f.rsi n,some (UInt64.ofNat n)⟩

def sysTcpRecvHandler (f : Frame) (env : CallEnv) : Call :=
  match requireTCP f env .tcpConn with
  | none => .ret (sysFail .bad)
  | some sock =>
    if f.rdx = 0 then .ret 0
    else if !userBufInRange f.rsi f.rdx then .ret (sysFail .bad)
    else match sock.tcb with
      | none => .ret (sysFail .bad)
      | some tcb =>
        match tcb.recvEnd with
        | .inactive => .ret (sysFail .bad)
        | .eof => .ret 0
        | .timeout => .ret (sysFail .bad)
        | .buffered b bs =>
          -- as much as there is, as fits the caller's buffer, and the scratch buffer
          let n := min (min (b::bs).length f.rdx.toUInt32.toNat) 1500
          ⟨copyOut f.rsi ((b::bs).take n),some (UInt64.ofNat n)⟩

/-- The handler a syscall number selects. -/
def handler : Sysno → Frame → CallEnv → Call
  | .write => sysWriteHandler
  | .read => sysReadHandler
  | .exec => sysExecHandler
  | .fsRead => sysFsReadHandler
  | .fsWrite => sysFsWriteHandler
  | .fsList => sysFsListHandler
  | .getargs => sysGetargsHandler
  | .open => sysOpenHandler
  | .spawn => sysSpawnHandler
  | .pipe => sysPipeHandler
  | .readKey => sysReadKeyHandler
  | .sendto => sysSendtoHandler
  | .recvfrom => sysRecvfromHandler
  | .netConfig => sysNetConfigHandler
  | .sendtoBcast => sysSendtoBcastHandler
  | .accept => sysAcceptHandler
  | .tcpSend => sysTcpSendHandler
  | .tcpRecv => sysTcpRecvHandler
  | .waitpid => sysWaitpidHandler
  | .listprocs => sysListprocsHandler
  -- the remaining handlers take numbers only
  | s => fun _ env => ⟨[],env.answer s⟩

def syscallDispatch (f : Frame) (env : CallEnv) : Call :=
  match Sysno.all[f.rax.toNat]? with
  | some s => handler s f env
  | none => .ret minusOne

end Gooos.User
