import Mathlib
import Gooos.Tcp.Threads

/-!
# Socket syscalls

The TCP handlers of `netsock.go`, section by section, and the entry part of each
syscall up to its first lock.
-/

namespace Gooos

/-- `sysFail(fdErrBad)`: minus three as an unsigned register. -/
def sysFailBad : UInt64 := 0-3

def userAddrMin : UInt64 := 0x40000000
def userAddrMax : UInt64 := 0x80000000

def userBufInRange (ptr length : UInt64) : Bool :=
  if length = 0 then true
  else if ptr < userAddrMin then false
  else if ptr+length < ptr then false
  else ptr+length ≤ userAddrMax

/-- A socket syscall with its register arguments; `buf` is the user buffer's content. -/
inductive Syscall where
  | socket
  | bind (fd : ℕ) (port : UInt16)
  | listen (fd : ℕ)
  | accept (fd : ℕ) (infoPtr timeout : UInt64)
  | connect (fd : ℕ) (dstIP : UInt32) (dstPort : UInt16) (timeout : UInt64)
  | send (fd : ℕ) (bufPtr : UInt64) (buf : List UInt8)
  | recv (fd : ℕ) (bufPtr bufMax timeout : UInt64)
  | shutdown (fd : ℕ) (how : ℕ)
  | close (fd : ℕ)
  deriving DecidableEq, Repr

/-- `procGetFD`: the socket behind a descriptor. -/
def procSocket (k : Shared) (p : ProcSlot) (fd : ℕ) : Option ℕ :=
  if h : fd < 16 then
    match k.fds p ⟨fd,h⟩ with
    | some (.socket s) => some s
    | _ => none
  else none

/-- `requireTCP`: the socket behind a descriptor if it has the wanted kind. -/
def requireTCP (k : Shared) (p : ProcSlot) (fd : ℕ) (wantKind : SockKind) : Option ℕ :=
  (procSocket k p fd).filter fun s => (k.sock s).kind == wantKind

/-- The slot `procAllocFD` fills. -/
def procAllocFD (k : Shared) (p : ProcSlot) : Option (Fin 16) :=
  (List.finRange 16).find? fun i => (k.fds p i).isNone

/-- The syscall returns to the process. -/
def sysReturn (p : ProcSlot) (rax : UInt64) : Effect ProcPc :=
  { next := .idle, obs := [.returned p rax] }

/-- From the entry of a syscall to its first lock. -/
def sysEntry (k : Shared) (p : ProcSlot) : Syscall → Effect ProcPc
  | .socket =>
    match procAllocFD k p with
    | none => sysReturn p sysFailBad
    | some i =>
      { next := .idle
        sock := some (k.nSock,⟨.tcpIdle,0,false,none,none⟩)
        fd := some (p,i,some (.socket k.nSock))
        obs := [.returned p (UInt64.ofNat i.val)] }
  | .bind fd port =>
    match requireTCP k p fd .tcpIdle with
    | none => sysReturn p sysFailBad
    | some s =>
      if (k.sock s).bound then sysReturn p sysFailBad
      else
        { next := .idle
          sock := some (s,{ k.sock s with localPort := port, bound := true })
          obs := [.returned p 0] }
  | .listen fd =>
    match requireTCP k p fd .tcpIdle with
    | none => sysReturn p sysFailBad
    | some s => if (k.sock s).bound then { next := .listen s } else sysReturn p sysFailBad
  | .accept fd infoPtr timeout =>
    match requireTCP k p fd .tcpListener with
    | none => sysReturn p sysFailBad
    | some s =>
      if infoPtr ≠ 0 ∧ userBufInRange infoPtr 8 = false then sysReturn p sysFailBad
      else match (k.sock s).tcpListener with
        | none => sysReturn p sysFailBad
        | some l =>
          { next := .accept l infoPtr timeout (if 0 < timeout then k.pitTicks+timeout else 0) }
  | .connect fd dstIP dstPort timeout =>
    match requireTCP k p fd .tcpIdle with
    | none => sysReturn p sysFailBad
    | some s => { next := .connPort s dstIP dstPort (if timeout = 0 then 1200 else timeout) }
  | .send fd bufPtr buf =>
    match requireTCP k p fd .tcpConn with
    | none => sysReturn p sysFailBad
    | some s =>
      if buf.length = 0 then sysReturn p 0
      else if userBufInRange bufPtr (UInt64.ofNat buf.length) = false then sysReturn p sysFailBad
      else match (k.sock s).tcpTCB with
        | none => sysReturn p sysFailBad
        | some t => { next := .sendEnqueue t buf }
  | .recv fd bufPtr bufMax timeout =>
    match requireTCP k p fd .tcpConn with
    | none => sysReturn p sysFailBad
    | some s =>
      if bufMax = 0 then sysReturn p 0
      else if userBufInRange bufPtr bufMax = false then sysReturn p sysFailBad
      else match (k.sock s).tcpTCB with
        | none => sysReturn p sysFailBad
        | some t =>
          { next := .recv t bufMax timeout (if 0 < timeout then k.pitTicks+timeout else 0) }
  | .shutdown fd how =>
    match requireTCP k p fd .tcpConn with
    | none => sysReturn p sysFailBad
    | some s =>
      match (k.sock s).tcpTCB with
      | none => sysReturn p sysFailBad
      | some t =>
        if how = 1 ∨ how = 2 then { next := .closeMark t (.shutdown how) }
        else sysReturn p sysFailBad
  | .close fd =>
    if h : fd < 16 then
      match k.fds p ⟨fd,h⟩ with
      | none => sysReturn p 0
      | some .other => { sysReturn p 0 with fd := some (p,⟨fd,h⟩,none) }
      | some (.socket s) =>
        let cleared := some (p,⟨fd,h⟩,none)
        match (k.sock s).kind, (k.sock s).tcpListener, (k.sock s).tcpTCB with
        | .tcpListener, some l, _ => { next := .listenerDrain s l, fd := cleared }
        | .tcpConn, _, some t => { next := .closeMark t (.closeConn s), fd := cleared }
        | _, _, _ => { sysReturn p 0 with fd := cleared }
    else sysReturn p sysFailBad

/-- The end of `tcpClose` in its caller. -/
def afterClose (k : Shared) (p : ProcSlot) (t : TcbRef) : AfterClose → Effect ProcPc
  | .ret rax => sysReturn p rax
  | .closeConn s => { sysReturn p 0 with sock := some (s,{ k.sock s with tcpTCB := none }) }
  | .shutdown how => if how = 2 then { next := .shutdownReset t } else sysReturn p 0
  | .closeListener ts s => { next := .listenerCheck t ts s }

/-- One section of a syscall in progress. -/
def procSection (k : Shared) (ok : Bool) (p : ProcSlot) : ProcPc → Effect ProcPc
  | .idle => { next := .idle }
  | .listen s =>
    match tcpListenerAllocLocked k.listener (k.sock s).localPort (-1) with
    | none => sysReturn p sysFailBad
    | some (l,x) =>
      { next := .idle
        listener := some (l,x)
        sock := some (s,{ k.sock s with kind := .tcpListener, tcpListener := some l })
        obs := [.returned p 0] }
  | .accept l infoPtr timeout deadline =>
    match acceptPop (k.listener l) with
    | some (t,x) => { next := .acceptFd t infoPtr, listener := some (l,x) }
    | none =>
      if 0 < timeout ∧ deadline ≤ k.pitTicks then sysReturn p sysFailBad
      else { next := .accept l infoPtr timeout deadline }
  | .acceptFd t infoPtr =>
    match procAllocFD k p with
    | none => { next := .closeMark t (.ret sysFailBad) }
    | some i =>
      { next := .idle
        sock := some (k.nSock,⟨.tcpConn,0,false,none,some t⟩)
        fd := some (p,i,some (.socket k.nSock))
        obs := (if infoPtr ≠ 0 then
            [.peer p (k.tcb t.slot).remoteIP (k.tcb t.slot).remotePort] else [])++
          [.returned p (UInt64.ofNat i.val)] }
  | .connPort s dstIP dstPort timeout =>
    let lp := tcpAllocEphemeralPort k.tcb
    if lp = 0 then sysReturn p sysFailBad
    else { next := .connAlloc s lp dstIP dstPort timeout }
  | .connAlloc s lp dstIP dstPort timeout =>
    match tcbAllocFind k.tcb with
    | none => sysReturn p sysFailBad
    | some i =>
      { next := .connInit s (k.newRef i) timeout
        op := some (i,.alloc k.ourIP lp dstIP dstPort) }
  | .connInit s t timeout =>
    { next := .connRollback s t timeout
      op := some (t.slot,.activeInit) }
  | .connRollback s t timeout =>
    { next := .connSend s t timeout (k.tcb t.slot).sndNxt
      op := some (t.slot,.synRollback) }
  | .connSend s t timeout orig =>
    let x := k.tcb t.slot
    let opts := tcpBuildMSSOption x.mssLocal
    let r := tcpSendSegment k.ourIP ok x tcpFlagSYN opts []
    { next := .connRestore s t timeout orig r.2.isSome
      op := some (t.slot,.send k.ourIP ok tcpFlagSYN opts [])
      obs := sentObs t.slot r.2 }
  | .connRestore s t timeout orig sent =>
    { next := if sent then .connPoll s t (k.pitTicks+timeout) else .connFree t
      op := some (t.slot,.synRestore orig tcpFlagSYN sent) }
  | .connFree t => { sysReturn p sysFailBad with op := some (t.slot,.free) }
  | .connPoll s t deadline =>
    let x := k.tcb t.slot
    if x.state = .established then
      { next := .idle
        sock := some (s,{ k.sock s with kind := .tcpConn, tcpTCB := some t })
        obs := [.returned p 0] }
    else if x.state = .closed ∨ x.active = false then sysReturn p sysFailBad
    else if deadline ≤ k.pitTicks then { next := .closeMark t (.ret sysFailBad) }
    else { next := .connPoll s t deadline }
  | .sendEnqueue t buf =>
    match sendEnqueue buf (k.tcb t.slot) with
    | none => sysReturn p sysFailBad
    | some (_,n) =>
      { next := .drain t n
        op := some (t.slot,.enqueue buf) }
  | .drain t n =>
    match drainPeek (k.tcb t.slot) with
    | none => sysReturn p (UInt64.ofNat n)
    | some d => { next := .drainSend t n d }
  | .drainSend t n d =>
    let r := tcpSendSegment k.ourIP ok (k.tcb t.slot) (tcpFlagACK ||| tcpFlagPSH) [] d.bytes
    { next := if r.2.isSome then .drainCommit t n d else .idle
      op := some (t.slot,.send k.ourIP ok (tcpFlagACK ||| tcpFlagPSH) [] d.bytes)
      obs := sentObs t.slot r.2++
        if r.2.isSome then [] else [.returned p (UInt64.ofNat n)] }
  | .drainCommit t n d =>
    { next := .drain t n
      op := some (t.slot,.drainCommit d) }
  | .recv t bufMax timeout deadline =>
    let x := k.tcb t.slot
    if x.active = false then sysReturn p sysFailBad
    else if 0 < x.rxBuf.rbLen then
      let r := recvTake bufMax.toNat x
      { next := .idle
        op := some (t.slot,.recvTake bufMax.toNat)
        obs := [.delivered p r.2,.returned p (UInt64.ofNat r.2.length)] }
    else if x.state = .closeWait ∨ x.state = .lastAck ∨ x.state = .closed then sysReturn p 0
    else if 0 < timeout ∧ deadline ≤ k.pitTicks then sysReturn p sysFailBad
    else { next := .recv t bufMax timeout deadline }
  | .closeMark t c =>
    match tcpCloseMark (k.tcb t.slot) with
    | none => afterClose k p t c
    | some _ =>
      { next := .closeSend t c, op := some (t.slot,.closeMark) }
  | .closeSend t c =>
    let r := tcpSendSegment k.ourIP ok (k.tcb t.slot) (tcpFlagFIN ||| tcpFlagACK) [] []
    let op := some (t.slot,.send k.ourIP ok (tcpFlagFIN ||| tcpFlagACK) [] [])
    if r.2.isSome then { next := .closeCommit t c, op := op, obs := sentObs t.slot r.2 }
    else { afterClose k p t c with op := op }
  | .closeCommit t c =>
    { afterClose k p t c with op := some (t.slot,.closeCommit) }
  | .shutdownReset t =>
    { sysReturn p 0 with op := some (t.slot,.shutdownReset) }
  | .listenerDrain s l =>
    let x := k.listener l
    { next := .listenerClear (x.pending++x.accept) s
      listener := some (l,listenerDrain x) }
  | .listenerClear [] s =>
    { sysReturn p 0 with sock := some (s,{ k.sock s with tcpListener := none }) }
  | .listenerClear (t :: ts) s =>
    { next := .closeMark t (.closeListener ts s)
      op := some (t.slot,.clearListener) }
  | .listenerCheck t ts s =>
    { next := if (k.tcb t.slot).state = .synReceived then .listenerFree t ts s
        else .listenerClear ts s }
  | .listenerFree t ts s =>
    { next := .listenerClear ts s, op := some (t.slot,.free) }

end Gooos
