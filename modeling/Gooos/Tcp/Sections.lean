import Mathlib
import Gooos.Tcp.Flow

/-!
# Critical sections on one TCB

What each function of the stack does to a TCB between taking and releasing
`tcbTableLock`. A function that releases the lock around a transmission is cut
at that point; its parts carry its name and the part they play.
-/

namespace Gooos

/-! ## Table slots -/

/-- `tcbAlloc` on the slot it picked. -/
def tcbAllocSlot (localIP : UInt32) (localPort : UInt16) (remoteIP : UInt32)
    (remotePort : UInt16) (t : TCB) : TCB :=
  { t with
    localIP := localIP
    localPort := localPort
    remoteIP := remoteIP
    remotePort := remotePort
    state := .closed
    userOwner := -1
    active := true }

def tcbFree (t : TCB) : TCB :=
  { t with
    active := false
    state := .closed
    localIP := 0
    localPort := 0
    remoteIP := 0
    remotePort := 0
    userOwner := -1 }

/-! ## Opening -/

def effectiveMSS (peerMSS mssLocal : UInt16) : UInt16 :=
  if peerMSS < mssLocal then peerMSS else mssLocal

/-- `tcpTryPassiveOpen`: initialise the TCB for a SYN to listener `l`. -/
def passiveInit (now : UInt64) (l : Fin 4) (h : TCPHeader) (t : TCB) : TCB :=
  { t with
    state := .synReceived
    iss := isnNext now
    irs := h.seq
    rcvNxt := h.seq+1
    rcvWnd := UInt32.ofNat tcpRxBufSize
    sndUna := isnNext now
    sndNxt := isnNext now+1
    sndWnd := h.window.toUInt32
    sndWl1 := h.seq
    sndWl2 := 0
    mssLocal := tcpDefaultMSS
    mssPeer := peerMSSOf h
    mssEff := effectiveMSS (peerMSSOf h) tcpDefaultMSS
    listener := some l }

/-- `tcpActiveConnect`: initialise the TCB for an outgoing SYN. -/
def activeInit (now : UInt64) (t : TCB) : TCB :=
  { t with
    state := .synSent
    iss := isnNext now
    sndUna := isnNext now
    sndNxt := isnNext now+1
    rcvWnd := UInt32.ofNat tcpRxBufSize
    mssLocal := tcpDefaultMSS
    mssEff := tcpDefaultMSS }

/-- Both opens: put `sndNxt` on the SYN for the transmission. -/
def synRollback (t : TCB) : TCB := { t with sndNxt := t.iss }

/-- Both opens: restore `sndNxt` and queue the SYN if it was transmitted. -/
def synRestore (now : UInt64) (origSndNxt : UInt32) (flags : UInt8) (ok : Bool) (t : TCB) : TCB :=
  let t := { t with sndNxt := origSndNxt }
  if ok then tcpArmRTO now (retxPush t ⟨t.iss,t.iss+1,flags,0,0,now,0⟩).1 else t

/-! ## Receive handlers -/

/-- The handshake part shared by the two ACKs of our SYN. -/
def synAcked (now : UInt64) (t : TCB) (ack : UInt32) : TCB :=
  let t := tcpCCInit t
  let (t,r) := retxAckTo t ack
  rearmRTO now (tcpRTTSample now t r.oldestSent r.anyPristine)

/-- `tcpHandleSynReceived` under the lock. -/
def synReceivedAck (now : UInt64) (h : TCPHeader) (t : TCB) : TCB :=
  synAcked now
    { t with
      state := .established
      sndUna := h.ack
      sndWnd := h.window.toUInt32
      sndWl1 := h.seq
      sndWl2 := h.ack } h.ack

/-- `tcpHandleSynSent` under the lock. -/
def synSentAck (now : UInt64) (h : TCPHeader) (t : TCB) : TCB :=
  synAcked now
    { t with
      irs := h.seq
      rcvNxt := h.seq+1
      sndUna := h.ack
      sndWnd := h.window.toUInt32
      sndWl1 := h.seq
      sndWl2 := h.ack
      mssPeer := peerMSSOf h
      mssEff := effectiveMSS (peerMSSOf h) t.mssLocal
      state := .established } h.ack

/-- Store the payload that fits into `rxBuf` and take it off the window. -/
def recvPayload (payload : List UInt8) (t : TCB) : TCB :=
  let (rxBuf,n) := t.rxBuf.rbWrite payload
  let n := UInt32.ofNat n
  { t with
    rxBuf := rxBuf
    rcvNxt := t.rcvNxt+n
    rcvWnd := if n < t.rcvWnd then t.rcvWnd-n else 0 }

/-- The duplicate-ACK branch of `tcpHandleEstablished`; the third duplicate
forces the scanner to retransmit. -/
def dupAckSection (t : TCB) : TCB :=
  let (t,fastRetx) := tcpCCOnDupAck t
  if fastRetx then { t with rtoDeadline := 1, xmitCountHead := 0, rtoFastRetx := true } else t

/-- The ACK part of `tcpHandleEstablished`. -/
def establishedAck (now : UInt64) (h : TCPHeader) (payloadLen : ℕ) (t : TCB) : TCB :=
  if tcpIsDuplicateACK t h payloadLen then dupAckSection t else (tcpAckUpdate now t h).1

/-- The payload part of the receive handlers. -/
def acceptPayload (payload : List UInt8) (t : TCB) : TCB :=
  if 0 < payload.length then recvPayload payload t else t

/-- `tcpHandleEstablished` under the lock; a segment out of order changes nothing. -/
def tcpHandleEstablished (now : UInt64) (h : TCPHeader) (payload : List UInt8) (t : TCB) : TCB :=
  if h.seq ≠ t.rcvNxt then t
  else
    let t := establishedAck now h payload.length t
    let t := acceptPayload payload t
    if hasFlag h.flags tcpFlagFIN then { t with rcvNxt := t.rcvNxt+1, state := .closeWait } else t

/-- The peer's FIN is in order: it follows the last byte stored. -/
def peerFinInOrder (h : TCPHeader) (payload : List UInt8) (t : TCB) : Bool :=
  hasFlag h.flags tcpFlagFIN && h.seq+UInt32.ofNat payload.length == t.rcvNxt

/-- `tcpHandleFinWait1` under the lock. -/
def tcpHandleFinWait1 (now : UInt64) (h : TCPHeader) (payload : List UInt8) (t : TCB) : TCB :=
  let t := if h.seq = t.rcvNxt then acceptPayload payload t else t
  let (t,ackOfOurFin) := tcpAckUpdate now t h
  let peerFin := peerFinInOrder h payload t
  let t := if peerFin then { t with rcvNxt := t.rcvNxt+1 } else t
  if ackOfOurFin && peerFin then
    { t with state := .timeWait, timeWaitDeadline := now+tcpTimeWaitTicks }
  else if ackOfOurFin then { t with state := .finWait2 }
  else if peerFin then { t with state := .closing }
  else t

/-- `tcpHandleFinWait2` under the lock. -/
def tcpHandleFinWait2 (now : UInt64) (h : TCPHeader) (payload : List UInt8) (t : TCB) : TCB :=
  let t := (tcpAckUpdate now t h).1
  let t := if h.seq = t.rcvNxt then acceptPayload payload t else t
  if peerFinInOrder h payload t then
    { t with
      rcvNxt := t.rcvNxt+1
      state := .timeWait
      timeWaitDeadline := now+tcpTimeWaitTicks }
  else t

/-- `tcpHandleClosing` under the lock. -/
def tcpHandleClosing (now : UInt64) (h : TCPHeader) (t : TCB) : TCB :=
  let (t,ackOfOurFin) := tcpAckUpdate now t h
  if ackOfOurFin then { t with state := .timeWait, timeWaitDeadline := now+tcpTimeWaitTicks }
  else t

/-- `tcpHandleTimeWait` under the lock, for a segment with FIN. -/
def timeWaitRefresh (now : UInt64) (t : TCB) : TCB :=
  { t with timeWaitDeadline := now+tcpTimeWaitTicks }

/-! ## Closing -/

/-- `tcpClose`, first section: the state change, if there is something to close. -/
def tcpCloseMark (t : TCB) : Option TCB :=
  match t.state with
  | .established => some { t with state := .finWait1 }
  | .closeWait => some { t with state := .lastAck }
  | _ => none

/-- `tcpClose`, last section: account for the transmitted FIN. -/
def tcpCloseCommit (now : UInt64) (t : TCB) : TCB :=
  let finSeq := t.sndNxt
  tcpArmRTO now (retxPush { t with sndNxt := finSeq+1 }
    ⟨finSeq,finSeq+1,tcpFlagFIN ||| tcpFlagACK,0,0,now,0⟩).1

/-- `socketFd.Close` of a listener: forget the listener of a drained TCB. -/
def clearListener (t : TCB) : TCB := { t with listener := none }

/-! ## Socket data -/

/-- The copy loop of `sysTcpSendHandler`, one byte at a time. -/
def rbWriteEach (r : TcpRingBuf) (bytes : List UInt8) : TcpRingBuf :=
  bytes.foldl (fun r b => (r.rbWrite [b]).1) r

/-- `sysTcpSendHandler` under the lock: the bytes of the user buffer that fit go
into `txBuf`. `none` when the TCB takes no data. -/
def sendEnqueue (buf : List UInt8) (t : TCB) : Option (TCB × ℕ) :=
  if t.active && t.state == .established then
    let n := min buf.length t.txBuf.rbFree
    some ({ t with txBuf := rbWriteEach t.txBuf (buf.take n) },n)
  else none

/-- What `tcpTCBDrainTX` captured for one segment. -/
structure Drain where
  seq : UInt32
  flight : UInt32
  bytes : List UInt8
  deriving DecidableEq, Repr

/-- Size of the next data segment of `tcpTCBDrainTX`. -/
def drainSize (t : TCB) (queued canSend : UInt32) : UInt32 :=
  let n := if canSend < queued then canSend else queued
  let mss := t.mssEff.toUInt32
  let n := if 0 < mss ∧ mss < n then mss else n
  if 1500 < n then 1500 else n

/-- `tcpTCBDrainTX`, first section of an iteration; `none` ends the loop. -/
def drainPeek (t : TCB) : Option Drain :=
  if !t.active || t.state != .established then none
  else
    let flight := t.sndNxt-t.sndUna
    let window := if t.cwnd < t.sndWnd then t.cwnd else t.sndWnd
    if window ≤ flight then none
    else
      let queued := UInt32.ofNat t.txBuf.rbLen-flight
      if queued = 0 then none
      else
        let n := drainSize t queued (window-flight)
        some ⟨t.sndNxt,flight,t.txBuf.rbPeek flight n⟩

/-- `tcpTCBDrainTX`, last section of an iteration. -/
def drainCommit (now : UInt64) (d : Drain) (t : TCB) : TCB :=
  let n := UInt32.ofNat d.bytes.length
  tcpArmRTO now (retxPush { t with sndNxt := t.sndNxt+n }
    ⟨d.seq,d.seq+n,tcpFlagACK ||| tcpFlagPSH,d.flight,n.toUInt16,now,0⟩).1

/-- Window growth after `n` bytes were read, capped at the ring size. -/
def recoverWnd (rcvWnd : UInt32) (n : ℕ) : UInt32 :=
  let w := rcvWnd+UInt32.ofNat n
  if UInt32.ofNat tcpRxBufSize < w then UInt32.ofNat tcpRxBufSize else w

/-- `sysTcpRecvHandler` with bytes buffered: hand out what the user buffer and
the 1500-byte scratch take. -/
def recvTake (bufMax : ℕ) (t : TCB) : TCB × List UInt8 :=
  let (rxBuf,got) := t.rxBuf.rbRead (min (min t.rxBuf.rbLen bufMax) 1500)
  ({ t with rxBuf := rxBuf, rcvWnd := recoverWnd t.rcvWnd got.length },got)

/-- `sysShutdownHandler` with SHUT_RDWR. -/
def shutdownReset (t : TCB) : TCB := { t with rxBuf := t.rxBuf.rbReset }

/-! ## Kernel echo server -/

def tcpEchoListenPort : UInt16 := 8080

/-- `tcpEchoPass` reading one segment of bytes in ESTABLISHED. -/
def echoTake (t : TCB) : TCB × List UInt8 :=
  let limit := t.mssEff.toNat
  let limit := if limit = 0 ∨ tcpScratchSize < limit then tcpScratchSize else limit
  let (rxBuf,got) := t.rxBuf.rbRead limit
  ({ t with rxBuf := rxBuf, rcvWnd := recoverWnd t.rcvWnd got.length },got)

def echoDataCommit (n : ℕ) (t : TCB) : TCB := { t with sndNxt := t.sndNxt+UInt32.ofNat n }

def echoFinCommit (t : TCB) : TCB := { t with sndNxt := t.sndNxt+1, state := .lastAck }

/-! ## Timers -/

/-- How the first section of `tcpRTOFire` goes on once the lock is released. -/
inductive RtoFire where
  | spurious
  | abandon
  | resend (retxFlags : UInt8) (savedSndNxt : UInt32)
  deriving DecidableEq, Repr

/-- `tcpRTOFire`: count the retransmission of the head, back off, re-arm. -/
def rtoBackoff (now : UInt64) (head : TcpRetxEntry) (t : TCB) : TCB :=
  let t := { t with
    retxQ := t.retxQ.setHead { head with xmitCount := head.xmitCount+1, sentTicks := now }
    xmitCountHead := t.xmitCountHead+1 }
  let t := if t.rtoFastRetx then { t with rtoFastRetx := false } else tcpCCOnRTO t
  let doubled := t.rtoTicks*2
  let rtoTicks := if tcpRTOMaxTicks < doubled then tcpRTOMaxTicks else doubled
  { t with rtoTicks := rtoTicks, rtoDeadline := now+rtoTicks.toUInt64 }

/-- `tcpRTOFire`, first section. A SYN puts `sndNxt` back on its own number. -/
def tcpRTOFireBegin (now : UInt64) (t : TCB) : TCB × RtoFire :=
  if !t.active || t.rtoDeadline == 0 then (t,.spurious)
  else if now < t.rtoDeadline then (t,.spurious)
  else if tcpMaxRetransmits ≤ t.xmitCountHead then
    (retxFlush { t with rtoDeadline := 0 },.abandon)
  else match retxHead t with
    | none => ({ t with rtoDeadline := 0 },.spurious)
    | some head =>
      let t := rtoBackoff now head t
      let saved := t.sndNxt
      (if hasFlag head.flags tcpFlagSYN then { t with sndNxt := head.seq } else t,
        .resend head.flags saved)

/-- Flags and options of the segment `tcpRTOFire` rebuilds; data is not rebuilt. -/
def rtoSegment (retxFlags : UInt8) (t : TCB) : Option (UInt8 × List UInt8) :=
  if hasFlag retxFlags tcpFlagSYN then
    some (if t.state = .synReceived then tcpFlagSYN ||| tcpFlagACK else tcpFlagSYN,
      tcpBuildMSSOption t.mssLocal)
  else if hasFlag retxFlags tcpFlagFIN then some (tcpFlagFIN ||| tcpFlagACK,[])
  else none

/-- `tcpRTOFire`, last section after a SYN. -/
def rtoRestore (savedSndNxt : UInt32) (t : TCB) : TCB := { t with sndNxt := savedSndNxt }

/-- `tcpPersistFire`, first section; the byte to probe with, if any. -/
def tcpPersistFireBegin (now : UInt64) (t : TCB) : TCB × Option (List UInt8) :=
  if !t.active || t.persistDeadline == 0 then (t,none)
  else if now < t.persistDeadline then (t,none)
  else if t.txBuf.rbLen = 0 ∨ t.sndWnd ≠ 0 then
    ({ t with persistDeadline := 0, persistTicks := 0 },none)
  else
    let doubled := t.persistTicks*2
    let ticks := if t.persistTicks < tcpPersistMaxTicks
      then if tcpPersistMaxTicks < doubled then tcpPersistMaxTicks else doubled
      else t.persistTicks
    ({ t with persistTicks := ticks, persistDeadline := now+ticks.toUInt64 },
      some (t.txBuf.rbPeek 0 1))

/-- `tcpDelackFire`, first section; `true` when a pure ACK is due. -/
def tcpDelackFireBegin (now : UInt64) (t : TCB) : TCB × Bool :=
  if !t.active || t.delackDeadline == 0 then (t,false)
  else if now < t.delackDeadline then (t,false)
  else ({ t with delackDeadline := 0 },true)

/-! ## The sections as operations -/

/-- What a thread can do to one TCB in one atomic section. -/
inductive TcbOp where
  | alloc (localIP : UInt32) (localPort : UInt16) (remoteIP : UInt32) (remotePort : UInt16)
  | free
  | passiveInit (l : Fin 4) (h : TCPHeader)
  | activeInit
  | synRollback
  | synRestore (origSndNxt : UInt32) (flags : UInt8) (ok : Bool)
  /-- `tcpDispatchToTCB` reads the TCB -/
  | dispatch (h : TCPHeader)
  | synSentAck (h : TCPHeader)
  | synReceivedAck (h : TCPHeader)
  | established (h : TCPHeader) (payload : List UInt8)
  | finWait1 (h : TCPHeader) (payload : List UInt8)
  | finWait2 (h : TCPHeader) (payload : List UInt8)
  | closing (h : TCPHeader)
  | timeWait
  | send (ourIP : UInt32) (ok : Bool) (flags : UInt8) (options payload : List UInt8)
  | closeMark
  | closeCommit
  | clearListener
  | enqueue (buf : List UInt8)
  | drainCommit (d : Drain)
  | recvTake (bufMax : ℕ)
  | shutdownReset
  | echoTake
  | echoDataCommit (n : ℕ)
  | echoFinCommit
  | rtoBegin
  | rtoRestore (savedSndNxt : UInt32)
  | persistBegin
  | delackBegin
  deriving DecidableEq, Repr

/-- The TCB after the operation, at tick `now`. -/
def TcbOp.run (now : UInt64) (t : TCB) : TcbOp → TCB
  | .alloc localIP localPort remoteIP remotePort =>
    tcbAllocSlot localIP localPort remoteIP remotePort t
  | .free => tcbFree t
  | .passiveInit l h => Gooos.passiveInit now l h t
  | .activeInit => Gooos.activeInit now t
  | .synRollback => Gooos.synRollback t
  | .synRestore origSndNxt flags ok => Gooos.synRestore now origSndNxt flags ok t
  | .dispatch _ => t
  | .synSentAck h => Gooos.synSentAck now h t
  | .synReceivedAck h => Gooos.synReceivedAck now h t
  | .established h payload => tcpHandleEstablished now h payload t
  | .finWait1 h payload => tcpHandleFinWait1 now h payload t
  | .finWait2 h payload => tcpHandleFinWait2 now h payload t
  | .closing h => tcpHandleClosing now h t
  | .timeWait => timeWaitRefresh now t
  | .send ourIP ok flags options payload => (tcpSendSegment ourIP ok t flags options payload).1
  | .closeMark => (tcpCloseMark t).getD t
  | .closeCommit => tcpCloseCommit now t
  | .clearListener => Gooos.clearListener t
  | .enqueue buf => ((sendEnqueue buf t).map Prod.fst).getD t
  | .drainCommit d => Gooos.drainCommit now d t
  | .recvTake bufMax => (Gooos.recvTake bufMax t).1
  | .shutdownReset => Gooos.shutdownReset t
  | .echoTake => (Gooos.echoTake t).1
  | .echoDataCommit n => Gooos.echoDataCommit n t
  | .echoFinCommit => Gooos.echoFinCommit t
  | .rtoBegin => (tcpRTOFireBegin now t).1
  | .rtoRestore savedSndNxt => Gooos.rtoRestore savedSndNxt t
  | .persistBegin => (tcpPersistFireBegin now t).1
  | .delackBegin => (tcpDelackFireBegin now t).1

/-- The operation claims the slot for a new connection. -/
def TcbOp.isAlloc : TcbOp → Bool
  | .alloc .. => true
  | _ => false

end Gooos
