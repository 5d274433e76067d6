import Mathlib
import Gooos.Tcp.Tcb

/-!
# RTT, congestion and flow control

The helpers of `tcp_rtt.go`, `tcp_cc.go`, `tcp_flow.go` and `tcp_retx.go` that run
under the table lock on one TCB, and `tcpSendSegment`. The tick counter `pitTicks`
is the argument `now`.
-/

namespace Gooos

def tcpRTOMinTicks : UInt32 := 100
def tcpRTOMaxTicks : UInt32 := 6000
def tcpRTOInitTicks : UInt32 := 100
def tcpMaxRetransmits : UInt8 := 8
def tcpPersistInitTicks : UInt32 := 100
def tcpPersistMaxTicks : UInt32 := 6000
def tcpTimeWaitTicks : UInt64 := 6000

/-! ## RTT estimation -/

def rttvarBasedRTO (t : TCB) : UInt32 :=
  let kRttvar := if t.rttvarTicks < 1 then 1 else t.rttvarTicks
  t.srttTicks/8+kRttvar

def clampRTO (v : UInt32) : UInt32 :=
  if v < tcpRTOMinTicks then tcpRTOMinTicks
  else if tcpRTOMaxTicks < v then tcpRTOMaxTicks
  else v

def tcpRTTInit (t : TCB) (rTicks : UInt32) : TCB :=
  let rTicks := if rTicks = 0 then 1 else rTicks
  let rttvar := rTicks/2*4
  let t := { t with
    srttTicks := rTicks*8
    rttvarTicks := if rttvar = 0 then 1*4 else rttvar }
  { t with rtoTicks := clampRTO (rttvarBasedRTO t), rttInitialized := true }

def tcpRTTUpdate (t : TCB) (rTicks : UInt32) : TCB :=
  if !t.rttInitialized then tcpRTTInit t rTicks
  else
    let rTicks := if rTicks = 0 then 1 else rTicks
    let srtt := t.srttTicks/8
    let delta := if rTicks < srtt then srtt-rTicks else rTicks-srtt
    let t := { t with
      rttvarTicks := 3*(t.rttvarTicks/4)+delta
      srttTicks := 7*(t.srttTicks/8)+rTicks }
    { t with rtoTicks := clampRTO (rttvarBasedRTO t) }

def tcpRTTSample (now : UInt64) (t : TCB) (oldestSent : UInt64) (anyPristine : Bool) : TCB :=
  if !anyPristine then t
  else if now ≤ oldestSent then t
  else tcpRTTUpdate t (now-oldestSent).toUInt32

/-! ## Congestion control -/

def tcpInitialWindow (mss : UInt16) : UInt32 :=
  let m := mss.toUInt32
  if 2190 < m then 2*m
  else if 1095 < m then 3*m
  else 4*m

def tcpCCInit (t : TCB) : TCB :=
  let mssEff := if t.mssEff = 0 then tcpDefaultMSS else t.mssEff
  { t with
    mssEff := mssEff
    cwnd := tcpInitialWindow mssEff
    ssthresh := 0xFFFFFFFF
    cwndAccum := 0
    dupAcks := 0 }

/-- The segment size the congestion helpers work with. -/
def ccMss (t : TCB) : UInt32 :=
  if t.mssEff.toUInt32 = 0 then tcpDefaultMSS.toUInt32 else t.mssEff.toUInt32

def tcpCCOnAck (t : TCB) (newlyAcked : UInt32) : TCB :=
  if newlyAcked = 0 then t
  else
    let t := if t.cwnd = 0 then tcpCCInit t else t
    let mss := ccMss t
    if t.cwnd < t.ssthresh then
      let inc := if mss < newlyAcked then mss else newlyAcked
      { t with cwnd := t.cwnd+inc }
    else
      let accum := t.cwndAccum+mss*mss/t.cwnd
      if mss ≤ accum then { t with cwnd := t.cwnd+mss, cwndAccum := accum-mss }
      else { t with cwndAccum := accum }

/-- `max(flight/2, 2*mss)`, the threshold after a loss. -/
def lossSsthresh (t : TCB) : UInt32 :=
  let half := (t.sndNxt-t.sndUna)/2
  let min2mss := 2*ccMss t
  if half < min2mss then min2mss else half

/-- Count a duplicate ACK; `true` on the third, which asks for fast retransmit. -/
def tcpCCOnDupAck (t : TCB) : TCB × Bool :=
  let t := { t with dupAcks := t.dupAcks+1 }
  if t.dupAcks ≠ 3 then (t,false)
  else
    ({ t with
       ssthresh := lossSsthresh t
       cwnd := lossSsthresh t+3*ccMss t
       cwndAccum := 0 },true)

def tcpCCOnRTO (t : TCB) : TCB :=
  { t with
    ssthresh := lossSsthresh t
    cwnd := ccMss t
    cwndAccum := 0
    dupAcks := 0 }

def tcpIsDuplicateACK (t : TCB) (h : TCPHeader) (payloadLen : ℕ) : Bool :=
  hasFlag h.flags tcpFlagACK &&
  !hasFlag h.flags (tcpFlagSYN ||| tcpFlagFIN ||| tcpFlagRST) &&
  payloadLen == 0 &&
  h.ack == t.sndUna &&
  h.window.toUInt32 == t.sndWnd &&
  t.sndUna != t.sndNxt

/-! ## Timers and ACK processing -/

/-- Arm the RTO. The scanner thread it starts is running since `tcpInit`. -/
def tcpArmRTO (now : UInt64) (t : TCB) : TCB :=
  let rtoTicks := if t.rtoTicks = 0 then tcpRTOInitTicks else t.rtoTicks
  { t with
    rtoTicks := rtoTicks
    rtoDeadline := now+rtoTicks.toUInt64
    xmitCountHead := 0 }

/-- Disarm the RTO when nothing is in flight, else arm it again. -/
def rearmRTO (now : UInt64) (t : TCB) : TCB :=
  if t.retxQ.count.toNat = 0 then { t with rtoDeadline := 0 } else tcpArmRTO now t

def tcpMaybeArmPersist (now : UInt64) (t : TCB) : TCB :=
  if t.sndWnd ≠ 0 then { t with persistDeadline := 0, persistTicks := 0 }
  else if t.txBuf.rbLen = 0 then t
  else if t.persistDeadline = 0 then
    { t with
      persistTicks := tcpPersistInitTicks
      persistDeadline := now+tcpPersistInitTicks.toUInt64 }
  else t

/-- The part of `tcpAckUpdate` that moves `sndUna` up to a new ACK number. -/
def ackAdvance (now : UInt64) (t : TCB) (ack : UInt32) : TCB :=
  let newlyAcked := ack-t.sndUna
  let (t,r) := retxAckTo { t with sndUna := ack } ack
  let t := tcpRTTSample now t r.oldestSent r.anyPristine
  let t := tcpCCOnAck t newlyAcked
  rearmRTO now { t with dupAcks := 0 }

/-- The send-window part of `tcpAckUpdate`, guarded against stale segments. -/
def windowUpdate (now : UInt64) (t : TCB) (h : TCPHeader) : TCB :=
  if seqLT t.sndWl1 h.seq || (t.sndWl1 == h.seq && seqLE t.sndWl2 h.ack) then
    tcpMaybeArmPersist now
      { t with sndWnd := h.window.toUInt32, sndWl1 := h.seq, sndWl2 := h.ack }
  else t

/-- Process the ACK field of a segment; `true` when it acknowledges `sndNxt`. -/
def tcpAckUpdate (now : UInt64) (t : TCB) (h : TCPHeader) : TCB × Bool :=
  if !hasFlag h.flags tcpFlagACK then (t,false)
  else if !seqLE t.sndUna h.ack || !seqLE h.ack t.sndNxt then (t,false)
  else
    let t := if t.sndUna ≠ h.ack then ackAdvance now t h.ack else t
    let t := windowUpdate now t h
    (t,h.ack == t.sndNxt)

/-! ## Sending -/

/-- The window to advertise, with silly-window avoidance, and the TCB that
remembers it. -/
def tcpAdvertiseWin (t : TCB) : TCB × UInt16 :=
  let free := t.rcvWnd
  let last := t.lastAdvWin
  let threshold := UInt32.ofNat (tcpRxBufSize/2)
  let mss := t.mssEff.toUInt32
  let threshold := if mss ≠ 0 ∧ mss < threshold then mss else threshold
  if last < free ∧ free-last < threshold then
    (t,if 0xFFFF < last then 0xFFFF else last.toUInt16)
  else if 0xFFFF < free then ({ t with lastAdvWin := 0xFFFF },0xFFFF)
  else ({ t with lastAdvWin := free },free.toUInt16)

/-- Compose a segment at `sndNxt` and hand it to `ipv4Send`, whose outcome for a
datagram that fits is `ipOk`. The segment is returned when it was transmitted. -/
def tcpSendSegment (ourIP : UInt32) (ipOk : Bool) (t : TCB) (flags : UInt8)
    (options payload : List UInt8) : TCB × Option Segment :=
  let total := tcpHeaderMinSize+options.length+payload.length
  if options.length%4 ≠ 0 ∨ 40 < options.length then (t,none)
  else if tcpScratchSize < total then (t,none)
  else
    let (t',window) := tcpAdvertiseWin t
    let seg : Segment :=
      { srcIP := ourIP, dstIP := t.remoteIP, srcPort := t.localPort, dstPort := t.remotePort
        seq := t.sndNxt, ack := t.rcvNxt, flags := flags, window := window
        options := options, payload := payload }
    (t',if ipOk && decide (total ≤ ipv4MaxPayload) then some seg else none)

/-- `isnNext`: the tick counter scaled to a 25 MHz clock. -/
def isnNext (now : UInt64) : UInt32 := (now*250000).toUInt32

end Gooos
