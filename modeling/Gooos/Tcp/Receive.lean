import Mathlib
import Gooos.Tcp.Threads

/-!
# The receive loop

`tcpHandle`, `tcpTryPassiveOpen`, `tcpDispatchToTCB` and the per-state handlers of
`tcp.go`, section by section. `ok` is the outcome of `ipv4Send` in a section that
transmits.
-/

namespace Gooos

/-- The unlocked tests of `tcpHandleSynSent`. -/
def synSentCheck (x : TCB) (t : TcbRef) (h : TCPHeader) (payload : List UInt8) : RxPc :=
  let rst := tcpSendReset x.localIP x.localPort x.remoteIP x.remotePort h.ack h.seq h.flags
    payload.length
  if hasFlag h.flags tcpFlagACK &&
      !(seqLE (x.sndUna+1) h.ack && seqLE h.ack x.sndNxt) then
    if !hasFlag h.flags tcpFlagRST then .reset rst none else .idle
  else if hasFlag h.flags tcpFlagRST then .free t
  else if hasFlag h.flags tcpFlagSYN && !hasFlag h.flags tcpFlagACK then .reset rst (some t)
  else if h.flags &&& (tcpFlagSYN ||| tcpFlagACK) ≠ tcpFlagSYN ||| tcpFlagACK then .idle
  else .synSent t h payload

/-- The RST test of `tcpDispatchToTCB`. -/
def rstInWindow (x : TCB) (h : TCPHeader) : Bool :=
  seqLE x.rcvNxt h.seq && seqLT h.seq (x.rcvNxt+x.rcvWnd+1)

/-- `tcpDispatchToTCB` and the unlocked tests at the head of each handler. -/
def tcpDispatchToTCB (x : TCB) (t : TcbRef) (h : TCPHeader) (payload : List UInt8) : RxPc :=
  if hasFlag h.flags tcpFlagRST && x.state != .synSent then
    if rstInWindow x h then .free t else .idle
  else match x.state with
    | .synSent => synSentCheck x t h payload
    | .synReceived =>
      if !hasFlag h.flags tcpFlagACK then .idle
      else if h.ack ≠ x.sndNxt then .idle
      else .synReceived t h payload
    | .established => .established t h payload
    | .closeWait => if hasFlag h.flags tcpFlagFIN then .sendAck t none else .idle
    | .lastAck =>
      if hasFlag h.flags tcpFlagACK && h.ack == x.sndNxt then .free t else .idle
    | .finWait1 => .finWait1 t h payload
    | .finWait2 => .finWait2 t h payload
    | .closing => .closing t h
    | .timeWait => if hasFlag h.flags tcpFlagFIN then .timeWait t else .idle
    | .closed => .idle
    | .listen => .idle

/-- The segment that completed the handshake also carried data or a FIN. -/
def carriesMore (h : TCPHeader) (payload : List UInt8) : Bool :=
  decide (0 < payload.length) || hasFlag h.flags tcpFlagFIN

/-- `tcpHandleSynReceived` once the TCB is off the pending queue. -/
def afterPromote (t : TcbRef) (h : TCPHeader) (payload : List UInt8) : RxPc :=
  if carriesMore h payload then .established t h payload else .idle

/-- One section of the receive loop. -/
def rxSection (s : Shared) (ok : Bool) : RxPc → Effect RxPc
  | .idle => { next := .idle }
  | .lookup hdr h payload =>
    match tcbLookup s.tcb hdr.dstIP h.dstPort hdr.srcIP h.srcPort with
    | some i => { next := .dispatch (s.ref i) h payload }
    | none =>
      if hasFlag h.flags tcpFlagSYN && !hasFlag h.flags tcpFlagACK then
        { next := .openLookup hdr h payload }
      else if !hasFlag h.flags tcpFlagRST then
        { next := .reset (tcpSendReset hdr.dstIP h.dstPort hdr.srcIP h.srcPort h.ack h.seq
            h.flags payload.length) none }
      else { next := .idle }
  | .dispatch t h payload =>
    { next := tcpDispatchToTCB (s.tcb t.slot) t h payload
      op := some (t.slot,.dispatch h) }
  | .synSent t h payload =>
    { next := .sendAck t (if carriesMore h payload then some (h,payload) else none)
      op := some (t.slot,.synSentAck h) }
  | .synReceived t h payload =>
    { next := match (s.tcb t.slot).listener with
        | some l => .promote l t h payload
        | none => afterPromote t h payload
      op := some (t.slot,.synReceivedAck h) }
  | .promote l t h payload =>
    { next := afterPromote t h payload
      listener := some (l,(tcpListenerPromote (s.listener l) t).1) }
  | .established t h payload =>
    { next := .sendAck t none, op := some (t.slot,.established h payload) }
  | .finWait1 t h payload =>
    { next := .sendAck t none, op := some (t.slot,.finWait1 h payload) }
  | .finWait2 t h payload =>
    { next := .sendAck t none, op := some (t.slot,.finWait2 h payload) }
  | .closing t h =>
    { next := .idle
      op := some (t.slot,.closing h) }
  | .timeWait t =>
    { next := .sendAck t none
      op := some (t.slot,.timeWait) }
  | .sendAck t again =>
    let r := tcpSendSegment s.ourIP ok (s.tcb t.slot) tcpFlagACK [] []
    { next := match again with
        | some (h,payload) => .established t h payload
        | none => .idle
      op := some (t.slot,.send s.ourIP ok tcpFlagACK [] [])
      obs := sentObs t.slot r.2 }
  | .free t => { next := .idle, op := some (t.slot,.free) }
  | .reset seg andFree =>
    { next := match andFree with
        | some t => .free t
        | none => .idle
      obs := if ok then [.reset seg] else [] }
  | .openLookup hdr h payload =>
    let rst := tcpSendReset hdr.dstIP h.dstPort hdr.srcIP h.srcPort h.ack h.seq h.flags
      payload.length
    match tcpListenerLookupLocked s.listener h.dstPort with
    | none => { next := .reset rst none }
    | some l =>
      if tcpAcceptQueueDepth ≤ (s.listener l).pending.length+(s.listener l).accept.length then
        { next := .reset rst none }
      else { next := .openAlloc l hdr h payload }
  | .openAlloc l hdr h payload =>
    match tcbAllocFind s.tcb with
    | none =>
      { next := .reset (tcpSendReset hdr.dstIP h.dstPort hdr.srcIP h.srcPort h.ack h.seq h.flags
          payload.length) none }
    | some i =>
      { next := .openInit l (s.newRef i) h
        op := some (i,.alloc hdr.dstIP h.dstPort hdr.srcIP h.srcPort) }
  | .openInit l t h =>
    { next := .openPush l t
      op := some (t.slot,.passiveInit l h) }
  | .openPush l t =>
    match tcpListenerPushPending (s.listener l) t with
    | none => { next := .free t }
    | some l' => { next := .openRollback l t, listener := some (l,l') }
  | .openRollback l t =>
    { next := .openSend l t (s.tcb t.slot).sndNxt
      op := some (t.slot,.synRollback) }
  | .openSend l t orig =>
    let x := s.tcb t.slot
    let opts := tcpBuildMSSOption x.mssLocal
    let r := tcpSendSegment s.ourIP ok x (tcpFlagSYN ||| tcpFlagACK) opts []
    { next := .openRestore l t orig r.2.isSome
      op := some (t.slot,.send s.ourIP ok (tcpFlagSYN ||| tcpFlagACK) opts [])
      obs := sentObs t.slot r.2 }
  | .openRestore l t orig sent =>
    { next := if sent then .idle else .openRemove l t
      op := some (t.slot,.synRestore orig (tcpFlagSYN ||| tcpFlagACK) sent) }
  | .openRemove l t =>
    { next := .free t
      listener := some (l,tcpListenerRemove (s.listener l) t) }

end Gooos
