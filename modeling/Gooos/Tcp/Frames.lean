import Mathlib
import Gooos.Tcp.Sections

/-!
# What the sections leave alone

ACK processing, RTT, congestion control and the timers write only the fields
collected in `FlowVars`. Each helper is an update of those fields, so a proof about
any other field never opens it.
-/

namespace Gooos

/-- The fields of a TCB that ACK processing and the timers write. -/
structure FlowVars where
  sndUna : UInt32
  sndWnd : UInt32
  sndWl1 : UInt32
  sndWl2 : UInt32
  mssEff : UInt16
  retxQ : TcpRetxQueue
  rtoTicks : UInt32
  rtoDeadline : UInt64
  xmitCountHead : UInt8
  rtoFastRetx : Bool
  srttTicks : UInt32
  rttvarTicks : UInt32
  rttInitialized : Bool
  persistDeadline : UInt64
  persistTicks : UInt32
  cwnd : UInt32
  ssthresh : UInt32
  cwndAccum : UInt32
  dupAcks : UInt8

variable {t u v : TCB}

namespace TCB

def withFlow (t : TCB) (f : FlowVars) : TCB :=
  { t with
    sndUna := f.sndUna
    sndWnd := f.sndWnd
    sndWl1 := f.sndWl1
    sndWl2 := f.sndWl2
    mssEff := f.mssEff
    retxQ := f.retxQ
    rtoTicks := f.rtoTicks
    rtoDeadline := f.rtoDeadline
    xmitCountHead := f.xmitCountHead
    rtoFastRetx := f.rtoFastRetx
    srttTicks := f.srttTicks
    rttvarTicks := f.rttvarTicks
    rttInitialized := f.rttInitialized
    persistDeadline := f.persistDeadline
    persistTicks := f.persistTicks
    cwnd := f.cwnd
    ssthresh := f.ssthresh
    cwndAccum := f.cwndAccum
    dupAcks := f.dupAcks }

def flow (t : TCB) : FlowVars where
  sndUna := t.sndUna
  sndWnd := t.sndWnd
  sndWl1 := t.sndWl1
  sndWl2 := t.sndWl2
  mssEff := t.mssEff
  retxQ := t.retxQ
  rtoTicks := t.rtoTicks
  rtoDeadline := t.rtoDeadline
  xmitCountHead := t.xmitCountHead
  rtoFastRetx := t.rtoFastRetx
  srttTicks := t.srttTicks
  rttvarTicks := t.rttvarTicks
  rttInitialized := t.rttInitialized
  persistDeadline := t.persistDeadline
  persistTicks := t.persistTicks
  cwnd := t.cwnd
  ssthresh := t.ssthresh
  cwndAccum := t.cwndAccum
  dupAcks := t.dupAcks

/-- The flow fields `f` keep what only an ACK or a probe writes. -/
def AckFieldsKept (t : TCB) (f : FlowVars) : Prop :=
  f.sndUna = t.sndUna ∧ f.sndWnd = t.sndWnd ∧ f.persistDeadline = t.persistDeadline

/-- `u` is `t` up to the flow fields. -/
def FlowOf (t u : TCB) : Prop := ∃ f, u = t.withFlow f

theorem FlowOf.refl (t : TCB) : FlowOf t t := ⟨t.flow,rfl⟩

theorem FlowOf.trans (h : FlowOf t u) (h' : FlowOf u v) : FlowOf t v := by
  obtain ⟨f,rfl⟩ := h
  obtain ⟨g,rfl⟩ := h'
  exact ⟨g,rfl⟩

/-- Writing flow fields is a flow change; the fields are read off the result. -/
theorem FlowOf.of_eq (h : u = t.withFlow u.flow) : FlowOf t u := ⟨_,h⟩

theorem FlowOf.ite {c : Prop} [Decidable c] (hu : FlowOf t u) (hv : FlowOf t v) :
    FlowOf t (if c then u else v) := by
  split
  · exact hu
  · exact hv

theorem FlowOf.rcvNxt_eq (h : FlowOf t u) : u.rcvNxt = t.rcvNxt := by
  obtain ⟨f,rfl⟩ := h
  rfl

theorem FlowOf.rxBuf_eq (h : FlowOf t u) : u.rxBuf = t.rxBuf := by
  obtain ⟨f,rfl⟩ := h
  rfl

theorem FlowOf.state_eq (h : FlowOf t u) : u.state = t.state := by
  obtain ⟨f,rfl⟩ := h
  rfl

end TCB

open TCB

theorem tcpRTTSample_flow (now : UInt64) (t : TCB) (sent : UInt64) (b : Bool) :
    FlowOf t (tcpRTTSample now t sent b) := by
  refine .ite (.refl t) (.ite (.refl t) (.ite ?_ ?_))
  · rw [tcpRTTInit]
    exact .of_eq rfl
  · exact .of_eq rfl

theorem tcpCCInit_flow (t : TCB) : FlowOf t (tcpCCInit t) := .of_eq rfl

theorem tcpCCOnAck_flow (t : TCB) (n : UInt32) : FlowOf t (tcpCCOnAck t n) := by
  refine .ite (.refl t) ?_
  have hinit : FlowOf t (if t.cwnd = 0 then tcpCCInit t else t) :=
    .ite (tcpCCInit_flow t) (.refl t)
  refine hinit.trans (.ite (.of_eq rfl) ?_)
  exact .ite (.of_eq rfl) (.of_eq rfl)

theorem tcpArmRTO_flow (now : UInt64) (t : TCB) : FlowOf t (tcpArmRTO now t) := .of_eq rfl

theorem rearmRTO_flow (now : UInt64) (t : TCB) : FlowOf t (rearmRTO now t) :=
  .ite (.of_eq rfl) (tcpArmRTO_flow now t)

theorem retxAckTo_flow (t : TCB) (ack : UInt32) : FlowOf t (retxAckTo t ack).1 := .of_eq rfl

theorem ackAdvance_flow (now : UInt64) (t : TCB) (ack : UInt32) :
    FlowOf t (ackAdvance now t ack) := by
  have hreset (u : TCB) : FlowOf u { u with dupAcks := 0 } := .of_eq rfl
  have hpop : FlowOf t (retxAckTo { t with sndUna := ack } ack).1 := .of_eq rfl
  have hrtt := hpop.trans (tcpRTTSample_flow now _
    (retxAckTo { t with sndUna := ack } ack).2.oldestSent
    (retxAckTo { t with sndUna := ack } ack).2.anyPristine)
  have hcc := hrtt.trans (tcpCCOnAck_flow _ (ack-t.sndUna))
  exact (hcc.trans (hreset _)).trans (rearmRTO_flow now _)

theorem windowUpdate_flow (now : UInt64) (t : TCB) (h : TCPHeader) :
    FlowOf t (windowUpdate now t h) := by
  refine .ite ?_ (.refl t)
  refine (FlowOf.of_eq rfl : FlowOf t { t with
    sndWnd := h.window.toUInt32, sndWl1 := h.seq, sndWl2 := h.ack }).trans ?_
  exact .ite (.of_eq rfl) (.ite (.refl _) (.ite (.of_eq rfl) (.refl _)))

theorem tcpAckUpdate_flow (now : UInt64) (t : TCB) (h : TCPHeader) :
    FlowOf t (tcpAckUpdate now t h).1 := by
  rw [tcpAckUpdate]
  split
  · exact .refl t
  · split
    · exact .refl t
    · have hadv : FlowOf t (if t.sndUna ≠ h.ack then ackAdvance now t h.ack else t) :=
        .ite (ackAdvance_flow now t h.ack) (.refl t)
      exact hadv.trans (windowUpdate_flow now _ h)

theorem dupAckSection_flow (t : TCB) : FlowOf t (dupAckSection t) := by
  have hcount : FlowOf t (tcpCCOnDupAck t).1 := by
    rw [tcpCCOnDupAck]
    split
    · exact .of_eq rfl
    · exact .of_eq rfl
  exact .ite (hcount.trans (.of_eq rfl)) hcount

theorem establishedAck_flow (now : UInt64) (h : TCPHeader) (n : ℕ) (t : TCB) :
    FlowOf t (establishedAck now h n t) :=
  .ite (dupAckSection_flow t) (tcpAckUpdate_flow now t h)

theorem synAcked_flow (now : UInt64) (t : TCB) (ack : UInt32) : FlowOf t (synAcked now t ack) :=
  (tcpCCInit_flow t).trans ((retxAckTo_flow _ ack).trans
    ((tcpRTTSample_flow now _ _ _).trans (rearmRTO_flow now _)))

theorem rtoBackoff_shape (now : UInt64) (head : TcpRetxEntry) (t : TCB) :
    ∃ f, t.AckFieldsKept f ∧ rtoBackoff now head t = t.withFlow f := by
  refine ⟨(rtoBackoff now head t).flow,?_,?_⟩
  · rw [rtoBackoff]
    split <;> exact ⟨rfl,rfl,rfl⟩
  · rw [rtoBackoff]
    split <;> rfl

/-! ## Receive handlers -/

namespace TCB

/-- `u` is `t` up to the flow fields, the receive cursor and ring, the state and the
TIME_WAIT deadline: what a receive handler may write. -/
def HandlerOf (t u : TCB) : Prop := ∃ f rxBuf rcvNxt rcvWnd state timeWaitDeadline,
  u = { t.withFlow f with
    rxBuf := rxBuf, rcvNxt := rcvNxt, rcvWnd := rcvWnd, state := state
    timeWaitDeadline := timeWaitDeadline }

theorem FlowOf.handler (h : FlowOf t u) : HandlerOf t u := by
  obtain ⟨f,rfl⟩ := h
  exact ⟨f,t.rxBuf,t.rcvNxt,t.rcvWnd,t.state,t.timeWaitDeadline,rfl⟩

theorem HandlerOf.trans (h : HandlerOf t u) (h' : HandlerOf u v) : HandlerOf t v := by
  obtain ⟨f,rb,nxt,wnd,st,tw,rfl⟩ := h
  obtain ⟨g,rb',nxt',wnd',st',tw',rfl⟩ := h'
  exact ⟨g,rb',nxt',wnd',st',tw',rfl⟩

theorem HandlerOf.refl (t : TCB) : HandlerOf t t := (FlowOf.refl t).handler

theorem HandlerOf.ite {c : Prop} [Decidable c] (hu : HandlerOf t u)
    (hv : HandlerOf t v) : HandlerOf t (if c then u else v) := by
  split
  · exact hu
  · exact hv

theorem HandlerOf.of_eq (h : u = { t.withFlow u.flow with
    rxBuf := u.rxBuf, rcvNxt := u.rcvNxt, rcvWnd := u.rcvWnd, state := u.state
    timeWaitDeadline := u.timeWaitDeadline }) : HandlerOf t u := ⟨_,_,_,_,_,_,h⟩

end TCB

theorem acceptPayload_handler (payload : List UInt8) (t : TCB) :
    HandlerOf t (acceptPayload payload t) := .ite (.of_eq rfl) (.refl t)

theorem tcpHandleEstablished_handler (now : UInt64) (h : TCPHeader) (payload : List UInt8)
    (t : TCB) : HandlerOf t (tcpHandleEstablished now h payload t) := by
  have hfin (u : TCB) : HandlerOf u { u with rcvNxt := u.rcvNxt+1, state := .closeWait } :=
    .of_eq rfl
  have hack := (establishedAck_flow now h payload.length t).handler
  have hdata := hack.trans (acceptPayload_handler payload _)
  exact .ite (.refl t) (.ite (hdata.trans (hfin _)) hdata)

theorem tcpHandleFinWait1_handler (now : UInt64) (h : TCPHeader) (payload : List UInt8)
    (t : TCB) : HandlerOf t (tcpHandleFinWait1 now h payload t) := by
  have hstate (u : TCB) (st : TcbState) : HandlerOf u { u with state := st } := .of_eq rfl
  have htw (u : TCB) (w : UInt64) :
      HandlerOf u { u with state := .timeWait, timeWaitDeadline := w } := .of_eq rfl
  have hfin (u : TCB) : HandlerOf u { u with rcvNxt := u.rcvNxt+1 } := .of_eq rfl
  have hdata : HandlerOf t (if h.seq = t.rcvNxt then acceptPayload payload t else t) :=
    .ite (acceptPayload_handler payload t) (.refl t)
  have hack := hdata.trans (tcpAckUpdate_flow now _ h).handler
  have hcons : HandlerOf t (if peerFinInOrder h payload
      (tcpAckUpdate now (if h.seq = t.rcvNxt then acceptPayload payload t else t) h).1 then _
      else _) := .ite (hack.trans (hfin _)) hack
  exact .ite (hcons.trans (htw _ _)) (.ite (hcons.trans (hstate _ _))
    (.ite (hcons.trans (hstate _ _)) hcons))

theorem tcpHandleFinWait2_handler (now : UInt64) (h : TCPHeader) (payload : List UInt8)
    (t : TCB) : HandlerOf t (tcpHandleFinWait2 now h payload t) := by
  have hfin (u : TCB) (w : UInt64) : HandlerOf u
      { u with rcvNxt := u.rcvNxt+1, state := .timeWait, timeWaitDeadline := w } := .of_eq rfl
  have hack := (tcpAckUpdate_flow now t h).handler
  have hdata : HandlerOf t (if h.seq = (tcpAckUpdate now t h).1.rcvNxt
      then acceptPayload payload (tcpAckUpdate now t h).1 else (tcpAckUpdate now t h).1) :=
    .ite (hack.trans (acceptPayload_handler payload _)) hack
  exact .ite (hdata.trans (hfin _ _)) hdata

theorem tcpHandleClosing_handler (now : UInt64) (h : TCPHeader) (t : TCB) :
    HandlerOf t (tcpHandleClosing now h t) := by
  have htw (u : TCB) (w : UInt64) :
      HandlerOf u { u with state := .timeWait, timeWaitDeadline := w } := .of_eq rfl
  have hack := (tcpAckUpdate_flow now t h).handler
  exact .ite (hack.trans (htw _ _)) hack

/-! ## Transmission -/

/-- A transmission writes nothing but the advertised window. -/
theorem tcpSendSegment_fst (ourIP : UInt32) (ok : Bool) (t : TCB) (flags : UInt8)
    (options payload : List UInt8) : ∃ w,
    (tcpSendSegment ourIP ok t flags options payload).1 = { t with lastAdvWin := w } := by
  rw [tcpSendSegment]
  split
  · exact ⟨_,rfl⟩
  · split
    · exact ⟨_,rfl⟩
    · rw [tcpAdvertiseWin]
      dsimp only
      split_ifs <;> exact ⟨_,rfl⟩

/-- What the segment carries. -/
theorem tcpSendSegment_snd {ourIP : UInt32} {ok : Bool} {flags : UInt8}
    {options payload : List UInt8} {seg : Segment}
    (h : (tcpSendSegment ourIP ok t flags options payload).2 = some seg) :
    seg.seq = t.sndNxt ∧ seg.ack = t.rcvNxt ∧ seg.flags = flags ∧ seg.options = options ∧
      seg.payload = payload := by
  rw [tcpSendSegment] at h
  dsimp only at h
  split at h
  · cases h
  · split at h
    · cases h
    · split at h
      · cases h
        exact ⟨rfl,rfl,rfl,rfl,rfl⟩
      · cases h

/-! ## Send side and timers -/

section

variable (now : UInt64)
include now

theorem pushArm_shape (t : TCB) (e : TcpRetxEntry) :
    ∃ f, t.AckFieldsKept f ∧ tcpArmRTO now (retxPush t e).1 = t.withFlow f := by
  refine ⟨(tcpArmRTO now (retxPush t e).1).flow,?_,?_⟩
  · rw [retxPush]
    split <;> exact ⟨rfl,rfl,rfl⟩
  · rw [retxPush]
    split <;> rfl

theorem synRestore_shape (orig : UInt32) (flags : UInt8) (ok : Bool) (t : TCB) :
    ∃ f, t.AckFieldsKept f ∧
      synRestore now orig flags ok t = { t.withFlow f with sndNxt := orig } := by
  rw [synRestore]
  split
  · obtain ⟨f,hu,hf⟩ := pushArm_shape now { t with sndNxt := orig }
      ⟨t.iss,t.iss+1,flags,0,0,now,0⟩
    exact ⟨f,hu,hf⟩
  · exact ⟨t.flow,⟨rfl,rfl,rfl⟩,rfl⟩

theorem tcpCloseCommit_shape (t : TCB) : ∃ f, t.AckFieldsKept f ∧
    tcpCloseCommit now t = { t.withFlow f with sndNxt := t.sndNxt+1 } := by
  obtain ⟨f,hu,hf⟩ := pushArm_shape now { t with sndNxt := t.sndNxt+1 }
    ⟨t.sndNxt,t.sndNxt+1,tcpFlagFIN ||| tcpFlagACK,0,0,now,0⟩
  exact ⟨f,hu,hf⟩

theorem drainCommit_shape (d : Drain) (t : TCB) : ∃ f, t.AckFieldsKept f ∧ drainCommit now d t =
      { t.withFlow f with sndNxt := t.sndNxt+UInt32.ofNat d.bytes.length } := by
  obtain ⟨f,hu,hf⟩ := pushArm_shape now
    { t with sndNxt := t.sndNxt+UInt32.ofNat d.bytes.length }
    ⟨d.seq,d.seq+UInt32.ofNat d.bytes.length,tcpFlagACK ||| tcpFlagPSH,d.flight,
      (UInt32.ofNat d.bytes.length).toUInt16,now,0⟩
  exact ⟨f,hu,hf⟩

theorem synReceivedAck_shape (h : TCPHeader) (t : TCB) :
    ∃ f, synReceivedAck now h t = { t.withFlow f with state := .established } := by
  obtain ⟨f,hf⟩ := synAcked_flow now { t with
    state := .established, sndUna := h.ack, sndWnd := h.window.toUInt32
    sndWl1 := h.seq, sndWl2 := h.ack } h.ack
  exact ⟨f,hf⟩

theorem synSentAck_shape (h : TCPHeader) (t : TCB) : ∃ f, synSentAck now h t = { t.withFlow f with
      irs := h.seq, rcvNxt := h.seq+1, mssPeer := peerMSSOf h, state := .established } := by
  obtain ⟨f,hf⟩ := synAcked_flow now { t with
    irs := h.seq, rcvNxt := h.seq+1, sndUna := h.ack, sndWnd := h.window.toUInt32
    sndWl1 := h.seq, sndWl2 := h.ack, mssPeer := peerMSSOf h
    mssEff := effectiveMSS (peerMSSOf h) t.mssLocal, state := .established } h.ack
  exact ⟨f,hf⟩

/-- `tcpRTOFire` writes flow fields and, for a SYN, the send cursor. -/
theorem tcpRTOFireBegin_shape (t : TCB) : ∃ f nxt, t.AckFieldsKept f ∧
    (tcpRTOFireBegin now t).1 = { t.withFlow f with sndNxt := nxt } := by
  rw [tcpRTOFireBegin]
  split
  · exact ⟨t.flow,t.sndNxt,⟨rfl,rfl,rfl⟩,rfl⟩
  · split
    · exact ⟨t.flow,t.sndNxt,⟨rfl,rfl,rfl⟩,rfl⟩
    · split
      · exact ⟨(retxFlush { t with rtoDeadline := 0 }).flow,t.sndNxt,⟨rfl,rfl,rfl⟩,rfl⟩
      · split
        · exact ⟨{ t.flow with rtoDeadline := 0 },t.sndNxt,⟨rfl,rfl,rfl⟩,rfl⟩
        · rename_i head _
          obtain ⟨f,hu,hf⟩ := rtoBackoff_shape now head t
          rw [hf]
          split
          · exact ⟨f,head.seq,hu,rfl⟩
          · exact ⟨f,t.sndNxt,hu,rfl⟩

theorem tcpPersistFireBegin_fst (t : TCB) : ∃ deadline ticks, (tcpPersistFireBegin now t).1 =
      { t with persistDeadline := deadline, persistTicks := ticks } := by
  rw [tcpPersistFireBegin]
  split
  · exact ⟨_,_,rfl⟩
  · split
    · exact ⟨_,_,rfl⟩
    · split
      · exact ⟨_,_,rfl⟩
      · exact ⟨_,_,rfl⟩

theorem tcpDelackFireBegin_fst (t : TCB) :
    ∃ d, (tcpDelackFireBegin now t).1 = { t with delackDeadline := d } := by
  rw [tcpDelackFireBegin]
  split
  · exact ⟨_,rfl⟩
  · split
    · exact ⟨_,rfl⟩
    · exact ⟨_,rfl⟩

end

theorem tcpCloseMark_shape (t : TCB) : ∃ st, (tcpCloseMark t).getD t = { t with state := st } := by
  rw [tcpCloseMark]
  split
  · exact ⟨_,rfl⟩
  · exact ⟨_,rfl⟩
  · exact ⟨_,rfl⟩

theorem sendEnqueue_shape (buf : List UInt8) (t : TCB) :
    ∃ b, ((sendEnqueue buf t).map Prod.fst).getD t = { t with txBuf := b } := by
  rw [sendEnqueue]
  split
  · exact ⟨_,rfl⟩
  · exact ⟨t.txBuf,rfl⟩

/-! ## Operations -/

namespace TcbOp

/-- Starts a connection in the slot. -/
def opens : TcbOp → Bool
  | .passiveInit .. | .activeInit => true
  | _ => false

/-- Claims or releases the slot. -/
def binds : TcbOp → Bool
  | .alloc .. | .free => true
  | _ => false

/-- May change the state. -/
def moves : TcbOp → Bool
  | .alloc .. | .free | .passiveInit .. | .activeInit | .synSentAck _ | .synReceivedAck _
  | .established .. | .finWait1 .. | .finWait2 .. | .closing _ | .closeMark | .echoFinCommit => true
  | _ => false

/-- Processes an ACK number. -/
def acks : TcbOp → Bool
  | .synSentAck _ | .synReceivedAck _ | .established .. | .finWait1 .. | .finWait2 ..
  | .closing _ => true
  | _ => false

/-- May move the send cursor of an open connection. -/
def shifts : TcbOp → Bool
  | .synRollback | .synRestore .. | .closeCommit | .drainCommit _ | .echoDataCommit _
  | .echoFinCommit | .rtoBegin | .rtoRestore _ => true
  | _ => false

/-- May add descriptors to the retransmission queue or touch its timer. -/
def queues : TcbOp → Bool
  | .synRestore .. | .closeCommit | .drainCommit _ | .rtoBegin => true
  | _ => false

/-- May advance the receive cursor. -/
def receives : TcbOp → Bool
  | .passiveInit .. | .synSentAck _ | .established .. | .finWait1 .. | .finWait2 .. => true
  | _ => false

/-- Takes bytes out of `rxBuf`. -/
def drains : TcbOp → Bool
  | .recvTake _ | .shutdownReset | .echoTake => true
  | _ => false

def isEnqueue : TcbOp → Bool
  | .enqueue _ => true
  | _ => false

/-- Fires the persist timer. -/
def probes : TcbOp → Bool
  | .persistBegin => true
  | _ => false

/-- Transmits a segment. -/
def sends : TcbOp → Bool
  | .send .. => true
  | _ => false

/-- Sets or clears the listener. -/
def enlists : TcbOp → Bool
  | .passiveInit .. | .clearListener => true
  | _ => false

/-- Which fields of `t` an operation that yields `u` has left alone. -/
structure Frame (op : TcbOp) (t u : TCB) : Prop where
  iss : op.opens = false → u.iss = t.iss := by
    first | (intro h; cases h; done) | exact fun _ => rfl
  addr : op.binds = false → u.active = t.active ∧ u.localIP = t.localIP ∧
    u.localPort = t.localPort ∧ u.remoteIP = t.remoteIP ∧ u.remotePort = t.remotePort := by
      first | (intro h; cases h; done) | exact fun _ => ⟨rfl,rfl,rfl,rfl,rfl⟩
  state : op.moves = false → u.state = t.state := by
    first | (intro h; cases h; done) | exact fun _ => rfl
  listener : op.enlists = false → u.listener = t.listener := by
    first | (intro h; cases h; done) | exact fun _ => rfl
  sndUna : op.opens = false → op.acks = false → u.sndUna = t.sndUna := by
    first | (intro h; cases h; done) | (intro _ h; cases h; done) | exact fun _ _ => rfl
  sndWnd : op.opens = false → op.acks = false → u.sndWnd = t.sndWnd := by
    first | (intro h; cases h; done) | (intro _ h; cases h; done) | exact fun _ _ => rfl
  persist : op.acks = false → op.probes = false → u.persistDeadline = t.persistDeadline := by
    first | (intro h; cases h; done) | (intro _ h; cases h; done) | exact fun _ _ => rfl
  sndNxt : op.opens = false → op.shifts = false → u.sndNxt = t.sndNxt := by
    first | (intro h; cases h; done) | (intro _ h; cases h; done) | exact fun _ _ => rfl
  retx : op.acks = false → op.queues = false → u.retxQ = t.retxQ ∧
    u.rtoDeadline = t.rtoDeadline ∧ u.rtoTicks = t.rtoTicks := by
      first | (intro h; cases h; done) | (intro _ h; cases h; done) | exact fun _ _ => ⟨rfl,rfl,rfl⟩
  cwnd : op.acks = false → op.queues = false → u.cwnd = t.cwnd := by
    first | (intro h; cases h; done) | (intro _ h; cases h; done) | exact fun _ _ => rfl
  rcvNxt : op.receives = false → u.rcvNxt = t.rcvNxt ∧ u.irs = t.irs := by
    first | (intro h; cases h; done) | exact fun _ => ⟨rfl,rfl⟩
  rxBuf : op.receives = false → op.drains = false → u.rxBuf = t.rxBuf := by
    first | (intro h; cases h; done) | (intro _ h; cases h; done) | exact fun _ _ => rfl
  txBuf : op.isEnqueue = false → u.txBuf = t.txBuf := by
    first | (intro h; cases h; done) | exact fun _ => rfl
  rcvWnd : op.opens = false → op.receives = false → op.drains = false → u.rcvWnd = t.rcvWnd := by
    first | (intro h; cases h; done) | (intro _ h; cases h; done) | (intro _ _ h; cases h; done) |
      exact fun _ _ _ => rfl
  lastAdvWin : op.sends = false → u.lastAdvWin = t.lastAdvWin := by
    first | (intro h; cases h; done) | exact fun _ => rfl
  mssLocal : op.opens = false → u.mssLocal = t.mssLocal := by
    first | (intro h; cases h; done) | exact fun _ => rfl

/-- What a receive handler leaves alone. -/
theorem Frame.of_handler {op : TcbOp} (h : TCB.HandlerOf t u) (hm : op.moves = true)
    (ha : op.acks = true)
    (hr : op.receives = false → u.rcvNxt = t.rcvNxt ∧ u.rxBuf = t.rxBuf ∧ u.rcvWnd = t.rcvWnd) :
    op.Frame t u := by
  obtain ⟨f,rb,nxt,wnd,st,tw,rfl⟩ := h
  constructor
  · exact fun _ => rfl
  · exact fun _ => ⟨rfl,rfl,rfl,rfl,rfl⟩
  · intro h; rw [hm] at h; cases h
  · exact fun _ => rfl
  · intro _ h; rw [ha] at h; cases h
  · intro _ h; rw [ha] at h; cases h
  · intro h; rw [ha] at h; cases h
  · exact fun _ _ => rfl
  · intro h; rw [ha] at h; cases h
  · intro h; rw [ha] at h; cases h
  · intro h; exact ⟨(hr h).1,rfl⟩
  · intro h _; exact (hr h).2.1
  · exact fun _ => rfl
  · intro _ h _; exact (hr h).2.2
  · exact fun _ => rfl
  · exact fun _ => rfl

theorem run_frame (now : UInt64) (t : TCB) (op : TcbOp) : op.Frame t (op.run now t) := by
  cases op with
  | established h payload =>
    exact .of_handler (tcpHandleEstablished_handler now h payload t) rfl rfl nofun
  | finWait1 h payload =>
    exact .of_handler (tcpHandleFinWait1_handler now h payload t) rfl rfl nofun
  | finWait2 h payload =>
    exact .of_handler (tcpHandleFinWait2_handler now h payload t) rfl rfl nofun
  | closing h =>
    refine .of_handler (tcpHandleClosing_handler now h t) rfl rfl fun _ => ?_
    obtain ⟨f,hf⟩ := tcpAckUpdate_flow now t h
    simp only [run,tcpHandleClosing,hf]
    split <;> exact ⟨rfl,rfl,rfl⟩
  | synRestore orig flags ok =>
    obtain ⟨f,hu,hf⟩ := synRestore_shape now orig flags ok t
    rw [run,hf]
    exact { sndUna := fun _ _ => hu.1, sndWnd := fun _ _ => hu.2.1, persist := fun _ _ => hu.2.2 }
  | synSentAck h =>
    obtain ⟨f,hf⟩ := synSentAck_shape now h t
    rw [run,hf]
    exact {}
  | synReceivedAck h =>
    obtain ⟨f,hf⟩ := synReceivedAck_shape now h t
    rw [run,hf]
    exact {}
  | send ip ok flags options payload =>
    obtain ⟨w,hw⟩ := tcpSendSegment_fst ip ok t flags options payload
    rw [run,hw]
    exact {}
  | closeMark =>
    obtain ⟨st,hst⟩ := tcpCloseMark_shape t
    rw [run,hst]
    exact {}
  | closeCommit =>
    obtain ⟨f,hu,hf⟩ := tcpCloseCommit_shape now t
    rw [run,hf]
    exact { sndUna := fun _ _ => hu.1, sndWnd := fun _ _ => hu.2.1, persist := fun _ _ => hu.2.2 }
  | drainCommit d =>
    obtain ⟨f,hu,hf⟩ := drainCommit_shape now d t
    rw [run,hf]
    exact { sndUna := fun _ _ => hu.1, sndWnd := fun _ _ => hu.2.1, persist := fun _ _ => hu.2.2 }
  | enqueue buf =>
    obtain ⟨b,hb⟩ := sendEnqueue_shape buf t
    rw [run,hb]
    exact {}
  | rtoBegin =>
    obtain ⟨f,nxt,hu,hf⟩ := tcpRTOFireBegin_shape now t
    rw [run,hf]
    exact { sndUna := fun _ _ => hu.1, sndWnd := fun _ _ => hu.2.1, persist := fun _ _ => hu.2.2 }
  | persistBegin =>
    obtain ⟨dl,ticks,hf⟩ := tcpPersistFireBegin_fst now t
    rw [run,hf]
    exact {}
  | delackBegin =>
    obtain ⟨d,hd⟩ := tcpDelackFireBegin_fst now t
    rw [run,hd]
    exact {}
  | alloc lip lp rip rp => rw [run,tcbAllocSlot]; exact {}
  | free => rw [run,tcbFree]; exact {}
  | passiveInit l h => rw [run,Gooos.passiveInit]; exact {}
  | activeInit => rw [run,Gooos.activeInit]; exact {}
  | synRollback => rw [run,Gooos.synRollback]; exact {}
  | dispatch h => rw [run]; exact {}
  | timeWait => rw [run,timeWaitRefresh]; exact {}
  | clearListener => rw [run,Gooos.clearListener]; exact {}
  | recvTake n => rw [run,Gooos.recvTake]; exact {}
  | shutdownReset => rw [run,Gooos.shutdownReset]; exact {}
  | echoTake => rw [run,Gooos.echoTake]; exact {}
  | echoDataCommit n => rw [run,Gooos.echoDataCommit]; exact {}
  | echoFinCommit => rw [run,Gooos.echoFinCommit]; exact {}
  | rtoRestore saved => rw [run,Gooos.rtoRestore]; exact {}

/-- The operation may take a TCB from state `st` to another state `st'`. -/
def leads (st st' : TcbState) : TcbOp → Bool
  | .alloc .. | .free => st' == .closed
  | .passiveInit .. => st' == .synReceived
  | .activeInit => st' == .synSent
  | .synSentAck _ | .synReceivedAck _ => st' == .established
  | .established .. => st' == .closeWait
  | .finWait1 .. => st' == .timeWait || st' == .finWait2 || st' == .closing
  | .finWait2 .. | .closing _ => st' == .timeWait
  | .closeMark => (st == .established && st' == .finWait1) || (st == .closeWait && st' == .lastAck)
  | .echoFinCommit => st' == .lastAck
  | _ => false

theorem leads_closeMark {st st' : TcbState} : closeMark.leads st st' = true ↔
    (st = .established ∧ st' = .finWait1) ∨ (st = .closeWait ∧ st' = .lastAck) := by
  change ((st == .established && st' == .finWait1) || (st == .closeWait && st' == .lastAck)) =
    true ↔ _
  simp

/-- The state machine, operation by operation. -/
theorem run_state (now : UInt64) (t : TCB) (op : TcbOp) :
    (op.run now t).state = t.state ∨ op.leads t.state (op.run now t).state = true := by
  by_cases hm : op.moves = true
  · cases op with
    | alloc | free | passiveInit | activeInit | echoFinCommit => exact .inr rfl
    | synSentAck h =>
      obtain ⟨f,hf⟩ := synSentAck_shape now h t
      exact .inr (by rw [run,hf]; rfl)
    | synReceivedAck h =>
      obtain ⟨f,hf⟩ := synReceivedAck_shape now h t
      exact .inr (by rw [run,hf]; rfl)
    | closeMark =>
      simp only [run,tcpCloseMark]
      cases hst : t.state <;> first | exact .inl hst | exact .inr rfl
    | established h payload =>
      have hkeep := (establishedAck_flow now h payload.length t).state_eq
      rw [run,tcpHandleEstablished]
      split
      · exact .inl rfl
      · dsimp only
        split
        · exact .inr rfl
        · refine .inl (Eq.trans ?_ hkeep)
          rw [acceptPayload]
          split <;> rfl
    | finWait1 h payload =>
      have hdata : (if h.seq = t.rcvNxt then acceptPayload payload t else t).state = t.state := by
        rw [acceptPayload]
        split_ifs <;> rfl
      have hkeep := (tcpAckUpdate_flow now
        (if h.seq = t.rcvNxt then acceptPayload payload t else t) h).state_eq
      rw [run,tcpHandleFinWait1]
      generalize tcpAckUpdate now _ h = w at hkeep ⊢
      obtain ⟨u,ack⟩ := w
      dsimp only at hkeep ⊢
      cases ack <;> cases peerFinInOrder h payload u <;>
        first | exact .inr rfl | exact .inl (hkeep.trans hdata)
    | finWait2 h payload =>
      have hkeep := (tcpAckUpdate_flow now t h).state_eq
      have hdata (u : TCB) : (if h.seq = u.rcvNxt then acceptPayload payload u else u).state =
          u.state := by
        rw [acceptPayload]
        split_ifs <;> rfl
      have hdata := hdata (tcpAckUpdate now t h).1
      simp only [run,tcpHandleFinWait2]
      generalize (if h.seq = (tcpAckUpdate now t h).1.rcvNxt
        then acceptPayload payload (tcpAckUpdate now t h).1
        else (tcpAckUpdate now t h).1) = u at hdata ⊢
      split
      · exact .inr rfl
      · exact .inl (hdata.trans hkeep)
    | closing h =>
      have hkeep := (tcpAckUpdate_flow now t h).state_eq
      rw [run,tcpHandleClosing]
      generalize tcpAckUpdate now t h = w at hkeep ⊢
      obtain ⟨u,ack⟩ := w
      cases ack
      · exact .inl hkeep
      · exact .inr rfl
    | _ => cases hm
  · exact .inl ((run_frame now t op).state (by simpa using hm))

end TcbOp

end Gooos
