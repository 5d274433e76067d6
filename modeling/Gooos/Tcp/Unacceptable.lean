import Mathlib
import Gooos.Tcp.SegmentArrives

/-!
# Unacceptable segments

A segment outside the receive window, or with an ACK of something never sent, should leave
the TCB alone and at most draw a pure ACK. No handler asks whether a segment is acceptable:
each has tests of its own, and `heeded` are those that let an unacceptable segment through.
-/

namespace Gooos

open Interleave Function
open Kernel (rxAt_pc rxAt_shared)
open Trace (exec outs)

/-- The states with a peer. -/
def TcbState.connected : TcbState → Bool
  | .synReceived | .timeWait => true
  | st => st.ackable

/-- The segment takes up sequence numbers. -/
def occupies (h : TCPHeader) (payload : List UInt8) : Bool :=
  !payload.isEmpty || hasFlag h.flags tcpFlagSYN || hasFlag h.flags tcpFlagFIN

/-- `tcpAckUpdate` takes the ACK number for one of `[sndUna,sndNxt]`. -/
def ackInRange (x : TCB) (h : TCPHeader) : Bool :=
  hasFlag h.flags tcpFlagACK && seqLE x.sndUna h.ack && seqLE h.ack x.sndNxt

/-- The segment is new enough for the window update. -/
def windowIsNew (x : TCB) (h : TCPHeader) : Bool :=
  seqLT x.sndWl1 h.seq || (x.sndWl1 == h.seq && seqLE x.sndWl2 h.ack)

/-- `tcpAckUpdate` moves `sndUna` or stores the window. -/
def ackTaken (x : TCB) (h : TCPHeader) : Bool :=
  ackInRange x h && (h.ack != x.sndUna || windowIsNew x h)

/-- The ACK passes for one of our FIN. -/
def ackOfFin (x : TCB) (h : TCPHeader) : Bool := ackInRange x h && h.ack == x.sndNxt

/-- The payload is taken to be in order. -/
def dataAtNext (x : TCB) (h : TCPHeader) (payload : List UInt8) : Bool :=
  h.seq == x.rcvNxt && !payload.isEmpty

/-- An unacceptable segment passes the tests of the handler for the TCB's state. In TIME_WAIT
that is meant: a repeated FIN restarts the timer. -/
def heeded (x : TCB) (h : TCPHeader) (payload : List UInt8) : Bool :=
  match x.state with
  | .synReceived | .lastAck => hasFlag h.flags tcpFlagACK && h.ack == x.sndNxt
  | .established => h.seq == x.rcvNxt && (occupies h payload || h.ack == x.sndUna)
  | .finWait1 => occupies h payload && (dataAtNext x h payload || peerFinInOrder h payload x ||
      ackTaken x h || ackOfFin x h)
  | .finWait2 => occupies h payload && (dataAtNext x h payload || peerFinInOrder h payload x ||
      ackTaken x h)
  | .closing => occupies h payload && (ackTaken x h || ackOfFin x h)
  | .timeWait => hasFlag h.flags tcpFlagFIN
  | _ => false

section Tests

variable {now : UInt64} {x : TCB} {h : TCPHeader} {payload : List UInt8}

end Tests

/-! ## Inert calls -/

/-- A bare ACK at the cursors of `x`. -/
structure Segment.PureAckOf (x : TCB) (seg : Segment) : Prop where
  flags : seg.flags = tcpFlagACK
  options : seg.options = []
  payload : seg.payload = []
  seq : seg.seq = x.sndNxt
  ack : seg.ack = x.rcvNxt

/-- The call that led from `k` to `k'` is over, it left `y` in slot `i` up to the window it
announced, touched nothing else and transmitted at most one pure ACK. -/
structure AtMostAcks (k k' : Kernel) (obs : List Obs) (i : Slot) (y : TCB) : Prop where
  done : k'.pc .rx = RxPc.idle
  shared : ∃ w, k'.shared =
    { k.shared with tcb := update k.shared.tcb i { y with lastAdvWin := w } }
  obs : obs = [] ∨ ∃ seg : Segment, obs = [.sent i seg] ∧ seg.PureAckOf y

namespace AtMostAcks

variable {k : Kernel} {t : TcbRef} {ok : ℕ → Bool} {n : ℕ}

theorem obs_of_send (s : Shared) (b : Bool) (i : Slot) (y : TCB) :
    sentObs i (tcpSendSegment s.ourIP b y tcpFlagACK [] []).2 = [] ∨ ∃ seg : Segment,
      sentObs i (tcpSendSegment s.ourIP b y tcpFlagACK [] []).2 = [.sent i seg] ∧
        seg.PureAckOf y := by
  cases hseg : (tcpSendSegment s.ourIP b y tcpFlagACK [] []).2 with
  | none => exact .inl rfl
  | some seg =>
    obtain ⟨hseq,hack,hflags,hopt,hpay⟩ := tcpSendSegment_snd hseg
    exact .inr ⟨seg,rfl,hflags,hopt,hpay,hseq,hack⟩

theorem idle (hpc : k.pc .rx = RxPc.idle) :
    AtMostAcks k (exec Kernel.step k (sections .rx ok n))
      (outs Kernel.step k (sections .rx ok n)) t.slot (k.shared.tcb t.slot) := by
  rw [(Kernel.exec_rx_idle hpc).1,(Kernel.exec_rx_idle hpc).2]
  refine ⟨hpc,⟨(k.shared.tcb t.slot).lastAdvWin,?_⟩,.inl rfl⟩
  rw [update_eq_self]

theorem sendAck (hpc : k.pc .rx = RxPc.sendAck t none) :
    AtMostAcks k (exec Kernel.step k (sections .rx ok (n+1)))
      (outs Kernel.step k (sections .rx ok (n+1))) t.slot (k.shared.tcb t.slot) := by
  rw [(Kernel.exec_rx_sendAck hpc).1,(Kernel.exec_rx_sendAck hpc).2]
  obtain ⟨w,hw⟩ := tcpSendSegment_fst k.shared.ourIP (ok 0) (k.shared.tcb t.slot) tcpFlagACK [] []
  refine ⟨rxAt_pc,⟨w,?_⟩,obs_of_send _ _ _ _⟩
  rw [rxAt_shared,Shared.operate,TcbOp.run,hw]

theorem handler {l : RxPc} {op : TcbOp} (hpc : k.pc .rx = l)
    (hl : rxSection k.shared (ok 0) l = { next := .sendAck t none, op := some (t.slot,op) })
    (ha : op.isAlloc = false) :
    AtMostAcks k (exec Kernel.step k (sections .rx ok (n+2)))
      (outs Kernel.step k (sections .rx ok (n+2))) t.slot
      (op.run k.shared.pitTicks (k.shared.tcb t.slot)) := by
  rw [(Kernel.exec_rx_handler hpc hl ha).1,(Kernel.exec_rx_handler hpc hl ha).2]
  obtain ⟨w,hw⟩ := tcpSendSegment_fst k.shared.ourIP (ok 1)
    (op.run k.shared.pitTicks (k.shared.tcb t.slot)) tcpFlagACK [] []
  refine ⟨rxAt_pc,⟨w,?_⟩,obs_of_send _ _ _ _⟩
  simp only [rxAt_shared,Shared.operate,update_self,update_idem]
  generalize op.run k.shared.pitTicks (k.shared.tcb t.slot) = y at hw ⊢
  rw [TcbOp.run,hw]

theorem closing {h : TCPHeader} (hpc : k.pc .rx = RxPc.closing t h)
    (hsame : tcpHandleClosing k.shared.pitTicks h (k.shared.tcb t.slot) = k.shared.tcb t.slot) :
    AtMostAcks k (exec Kernel.step k (sections .rx ok (n+1)))
      (outs Kernel.step k (sections .rx ok (n+1))) t.slot (k.shared.tcb t.slot) := by
  rw [(Kernel.exec_rx_closing hpc).1,(Kernel.exec_rx_closing hpc).2]
  refine ⟨rxAt_pc,⟨(k.shared.tcb t.slot).lastAdvWin,?_⟩,.inl rfl⟩
  rw [rxAt_shared,Shared.operate,TcbOp.run,hsame]

end AtMostAcks

end Gooos
