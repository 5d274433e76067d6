import Mathlib
import Gooos.Tcp.SendStream

/-!
# The retransmission queue

The descriptors of `retxQ` tile the sequence numbers from the first unacknowledged one up
to `sndNxt`, and the RTO is armed exactly while there are any. While a SYN is being sent
`sndNxt` stands on its number; the end of the tiling is then the value to be restored.
-/

namespace Gooos

open Interleave Function
open Trace (exec)

/-- The queue of `x` covers `[sndUna,nxt)`, and the RTO is armed with it. -/
structure RetxOk (x : TCB) (nxt : UInt32) : Prop where
  covers : Circle.Covers TcpRetxEntry.seq TcpRetxEntry.endSeq 1500 x.sndUna nxt x.retxQ.contents
  armed : x.rtoDeadline ≠ 0 ↔ x.retxQ.contents ≠ []

theorem retxQ_length_le (x : TCB) : x.retxQ.contents.length ≤ 64 := by
  rw [x.retxQ.length_contents]
  exact x.retxQ.count_le

theorem RetxOk.nil_iff {x : TCB} {nxt : UInt32} (h : RetxOk x nxt) :
    x.retxQ.contents = [] ↔ x.sndUna = nxt := by
  have hlen := retxQ_length_le x
  exact h.covers.nil_iff (by omega)

/-- The invariant reads three fields. -/
theorem RetxOk.congr {x y : TCB} {nxt : UInt32} (h : RetxOk x nxt) (hu : y.sndUna = x.sndUna)
    (hq : y.retxQ = x.retxQ) (hd : y.rtoDeadline = x.rtoDeadline) : RetxOk y nxt := by
  constructor
  · rw [hu,hq]
    exact h.covers
  · rw [hq,hd]
    exact h.armed

/-! ## Arming -/

/-- Before the counter is half through, a deadline in the future is not 0. -/
theorem deadline_ne_zero {now : UInt64} {ticks : UInt32} (hnow : now.toNat < 2^63)
    (h : 0 < now.toNat ∨ 0 < ticks.toNat) : now+ticks.toUInt64 ≠ 0 := by
  have ht := ticks.toNat_lt
  intro h0
  have hsum : (now+ticks.toUInt64).toNat = now.toNat+ticks.toNat := by
    rw [UInt64.toNat_add,UInt32.toNat_toUInt64,Nat.mod_eq_of_lt (by omega)]
  rw [h0,UInt64.toNat_zero] at hsum
  omega

theorem tcpArmRTO_armed {now : UInt64} (hnow : now.toNat < 2^63) (t : TCB) :
    (tcpArmRTO now t).rtoDeadline ≠ 0 := by
  refine deadline_ne_zero hnow (.inr ?_)
  split
  · decide
  · rename_i h
    rw [Nat.pos_iff_ne_zero]
    intro h0
    exact h (UInt32.toNat_inj.mp h0)

theorem rearmRTO_armed {now : UInt64} (hnow : now.toNat < 2^63) (t : TCB) :
    (rearmRTO now t).rtoDeadline ≠ 0 ↔ (rearmRTO now t).retxQ.contents ≠ [] := by
  have hq : (rearmRTO now t).retxQ = t.retxQ := by
    rw [rearmRTO]
    split <;> rfl
  rw [hq,Ne,Ne,RingQueue.contents_eq_nil,rearmRTO]
  split
  · rename_i h0
    simp [h0]
  · rename_i h0
    simp only [h0,not_false_eq_true,iff_true]
    exact tcpArmRTO_armed hnow t

/-! ## Acknowledgements -/

section Ack

variable {now : UInt64} {x : TCB} {nxt ack : UInt32}

/-- What RTT sampling, congestion control and the timers leave alone. -/
structure TCB.SndKept (t u : TCB) : Prop where
  retxQ : u.retxQ = t.retxQ
  sndUna : u.sndUna = t.sndUna
  sndWnd : u.sndWnd = t.sndWnd
  wl : u.sndWl1 = t.sndWl1 ∧ u.sndWl2 = t.sndWl2

theorem tcpRTTSample_kept (now : UInt64) (t : TCB) (sent : UInt64) (b : Bool) :
    t.SndKept (tcpRTTSample now t sent b) := by
  simp only [tcpRTTSample,tcpRTTUpdate,tcpRTTInit]
  split_ifs <;> exact ⟨rfl,rfl,rfl,rfl,rfl⟩

theorem tcpCCOnAck_kept (t : TCB) (n : UInt32) : t.SndKept (tcpCCOnAck t n) := by
  simp only [tcpCCOnAck,tcpCCInit]
  split_ifs <;> exact ⟨rfl,rfl,rfl,rfl,rfl⟩

theorem rearmRTO_kept (now : UInt64) (t : TCB) : t.SndKept (rearmRTO now t) := by
  rw [rearmRTO]
  split <;> exact ⟨rfl,rfl,rfl,rfl,rfl⟩

/-- `retxAckTo` and a re-armed timer: the queue keeps what lies beyond the ACK. -/
theorem RetxOk.popped {y : TCB} (h : RetxOk x nxt) (hnow : now.toNat < 2^63)
    (hack : Circle.dist x.sndUna ack ≤ Circle.dist x.sndUna nxt)
    (hq : y.retxQ.contents = x.retxQ.contents.dropWhile (seqLE ·.endSeq ack))
    (hu : y.sndUna = ack) : RetxOk (rearmRTO now y) nxt := by
  have hlen := retxQ_length_le x
  have hkept := rearmRTO_kept now y
  refine ⟨?_,rearmRTO_armed hnow y⟩
  rw [hkept.retxQ,hkept.sndUna,hq,hu]
  exact h.covers.dropWhile (by omega) hack fun e => seqLE_iff _ _

/-- A new ACK: what it leaves of the queue, and no timer for an empty one. -/
theorem ackAdvance_shape (now : UInt64) (x : TCB) (ack : UInt32) : ∃ y : TCB,
    Gooos.ackAdvance now x ack = rearmRTO now y ∧ y.sndUna = ack ∧
      y.retxQ.contents = x.retxQ.contents.dropWhile (seqLE ·.endSeq ack) ∧
      y.sndWnd = x.sndWnd ∧ y.sndWl1 = x.sndWl1 ∧ y.sndWl2 = x.sndWl2 := by
  obtain ⟨q,r,hq,hr⟩ := retxAckTo_shape { x with sndUna := ack } ack
  rw [Gooos.ackAdvance]
  simp only [hr]
  have hs := tcpRTTSample_kept now { x with sndUna := ack, retxQ := q } r.oldestSent r.anyPristine
  have hc := tcpCCOnAck_kept (tcpRTTSample now { x with sndUna := ack, retxQ := q } r.oldestSent
    r.anyPristine) (ack-x.sndUna)
  refine ⟨_,rfl,hc.sndUna.trans hs.sndUna,?_,hc.sndWnd.trans hs.sndWnd,hc.wl.1.trans hs.wl.1,
    hc.wl.2.trans hs.wl.2⟩
  rw [hc.retxQ,hs.retxQ]
  exact hq

theorem RetxOk.ackAdvance (h : RetxOk x nxt) (hnow : now.toNat < 2^63)
    (hack : Circle.dist x.sndUna ack ≤ Circle.dist x.sndUna nxt) :
    RetxOk (Gooos.ackAdvance now x ack) nxt := by
  obtain ⟨y,hy,hu,hq,-⟩ := ackAdvance_shape now x ack
  rw [hy]
  exact h.popped hnow hack hq hu

theorem windowUpdate_retx (now : UInt64) (t : TCB) (h : TCPHeader) :
    (windowUpdate now t h).sndUna = t.sndUna ∧ (windowUpdate now t h).retxQ = t.retxQ ∧
      (windowUpdate now t h).rtoDeadline = t.rtoDeadline := by
  simp only [windowUpdate,tcpMaybeArmPersist]
  split_ifs <;> exact ⟨rfl,rfl,rfl⟩

/-- An ACK the code takes for one of `[sndUna,nxt]` is one, unless it is half a circle off. -/
theorem ack_between (hle : seqLE x.sndUna ack = true)
    (hge : seqLE ack nxt = true) (hhalf : ack ≠ x.sndUna+0x80000000) :
    Circle.dist x.sndUna ack ≤ Circle.dist x.sndUna nxt := by
  rw [seqLE_iff] at hle hge
  by_contra hlt
  have hback := Circle.dist_split (a := x.sndUna) (b := nxt) (c := ack) (by omega)
  have hne : nxt ≠ ack := by
    rintro rfl
    omega
  have hturn := Circle.dist_add_dist hne
  have h31 : Circle.dist x.sndUna ack = Circle.dist x.sndUna (x.sndUna+0x80000000) := by
    rw [Circle.dist_add_right]
    change _ = 2^31
    omega
  exact hhalf (Circle.dist_left_inj h31)

theorem RetxOk.tcpAckUpdate {h : TCPHeader} (hx : RetxOk x x.sndNxt) (hnow : now.toNat < 2^63)
    (hhalf : h.ack ≠ x.sndUna+0x80000000) :
    RetxOk (Gooos.tcpAckUpdate now x h).1 x.sndNxt := by
  rw [Gooos.tcpAckUpdate]
  split
  · exact hx
  · split
    · exact hx
    · rename_i hin
      simp only [Bool.or_eq_true,Bool.not_eq_true',not_or,Bool.not_eq_false] at hin
      have hack := ack_between hin.1 hin.2 hhalf
      have hadv : RetxOk (if x.sndUna ≠ h.ack then Gooos.ackAdvance now x h.ack else x)
          x.sndNxt := by
        split
        · exact hx.ackAdvance hnow hack
        · exact hx
      obtain ⟨hu,hq,hd⟩ := windowUpdate_retx now
        (if x.sndUna ≠ h.ack then Gooos.ackAdvance now x h.ack else x) h
      exact hadv.congr hu hq hd

theorem synAcked_shape (now : UInt64) (y : TCB) (ack : UInt32) : ∃ z : TCB,
    Gooos.synAcked now y ack = rearmRTO now z ∧ z.sndUna = y.sndUna ∧
      z.retxQ.contents = y.retxQ.contents.dropWhile (seqLE ·.endSeq ack) ∧
      z.sndWnd = y.sndWnd := by
  rw [Gooos.synAcked]
  obtain ⟨q,r,hqc,hr⟩ := retxAckTo_shape (tcpCCInit y) ack
  simp only [hr]
  have hs := tcpRTTSample_kept now { tcpCCInit y with retxQ := q } r.oldestSent r.anyPristine
  refine ⟨_,rfl,hs.sndUna,?_,hs.sndWnd⟩
  rw [hs.retxQ]
  exact hqc

/-- Both ACKs of our SYN. -/
theorem RetxOk.synAcked {y : TCB} (h : RetxOk x nxt) (hnow : now.toNat < 2^63)
    (hack : Circle.dist x.sndUna ack ≤ Circle.dist x.sndUna nxt) (hu : y.sndUna = ack)
    (hq : y.retxQ = x.retxQ) : RetxOk (Gooos.synAcked now y ack) nxt := by
  obtain ⟨z,hz,hzu,hzq,-⟩ := synAcked_shape now y ack
  rw [hz]
  rw [hq] at hzq
  exact h.popped hnow hack hzq (hzu.trans hu)

/-- The third duplicate ACK forces the timer; there is something in flight then. -/
theorem RetxOk.dupAck {h : TCPHeader} {n : ℕ} (hx : RetxOk x x.sndNxt)
    (hd : tcpIsDuplicateACK x h n = true) : RetxOk (dupAckSection x) x.sndNxt := by
  have hne : x.retxQ.contents ≠ [] := by
    rw [Ne,hx.nil_iff]
    simp only [tcpIsDuplicateACK,Bool.and_eq_true,bne_iff_ne] at hd
    exact hd.2
  simp only [dupAckSection,tcpCCOnDupAck]
  split
  · exact ⟨hx.covers,hx.armed⟩
  · exact ⟨hx.covers,by simp [hne]⟩

/-- One look of a receive handler at the ACK field. -/
inductive AckStep (now : UInt64) (h : TCPHeader) (y : TCB) : TCB → Prop where
  | skip : AckStep now h y y
  | update : AckStep now h y (Gooos.tcpAckUpdate now y h).1
  | dup (n : ℕ) (hd : tcpIsDuplicateACK y h n = true) : AckStep now h y (dupAckSection y)

theorem RetxOk.ackStep {h : TCPHeader} {y : TCB} (hx : RetxOk x x.sndNxt)
    (hnow : now.toNat < 2^63) (hhalf : h.ack ≠ x.sndUna+0x80000000) (hs : AckStep now h x y) :
    RetxOk y x.sndNxt := by
  cases hs with
  | skip => exact hx
  | update => exact hx.tcpAckUpdate hnow hhalf
  | dup n hd => exact hx.dupAck hd

end Ack

/-- `u` and `v` agree on the send side. -/
structure TCB.SameFlow (u v : TCB) : Prop where
  flow : v.flow = u.flow
  sndNxt : v.sndNxt = u.sndNxt
  txBuf : v.txBuf = u.txBuf

namespace TCB.SameFlow

variable {u v : TCB}

theorem refl (u : TCB) : SameFlow u u := ⟨rfl,rfl,rfl⟩

theorem trans {w : TCB} (h : SameFlow u v) (h' : SameFlow v w) : SameFlow u w :=
  ⟨h'.flow.trans h.flow,h'.sndNxt.trans h.sndNxt,h'.txBuf.trans h.txBuf⟩

theorem sndUna (h : SameFlow u v) : v.sndUna = u.sndUna := congrArg FlowVars.sndUna h.flow

theorem retxQ (h : SameFlow u v) : v.retxQ = u.retxQ := congrArg FlowVars.retxQ h.flow

theorem rtoDeadline (h : SameFlow u v) : v.rtoDeadline = u.rtoDeadline :=
  congrArg FlowVars.rtoDeadline h.flow

end TCB.SameFlow

theorem RetxOk.same {u v : TCB} {nxt : UInt32} (h : RetxOk u nxt) (hs : TCB.SameFlow u v) :
    RetxOk v nxt := h.congr hs.sndUna hs.retxQ hs.rtoDeadline

/-- The segment a receive handler works on after the handshake. -/
def TcbOp.handles : TcbOp → Option TCPHeader
  | .established h _ | .finWait1 h _ | .finWait2 h _ | .closing h => some h
  | _ => none

theorem acceptPayload_same (payload : List UInt8) (t : TCB) :
    TCB.SameFlow t (acceptPayload payload t) := by
  rw [acceptPayload]
  split <;> exact ⟨rfl,rfl,rfl⟩

theorem acceptIf_same (c : Prop) [Decidable c] (payload : List UInt8) (t : TCB) :
    TCB.SameFlow t (if c then acceptPayload payload t else t) := by
  split
  · exact acceptPayload_same payload t
  · exact .refl t

section Handlers

variable (now : UInt64) (h : TCPHeader) (payload : List UInt8) (x : TCB)

theorem tcpHandleEstablished_same (hseq : h.seq = x.rcvNxt) :
    TCB.SameFlow (establishedAck now h payload.length x) (tcpHandleEstablished now h payload x) := by
  have hpay := acceptPayload_same payload (establishedAck now h payload.length x)
  rw [tcpHandleEstablished,if_neg (not_not.mpr hseq)]
  split
  · exact hpay.trans ⟨rfl,rfl,rfl⟩
  · exact hpay

theorem tcpHandleFinWait1_same :
    TCB.SameFlow (tcpAckUpdate now (if h.seq = x.rcvNxt then acceptPayload payload x else x) h).1
      (tcpHandleFinWait1 now h payload x) := by
  rw [tcpHandleFinWait1]
  generalize tcpAckUpdate now _ h = w
  obtain ⟨u,acked⟩ := w
  dsimp only
  split_ifs <;> exact ⟨rfl,rfl,rfl⟩

theorem tcpHandleFinWait2_same :
    TCB.SameFlow (tcpAckUpdate now x h).1 (tcpHandleFinWait2 now h payload x) := by
  have hpay := acceptIf_same (h.seq = (tcpAckUpdate now x h).1.rcvNxt) payload
    (tcpAckUpdate now x h).1
  refine hpay.trans ?_
  simp only [tcpHandleFinWait2]
  generalize (if h.seq = (tcpAckUpdate now x h).1.rcvNxt
    then acceptPayload payload (tcpAckUpdate now x h).1 else (tcpAckUpdate now x h).1) = u
  split <;> exact ⟨rfl,rfl,rfl⟩

theorem tcpHandleClosing_same :
    TCB.SameFlow (tcpAckUpdate now x h).1 (tcpHandleClosing now h x) := by
  rw [tcpHandleClosing]
  generalize tcpAckUpdate now x h = w
  obtain ⟨u,acked⟩ := w
  dsimp only
  split <;> exact ⟨rfl,rfl,rfl⟩

end Handlers

/-- On the send side every receive handler looks at the ACK field at most once. -/
theorem handler_ack {op : TcbOp} {h : TCPHeader} (hh : op.handles = some h) (now : UInt64)
    (x : TCB) : ∃ y z, TCB.SameFlow x y ∧ AckStep now h y z ∧ TCB.SameFlow z (op.run now x) := by
  cases op with
  | established hd payload =>
    cases hh
    by_cases hseq : h.seq = x.rcvNxt
    · have hack : AckStep now h x (establishedAck now h payload.length x) := by
        rw [establishedAck]
        split
        · exact .dup _ ‹_›
        · exact .update
      exact ⟨x,_,.refl x,hack,tcpHandleEstablished_same now h payload x hseq⟩
    · refine ⟨x,x,.refl x,.skip,?_⟩
      rw [TcbOp.run,tcpHandleEstablished,if_pos hseq]
      exact .refl x
  | finWait1 hd payload =>
    cases hh
    exact ⟨_,_,acceptIf_same (h.seq = x.rcvNxt) payload x,.update,
      tcpHandleFinWait1_same now h payload x⟩
  | finWait2 hd payload =>
    cases hh
    exact ⟨x,_,.refl x,.update,tcpHandleFinWait2_same now h payload x⟩
  | closing hd =>
    cases hh
    exact ⟨x,_,.refl x,.update,tcpHandleClosing_same now h x⟩
  | _ => cases hh

/-! ## Transmissions -/

section Push

variable {now : UInt64} {x : TCB} {nxt : UInt32}

/-- A new descriptor right at the end of the queue, with the timer armed. -/
theorem retxOk_push {e : TcpRetxEntry} (h : Circle.Covers TcpRetxEntry.seq TcpRetxEntry.endSeq 1500
      x.sndUna nxt x.retxQ.contents) (hnow : now.toNat < 2^63)
    (hfree : x.retxQ.contents.length < 64) (hseq : e.seq = nxt)
    (hpos : 0 < Circle.dist e.seq e.endSeq) (hlen : Circle.dist e.seq e.endSeq ≤ 1500) :
    RetxOk (tcpArmRTO now (retxPush x e).1) e.endSeq := by
  obtain ⟨q,hqc,hpush⟩ := retxPush_of_lt x e hfree
  rw [hpush]
  refine ⟨?_,?_⟩
  · change Circle.Covers _ _ _ x.sndUna _ q.contents
    rw [hqc]
    exact h.snoc (by omega) hseq hpos hlen
  · have harm := tcpArmRTO_armed hnow { x with retxQ := q }
    change _ ↔ q.contents ≠ []
    simp only [hqc,ne_eq,List.append_eq_nil_iff,List.cons_ne_self,and_false,not_false_eq_true,
      iff_true]
    exact harm

theorem dist_succ (a : UInt32) : Circle.dist a (a+1) = 1 := Circle.dist_add_right a 1

theorem RetxOk.closeCommit (h : RetxOk x x.sndNxt) (hnow : now.toNat < 2^63)
    (hfree : x.retxQ.contents.length < 64) :
    RetxOk (tcpCloseCommit now x) (tcpCloseCommit now x).sndNxt := by
  obtain ⟨f,-,hf⟩ := tcpCloseCommit_shape now x
  have hnxt : (tcpCloseCommit now x).sndNxt = x.sndNxt+1 := by rw [hf]
  rw [hnxt]
  refine retxOk_push h.covers hnow hfree rfl ?_ ?_
  · rw [dist_succ]
    omega
  · rw [dist_succ]
    omega

theorem RetxOk.drainCommit {d : Drain} (h : RetxOk x x.sndNxt) (hnow : now.toNat < 2^63)
    (hfree : x.retxQ.contents.length < 64) (hseq : x.sndNxt = d.seq)
    (hpos : 0 < d.bytes.length) (hlen : d.bytes.length ≤ 1500) :
    RetxOk (Gooos.drainCommit now d x) (Gooos.drainCommit now d x).sndNxt := by
  obtain ⟨f,-,hf⟩ := drainCommit_shape now d x
  have hnxt : (Gooos.drainCommit now d x).sndNxt = d.seq+UInt32.ofNat d.bytes.length := by
    rw [hf,← hseq]
  have hd : Circle.dist d.seq (d.seq+UInt32.ofNat d.bytes.length) = d.bytes.length := by
    rw [Circle.dist_add_right,UInt32.toNat_ofNat_of_lt' (by simp [UInt32.size]; omega)]
  rw [hnxt]
  refine retxOk_push h.covers hnow hfree hseq.symm ?_ ?_
  · rw [hd]
    exact hpos
  · rw [hd]
    exact hlen

/-- The SYN of a fresh connection, queued before it is acknowledged. -/
theorem retxOk_synRestore {orig : UInt32} {flags : UInt8} (hnow : now.toNat < 2^63)
    (horig : orig = x.iss+1) (huna : x.sndUna = x.iss) (hq : x.retxQ.contents = []) :
    RetxOk (synRestore now orig flags true x) orig := by
  subst horig
  have hnil : Circle.Covers TcpRetxEntry.seq TcpRetxEntry.endSeq 1500 x.sndUna x.iss
      x.retxQ.contents := by
    rw [hq,huna]
    exact Circle.covers_nil _
  have hone : Circle.dist x.iss (x.iss+1) = 1 := dist_succ _
  refine retxOk_push (x := { x with sndNxt := x.iss+1 })
    (e := ⟨x.iss,x.iss+1,flags,0,0,now,0⟩) hnil hnow ?_ rfl ?_ ?_
  · simp [hq]
  · show 0 < Circle.dist x.iss (x.iss+1)
    omega
  · show Circle.dist x.iss (x.iss+1) ≤ 1500
    omega

end Push

/-! ## Retransmissions -/

/-- Counting a retransmission of the head leaves the arcs as they are. -/
theorem RetxOk.rtoBackoff {now : UInt64} {x : TCB} {nxt : UInt32} {head : TcpRetxEntry}
    (h : RetxOk x nxt) (hnow : now.toNat < 2^63) (hpos : 0 < now.toNat)
    (hhead : retxHead x = some head) : RetxOk (Gooos.rtoBackoff now head x) nxt := by
  obtain ⟨ys,hys⟩ := List.head?_eq_some_iff.mp hhead
  have hq : (Gooos.rtoBackoff now head x).retxQ.contents =
      { head with xmitCount := head.xmitCount+1, sentTicks := now } :: ys := by
    rw [Gooos.rtoBackoff]
    dsimp only
    split <;> exact RingQueue.contents_setHead _ _ _ _ hys
  have hu : (Gooos.rtoBackoff now head x).sndUna = x.sndUna := by
    rw [Gooos.rtoBackoff]
    split <;> rfl
  refine ⟨?_,?_⟩
  · rw [hq,hu]
    have hc := h.covers
    rw [hys] at hc
    obtain ⟨lo,ht,hle,hlt⟩ := hc
    refine ⟨lo,ht,hle,?_⟩
    intro z hz
    obtain rfl : _ = z := by simpa using hz
    exact hlt head rfl
  · rw [hq]
    simp only [ne_eq,List.cons_ne_nil,not_false_eq_true,iff_true]
    exact deadline_ne_zero hnow (.inl hpos)

/-- `tcpRTOFire` short of giving up. A SYN leaves `sndNxt` behind, to be restored. -/
theorem RetxOk.rtoBegin {now : UInt64} {x : TCB} (h : RetxOk x x.sndNxt)
    (hnow : now.toNat < 2^63) (hcount : x.xmitCountHead < tcpMaxRetransmits) :
    RetxOk (tcpRTOFireBegin now x).1 x.sndNxt ∧
    match (tcpRTOFireBegin now x).2 with
    | .spurious => (tcpRTOFireBegin now x).1.sndNxt = x.sndNxt
    | .abandon => False
    | .resend flags saved => saved = x.sndNxt ∧
      (hasFlag flags tcpFlagSYN = false → (tcpRTOFireBegin now x).1.sndNxt = x.sndNxt) := by
  have hlt : ¬tcpMaxRetransmits ≤ x.xmitCountHead := by simpa using hcount
  rw [tcpRTOFireBegin]
  split
  · exact ⟨h,rfl⟩
  · rename_i hoff
    simp only [Bool.or_eq_true,Bool.not_eq_true',beq_iff_eq,not_or] at hoff
    split
    · exact ⟨h,rfl⟩
    · rename_i hdue
      split
      · rename_i hhead
        have hnil : x.retxQ.contents = [] := List.head?_eq_none_iff.mp hhead
        exact absurd hnil (h.armed.mp hoff.2)
      · rename_i head hhead
        have hpos : 0 < now.toNat := by
          rw [UInt64.lt_iff_toNat_lt] at hdue
          have hne : x.rtoDeadline.toNat ≠ 0 := fun h0 =>
            hoff.2 (UInt64.toNat_inj.mp (by simpa using h0))
          omega
        have hback := h.rtoBackoff hnow hpos hhead
        obtain ⟨f,-,hf⟩ := rtoBackoff_shape now head x
        have hnxt : (Gooos.rtoBackoff now head x).sndNxt = x.sndNxt := by rw [hf]; rfl
        dsimp only
        refine ⟨?_,hnxt,?_⟩
        · split
          · exact hback.congr rfl rfl rfl
          · exact hback
        · intro hsyn
          rw [if_neg (by simp [hsyn])]
          exact hnxt

/-! ## Sending a SYN -/

/-- An open of slot `i` is between the initialisation of its TCB and the end of its SYN. -/
def RxPc.opens (i : Slot) : RxPc → Bool
  | .openPush _ t | .openRollback _ t | .openSend _ t _ | .openRestore _ t _ _ => t.slot == i
  | _ => false

def ProcPc.opens (i : Slot) : ProcPc → Bool
  | .connRollback _ t _ | .connSend _ t _ _ | .connRestore _ t _ _ _ => t.slot == i
  | _ => false

/-- The value `tcpRTOFire` restores `sndNxt` of slot `i` to once its SYN is out. -/
def ScanPc.savedNxt (i : Slot) : ScanPc → Option UInt32
  | .rtoSend j _ retxFlags saved =>
    if j = i ∧ hasFlag retxFlags tcpFlagSYN = true then some saved else none
  | .rtoRestore j _ saved => if j = i then some saved else none
  | _ => none

/-- Some thread is opening a connection in slot `i`. -/
def Opening (i : Slot) (pc : (τ : Tid) → PcOf τ) : Prop :=
  RxPc.opens i (pc .rx) = true ∨ ∃ p, ProcPc.opens i (pc (.proc p)) = true

/-- Where the sequence numbers in flight end: `sndNxt`, or what it will be again. -/
def sendEdge (i : Slot) (x : TCB) (pc : (τ : Tid) → PcOf τ) : UInt32 :=
  (ScanPc.savedNxt i (pc .scan)).getD x.sndNxt

namespace Kernel

def opening (k : Kernel) (i : Slot) : Bool :=
  RxPc.opens i (k.pc .rx) || (List.finRange 32).any fun p => ProcPc.opens i (k.pc (.proc p))

/-- The scanner is retransmitting the SYN of slot `i`. -/
def resending (k : Kernel) (i : Slot) : Bool := (ScanPc.savedNxt i (k.pc .scan)).isSome

theorem opening_iff {k : Kernel} {i : Slot} : k.opening i = true ↔ Opening i k.pc := by
  simp [opening,Opening]

theorem savedNxt_of_resting {k : Kernel} {i : Slot} (h : k.resending i = false) :
    ScanPc.savedNxt i (k.pc .scan) = none := by
  simpa [resending] using h

end Kernel

/-- Accounts for a transmission: moves `sndNxt` past it and queues its descriptor. -/
def TcbOp.commits : TcbOp → Bool
  | .synRestore .. | .drainCommit _ | .closeCommit | .echoDataCommit _ | .echoFinCommit => true
  | _ => false

/-- An ACK is taken while it lies between `sndUna` and `sndNxt`. -/
def ackOrdered (x : TCB) : TcbOp → Bool
  | .synSentAck h | .synReceivedAck h =>
    decide (Circle.dist x.sndUna h.ack ≤ Circle.dist x.sndUna x.sndNxt)
  | .established h _ | .finWait1 h _ | .finWait2 h _ | .closing h =>
    decide (h.ack ≠ x.sndUna+0x80000000)
  | _ => true

/-- The SYN of an open went out and is queued on an empty queue before it is acknowledged;
data and FIN are accounted for where they were sent, on a queue with room; the echo server
does not send; no retransmission gives up. -/
def pushOrdered (x : TCB) : TcbOp → Bool
  | .synRestore orig _ ok =>
    decide (ok = true ∧ orig = x.iss+1 ∧ x.sndUna = x.iss ∧ x.retxQ.contents = [])
  | .drainCommit d => decide (x.sndNxt = d.seq ∧ x.retxQ.contents.length < 64)
  | .closeCommit => decide (x.retxQ.contents.length < 64)
  | .echoDataCommit _ | .echoFinCommit => false
  | .rtoBegin => decide (x.xmitCountHead < tcpMaxRetransmits)
  | _ => true

/-- The event keeps the retransmission queue of slot `i` in step with `sndNxt`: its operation
is in order and does not come while the scanner has `sndNxt` on a SYN, and the TCB of an
open finds its place in the listener's queue. -/
def retxOrdered (i : Slot) (σ : Sys) (e : Ev) : Bool :=
  decide (σ.1.shared.pitTicks.toNat < 2^63) &&
  (match σ.opOn i e with
    | some op => ackOrdered (σ.tcb i) op && pushOrdered (σ.tcb i) op &&
      (!σ.1.resending i || !(op.acks || op.commits))
    | none => true) &&
  match e with
  | .run .rx _ => match (σ.1.pc .rx : RxPc) with
    | .openPush l t => t.slot != i || (tcpListenerPushPending (σ.1.shared.listener l) t).isSome
    | _ => true
  | _ => true

section Guard

variable {i : Slot} {σ : Sys} {e : Ev} {τ : Tid} {f : Effect (PcOf τ)} {op : TcbOp}

theorem retxOrdered_now (h : retxOrdered i σ e = true) : σ.1.shared.pitTicks.toNat < 2^63 :=
  of_decide_eq_true (Bool.and_eq_true_iff.mp (Bool.and_eq_true_iff.mp h).1).1

theorem retxOrdered_op (h : retxOrdered i σ e = true) (he : e.effect σ.1 = some ⟨τ,f⟩)
    (hop : f.op = some (i,op)) : ackOrdered (σ.tcb i) op = true ∧ pushOrdered (σ.tcb i) op = true ∧
      ((op.acks || op.commits) = true → σ.1.resending i = false) := by
  have hord := (Bool.and_eq_true_iff.mp (Bool.and_eq_true_iff.mp h).1).2
  rw [Sys.opOn_eq he hop] at hord
  simp only [Bool.and_eq_true] at hord
  refine ⟨hord.1.1,hord.1.2,fun hc => ?_⟩
  simpa [hc] using hord.2

end Guard

/-- The invariant of slot `i`, which rests while a connection is being opened there. -/
structure RetxInv (i : Slot) (x : TCB) (pc : (τ : Tid) → PcOf τ) : Prop where
  ok : ¬Opening i pc → RetxOk x (sendEdge i x pc)
  cut : ∀ p t n d, pc (.proc p) = ProcPc.drainSend t n d ∨ pc (.proc p) = ProcPc.drainCommit t n d →
    0 < d.bytes.length ∧ d.bytes.length ≤ 1500

/-! ## Control points along a step -/

section Step

variable {i : Slot} {σ : Sys} {e : Ev} {τ : Tid} {f : Effect (PcOf τ)} {op : TcbOp}

/-- A cut segment has between 1 and 1500 bytes. -/
theorem drainPeek_length {x : TCB} {d : Drain} (h : drainPeek x = some d) :
    0 < d.bytes.length ∧ d.bytes.length ≤ 1500 := by
  obtain ⟨_,_,_,_,n,hbytes,hpos,hle,_⟩ := drainPeek_spec h
  rw [hbytes,TcpRingBuf.length_rbPeek]
  exact ⟨by simpa [UInt32.lt_iff_toNat_lt] using hpos,
    by simpa [UInt32.le_iff_toNat_le] using hle⟩

theorem RetxInv.cut_next {x : TCB} (h : RetxInv i x σ.1.pc) (he : e.effect σ.1 = some ⟨τ,f⟩) :
    ∀ p t n d, update σ.1.pc τ f.next (.proc p) = ProcPc.drainSend t n d ∨
      update σ.1.pc τ f.next (.proc p) = ProcPc.drainCommit t n d →
    0 < d.bytes.length ∧ d.bytes.length ≤ 1500 := by
  intro p t n d hp
  by_cases hτ : τ = .proc p
  · subst hτ
    rw [update_self] at hp
    rcases effect_proc he with ⟨c,-,-,rfl⟩ | ⟨ok,-,rfl⟩
    · have hent := sysEntry_next σ.1.shared p c
      rcases hp with hp | hp <;> (rw [hp] at hent; cases hent)
    · have hgo := proc_goes σ.1.shared ok p (σ.1.pc (.proc p))
      generalize hl : (σ.1.pc (.proc p) : ProcPc) = l at hgo hp
      rcases hp with hp | hp
      · rw [hp] at hgo
        cases hgo with
        | drain _ _ _ hd => exact drainPeek_length hd
        | closeSkip _ _ _ _ hr | closeFail _ _ _ hr | closeCommit _ _ _ hr => cases hr
      · rw [hp] at hgo
        cases hgo with
        | drainSend => exact h.cut p t n d (.inl hl)
        | closeSkip _ _ _ _ hr | closeFail _ _ _ hr | closeCommit _ _ _ hr => cases hr
  · rw [update_of_ne (Ne.symm hτ)] at hp
    exact h.cut p t n d hp

/-- An open goes on until its SYN is queued. -/
theorem opening_next (he : e.effect σ.1 = some ⟨τ,f⟩) (hG : retxOrdered i σ e = true)
    (hop : ∀ orig flags ok, f.op ≠ some (i,.synRestore orig flags ok)) (h : Opening i σ.1.pc) :
    Opening i (update σ.1.pc τ f.next) := by
  have hpush := (Bool.and_eq_true_iff.mp hG).2
  rcases h with h | ⟨p,hp⟩
  · left
    by_cases hτ : τ = .rx
    · subst hτ
      rcases effect_rx he with ⟨hdr,hd,payload,-,hidle,-⟩ | ⟨ok,rfl,rfl⟩
      · rw [hidle] at h
        cases h
      · generalize (σ.1.pc .rx : RxPc) = l at h hop hpush
        cases l with
        | openPush l t =>
          have ht : t.slot = i := by simpa [RxPc.opens] using h
          simp only [ht,bne_self_eq_false,Bool.false_or] at hpush
          obtain ⟨x,hx⟩ := Option.isSome_iff_exists.mp hpush
          simp [rxSection,hx,RxPc.opens,ht]
        | openRollback | openSend => exact h
        | openRestore l t orig sent =>
          have ht : t.slot = i := by simpa [RxPc.opens] using h
          exact absurd (by rw [rxSection,ht]) (hop orig _ sent)
        | _ => cases h
    · rw [update_of_ne (Ne.symm hτ)]
      exact h
  · right
    refine ⟨p,?_⟩
    by_cases hτ : τ = .proc p
    · subst hτ
      rw [update_self]
      rcases effect_proc he with ⟨c,-,hidle,-⟩ | ⟨ok,-,rfl⟩
      · rw [hidle] at hp
        cases hp
      · generalize (σ.1.pc (.proc p) : ProcPc) = l at hp hop
        cases l with
        | connRollback | connSend => exact hp
        | connRestore c t timeout orig sent =>
          have ht : t.slot = i := by simpa [ProcPc.opens] using hp
          exact absurd (by rw [procSection,ht]) (hop orig _ sent)
        | _ => cases hp
    · rw [update_of_ne (Ne.symm hτ)]
      exact hp

/-- Only `tcpRTOFire` itself sets aside and restores `sndNxt` of slot `i`. -/
theorem savedNxt_next (he : e.effect σ.1 = some ⟨τ,f⟩) (hb : f.op ≠ some (i,.rtoBegin))
    (hr : ∀ saved, f.op ≠ some (i,.rtoRestore saved)) :
    ScanPc.savedNxt i (update σ.1.pc τ f.next .scan) =
      ScanPc.savedNxt i (σ.1.pc .scan) := by
  by_cases hτ : τ = .scan
  · subst hτ
    rcases effect_scan he with ⟨-,hidle,rfl⟩ | ⟨ok,-,rfl⟩
    · generalize (σ.1.pc .scan : ScanPc) = l at hidle
      cases l <;> first | rfl | cases hidle
    · generalize (σ.1.pc .scan : ScanPc) = l at hb hr
      cases l with
      | rto j g =>
        simp only [scanSection] at hb ⊢
        split at hb
        · rename_i hg
          have hj : j ≠ i := by
            rintro rfl
            exact hb rfl
          rw [if_pos hg]
          split <;> simp [ScanPc.savedNxt,hj]
        · rename_i hg
          rw [if_neg hg]
          rfl
      | rtoSend j g flags saved =>
        simp only [scanSection]
        by_cases hsyn : hasFlag flags tcpFlagSYN = true
        · split <;> simp [ScanPc.savedNxt,hsyn]
        · split <;> simp [ScanPc.savedNxt,hsyn]
      | rtoRestore j g saved =>
        have hj : j ≠ i := by
          rintro rfl
          exact hr saved rfl
        simp [scanSection,ScanPc.savedNxt,hj]
      | timeWait j g =>
        simp only [scanSection,scanNext]
        (repeat' split) <;> rfl
      | persist | delack =>
        simp only [scanSection]
        (repeat' split) <;> rfl
      | _ => rfl
  · rw [update_of_ne (Ne.symm hτ)]

theorem RetxInv.quiet {x : TCB} (h : RetxInv i x σ.1.pc) (hG : retxOrdered i σ e = true)
    (he : e.effect σ.1 = some ⟨τ,f⟩) (hq : ∀ op, f.op ≠ some (i,op)) :
    RetxInv i x (update σ.1.pc τ f.next) := by
  refine ⟨fun hno => ?_,h.cut_next he⟩
  have hok := h.ok fun ho => hno (opening_next he hG (fun _ _ _ => hq _) ho)
  rw [sendEdge,savedNxt_next he (hq _) fun _ => hq _]
  exact hok

/-- With the scanner resting, and off `tcpRTOFire`, the cover ends at `sndNxt` again. -/
theorem RetxInv.of_resting {x : TCB} (h : RetxInv i (σ.tcb i) σ.1.pc)
    (he : e.effect σ.1 = some ⟨τ,f⟩) (hop : f.op = some (i,op)) (hb : op ≠ .rtoBegin)
    (hr : ∀ saved, op ≠ .rtoRestore saved) (hres : σ.1.resending i = false)
    (hok : RetxOk x x.sndNxt) : RetxInv i x (update σ.1.pc τ f.next) := by
  refine ⟨fun _ => ?_,h.cut_next he⟩
  have hsaved := savedNxt_next (i := i) he (by rw [hop]; rintro ⟨⟩; exact hb rfl)
    (by rw [hop]; rintro saved ⟨⟩; exact hr saved rfl)
  rw [sendEdge,hsaved,Kernel.savedNxt_of_resting hres]
  exact hok

/-- A restored SYN puts the invariant in force. -/
theorem RetxInv.queueSyn {orig : UInt32} {flags : UInt8} {ok : Bool}
    (h : RetxInv i (σ.tcb i) σ.1.pc) (hG : retxOrdered i σ e = true)
    (he : e.effect σ.1 = some ⟨τ,f⟩) (hop : f.op = some (i,.synRestore orig flags ok)) :
    RetxInv i (synRestore σ.1.shared.pitTicks orig flags ok (σ.tcb i))
      (update σ.1.pc τ f.next) := by
  obtain ⟨-,hpush,hres⟩ := retxOrdered_op hG he hop
  obtain ⟨rfl,horig,huna,hq⟩ := of_decide_eq_true hpush
  have hr : RetxOk (synRestore σ.1.shared.pitTicks orig flags true (σ.tcb i)) orig :=
    retxOk_synRestore (retxOrdered_now hG) horig huna hq
  obtain ⟨g,-,hg⟩ := synRestore_shape σ.1.shared.pitTicks orig flags true (σ.tcb i)
  have hnxt : (synRestore σ.1.shared.pitTicks orig flags true (σ.tcb i)).sndNxt = orig := by
    rw [hg]
  refine h.of_resting he hop (by rintro ⟨⟩) (by rintro saved ⟨⟩) (hres rfl) ?_
  rw [hnxt]
  exact hr

/-- What the scanner has set aside before and after the first section of `tcpRTOFire`. -/
theorem savedNxt_fire (he : e.effect σ.1 = some ⟨τ,f⟩) (hop : f.op = some (i,.rtoBegin)) :
    ScanPc.savedNxt i (σ.1.pc .scan) = none ∧
    ScanPc.savedNxt i (update σ.1.pc τ f.next .scan) =
      match (tcpRTOFireBegin σ.1.shared.pitTicks (σ.tcb i)).2 with
      | .resend flags saved => if hasFlag flags tcpFlagSYN = true then some saved else none
      | _ => none := by
  obtain ⟨ok,-,rfl,hd⟩ := does_of_op he hop
  generalize hl : σ.1.pc τ = l at hd
  cases hd with
  | rto _ g hg =>
    refine ⟨by rw [hl]; rfl,?_⟩
    simp only [threadSection,scanSection,if_pos hg]
    change ScanPc.savedNxt i (match (tcpRTOFireBegin σ.1.shared.pitTicks (σ.tcb i)).2 with
      | .spurious => .persist i g
      | .abandon => .rtoFree i g
      | .resend retxFlags saved => .rtoSend i g retxFlags saved) = _
    cases (tcpRTOFireBegin σ.1.shared.pitTicks (σ.tcb i)).2 <;> simp [ScanPc.savedNxt]

/-- `tcpRTOFire` sets `sndNxt` aside for a SYN, and nothing else. -/
theorem sendEdge_fire (hok : RetxOk (σ.tcb i) (sendEdge i (σ.tcb i) σ.1.pc))
    (hG : retxOrdered i σ e = true) (he : e.effect σ.1 = some ⟨τ,f⟩)
    (hop : f.op = some (i,.rtoBegin)) :
    RetxOk (tcpRTOFireBegin σ.1.shared.pitTicks (σ.tcb i)).1 (sendEdge i (σ.tcb i) σ.1.pc) ∧
    sendEdge i (tcpRTOFireBegin σ.1.shared.pitTicks (σ.tcb i)).1
      (update σ.1.pc τ f.next) = sendEdge i (σ.tcb i) σ.1.pc := by
  obtain ⟨hbefore,hafter⟩ := savedNxt_fire he hop
  have hedge : sendEdge i (σ.tcb i) σ.1.pc = (σ.tcb i).sndNxt := by
    rw [sendEdge,hbefore]
    rfl
  rw [hedge] at hok ⊢
  obtain ⟨hfire,hcase⟩ := hok.rtoBegin (retxOrdered_now hG)
    (of_decide_eq_true (retxOrdered_op hG he hop).2.1)
  refine ⟨hfire,?_⟩
  rw [sendEdge,hafter]
  generalize tcpRTOFireBegin σ.1.shared.pitTicks (σ.tcb i) = w at hcase
  obtain ⟨x,r⟩ := w
  cases r with
  | spurious => exact hcase
  | abandon => exact hcase.elim
  | resend flags saved =>
    obtain ⟨rfl,hkeep⟩ := hcase
    by_cases hsyn : hasFlag flags tcpFlagSYN = true
    · simp [hsyn]
    · simpa [hsyn] using hkeep (by simpa using hsyn)

theorem RetxInv.fire (h : RetxInv i (σ.tcb i) σ.1.pc) (hG : retxOrdered i σ e = true)
    (he : e.effect σ.1 = some ⟨τ,f⟩) (hop : f.op = some (i,.rtoBegin)) :
    RetxInv i (tcpRTOFireBegin σ.1.shared.pitTicks (σ.tcb i)).1
      (update σ.1.pc τ f.next) := by
  refine ⟨fun hno => ?_,h.cut_next he⟩
  have hok := h.ok fun ho => hno (opening_next he hG (by rw [hop]; rintro _ _ _ ⟨⟩) ho)
  obtain ⟨hfire,hedge⟩ := sendEdge_fire hok hG he hop
  rw [hedge]
  exact hfire

/-- `tcpRTOFire` puts `sndNxt` back where it was. -/
theorem sendEdge_restore {saved : UInt32} (he : e.effect σ.1 = some ⟨τ,f⟩)
    (hop : f.op = some (i,.rtoRestore saved)) :
    sendEdge i (σ.tcb i) σ.1.pc = saved ∧
      ScanPc.savedNxt i (update σ.1.pc τ f.next .scan) = none := by
  obtain ⟨ok,-,rfl,hd⟩ := does_of_op he hop
  generalize hl : σ.1.pc τ = l at hd
  cases hd with
  | rtoRestore _ g _ =>
    refine ⟨?_,rfl⟩
    rw [sendEdge,hl]
    simp [ScanPc.savedNxt]

theorem RetxInv.restore {saved : UInt32} (h : RetxInv i (σ.tcb i) σ.1.pc)
    (hG : retxOrdered i σ e = true) (he : e.effect σ.1 = some ⟨τ,f⟩)
    (hop : f.op = some (i,.rtoRestore saved)) :
    RetxInv i (rtoRestore saved (σ.tcb i)) (update σ.1.pc τ f.next) := by
  refine ⟨fun hno => ?_,h.cut_next he⟩
  have hok := h.ok fun ho => hno (opening_next he hG (by rw [hop]; rintro _ _ _ ⟨⟩) ho)
  obtain ⟨hedge,hsaved⟩ := sendEdge_restore he hop
  rw [sendEdge,hsaved]
  rw [hedge] at hok
  exact hok.congr rfl rfl rfl

/-- The sections that put back `sndNxt` and queue the SYN of an open belong to the open. -/
theorem opening_of_synOp (he : e.effect σ.1 = some ⟨τ,f⟩) (hop : f.op = some (i,op))
    (hsyn : op = .synRollback ∨ ∃ orig flags ok, op = .synRestore orig flags ok) :
    Opening i σ.1.pc := by
  obtain ⟨ok,-,rfl,hd⟩ := does_of_op he hop
  generalize hl : σ.1.pc τ = l at hd
  cases hd with
  | openRollback | openRestore => exact .inl (by rw [hl]; simp [RxPc.opens])
  | connRollback p | connRestore p => exact .inr ⟨p,by rw [hl]; simp [ProcPc.opens]⟩
  | _ => simp at hsyn

theorem opening_after_open (he : e.effect σ.1 = some ⟨τ,f⟩) (hop : f.op = some (i,op))
    (ho : op.opens = true) : Opening i (update σ.1.pc τ f.next) := by
  obtain ⟨ok,-,rfl,hd⟩ := does_of_op he hop
  generalize hl : σ.1.pc τ = l at hd
  cases hd with
  | openInit l t h => exact .inl (by simp [threadSection,rxSection,RxPc.opens])
  | connInit p c t timeout =>
    exact .inr ⟨p,by simp [threadSection,procSection,ProcPc.opens]⟩
  | _ => cases ho

/-- An operation that processes an ACK looks at it for the handshake or in a handler. -/
theorem TcbOp.acks_cases (ha : op.acks = true) :
    (∃ h, op = .synSentAck h ∨ op = .synReceivedAck h) ∨ ∃ h, op.handles = some h := by
  cases op with
  | synSentAck h => exact .inl ⟨h,.inl rfl⟩
  | synReceivedAck h => exact .inl ⟨h,.inr rfl⟩
  | established h | finWait1 h | finWait2 h | closing h => exact .inr ⟨h,rfl⟩
  | _ => cases ha

theorem ackOrdered_handles {x : TCB} {h : TCPHeader} (hh : op.handles = some h)
    (hord : ackOrdered x op = true) : h.ack ≠ x.sndUna+0x80000000 := by
  cases op with
  | established | finWait1 | finWait2 | closing => cases hh; exact of_decide_eq_true hord
  | _ => cases hh

/-- An operation that processes an ACK, taken in order. -/
theorem RetxOk.acks {x : TCB} {now : UInt64} (hx : RetxOk x x.sndNxt) (hnow : now.toNat < 2^63)
    (ha : op.acks = true) (hord : ackOrdered x op = true) : RetxOk (op.run now x) x.sndNxt := by
  rcases TcbOp.acks_cases ha with ⟨h,rfl | rfl⟩ | ⟨h,hh⟩
  · exact hx.synAcked hnow (of_decide_eq_true hord) rfl rfl
  · exact hx.synAcked hnow (of_decide_eq_true hord) rfl rfl
  · obtain ⟨y,z,hy,hstep,hz⟩ := handler_ack hh now x
    have hok : RetxOk y y.sndNxt := by
      rw [hy.sndNxt]
      exact hx.same hy
    have hack := hok.ackStep hnow (by rw [hy.sndUna]; exact ackOrdered_handles hh hord) hstep
    rw [hy.sndNxt] at hack
    exact hack.same hz

/-- The drain loop accounts for what it sent. -/
theorem RetxInv.drained {d : Drain} (h : RetxInv i (σ.tcb i) σ.1.pc)
    (hG : retxOrdered i σ e = true) (he : e.effect σ.1 = some ⟨τ,f⟩)
    (hop : f.op = some (i,.drainCommit d)) (hopen : ¬Opening i σ.1.pc) :
    RetxOk (drainCommit σ.1.shared.pitTicks d (σ.tcb i))
      (drainCommit σ.1.shared.pitTicks d (σ.tcb i)).sndNxt := by
  obtain ⟨-,hpush,hrest⟩ := retxOrdered_op hG he hop
  have hcut : 0 < d.bytes.length ∧ d.bytes.length ≤ 1500 := by
    obtain ⟨ok,-,-,hd⟩ := does_of_op he hop
    generalize hl : σ.1.pc τ = l at hd
    cases hd with
    | drainCommit p t n _ => exact h.cut p t n d (.inr hl)
  have hok := h.ok hopen
  rw [sendEdge,Kernel.savedNxt_of_resting (hrest rfl)] at hok
  obtain ⟨hseq,hfree⟩ := of_decide_eq_true hpush
  exact hok.drainCommit (retxOrdered_now hG) hfree hseq hcut.1 hcut.2

/-- Operations on the slot keep its invariant. -/
theorem RetxInv.operate (h : RetxInv i (σ.tcb i) σ.1.pc) (hG : retxOrdered i σ e = true)
    (he : e.effect σ.1 = some ⟨τ,f⟩) (hop : f.op = some (i,op)) :
    RetxInv i (op.run σ.1.shared.pitTicks (σ.tcb i)) (update σ.1.pc τ f.next) := by
  have hnow := retxOrdered_now hG
  obtain ⟨hack,hpush,hrest⟩ := retxOrdered_op hG he hop
  have hframe := op.run_frame σ.1.shared.pitTicks (σ.tcb i)
  -- the operations that open, or run while the connection is being opened
  by_cases ho : op.opens = true
  · exact ⟨fun hno => absurd (opening_after_open he hop ho) hno,h.cut_next he⟩
  by_cases hsyn : ∃ orig flags ok, op = .synRestore orig flags ok
  · obtain ⟨orig,flags,ok,rfl⟩ := hsyn
    exact h.queueSyn hG he hop
  have hstay : Opening i σ.1.pc → Opening i (update σ.1.pc τ f.next) :=
    opening_next he hG (by rw [hop]; rintro _ _ _ ⟨⟩; exact hsyn ⟨_,_,_,rfl⟩)
  by_cases hopen : Opening i σ.1.pc
  · exact ⟨fun hno => absurd (hstay hopen) hno,h.cut_next he⟩
  have hok := h.ok hopen
  have hopens : op.opens = false := by simpa using ho
  have hresting (hres : σ.1.resending i = false) : RetxOk (σ.tcb i) (σ.tcb i).sndNxt := by
    rw [sendEdge,Kernel.savedNxt_of_resting hres] at hok
    exact hok
  by_cases ha : op.acks = true
  · have hshift : op.shifts = false := by cases op <;> first | rfl | cases ha
    refine h.of_resting he hop (by rintro rfl; cases ha) (by rintro saved rfl; cases ha)
      (hrest (by simp [ha])) ?_
    rw [hframe.sndNxt hopens hshift]
    exact (hresting (hrest (by simp [ha]))).acks hnow ha hack
  have hacks : op.acks = false := by simpa using ha
  cases op with
  | rtoBegin => exact h.fire hG he hop
  | rtoRestore saved => exact h.restore hG he hop
  | synRollback => exact absurd (opening_of_synOp he hop (.inl rfl)) hopen
  | echoDataCommit | echoFinCommit => cases hpush
  | drainCommit d =>
    exact h.of_resting he hop (by rintro ⟨⟩) (by rintro saved ⟨⟩) (hrest rfl)
      (h.drained hG he hop hopen)
  | closeCommit =>
    refine h.of_resting he hop (by rintro ⟨⟩) (by rintro saved ⟨⟩) (hrest rfl) ?_
    exact (hresting (hrest rfl)).closeCommit hnow (of_decide_eq_true hpush)
  | synRestore orig flags ok => exact absurd ⟨_,_,_,rfl⟩ hsyn
  | _ =>
    -- neither acknowledges, nor moves `sndNxt`, nor queues
    obtain ⟨hq,hd,-⟩ := hframe.retx hacks rfl
    refine ⟨fun _ => ?_,h.cut_next he⟩
    rw [sendEdge,savedNxt_next he (by rw [hop]; rintro ⟨⟩) (by rw [hop]; rintro saved ⟨⟩),
      hframe.sndNxt hopens rfl]
    exact hok.congr (hframe.sndUna hopens hacks) hq hd

end Step

/-! ## Coverage -/

theorem retxInv_boot (i : Slot) : RetxInv i (Sys.boot.tcb i) Sys.boot.1.pc where
  ok _ := by
    refine ⟨Circle.covers_nil 0,?_⟩
    show TCB.zero.rtoDeadline ≠ 0 ↔ TCB.zero.retxQ.contents ≠ []
    decide
  cut p t n d h := by rcases h with h | h <;> cases h

theorem retxInv_run (i : Slot) {es : List Ev}
    (hm : Trace.Meets (Sys.step i) (fun σ e => retxOrdered i σ e = true) .boot es) :
    RetxInv i ((exec (Sys.step i) .boot es).tcb i) (exec (Sys.step i) .boot es).1.pc := by
  refine slotInv_run (J := fun x _ pc => RetxInv i x pc) ?_ ?_ (retxInv_boot i) hm
  · intro σ e τ f op h hG he hop
    exact h.operate hG he hop
  · intro σ e τ f h hG he hq
    exact h.quiet hG he hq

/-- In every run whose events come in order: unless a SYN is being sent, the descriptors
tile the sequence numbers in flight, each of which lies in exactly one; the queue is empty
exactly when nothing is in flight, and the RTO is armed exactly when it is not. -/
theorem retx_queue_covers (i : Slot) (es : List Ev)
    (hm : Trace.Meets (Sys.step i) (fun σ e => retxOrdered i σ e = true) .boot es) :
    let σ := exec (Sys.step i) .boot es
    let x := σ.tcb i
    σ.1.opening i = false → σ.1.resending i = false →
    Circle.Covers TcpRetxEntry.seq TcpRetxEntry.endSeq 1500 x.sndUna x.sndNxt x.retxQ.contents ∧
    (∀ q, Circle.dist x.sndUna q < Circle.dist x.sndUna x.sndNxt →
      x.retxQ.contents.countP
        (fun d => decide (Circle.dist d.seq q < Circle.dist d.seq d.endSeq)) = 1) ∧
    (x.retxQ.contents = [] ↔ x.sndUna = x.sndNxt) ∧
    (x.rtoDeadline ≠ 0 ↔ x.retxQ.contents ≠ []) := by
  intro σ x hopen hres
  have hno : ¬Opening i σ.1.pc := by
    rw [← Kernel.opening_iff,hopen]
    exact Bool.false_ne_true
  have hok : RetxOk x (sendEdge i x σ.1.pc) := (retxInv_run i hm).ok hno
  rw [sendEdge,Kernel.savedNxt_of_resting hres] at hok
  have hlen := retxQ_length_le x
  exact ⟨hok.covers,fun q hq => hok.covers.countP_eq_one (by omega) hq,hok.nil_iff,hok.armed⟩

/-- A client with three bytes in flight. -/
theorem retx_queue_covers_client :
    let x := (exec (Sys.step 0) .boot (clientHandshake++clientSend [1,2,3])).tcb 0
    x.sndUna = 1 ∧ x.sndNxt = 4 ∧ (x.rtoDeadline ≠ 0 ↔ x.retxQ.contents ≠ []) :=
  ⟨by decide +kernel,by decide +kernel,(retx_queue_covers 0 (clientHandshake++clientSend [1,2,3])
    (by decide +kernel) (by decide +kernel) (by decide +kernel)).2.2.2⟩

/-- A byte goes through the echo server. -/
def echoed : List Ev :=
  echoHandshake++toEcho 1001 1 (tcpFlagACK ||| tcpFlagPSH) [65] :: runs .rx 4++
    .echo :: runs .echo 3

/-- The echoed byte is in flight, and no descriptor covers it. -/
theorem echo_byte_not_queued :
    let σ := exec (Sys.step 0) .boot echoed
    let x := σ.tcb 0
    x.active = true ∧ x.state = .established ∧ σ.1.opening 0 = false ∧
      σ.1.resending 0 = false ∧ σ.1.pc .echo = EchoPc.check 1 ∧
      x.sndUna = 1 ∧ x.sndNxt = 2 ∧ x.retxQ.contents = [] := by
  decide +kernel

end Gooos
