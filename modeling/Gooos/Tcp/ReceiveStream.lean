import Mathlib
import Gooos.Tcp.Inversion

/-!
# The receive stream

The peer sends one byte stream; byte `j` has sequence number `irs+1+j` and a FIN follows
the last byte. What the receive handlers store is a part of that stream from its start,
and `rcvNxt` counts it, as long as a FIN is consumed only behind all its data. The
FIN_WAIT handlers test that; `tcpHandleEstablished` does not.
-/

namespace Gooos

open Interleave
open Bool (and_eq_true or_eq_true)
open TcpRingBuf (rbWrite_snd)
open Trace (Meets exec)

/-! ## What the handlers store -/

/-- `u` is `x` after the handler stored `bytes` and perhaps consumed the FIN. -/
structure Stores (x u : TCB) (bytes : List UInt8) (fin : Bool) : Prop where
  rxBuf : u.rxBuf.contents = x.rxBuf.contents++bytes
  rcvNxt : u.rcvNxt = x.rcvNxt+UInt32.ofNat bytes.length+if fin then 1 else 0
  irs : u.irs = x.irs
  rcvWnd : u.rcvWnd.toNat = x.rcvWnd.toNat-bytes.length

/-- The window shrinks by what was stored, down to zero. -/
theorem recvPayload_rcvWnd (payload : List UInt8) (x : TCB) :
    (recvPayload payload x).rcvWnd.toNat =
      x.rcvWnd.toNat-(payload.take (x.rxBuf.rbWrite payload).2).length := by
  have hn : (x.rxBuf.rbWrite payload).2 ≤ 8192 := by
    rw [rbWrite_snd,TcpRingBuf.rbFree,tcpRxBufSize]
    omega
  have hlen : (payload.take (x.rxBuf.rbWrite payload).2).length = (x.rxBuf.rbWrite payload).2 := by
    rw [List.length_take,rbWrite_snd]
    omega
  rw [hlen,recvPayload]
  dsimp only
  generalize (x.rxBuf.rbWrite payload).2 = n at hn ⊢
  have hofNat : (UInt32.ofNat n).toNat = n :=
    UInt32.toNat_ofNat_of_lt' (by simp only [UInt32.size]; omega)
  split
  · rename_i hlt
    rw [UInt32.lt_iff_toNat_lt] at hlt
    rw [UInt32.toNat_sub_of_le _ _ (by rw [UInt32.le_iff_toNat_le]; omega),hofNat]
  · rename_i hle
    rw [UInt32.lt_iff_toNat_lt] at hle
    change 0 = _
    omega

theorem acceptPayload_stores (payload : List UInt8) (x : TCB) :
    Stores x (acceptPayload payload x) (payload.take (x.rxBuf.rbWrite payload).2) false := by
  rw [acceptPayload]
  split
  · refine ⟨TcpRingBuf.contents_rbWrite _ _,?_,rfl,recvPayload_rcvWnd payload x⟩
    simp [recvPayload]
  · have hnil : payload = [] := by
      rw [← List.length_eq_zero_iff]
      omega
    subst hnil
    exact ⟨by simp,by simp,rfl,by simp⟩

variable {bytes : List UInt8} {fin ok : Bool} {op : TcbOp} {y : TCB}

/-- Flow changes do not concern the receive side. -/
theorem Stores.of_flow {x v u : TCB} (h : TCB.FlowOf x v)
    (hs : Stores v u bytes fin) : Stores x u bytes fin := by
  obtain ⟨f,rfl⟩ := h
  exact ⟨hs.rxBuf,hs.rcvNxt,hs.irs,hs.rcvWnd⟩

theorem Stores.flow {x v u : TCB} (hs : Stores x v bytes fin)
    (h : TCB.FlowOf v u) : Stores x u bytes fin := by
  obtain ⟨f,rfl⟩ := h
  exact ⟨hs.rxBuf,hs.rcvNxt,hs.irs,hs.rcvWnd⟩

theorem stores_nil (x : TCB) : Stores x x [] false := ⟨by simp,by simp,rfl,by simp⟩

theorem acceptPayload_state (payload : List UInt8) (x : TCB) :
    (acceptPayload payload x).state = x.state := by
  rw [acceptPayload]
  split <;> rfl

theorem tcpHandleEstablished_stores (now : UInt64) (h : TCPHeader) (payload : List UInt8)
    (x : TCB) : Stores x (tcpHandleEstablished now h payload x) (storedBytes x h payload)
      (estFinIn x h) := by
  rw [tcpHandleEstablished,storedBytes,estFinIn]
  by_cases hseq : h.seq = x.rcvNxt
  · have hack := establishedAck_flow now h payload.length x
    have hst := acceptPayload_stores payload (establishedAck now h payload.length x)
    rw [hack.rxBuf_eq] at hst
    simp only [hseq,ne_eq,not_true_eq_false,if_false,if_true,beq_self_eq_true,Bool.true_and]
    split
    · rename_i hfin
      have hs := Stores.of_flow hack hst
      refine ⟨hs.rxBuf,?_,hs.irs,hs.rcvWnd⟩
      rw [hs.rcvNxt]
      simp [hfin]
    · rename_i hfin
      rw [Bool.not_eq_true] at hfin
      rw [hfin]
      exact Stores.of_flow hack hst
  · simp only [hseq,ne_eq,not_false_eq_true,if_true,if_false,beq_eq_false_iff_ne.mpr hseq,
      Bool.false_and]
    exact stores_nil x

/-- In-order payload of the FIN_WAIT handlers. -/
theorem finWaitPayload_stores (h : TCPHeader) (payload : List UInt8) (x : TCB) :
    Stores x (if h.seq = x.rcvNxt then acceptPayload payload x else x)
      (storedBytes x h payload) false := by
  rw [storedBytes]
  split
  · exact acceptPayload_stores payload x
  · exact stores_nil x

/-- Consuming the FIN moves the cursor by one more. -/
theorem Stores.consume {x v u : TCB}
    (hs : Stores x v bytes false) (hbuf : u.rxBuf = v.rxBuf) (hirs : u.irs = v.irs)
    (hwnd : u.rcvWnd = v.rcvWnd) (hnxt : u.rcvNxt = v.rcvNxt+if fin then 1 else 0) :
    Stores x u bytes fin := by
  refine ⟨by rw [hbuf]; exact hs.rxBuf,?_,hirs.trans hs.irs,by rw [hwnd]; exact hs.rcvWnd⟩
  rw [hnxt,hs.rcvNxt]
  simp

theorem peerFinInOrder_flow {x v : TCB} (hf : TCB.FlowOf x v) (h : TCPHeader)
    (payload : List UInt8) : peerFinInOrder h payload v = peerFinInOrder h payload x := by
  rw [peerFinInOrder,peerFinInOrder,hf.rcvNxt_eq]

/-- The FIN is consumed exactly in the states that say so. -/
theorem tcpHandleFinWait1_stores (now : UInt64) (h : TCPHeader) (payload : List UInt8) (x : TCB) :
    Stores x (tcpHandleFinWait1 now h payload x) (storedBytes x h payload)
      (fwFinIn x h payload) ∧
    (if fwFinIn x h payload then (tcpHandleFinWait1 now h payload x).state = .timeWait ∨
        (tcpHandleFinWait1 now h payload x).state = .closing
      else (tcpHandleFinWait1 now h payload x).state = x.state ∨
        (tcpHandleFinWait1 now h payload x).state = .finWait2) := by
  have hpay := finWaitPayload_stores h payload x
  have hstate : (if h.seq = x.rcvNxt then acceptPayload payload x else x).state = x.state := by
    split
    · exact acceptPayload_state payload x
    · rfl
  rw [tcpHandleFinWait1,fwFinIn]
  dsimp only
  generalize (if h.seq = x.rcvNxt then acceptPayload payload x else x) = v at *
  have hflow := tcpAckUpdate_flow now v h
  rw [peerFinInOrder_flow hflow]
  generalize (tcpAckUpdate now v h).2 = ackOfOurFin
  have hv := hpay.flow hflow
  have hst : (tcpAckUpdate now v h).1.state = x.state := hflow.state_eq.trans hstate
  generalize (tcpAckUpdate now v h).1 = w at *
  cases peerFinInOrder h payload v <;> cases ackOfOurFin
  · exact ⟨hv,.inl hst⟩
  · exact ⟨hv.consume rfl rfl rfl (by simp),.inr rfl⟩
  · exact ⟨hv.consume rfl rfl rfl rfl,.inr rfl⟩
  · exact ⟨hv.consume rfl rfl rfl rfl,.inl rfl⟩

theorem tcpHandleFinWait2_stores (now : UInt64) (h : TCPHeader) (payload : List UInt8) (x : TCB) :
    Stores x (tcpHandleFinWait2 now h payload x) (storedBytes x h payload)
      (fwFinIn x h payload) ∧
    (if fwFinIn x h payload then (tcpHandleFinWait2 now h payload x).state = .timeWait
      else (tcpHandleFinWait2 now h payload x).state = x.state) := by
  have hflow := tcpAckUpdate_flow now x h
  rw [tcpHandleFinWait2,fwFinIn]
  have hpay := finWaitPayload_stores h payload (tcpAckUpdate now x h).1
  have hstate : (if h.seq = (tcpAckUpdate now x h).1.rcvNxt
      then acceptPayload payload (tcpAckUpdate now x h).1
      else (tcpAckUpdate now x h).1).state = x.state := by
    split
    · exact (acceptPayload_state payload _).trans hflow.state_eq
    · exact hflow.state_eq
  have hfin : peerFinInOrder h payload (if h.seq = (tcpAckUpdate now x h).1.rcvNxt
      then acceptPayload payload (tcpAckUpdate now x h).1 else (tcpAckUpdate now x h).1) =
      peerFinInOrder h payload (if h.seq = x.rcvNxt then acceptPayload payload x else x) := by
    have hx := finWaitPayload_stores h payload x
    rw [storedBytes,hflow.rcvNxt_eq,hflow.rxBuf_eq,← storedBytes] at hpay
    rw [peerFinInOrder,peerFinInOrder,hflow.rcvNxt_eq] at *
    rw [hpay.rcvNxt,hx.rcvNxt,hflow.rcvNxt_eq]
  rw [hfin]
  have hbytes : storedBytes (tcpAckUpdate now x h).1 h payload = storedBytes x h payload := by
    rw [storedBytes,storedBytes,hflow.rcvNxt_eq,hflow.rxBuf_eq]
  rw [hbytes] at hpay
  have hv := Stores.of_flow hflow hpay
  generalize (if h.seq = (tcpAckUpdate now x h).1.rcvNxt
      then acceptPayload payload (tcpAckUpdate now x h).1 else (tcpAckUpdate now x h).1) = v at *
  cases peerFinInOrder h payload (if h.seq = x.rcvNxt then acceptPayload payload x else x)
  · exact ⟨hv,hstate⟩
  · exact ⟨hv.consume rfl rfl rfl rfl,rfl⟩

/-! ## The property -/

/-- The states past the handshake. -/
def TcbState.synchronized : TcbState → Bool
  | .established | .finWait1 | .finWait2 | .closeWait | .closing | .lastAck | .timeWait => true
  | _ => false

/-- What the process in front of slot `i` got is a part of the stream from its start, and
`rcvNxt` counts the stored bytes and the FIN, which comes after all of them. -/
def RecvStreamOk (stream : List UInt8) (i : Slot) (σ : Sys) : Prop :=
  let x := σ.tcb i
  σ.2.delivered <+: stream ∧
  (x.state.synchronized = true →
    x.rcvNxt = x.irs+1+UInt32.ofNat σ.2.stored.length+(if σ.2.finIn then 1 else 0) ∧
    (σ.2.finIn = true → σ.2.stored = stream))

instance (stream : List UInt8) (i : Slot) (σ : Sys) : Decidable (RecvStreamOk stream i σ) :=
  inferInstanceAs (Decidable (_ ∧ (_ → _ ∧ (_ → _))))

/-! ## The condition on runs -/

/-- The segment carries a piece of the stream, at its place, from less than half the
sequence circle around the receive position; a FIN stands behind the last byte. -/
def ofStream (stream : List UInt8) (x : TCB) (H : Hist) (h : TCPHeader) (payload : List UInt8) :
    Bool :=
  decide (payload.length < 65536) && (List.range (stream.length+1)).any fun a =>
    h.seq == x.irs+1+UInt32.ofNat a && payload == (stream.drop a).take payload.length &&
    (!hasFlag h.flags tcpFlagFIN || a+payload.length == stream.length) &&
    decide (H.stored.length < a+2^31) && decide (a < H.stored.length+2^31)

/-- A repeated SYN of the peer, not yet half the circle behind. -/
def peerSynAgain (x : TCB) (H : Hist) (h : TCPHeader) : Bool :=
  hasFlag h.flags tcpFlagSYN && h.seq == x.irs && decide (H.stored.length < 2^31)

/-- The receive loop is past `tcpDispatchToTCB` with a segment for slot `i`. -/
def Kernel.rxHandles (k : Kernel) (i : Slot) : Bool :=
  match k.pc .rx with
  | .synReceived t _ _ | .promote _ t _ _ | .established t _ _ | .finWait1 t _ _
  | .finWait2 t _ _ | .closing t _ | .sendAck t (some _) => t.slot == i
  | _ => false

/-- The step keeps to the peer's stream: an open finds an empty `rxBuf` and no handler of an
earlier connection at work; handled segments are segments of the stream, and a FIN that
`tcpHandleEstablished` takes comes with no more data than `rxBuf` has room for; `rxBuf` is
emptied by `sys_tcp_recv` only. -/
def recvClean (stream : List UInt8) (i : Slot) (σ : Sys) (e : Ev) : Bool :=
  let x := σ.tcb i
  match σ.opOn i e with
  | some (.passiveInit _ _) | some .activeInit =>
    x.rxBuf.contents == [] && !σ.1.rxHandles i
  | some (.established h payload) => peerSynAgain x σ.2 h ||
    (ofStream stream x σ.2 h payload &&
      (!estFinIn x h || decide (payload.length ≤ x.rxBuf.rbFree)))
  | some (.finWait1 h payload) | some (.finWait2 h payload) =>
    (peerSynAgain x σ.2 h && !hasFlag h.flags tcpFlagFIN) || ofStream stream x σ.2 h payload
  | some .shutdownReset | some .echoTake | some .echoFinCommit => false
  | _ => true

/-! ## The invariant -/

/-- The states a connection can be in once the peer's FIN was consumed. -/
def TcbState.afterFin : TcbState → Bool
  | .closed | .closeWait | .closing | .lastAck | .timeWait => true
  | _ => false

/-- The states in which the peer's SYN has been consumed. -/
def TcbState.hasPeer (st : TcbState) : Bool := st == .synReceived || st.synchronized

structure RecvInv (stream : List UInt8) (x : TCB) (H : Hist) : Prop where
  buffered : H.stored = H.delivered++x.rxBuf.contents
  cursor : H.synced = true →
    x.rcvNxt = x.irs+1+UInt32.ofNat H.stored.length+(if H.finIn then 1 else 0)
  opening : x.state = .synSent → H.synced = false ∧ H.stored = [] ∧ H.finIn = false
  synced : x.state.hasPeer = true → H.synced = true
  inStream : H.stored <+: stream
  complete : H.finIn = true → H.stored = stream
  finState : H.finIn = true → x.state.afterFin = true

theorem add_ofNat_inj {a : UInt32} {m n : ℕ} (h : a+UInt32.ofNat m = a+UInt32.ofNat n)
    (hm : m < n+2^32) (hn : n < m+2^32) : m = n := by
  have hmod : UInt32.ofNat m = UInt32.ofNat n := by grind
  have hnat := congrArg UInt32.toNat hmod
  simp only [UInt32.toNat_ofNat'] at hnat
  omega

/-- The in-order test of a handler singles out the piece of the stream that comes next. -/
theorem ofStream_next {stream : List UInt8} {x : TCB} {H : Hist} {h : TCPHeader}
    {payload : List UInt8} (hs : ofStream stream x H h payload = true)
    (hcur : x.rcvNxt = x.irs+1+UInt32.ofNat H.stored.length) :
    payload.length < 65536 ∧
    (h.seq = x.rcvNxt → payload = (stream.drop H.stored.length).take payload.length ∧
      (hasFlag h.flags tcpFlagFIN = true → H.stored.length+payload.length = stream.length)) ∧
    (h.seq+UInt32.ofNat payload.length = x.rcvNxt → hasFlag h.flags tcpFlagFIN = true →
      H.stored.length = stream.length) := by
  simp only [ofStream,and_eq_true,decide_eq_true_eq,List.any_eq_true,List.mem_range,
    beq_iff_eq,or_eq_true,Bool.not_eq_true'] at hs
  obtain ⟨hlen,a,_,⟨⟨⟨hseq,hpay⟩,hfin⟩,hlo⟩,hhi⟩ := hs
  refine ⟨hlen,?_,?_⟩
  · intro hin
    obtain rfl : a = H.stored.length :=
      add_ofNat_inj (hseq.symm.trans (hin.trans hcur)) (by omega) (by omega)
    refine ⟨hpay,fun hf => ?_⟩
    rcases hfin with hno | hend
    · rw [hf] at hno; cases hno
    · exact hend
  · intro hend hf
    have hsum : x.irs+1+UInt32.ofNat (a+payload.length) =
        x.irs+1+UInt32.ofNat H.stored.length := by
      rw [UInt32.ofNat_add]
      grind
    have ha := add_ofNat_inj hsum (by omega) (by omega)
    rcases hfin with hno | heq
    · rw [hf] at hno; cases hno
    · omega

/-- The next bytes of the stream extend what was stored. -/
theorem stored_extends {stored stream : List UInt8} (h : stored <+: stream) (n : ℕ) :
    stored++(stream.drop stored.length).take n <+: stream := by
  have htake := List.prefix_iff_eq_take.mp h
  have hsum : stored++(stream.drop stored.length).take n =
      stream.take (stored.length+n) := by
    rw [List.take_add,← htake]
  rw [hsum]
  exact List.take_prefix _ _

/-- What a handler stores and consumes is right. -/
structure Good (stream : List UInt8) (H : Hist) (bytes : List UInt8) (fin : Bool) : Prop where
  inStream : H.stored++bytes <+: stream
  complete : fin = true → H.stored++bytes = stream

theorem good_nothing {stream : List UInt8} {H : Hist} (h : H.stored <+: stream) :
    Good stream H [] false := ⟨by simpa using h,fun h => by cases h⟩

section Handlers

variable {stream : List UInt8} {x : TCB} {H : Hist} {h : TCPHeader} {payload : List UInt8}

/-- A repeated SYN is never in order. -/
theorem peerSynAgain_late (hs : peerSynAgain x H h = true)
    (hcur : x.rcvNxt = x.irs+1+UInt32.ofNat H.stored.length) : h.seq ≠ x.rcvNxt := by
  simp only [peerSynAgain,and_eq_true,beq_iff_eq,decide_eq_true_eq] at hs
  obtain ⟨⟨_,hseq⟩,hlen⟩ := hs
  intro heq
  have hsum : x.irs+UInt32.ofNat 0 = x.irs+UInt32.ofNat (1+H.stored.length) := by
    rw [UInt32.ofNat_add]
    grind
  have := add_ofNat_inj hsum (by omega) (by omega)
  omega

theorem established_good (hin : H.stored <+: stream)
    (hcur : x.rcvNxt = x.irs+1+UInt32.ofNat H.stored.length)
    (hG : peerSynAgain x H h = true ∨ ofStream stream x H h payload = true ∧
      (estFinIn x h = true → payload.length ≤ x.rxBuf.rbFree)) :
    Good stream H (storedBytes x h payload) (estFinIn x h) := by
  by_cases hseq : h.seq = x.rcvNxt
  · rcases hG with hsyn | ⟨hs,hfit⟩
    · exact absurd hseq (peerSynAgain_late hsyn hcur)
    · obtain ⟨_,hnext,_⟩ := ofStream_next hs hcur
      obtain ⟨hpay,hfin⟩ := hnext hseq
      have hbytes : storedBytes x h payload = payload.take (x.rxBuf.rbWrite payload).2 := by
        rw [storedBytes,if_pos hseq]
      refine ⟨?_,fun hf => ?_⟩
      · rw [hbytes,hpay,List.take_take]
        exact stored_extends hin _
      · -- the guard leaves room for all of the payload
        have hroom := hfit hf
        simp only [estFinIn,and_eq_true] at hf
        have hall : storedBytes x h payload = payload := by
          rw [hbytes,rbWrite_snd,Nat.min_eq_left hroom,List.take_length]
        rw [hall]
        refine List.IsPrefix.eq_of_length ?_ ?_
        · rw [hpay]
          exact stored_extends hin _
        · rw [List.length_append]
          exact hfin hf.2
  · have hbytes : storedBytes x h payload = [] := by rw [storedBytes,if_neg hseq]
    have hfin : estFinIn x h = false := by simp [estFinIn,hseq]
    rw [hbytes,hfin]
    exact good_nothing hin

theorem finWait_good (hin : H.stored <+: stream)
    (hcur : x.rcvNxt = x.irs+1+UInt32.ofNat H.stored.length)
    (hG : peerSynAgain x H h = true ∧ hasFlag h.flags tcpFlagFIN = false ∨
      ofStream stream x H h payload = true) :
    Good stream H (storedBytes x h payload) (fwFinIn x h payload) := by
  have hnxt := (finWaitPayload_stores h payload x).rcvNxt
  rcases hG with ⟨hsyn,hno⟩ | hs
  · have hbytes : storedBytes x h payload = [] := by
      rw [storedBytes,if_neg (peerSynAgain_late hsyn hcur)]
    have hfin : fwFinIn x h payload = false := by simp [fwFinIn,peerFinInOrder,hno]
    rw [hbytes,hfin]
    exact good_nothing hin
  · obtain ⟨hlen,hnext,hend⟩ := ofStream_next hs hcur
    by_cases hseq : h.seq = x.rcvNxt
    · obtain ⟨hpay,hfin⟩ := hnext hseq
      have hbytes : storedBytes x h payload = payload.take (x.rxBuf.rbWrite payload).2 := by
        rw [storedBytes,if_pos hseq]
      refine ⟨?_,fun hf => ?_⟩
      · rw [hbytes,hpay,List.take_take]
        exact stored_extends hin _
      · simp only [fwFinIn,peerFinInOrder,and_eq_true,beq_iff_eq] at hf
        rw [hnxt,hseq] at hf
        -- the FIN follows the last byte stored, so everything was stored
        have hcount : payload.length = (storedBytes x h payload).length := by
          refine add_ofNat_inj (a := x.rcvNxt) (by simpa using hf.2) (by omega) ?_
          rw [hbytes,List.length_take]
          omega
        have hall : storedBytes x h payload = payload := by
          rw [hbytes] at hcount ⊢
          rw [List.length_take] at hcount
          exact List.take_of_length_le (by omega)
        rw [hall]
        refine List.IsPrefix.eq_of_length ?_ ?_
        · rw [hpay]
          exact stored_extends hin _
        · rw [List.length_append]
          exact hfin hf.1
    · have hbytes : storedBytes x h payload = [] := by rw [storedBytes,if_neg hseq]
      refine ⟨by rw [hbytes]; simpa using hin,fun hf => ?_⟩
      simp only [fwFinIn,peerFinInOrder,and_eq_true,beq_iff_eq,if_neg hseq] at hf
      rw [hbytes,List.append_nil]
      exact hin.eq_of_length (hend hf.2 hf.1)

/-- A handler keeps the invariant when what it stores and consumes is right. -/
theorem RecvInv.stores {u : TCB} {H' : Hist}
    (hI : RecvInv stream x H) (hsync : H.synced = true) (hnofin : H.finIn = false)
    (hs : Stores x u bytes fin) (hg : Good stream H bytes fin)
    (hH : H'.stored = H.stored++bytes ∧ H'.finIn = (H.finIn || fin) ∧
      H'.delivered = H.delivered ∧ H'.synced = H.synced)
    (hst : u.state ≠ .synSent) (hfs : fin = true → u.state.afterFin = true) :
    RecvInv stream u H' := by
  obtain ⟨hstored,hfin,hdel,hsyn⟩ := hH
  rw [hnofin,Bool.false_or] at hfin
  constructor
  · rw [hstored,hI.buffered,hdel,hs.rxBuf,List.append_assoc]
  · intro _
    have hcur := hI.cursor hsync
    rw [hs.rcvNxt,hs.irs,hstored,List.length_append,UInt32.ofNat_add]
    grind
  · intro h; exact absurd h hst
  · intro _; rw [hsyn]; exact hsync
  · rw [hstored]; exact hg.inStream
  · intro h; rw [hstored]; exact hg.complete (hfin ▸ h)
  · intro h; exact hfs (hfin ▸ h)

end Handlers

/-- The peer's SYN is consumed, its FIN is not. -/
def Hist.Receiving (H : Hist) : Prop := H.synced = true ∧ H.finIn = false

/-- What the receive loop knows about slot `i` between dispatch and the end of a handler. -/
def recvLoc (i : Slot) : (τ : Tid) → PcOf τ → TCB × Hist → Prop
  | .rx, RxPc.synSent t _ _, (_,H) => t.slot = i → H.stored = [] ∧ H.finIn = false
  | .rx, RxPc.synReceived t _ _, (_,H) | .rx, RxPc.promote _ t _ _, (_,H)
  | .rx, RxPc.established t _ _, (_,H) | .rx, RxPc.finWait1 t _ _, (_,H)
  | .rx, RxPc.finWait2 t _ _, (_,H) | .rx, RxPc.sendAck t (some _), (_,H) =>
    t.slot = i → H.Receiving
  | .rx, RxPc.closing t _, (_,H) => t.slot = i → H.synced = true
  | _, _, _ => True

def recvOutline (stream : List UInt8) (i : Slot) : SlotOutline where
  glob := fun (x,H) => RecvInv stream x H
  loc := recvLoc i

/-- Only the receive loop has assertions. -/
theorem recvLoc_of_ne {i : Slot} {τ : Tid} (h : τ ≠ .rx) (l : PcOf τ) (w : TCB × Hist) :
    recvLoc i τ l w := by
  cases τ with
  | rx => exact absurd rfl h
  | _ => trivial

/-- The assertions read only the receive part of the history. -/
theorem recvLoc_congr {i : Slot} {l : RxPc} {x x' : TCB} {H H' : Hist}
    (hH : H'.stored = H.stored ∧ H'.finIn = H.finIn ∧ H'.synced = H.synced)
    (h : recvLoc i .rx l (x,H)) : recvLoc i .rx l (x',H') := by
  obtain ⟨hs,hf,hy⟩ := hH
  have hrec : H.Receiving → H'.Receiving := fun h => ⟨hy.trans h.1,hf.trans h.2⟩
  cases l with
  | synSent t hd payload => exact fun ht => ⟨hs.trans (h ht).1,hf.trans (h ht).2⟩
  | synReceived | promote | established | finWait1 | finWait2 => exact fun ht => hrec (h ht)
  | closing t hd => exact fun ht => hy.trans (h ht)
  | sendAck t again =>
    cases again with
    | none => trivial
    | some w => exact fun ht => hrec (h ht)
  | _ => trivial

/-- An open starts over; a handler waiting to consume the peer's SYN can go on. -/
theorem recvLoc_of_not_handles {i : Slot} {k : Kernel} {x : TCB} {H : Hist}
    (h : k.rxHandles i = false) (hH : H.stored = [] ∧ H.finIn = false) :
    recvLoc i .rx (k.pc .rx) (x,H) := by
  rw [Kernel.rxHandles] at h
  revert h
  cases k.pc .rx with
  | synSent t hd payload => exact fun _ _ => hH
  | synReceived | promote | established | finWait1 | finWait2 | closing =>
    exact fun h ht => by simp [ht] at h
  | sendAck t again =>
    cases again with
    | none => exact fun _ => trivial
    | some w => exact fun h ht => by simp [ht] at h
  | _ => exact fun _ => trivial

theorem after_recv (ho : op.opens = false) (hr : op.receives = false) (H : Hist)
    (x : TCB) : (H.after x op).stored = H.stored ∧ (H.after x op).finIn = H.finIn ∧
      (H.after x op).synced = H.synced ∧
      (op.drains = false → (H.after x op).delivered = H.delivered) := by
  cases op with
  | recvTake n => exact ⟨rfl,rfl,rfl,fun h => by cases h⟩
  | passiveInit | activeInit => cases ho
  | synSentAck | established | finWait1 | finWait2 => cases hr
  | _ => exact ⟨rfl,rfl,rfl,fun _ => rfl⟩

section Keep

variable {stream : List UInt8} {x u : TCB} {H H' : Hist}

section

variable (hI : RecvInv stream x H)
include hI

/-- Nothing was received; the state may end or stay within what the history allows. -/
theorem RecvInv.keep (hx : u.rxBuf = x.rxBuf ∧ u.rcvNxt = x.rcvNxt ∧ u.irs = x.irs)
    (hH : H'.stored = H.stored ∧ H'.finIn = H.finIn ∧ H'.synced = H.synced ∧
      H'.delivered = H.delivered)
    (hst : u.state = x.state ∨ u.state = .closed ∨
      H.synced = true ∧ u.state ≠ .synSent ∧ (H.finIn = true → u.state.afterFin = true)) :
    RecvInv stream u H' := by
  obtain ⟨hbuf,hnxt,hirs⟩ := hx
  obtain ⟨hs,hf,hy,hd⟩ := hH
  constructor
  · rw [hs,hd,hbuf]; exact hI.buffered
  · intro h; rw [hnxt,hirs,hs,hf]; exact hI.cursor (hy ▸ h)
  · intro h
    rw [hy,hs,hf]
    rcases hst with heq | hcl | ⟨_,hne,_⟩
    · exact hI.opening (heq ▸ h)
    · rw [hcl] at h; cases h
    · exact absurd h hne
  · intro h
    rw [hy]
    rcases hst with heq | hcl | ⟨hsync,_,_⟩
    · exact hI.synced (heq ▸ h)
    · rw [hcl] at h; cases h
    · exact hsync
  · rw [hs]; exact hI.inStream
  · intro h; rw [hs]; exact hI.complete (hf ▸ h)
  · intro h
    rcases hst with heq | hcl | ⟨_,_,hfin⟩
    · rw [heq]; exact hI.finState (hf ▸ h)
    · rw [hcl]; rfl
    · exact hfin (hf ▸ h)

/-- `sys_tcp_recv` moves bytes from the ring to the process. -/
theorem RecvInv.recvTake (n : ℕ) :
    RecvInv stream (Gooos.recvTake n x).1 (H.after x (.recvTake n)) := by
  constructor
  · simp only [Hist.after,Gooos.recvTake,TcpRingBuf.rbRead_snd,TcpRingBuf.contents_rbRead]
    rw [List.append_assoc,List.take_append_drop]
    exact hI.buffered
  · exact hI.cursor
  · exact hI.opening
  · exact hI.synced
  · exact hI.inStream
  · exact hI.complete
  · exact hI.finState

/-- An operation that neither opens, receives nor drains. -/
theorem RecvInv.frame (now : UInt64)
    (ho : op.opens = false) (hr : op.receives = false) (hd : op.drains = false)
    (hst : (op.run now x).state = x.state ∨ (op.run now x).state = .closed ∨
      H.synced = true ∧ (op.run now x).state ≠ .synSent ∧
        (H.finIn = true → (op.run now x).state.afterFin = true)) :
    RecvInv stream (op.run now x) (H.after x op) := by
  have hfr := op.run_frame now x
  obtain ⟨hs,hf,hy,hdel⟩ := after_recv ho hr H x
  exact hI.keep ⟨hfr.rxBuf hr hd,(hfr.rcvNxt hr).1,(hfr.rcvNxt hr).2⟩ ⟨hs,hf,hy,hdel hd⟩ hst

theorem RecvInv.ne_synSent (h : H.synced = true) : x.state ≠ .synSent := by
  intro hst
  have := (hI.opening hst).1
  rw [h] at this
  cases this

/-- `tcpClose` moves between states that have a peer; CLOSE_WAIT goes to LAST_ACK. -/
theorem RecvInv.closeMark (now : UInt64) :
    RecvInv stream (TcbOp.closeMark.run now x) (H.after x .closeMark) := by
  refine hI.frame now rfl rfl rfl ?_
  simp only [TcbOp.run,tcpCloseMark]
  split
  · rename_i hst
    refine .inr (.inr ⟨hI.synced (by rw [hst]; rfl),(by rintro ⟨⟩),fun hf => ?_⟩)
    have := hI.finState hf
    rw [hst] at this
    cases this
  · rename_i hst
    exact .inr (.inr ⟨hI.synced (by rw [hst]; rfl),(by rintro ⟨⟩),fun _ => rfl⟩)
  · exact .inl rfl

end

end Keep

section Step

variable {stream : List UInt8} {i : Slot} {σ : Sys} {e : Ev} {τ : Tid} {f : Effect (PcOf τ)}

/-- `tcpHandleClosing` stays or goes to TIME_WAIT. -/
theorem tcpHandleClosing_state (now : UInt64) (h : TCPHeader) (x : TCB) :
    (tcpHandleClosing now h x).state = x.state ∨
      (tcpHandleClosing now h x).state = .timeWait := by
  have hkeep := (tcpAckUpdate_flow now x h).state_eq
  rw [tcpHandleClosing]
  generalize tcpAckUpdate now x h = w at hkeep ⊢
  obtain ⟨u,b⟩ := w
  cases b
  · exact .inl hkeep
  · exact .inr rfl

theorem tcpHandleEstablished_state (now : UInt64) (h : TCPHeader) (payload : List UInt8)
    (x : TCB) : if estFinIn x h then (tcpHandleEstablished now h payload x).state = .closeWait
      else (tcpHandleEstablished now h payload x).state = x.state := by
  have hkeep : (acceptPayload payload (establishedAck now h payload.length x)).state = x.state :=
    (acceptPayload_state _ _).trans (establishedAck_flow now h payload.length x).state_eq
  rw [tcpHandleEstablished,estFinIn]
  by_cases hseq : h.seq = x.rcvNxt
  · simp only [hseq,ne_eq,not_true_eq_false,if_false,beq_self_eq_true,Bool.true_and]
    cases hasFlag h.flags tcpFlagFIN
    · exact hkeep
    · rfl
  · simp [hseq]

/-- An operation on the slot keeps the invariant. -/
theorem recv_glob (now : UInt64) (hA : (recvOutline stream i).At i σ)
    (hop : σ.opOn i e = some op) (hG : recvClean stream i σ e = true)
    (hd : Does σ.1.shared ok τ (σ.1.pc τ) i op) :
    RecvInv stream (op.run now (σ.tcb i)) (σ.2.after (σ.tcb i) op) := by
  obtain ⟨hI,hloc⟩ := hA
  have hτ := hloc τ
  replace hI : RecvInv stream (σ.tcb i) σ.2 := hI
  replace hτ : recvLoc i τ (σ.1.pc τ) (σ.tcb i,σ.2) := hτ
  simp only [recvClean,hop] at hG
  generalize σ.1.pc τ = l at hd hτ
  have hcur (hr : σ.2.Receiving) : (σ.tcb i).rcvNxt =
      (σ.tcb i).irs+1+UInt32.ofNat σ.2.stored.length := by
    simpa [hr.2] using hI.cursor hr.1
  cases hd with
  | synSent t h payload =>
    obtain ⟨hst,hfin⟩ := hτ rfl
    obtain ⟨fl,hsh⟩ := synSentAck_shape now h (σ.tcb t.slot)
    rw [TcbOp.run,hsh]
    refine ⟨hI.buffered,fun _ => ?_,(by rintro ⟨⟩),fun _ => rfl,hI.inStream,hI.complete,fun hf => ?_⟩
    · simp [Hist.after,hst,hfin]
    · simp [Hist.after,hfin] at hf
  | synReceived t h payload =>
    obtain ⟨hsync,hfin⟩ := hτ rfl
    obtain ⟨fl,hsh⟩ := synReceivedAck_shape now h (σ.tcb t.slot)
    refine hI.frame now rfl rfl rfl (.inr (.inr ⟨hsync,?_,fun hf => ?_⟩))
    · rw [TcbOp.run,hsh]; rintro ⟨⟩
    · rw [hfin] at hf; cases hf
  | established t h payload =>
    obtain ⟨hsync,hfin⟩ := hτ rfl
    have hst := tcpHandleEstablished_state now h payload (σ.tcb t.slot)
    simp only [or_eq_true,and_eq_true,Bool.not_eq_true',decide_eq_true_eq] at hG
    have hgood : Good stream σ.2 (storedBytes (σ.tcb t.slot) h payload)
        (estFinIn (σ.tcb t.slot) h) := established_good hI.inStream (hcur ⟨hsync,hfin⟩)
      (hG.imp id fun hs => ⟨hs.1,fun hf => hs.2.resolve_left (by rw [hf]; rintro ⟨⟩)⟩)
    refine hI.stores hsync hfin (tcpHandleEstablished_stores now h payload _) hgood
      ⟨rfl,rfl,rfl,rfl⟩ ?_ fun hf => ?_
    · split at hst
      · rw [TcbOp.run,hst]; rintro ⟨⟩
      · rw [TcbOp.run,hst]; exact hI.ne_synSent hsync
    · rw [hf] at hst
      rw [TcbOp.run,hst]; rfl
  | finWait1 t h payload =>
    obtain ⟨hsync,hfin⟩ := hτ rfl
    obtain ⟨hs,hst⟩ := tcpHandleFinWait1_stores now h payload (σ.tcb t.slot)
    simp only [or_eq_true,and_eq_true,Bool.not_eq_true'] at hG
    refine hI.stores hsync hfin hs (finWait_good hI.inStream (hcur ⟨hsync,hfin⟩) hG)
      ⟨rfl,rfl,rfl,rfl⟩ ?_ fun hf => ?_
    · split at hst
      · rcases hst with h | h <;> rw [TcbOp.run,h] <;> rintro ⟨⟩
      · rcases hst with h | h
        · rw [TcbOp.run,h]; exact hI.ne_synSent hsync
        · rw [TcbOp.run,h]; rintro ⟨⟩
    · rw [hf] at hst
      rcases hst with h | h <;> rw [TcbOp.run,h] <;> rfl
  | finWait2 t h payload =>
    obtain ⟨hsync,hfin⟩ := hτ rfl
    obtain ⟨hs,hst⟩ := tcpHandleFinWait2_stores now h payload (σ.tcb t.slot)
    simp only [or_eq_true,and_eq_true,Bool.not_eq_true'] at hG
    refine hI.stores hsync hfin hs (finWait_good hI.inStream (hcur ⟨hsync,hfin⟩) hG)
      ⟨rfl,rfl,rfl,rfl⟩ ?_ fun hf => ?_
    · split at hst
      · rw [TcbOp.run,hst]; rintro ⟨⟩
      · rw [TcbOp.run,hst]; exact hI.ne_synSent hsync
    · rw [hf] at hst
      rw [TcbOp.run,hst]; rfl
  | closing t h =>
    refine hI.frame now rfl rfl rfl ?_
    rcases tcpHandleClosing_state now h (σ.tcb t.slot) with hst | hst
    · exact .inl hst
    · refine .inr (.inr ⟨hτ rfl,?_,fun _ => ?_⟩)
      · rw [TcbOp.run,hst]; rintro ⟨⟩
      · rw [TcbOp.run,hst]; rfl
  | openInit l t h =>
    simp only [and_eq_true,beq_iff_eq] at hG
    refine ⟨?_,fun _ => ?_,(by rintro ⟨⟩),fun _ => rfl,List.nil_prefix,(by rintro ⟨⟩),(by rintro ⟨⟩)⟩
    · exact hG.1.symm
    · simp [Hist.after,Hist.empty,TcbOp.run,passiveInit]
  | connInit p c t timeout =>
    simp only [and_eq_true,beq_iff_eq] at hG
    exact ⟨hG.1.symm,(by rintro ⟨⟩),fun _ => ⟨rfl,rfl,rfl⟩,(by rintro ⟨⟩),List.nil_prefix,
      (by rintro ⟨⟩),(by rintro ⟨⟩)⟩
  | recv p t bufMax timeout deadline hact => exact hI.recvTake _
  | closeMark p t c x hx => exact hI.closeMark now
  | shutdownReset | echoTake | echoFinCommit => cases hG
  | openAlloc | rxFree | rtoFree | scanFree | connFree | listenerFree =>
    exact hI.frame now rfl rfl rfl (.inr (.inl rfl))
  | connAlloc p c lp dstIP dstPort timeout j hj =>
    exact hI.frame now rfl rfl rfl (.inr (.inl rfl))
  | _ => exact hI.frame now rfl rfl rfl (.inl ((TcbOp.run_frame _ _ _).state rfl))

/-- `tcpDispatchToTCB` picks the handler by state; a slot it did not look at has none. -/
theorem Dispatched.recv {x y : TCB} {t : TcbRef} {h : TCPHeader} {payload : List UInt8}
    {l : RxPc} {H : Hist} (hdis : Dispatched x t h payload l)
    (hI : t.slot = i → RecvInv stream x H) : recvLoc i .rx l (y,H) := by
  have hopen (hst : x.state = .synSent) (ht : t.slot = i) : H.stored = [] ∧ H.finIn = false :=
    ((hI ht).opening hst).2
  have hsync (hp : x.state.hasPeer = true) (ht : t.slot = i) : H.synced = true :=
    (hI ht).synced hp
  have hrec (hp : x.state.hasPeer = true) (hf : x.state.afterFin = false) (ht : t.slot = i) :
      H.Receiving := by
    refine ⟨hsync hp ht,?_⟩
    by_contra hfin
    rw [Bool.not_eq_false] at hfin
    rw [(hI ht).finState hfin] at hf
    cases hf
  cases hdis with
  | synSent hst => exact hopen hst
  | synReceived hst | established hst | finWait1 hst | finWait2 hst =>
    exact hrec (by rw [hst]; rfl) (by rw [hst]; rfl)
  | closing hst => exact hsync (by rw [hst]; rfl)
  | _ => trivial

/-- Where the receive loop goes when nothing is received for slot `i`. -/
theorem rx_next_recv {s : Shared} {l : RxPc} {x y : TCB} {H : Hist}
    (hI : RecvInv stream (s.tcb i) H) (hl : recvLoc i .rx l (x,H))
    (hs : ∀ t h payload, l = .synSent t h payload → t.slot ≠ i) :
    recvLoc i .rx (rxSection s ok l).next (y,H) := by
  have hgo := rx_goes s ok l
  generalize (rxSection s ok l).next = l' at hgo
  cases hgo with
  | dispatch t h payload _ hdis =>
    have hown : t.slot = i → RecvInv stream (s.tcb t.slot) H := by
      rintro rfl
      exact hI
    exact hdis.recv hown
  | synSent t h payload again =>
    cases again with
    | none => trivial
    | some w => exact fun ht => absurd ht (hs _ _ _ rfl)
  | promote | accepted | promoted | again => exact hl
  | _ => trivial

/-- An effect that does not operate on the slot. -/
theorem recv_quiet (hA : (recvOutline stream i).At i σ) (he : e.effect σ.1 = some ⟨τ,f⟩)
    (hq : ∀ op, f.op ≠ some (i,op)) : recvLoc i τ f.next (σ.tcb i,σ.2) := by
  obtain ⟨hI,hloc⟩ := hA
  cases Ev.moved he with
  | run τ ok =>
    by_cases hτ : τ = .rx
    · subst hτ
      refine rx_next_recv hI (hloc .rx) fun t h payload hpc ht => ?_
      refine hq (.synSentAck h) ?_
      simp only [threadSection,hpc,rxSection,ht]
    · exact recvLoc_of_ne hτ _ _
  | _ => trivial

/-- Only the receive loop receives. -/
theorem Does.receives {s : Shared} {l : PcOf τ}
    (hd : Does s ok τ l i op) (hτ : τ ≠ .rx) : op.receives = false := by
  cases hd <;> first | rfl | exact absurd rfl hτ

theorem after_opens_recv (h : op.opens = true) (H : Hist) (x : TCB) :
    (H.after x op).stored = [] ∧ (H.after x op).finIn = false := by
  cases op with
  | passiveInit | activeInit => exact ⟨rfl,rfl⟩
  | _ => cases h

theorem recvClean_opens (hop : σ.opOn i e = some op) (ho : op.opens = true)
    (hG : recvClean stream i σ e = true) : σ.1.rxHandles i = false := by
  simp only [recvClean,hop] at hG
  cases op with
  | passiveInit | activeInit => simp_all
  | _ => cases ho

/-- An operation on the slot keeps the outline. -/
theorem recv_op (hA : (recvOutline stream i).At i σ)
    (hG : recvClean stream i σ e = true) (he : e.effect σ.1 = some ⟨τ,f⟩)
    (hfop : f.op = some (i,op)) :
    (recvOutline stream i).glob
      (op.run σ.1.shared.pitTicks (σ.tcb i),σ.2.after (σ.tcb i) op) ∧
    (recvOutline stream i).loc τ f.next
      (op.run σ.1.shared.pitTicks (σ.tcb i),σ.2.after (σ.tcb i) op) ∧
    ∀ τ', τ' ≠ τ → (recvOutline stream i).loc τ' (σ.1.pc τ') (σ.tcb i,σ.2) →
      (recvOutline stream i).loc τ' (σ.1.pc τ')
        (op.run σ.1.shared.pitTicks (σ.tcb i),σ.2.after (σ.tcb i) op) := by
  obtain ⟨ok,rfl,rfl,hd⟩ := does_of_op he hfop
  have hon := Sys.opOn_eq he hfop
  refine ⟨recv_glob _ hA hon hG hd,?_,?_⟩
  · by_cases hτ : τ = .rx
    · subst hτ
      have hnext (hr : op.receives = false) (ho : op.opens = false) :
          recvLoc i .rx (rxSection σ.1.shared ok (σ.1.pc .rx)).next
            (op.run σ.1.shared.pitTicks (σ.tcb i),σ.2.after (σ.tcb i) op) := by
        have h := after_recv ho hr σ.2 (σ.tcb i)
        refine recvLoc_congr (x := σ.tcb i) ⟨h.1,h.2.1,h.2.2.1⟩ ?_
        refine rx_next_recv hA.1 (hA.2 .rx) fun t h payload hpc ht => ?_
        rw [hpc] at hd
        cases hd
        cases hr
      have hrx := hA.2 .rx
      revert hnext hrx
      generalize σ.1.pc .rx = l at hd ⊢
      intro hnext hrx
      cases hd with
      | synSent t h payload =>
        simp only [threadSection,rxSection]
        split
        · exact fun _ => ⟨rfl,(hrx rfl).2⟩
        · trivial
      | established | finWait1 | finWait2 | openInit => trivial
      | _ => exact hnext rfl rfl
    · exact recvLoc_of_ne hτ _ _
  · intro τ' hne hl
    by_cases hrx : τ' = .rx
    · subst hrx
      by_cases ho : op.opens = true
      · exact recvLoc_of_not_handles (recvClean_opens hon ho hG) (after_opens_recv ho _ _)
      · rw [Bool.not_eq_true] at ho
        have h := after_recv ho (hd.receives hne.symm) σ.2 (σ.tcb i)
        exact recvLoc_congr ⟨h.1,h.2.1,h.2.2.1⟩ hl
    · exact recvLoc_of_ne hrx _ _

end Step

theorem recvInv_run {stream : List UInt8} {i : Slot} {es : List Ev}
    (h : Meets (Sys.step i) (fun σ e => recvClean stream i σ e = true) .boot es) :
    RecvInv stream ((exec (Sys.step i) .boot es).tcb i)
      (exec (Sys.step i) .boot es).2 := by
  have hboot : (recvOutline stream i).At i .boot := by
    refine ⟨⟨rfl,nofun,nofun,nofun,List.nil_prefix,nofun,nofun⟩,fun τ => ?_⟩
    cases τ <;> trivial
  exact (SlotOutline.run (fun _ _ _ _ _ hA hG he hop => recv_op hA hG he hop)
    (fun _ _ _ _ hA _ he hq => recv_quiet hA he hq) hboot h).1

/-- In every run whose steps keep to the peer's stream on slot `i`, what the process has got
is a part of the stream from its start, and `rcvNxt` counts what was stored. -/
theorem recv_stream_correct (stream : List UInt8) (i : Slot) (es : List Ev)
    (h : Meets (Sys.step i) (fun σ e => recvClean stream i σ e = true) .boot es) :
    RecvStreamOk stream i (exec (Sys.step i) .boot es) := by
  have hI := recvInv_run h
  refine ⟨?_,fun hst => ⟨hI.cursor (hI.synced ?_),hI.complete⟩⟩
  · have hpart := hI.inStream
    rw [hI.buffered] at hpart
    exact (List.prefix_append _ _).trans hpart
  · rw [TcbState.hasPeer,hst,Bool.or_true]

/-- A segment, a duplicate, a read and the rest with the FIN meet the condition. -/
theorem recv_stream_correct_inorder :
    Meets (Sys.step 0) (fun σ e => recvClean [1,2,3] 0 σ e = true) .boot
      (clientHandshake++fromPeer 1001 1 tcpFlagACK [1,2] :: runs .rx 4++
        fromPeer 1001 1 tcpFlagACK [1,2] :: runs .rx 4++
        .sys 0 (.recv 3 userAddrMin 10 0) :: runs (.proc 0) 2++
        fromPeer 1003 1 (tcpFlagFIN ||| tcpFlagACK) [3] :: runs .rx 4) ∧
    RecvStreamOk [1,2,3] 0 (exec (Sys.step 0) .boot
      (clientHandshake++fromPeer 1001 1 tcpFlagACK [1,2] :: runs .rx 4++
        fromPeer 1001 1 tcpFlagACK [1,2] :: runs .rx 4++
        .sys 0 (.recv 3 userAddrMin 10 0) :: runs (.proc 0) 2++
        fromPeer 1003 1 (tcpFlagFIN ||| tcpFlagACK) [3] :: runs .rx 4)) :=
  ⟨by decide +kernel,recv_stream_correct _ 0 _ (by decide +kernel)⟩

/-- Sixteen segments of 536 bytes, the last one with FIN. -/
def fullStream : List Ev :=
  clientHandshake++
  (List.range 15).flatMap (fun k => fromPeer (1001+536*UInt32.ofNat k) 1 tcpFlagACK
    (List.replicate 536 7) :: runs .rx 4)++
  fromPeer (1001+536*15) 1 (tcpFlagFIN ||| tcpFlagACK) (List.replicate 536 7) :: runs .rx 4

/-- `tcpHandleEstablished` takes the FIN along with a payload it can store only a part of:
the last segment finds room for 152 of its 536 bytes. -/
theorem recv_stream_skips_tail : ¬RecvStreamOk (List.replicate 8576 7) 0
    (exec (Sys.step 0) .boot fullStream) := by
  rintro ⟨_,hok⟩
  obtain ⟨hnxt,hall⟩ := hok (by decide +kernel)
  have hfin : (exec (Sys.step 0) .boot fullStream).2.finIn = true := by decide +kernel
  rw [hall hfin,List.length_replicate] at hnxt
  -- `rcvNxt` moved over the 8192 bytes of `rxBuf` only
  exact absurd hnxt (by decide +kernel)

end Gooos
