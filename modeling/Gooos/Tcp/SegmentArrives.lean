import Mathlib
import Gooos.Tcp.FinAck
import Gooos.Tcp.ReceiveStream
import Gooos.Tcp.RetxQueue

/-!
# A segment and its TCB

`tcpDispatchToTCB` as one call: the receive loop runs its sections one after the other,
from the dispatch of a segment until it waits for the next one.
-/

namespace Gooos

open Interleave Function
open Trace (exec outs)

/-! ## Calls -/

/-- `n` sections of a thread with nothing in between; `ok` are the outcomes of the
transmissions. -/
def sections (τ : Tid) (ok : ℕ → Bool) : ℕ → List Ev
  | 0 => []
  | n+1 => .run τ (ok 0) :: sections τ (fun j => ok (j+1)) n

/-- The effect writes no shared object. -/
def Effect.Silent {π : Type} (f : Effect π) : Prop :=
  f.op = none ∧ f.listener = none ∧ f.sock = none ∧ f.fd = none

/-- The effect is one operation on a TCB that claims no slot. -/
def Effect.Operates {π : Type} (f : Effect π) (i : Slot) (op : TcbOp) : Prop :=
  f.op = some (i,op) ∧ op.isAlloc = false ∧ f.listener = none ∧ f.sock = none ∧ f.fd = none

variable {i : Slot} {op : TcbOp} {t : TcbRef} {y : TCB}

namespace Shared

/-- An operation on the TCB in slot `i`. -/
def operate (s : Shared) (i : Slot) (op : TcbOp) : Shared :=
  { s with tcb := update s.tcb i (op.run s.pitTicks (s.tcb i)) }

theorem apply_silent {π : Type} {s : Shared} {f : Effect π} (h : f.Silent) : s.apply f = s := by
  obtain ⟨hop,hl,hs,hd⟩ := h
  simp only [apply,hop,hl,hs,hd,Option.map_none,put_none]

theorem apply_operates {π : Type} {s : Shared} {f : Effect π}
    (h : f.Operates i op) : s.apply f = s.operate i op := by
  obtain ⟨hop,ha,hl,hs,hd⟩ := h
  simp only [apply,operate,hop,ha,hl,hs,hd,Option.map_some,put,update_eq_self,
    Bool.false_eq_true,if_false]

theorem operate_dispatch (s : Shared) (i : Slot) (h : TCPHeader) :
    s.operate i (.dispatch h) = s := by
  simp only [operate,TcbOp.run,update_eq_self]

@[simp] theorem operate_tcb (s : Shared) (i : Slot) (op : TcbOp) :
    (s.operate i op).tcb i = op.run s.pitTicks (s.tcb i) := by
  simp [operate]

end Shared

namespace Kernel

/-- The kernel with the receive loop at `l`. -/
def rxAt (k : Kernel) (s : Shared) (l : RxPc) : Kernel := k.move .rx s l

variable {k : Kernel} {l : RxPc} {o : ℕ → Bool} {n : ℕ} {s : Shared}

@[simp] theorem rxAt_shared : (k.rxAt s l).shared = s := rfl

@[simp] theorem rxAt_pc : (k.rxAt s l).pc .rx = l := k.move_pc_self .rx s l

theorem rxAt_rxAt {s' : Shared} {l' : RxPc} : (k.rxAt s l).rxAt s' l' = k.rxAt s' l' := by
  simp only [rxAt,Conf.move,update_idem]

/-- One section of the receive loop. -/
theorem step_rx (hpc : k.pc .rx = l) (b : Bool) : k.step (.run .rx b) =
    (k.rxAt (k.shared.apply (rxSection k.shared b l)) (rxSection k.shared b l).next,
      (rxSection k.shared b l).obs) := by
  subst hpc
  rfl

/-- A receive loop that waits stays as it is. -/
theorem exec_rx_idle (hpc : k.pc .rx = RxPc.idle) :
    exec step k (sections .rx o n) = k ∧ outs step k (sections .rx o n) = [] := by
  induction n generalizing o with
  | zero => exact ⟨rfl,rfl⟩
  | succ n ih =>
    have hstep : k.step (.run .rx (o 0)) = (k,[]) := by
      rw [step_rx hpc]
      change (k.move .rx k.shared RxPc.idle,[]) = _
      rw [← hpc,Conf.move,update_eq_self]
    simp only [sections,exec,outs,hstep,List.nil_append]
    exact ih

/-- A section of the receive loop that performs an operation, and what follows. -/
theorem exec_rx_op (hpc : k.pc .rx = l) (hop : (rxSection k.shared (o 0) l).Operates i op) :
    exec step k (sections .rx o (n+1)) =
      exec step (k.rxAt (k.shared.operate i op) (rxSection k.shared (o 0) l).next)
        (sections .rx (fun j => o (j+1)) n) ∧
    outs step k (sections .rx o (n+1)) = (rxSection k.shared (o 0) l).obs++
      outs step (k.rxAt (k.shared.operate i op) (rxSection k.shared (o 0) l).next)
        (sections .rx (fun j => o (j+1)) n) := by
  simp only [sections,exec,outs,step_rx hpc,Shared.apply_operates hop,and_self]

/-- `tcpDispatchToTCB` chooses what to do by the TCB it finds. -/
theorem exec_rx_dispatch {h : TCPHeader} {payload : List UInt8}
    (hpc : k.pc .rx = RxPc.dispatch t h payload) :
    let k' := k.rxAt k.shared (tcpDispatchToTCB (k.shared.tcb t.slot) t h payload)
    exec step k (sections .rx o (n+1)) =
      exec step k' (sections .rx (fun j => o (j+1)) n) ∧
    outs step k (sections .rx o (n+1)) =
      outs step k' (sections .rx (fun j => o (j+1)) n) := by
  have hop : (rxSection k.shared (o 0) (.dispatch t h payload)).Operates t.slot (.dispatch h) :=
    ⟨rfl,rfl,rfl,rfl,rfl⟩
  have hrun := exec_rx_op (n := n) hpc hop
  rw [Shared.operate_dispatch] at hrun
  exact hrun

/-- The last section of a call. -/
theorem exec_rx_last (hpc : k.pc .rx = l) (hop : (rxSection k.shared (o 0) l).Operates i op)
    (hnext : (rxSection k.shared (o 0) l).next = .idle) :
    exec step k (sections .rx o (n+1)) = k.rxAt (k.shared.operate i op) .idle ∧
    outs step k (sections .rx o (n+1)) = (rxSection k.shared (o 0) l).obs := by
  obtain ⟨hexec,houts⟩ := exec_rx_op (n := n) hpc hop
  rw [hnext] at hexec houts
  have hidle := exec_rx_idle (k := k.rxAt (k.shared.operate i op) .idle) (n := n)
    (o := fun j => o (j+1)) rxAt_pc
  rw [hidle.1] at hexec
  rw [hidle.2,List.append_nil] at houts
  exact ⟨hexec,houts⟩

theorem exec_rx_free (hpc : k.pc .rx = RxPc.free t) :
    exec step k (sections .rx o (n+1)) = k.rxAt (k.shared.operate t.slot .free) .idle ∧
    outs step k (sections .rx o (n+1)) = [] :=
  exec_rx_last hpc ⟨rfl,rfl,rfl,rfl,rfl⟩ rfl

/-- The pure ACK that ends most calls. -/
theorem exec_rx_sendAck (hpc : k.pc .rx = RxPc.sendAck t none) :
    exec step k (sections .rx o (n+1)) =
      k.rxAt (k.shared.operate t.slot (.send k.shared.ourIP (o 0) tcpFlagACK [] [])) .idle ∧
    outs step k (sections .rx o (n+1)) = sentObs t.slot
      (tcpSendSegment k.shared.ourIP (o 0) (k.shared.tcb t.slot) tcpFlagACK [] []).2 :=
  exec_rx_last hpc ⟨rfl,rfl,rfl,rfl,rfl⟩ rfl

theorem exec_rx_closing {h : TCPHeader} (hpc : k.pc .rx = RxPc.closing t h) :
    exec step k (sections .rx o (n+1)) =
      k.rxAt (k.shared.operate t.slot (.closing h)) .idle ∧
    outs step k (sections .rx o (n+1)) = [] :=
  exec_rx_last hpc ⟨rfl,rfl,rfl,rfl,rfl⟩ rfl

/-- A handler that works under the lock and then acknowledges. -/
theorem exec_rx_handler (hpc : k.pc .rx = l)
    (hl : rxSection k.shared (o 0) l = { next := .sendAck t none, op := some (t.slot,op) })
    (ha : op.isAlloc = false) :
    exec step k (sections .rx o (n+2)) = k.rxAt ((k.shared.operate t.slot op).operate t.slot
      (.send k.shared.ourIP (o 1) tcpFlagACK [] [])) .idle ∧
    outs step k (sections .rx o (n+2)) = sentObs t.slot (tcpSendSegment k.shared.ourIP (o 1)
      (op.run k.shared.pitTicks (k.shared.tcb t.slot)) tcpFlagACK [] []).2 := by
  have hop : (rxSection k.shared (o 0) l).Operates t.slot op := by
    rw [hl]
    exact ⟨rfl,ha,rfl,rfl,rfl⟩
  obtain ⟨hexec,houts⟩ := exec_rx_op (n := n+1) hpc hop
  rw [hl] at hexec houts
  have hack := exec_rx_sendAck (n := n) (o := fun j => o (j+1))
    (k := k.rxAt (k.shared.operate t.slot op) (.sendAck t none)) rxAt_pc
  rw [rxAt_rxAt,rxAt_shared,Shared.operate_tcb] at hack
  exact ⟨hexec.trans hack.1,houts.trans hack.2⟩

/-- What such a handler leaves in the slot. -/
theorem exec_rx_handler_tcb (hpc : k.pc .rx = l)
    (hl : rxSection k.shared (o 0) l = { next := .sendAck t none, op := some (t.slot,op) })
    (ha : op.isAlloc = false) : ∃ w,
    (exec step k (sections .rx o (n+2))).pc .rx = RxPc.idle ∧
    (exec step k (sections .rx o (n+2))).shared.tcb t.slot =
      { op.run k.shared.pitTicks (k.shared.tcb t.slot) with lastAdvWin := w } := by
  rw [(exec_rx_handler hpc hl ha).1]
  simp only [rxAt_pc,rxAt_shared,Shared.operate_tcb,true_and]
  exact tcpSendSegment_fst ..

end Kernel

/-! ## Acknowledgements of our data -/

/-- The states in which acknowledgements of our data and FIN arrive. -/
def TcbState.ackable : TcbState → Bool
  | .established | .finWait1 | .finWait2 | .closeWait | .closing | .lastAck => true
  | _ => false

/-- The ACK of `h` is accounted for: nothing it covers stays queued, and a timer that
finds nothing queued does not fire. -/
structure AckTaken (h : TCPHeader) (y : TCB) : Prop where
  sndUna : y.sndUna = h.ack
  retxQ : ∀ e ∈ y.retxQ.contents, seqLE e.endSeq h.ack = false
  quiet : y.retxQ.contents = [] → ∀ now, tcpRTOFireBegin now y = (y,.spurious)

/-- The ACK number covers a FIN the connection transmitted. -/
def Hist.FinCovered (H : Hist) (h : TCPHeader) : Prop := ∃ f, H.FinSent f ∧ seqLT f h.ack = true

/-- What an in-order segment with a new ACK has to turn `x` into: a freed TCB if the ACK
ends LAST_ACK, or a TCB that has taken the ACK. -/
def AckHandled (x : TCB) (H : Hist) (h : TCPHeader) (y : TCB) : Prop :=
  (y.state = .closed ∧ x.state = .lastAck ∧ H.FinCovered h) ∨ (y.state ≠ .closed ∧ AckTaken h y)

/-- Every descriptor the ACK covers stands before those it does not cover. -/
def RetxOrdered (x : TCB) (ack : UInt32) : Prop :=
  x.retxQ.contents.Pairwise fun d e => seqLE e.endSeq ack = true → seqLE d.endSeq ack = true

/-- The states and segments for which the handlers look at the ACK number. -/
def AckHeeded (x : TCB) (H : Hist) (h : TCPHeader) : Prop :=
  (x.state = .lastAck ∧ H.FinCovered h ∧
    if hasFlag h.flags tcpFlagRST then rstInWindow x h = true else h.ack = x.sndNxt) ∨
  (hasFlag h.flags tcpFlagRST = false ∧
    (x.state = .established ∨ x.state = .finWait1 ∨ x.state = .finWait2 ∨ x.state = .closing) ∧
    RetxOrdered x h.ack)

theorem forall_dropWhile_iff {α : Type} (p : α → Bool) (xs : List α) :
    (∀ e ∈ xs.dropWhile p, p e = false) ↔ xs.Pairwise fun d e => p e = true → p d = true := by
  induction xs with
  | nil => simp
  | cons a xs ih =>
    by_cases ha : p a = true
    · simp [ha,ih]
    · have hpa : p a = false := by simpa using ha
      rw [List.dropWhile_cons_of_neg ha,List.pairwise_cons]
      constructor
      · intro hall
        have hxs : ∀ e ∈ xs, p e = false := fun e he => hall e (List.mem_cons_of_mem a he)
        refine ⟨fun e he hpe => by simp [hxs e he] at hpe,?_⟩
        exact List.pairwise_of_forall_mem_list fun d _ e he hpe => by simp [hxs e he] at hpe
      · rintro ⟨hxs,-⟩ e he
        rcases List.mem_cons.mp he with rfl | he
        · exact hpa
        · by_contra hpe
          exact ha (hxs e he (by simpa using hpe))

theorem tcpAckUpdate_of_in (now : UInt64) {h : TCPHeader}
    (hack : hasFlag h.flags tcpFlagACK = true) (hlo : seqLE y.sndUna h.ack = true)
    (hhi : seqLE h.ack y.sndNxt = true) (hne : y.sndUna ≠ h.ack) :
    (tcpAckUpdate now y h).1 = windowUpdate now (ackAdvance now y h.ack) h := by
  simp [tcpAckUpdate,hack,hlo,hhi,hne]

theorem seqLE_of_seqLT {a b : UInt32} (h : seqLT a b = true) : seqLE a b = true := by
  rw [seqLT_iff] at h
  rw [seqLE_iff]
  omega

theorem ne_of_seqLT {a b : UInt32} (h : seqLT a b = true) : a ≠ b := by
  rintro rfl
  simp [seqLT_iff] at h

/-- A new ACK is taken if the queue is ordered around it, and only then. -/
theorem ackTaken_iff (now : UInt64) {y z : TCB} {h : TCPHeader}
    (hack : hasFlag h.flags tcpFlagACK = true) (hlt : seqLT y.sndUna h.ack = true)
    (hhi : seqLE h.ack y.sndNxt = true) (hz : TCB.SameFlow (tcpAckUpdate now y h).1 z) :
    AckTaken h z ↔ RetxOrdered y h.ack := by
  obtain ⟨w,hw,hu,hq,-⟩ := ackAdvance_shape now y h.ack
  have hup := tcpAckUpdate_of_in now hack (seqLE_of_seqLT hlt) hhi (ne_of_seqLT hlt)
  rw [hup,hw] at hz
  obtain ⟨hu',hq',hd'⟩ := windowUpdate_retx now (rearmRTO now w) h
  have hkept := rearmRTO_kept now w
  have hzq : z.retxQ = w.retxQ := by rw [hz.retxQ,hq',hkept.retxQ]
  rw [RetxOrdered,← forall_dropWhile_iff,← hq,← hzq]
  constructor
  · exact fun ht => ht.retxQ
  · intro hall
    refine ⟨by rw [hz.sndUna,hu',hkept.sndUna,hu],hall,fun hnil now' => ?_⟩
    have hcount : w.retxQ.count.toNat = 0 := by
      rw [hzq,RingQueue.contents_eq_nil] at hnil
      exact hnil
    have hzero : z.rtoDeadline = 0 := by
      rw [hz.rtoDeadline,hd',rearmRTO,if_pos hcount]
    simp [tcpRTOFireBegin,hzero]

section Handled

variable {x : TCB} {H : Hist} {h : TCPHeader}

/-- No handler closes the TCB. -/
theorem handles_open (now : UInt64) (hh : op.handles = some h) (hx : x.state ≠ .closed) :
    (op.run now x).state ≠ .closed := by
  intro hc
  rcases op.run_state now x with hsame | hleads
  · exact hx (hsame.symm.trans hc)
  · rw [hc] at hleads
    cases op <;> cases hh <;> cases hleads

/-- A handler that looks at the ACK number does what is asked of it if the queue is
ordered, whatever window it announces afterwards. -/
theorem ackHandled_iff {now : UInt64} {w : UInt32} (hh : op.handles = some h)
    (hx : x.state ≠ .closed) (hack : hasFlag h.flags tcpFlagACK = true)
    (hlt : seqLT x.sndUna h.ack = true) (hhi : seqLE h.ack x.sndNxt = true)
    (hy : TCB.SameFlow x y) (hup : TCB.SameFlow (tcpAckUpdate now y h).1 (op.run now x)) :
    AckHandled x H h { op.run now x with lastAdvWin := w } ↔ RetxOrdered x h.ack := by
  have hopen := handles_open now hh hx
  have htaken := ackTaken_iff now (y := y) (z := { op.run now x with lastAdvWin := w })
    hack (by rw [hy.sndUna]; exact hlt) (by rw [hy.sndNxt]; exact hhi) (hup.trans ⟨rfl,rfl,rfl⟩)
  rw [RetxOrdered,hy.retxQ] at htaken
  constructor
  · rintro (⟨hc,-⟩ | ⟨-,ht⟩)
    · exact absurd hc hopen
    · exact htaken.mp ht
  · intro hord
    exact .inr ⟨hopen,htaken.mpr hord⟩

/-- A segment that leaves the TCB as it is does not take a new ACK. -/
theorem not_ackHandled_self (hx : x.state ≠ .closed) (hlt : seqLT x.sndUna h.ack = true) :
    ¬AckHandled x H h x := by
  rintro (⟨hc,-⟩ | ⟨-,ht⟩)
  · exact hx hc
  · exact ne_of_seqLT hlt ht.sndUna

theorem ackHandled_free_iff :
    AckHandled x H h (tcbFree x) ↔ x.state = .lastAck ∧ H.FinCovered h := by
  constructor
  · rintro (⟨-,hst⟩ | ⟨hc,-⟩)
    · exact hst
    · exact absurd rfl hc
  · exact fun hst => .inl ⟨rfl,hst⟩

end Handled

theorem tcpDispatchToTCB_rst {x : TCB} {h : TCPHeader} {payload : List UInt8}
    (hrst : hasFlag h.flags tcpFlagRST = true) (hsyn : x.state ≠ .synSent) :
    tcpDispatchToTCB x t h payload = if rstInWindow x h then .free t else .idle := by
  simp [tcpDispatchToTCB,hrst,hsyn]

/-- An in-order segment with a new ACK, dispatched to a synchronized TCB: the call comes to
its end, and it frees the TCB or takes the ACK as it should exactly in the states and for
the segments of `AckHeeded`. `H` is what the connection did before. -/
theorem ack_handled_iff_heeded (k : Kernel) (H : Hist) (ok : ℕ → Bool) (t : TcbRef)
    (h : TCPHeader) (payload : List UInt8) (hpc : k.pc .rx = RxPc.dispatch t h payload)
    (hst : (k.shared.tcb t.slot).state.ackable = true)
    (hseq : h.seq = (k.shared.tcb t.slot).rcvNxt) (hack : hasFlag h.flags tcpFlagACK = true)
    (hlt : seqLT (k.shared.tcb t.slot).sndUna h.ack = true)
    (hle : seqLE h.ack (k.shared.tcb t.slot).sndNxt = true) :
    (exec Kernel.step k (sections .rx ok 5)).pc .rx = RxPc.idle ∧
      (AckHandled (k.shared.tcb t.slot) H h
          ((exec Kernel.step k (sections .rx ok 5)).shared.tcb t.slot) ↔
        AckHeeded (k.shared.tcb t.slot) H h) := by
  rw [(Kernel.exec_rx_dispatch (n := 4) hpc).1]
  generalize hx : k.shared.tcb t.slot = x at hst hseq hlt hle ⊢
  have hopen : x.state ≠ .closed := by
    intro hc
    rw [hc] at hst
    cases hst
  have hself := not_ackHandled_self (H := H) hopen hlt
  by_cases hrst : hasFlag h.flags tcpFlagRST = true
  · have hsyn : x.state ≠ .synSent := by
      intro hc
      rw [hc] at hst
      cases hst
    rw [tcpDispatchToTCB_rst hrst hsyn]
    by_cases hwin : rstInWindow x h = true
    · rw [if_pos hwin,(Kernel.exec_rx_free Kernel.rxAt_pc).1]
      refine ⟨by simp,?_⟩
      simp only [Kernel.rxAt_shared,Shared.operate_tcb,TcbOp.run,hx,ackHandled_free_iff]
      simp [AckHeeded,hrst,hwin]
    · rw [if_neg hwin,(Kernel.exec_rx_idle Kernel.rxAt_pc).1]
      refine ⟨by simp,?_⟩
      simp only [Kernel.rxAt_shared,hx]
      simp [AckHeeded,hrst,hwin,hself]
  · -- each state has its own handler
    have hnot : hasFlag h.flags tcpFlagRST = false := by simpa using hrst
    have heeded (hst' : x.state = .established ∨ x.state = .finWait1 ∨ x.state = .finWait2 ∨
        x.state = .closing) : AckHeeded x H h ↔ RetxOrdered x h.ack := by
      have hlast : x.state ≠ .lastAck := by
        intro hc
        simp [hc] at hst'
      simp [AckHeeded,hnot,hst',hlast]
    cases hs : x.state with
    | established =>
      have hd : tcpDispatchToTCB x t h payload = .established t h payload := by
        simp [tcpDispatchToTCB,hnot,hs]
      have hdup : tcpIsDuplicateACK x h payload.length = false := by
        simp [tcpIsDuplicateACK,(ne_of_seqLT hlt).symm]
      have hsame := tcpHandleEstablished_same k.shared.pitTicks h payload x hseq
      rw [establishedAck,hdup] at hsame
      rw [hd,heeded (.inl hs)]
      obtain ⟨w,hidle,hy⟩ := Kernel.exec_rx_handler_tcb (n := 2) (o := fun j => ok (j+1))
        (k := k.rxAt k.shared (.established t h payload)) Kernel.rxAt_pc rfl rfl
      refine ⟨hidle,?_⟩
      rw [hy,Kernel.rxAt_shared,hx]
      exact ackHandled_iff rfl hopen hack hlt hle (.refl x) hsame
    | finWait1 =>
      have hd : tcpDispatchToTCB x t h payload = .finWait1 t h payload := by
        simp [tcpDispatchToTCB,hnot,hs]
      rw [hd,heeded (.inr (.inl hs))]
      obtain ⟨w,hidle,hy⟩ := Kernel.exec_rx_handler_tcb (n := 2) (o := fun j => ok (j+1))
        (k := k.rxAt k.shared (.finWait1 t h payload)) Kernel.rxAt_pc rfl rfl
      refine ⟨hidle,?_⟩
      rw [hy,Kernel.rxAt_shared,hx]
      exact ackHandled_iff rfl hopen hack hlt hle (acceptIf_same (h.seq = x.rcvNxt) payload x)
        (tcpHandleFinWait1_same _ h payload x)
    | finWait2 =>
      have hd : tcpDispatchToTCB x t h payload = .finWait2 t h payload := by
        simp [tcpDispatchToTCB,hnot,hs]
      rw [hd,heeded (.inr (.inr (.inl hs)))]
      obtain ⟨w,hidle,hy⟩ := Kernel.exec_rx_handler_tcb (n := 2) (o := fun j => ok (j+1))
        (k := k.rxAt k.shared (.finWait2 t h payload)) Kernel.rxAt_pc rfl rfl
      refine ⟨hidle,?_⟩
      rw [hy,Kernel.rxAt_shared,hx]
      exact ackHandled_iff rfl hopen hack hlt hle (.refl x) (tcpHandleFinWait2_same _ h payload x)
    | closing =>
      have hd : tcpDispatchToTCB x t h payload = .closing t h := by
        simp [tcpDispatchToTCB,hnot,hs]
      rw [hd,heeded (.inr (.inr (.inr hs)))]
      rw [(Kernel.exec_rx_closing Kernel.rxAt_pc).1]
      refine ⟨Kernel.rxAt_pc,?_⟩
      rw [Kernel.rxAt_shared,Kernel.rxAt_shared,Shared.operate_tcb,hx]
      exact ackHandled_iff rfl hopen hack hlt hle (.refl x) (tcpHandleClosing_same _ h x)
    | closeWait =>
      -- the ACK number is not read at all
      have hno : ¬AckHeeded x H h := by simp [AckHeeded,hnot,hs]
      have hd : tcpDispatchToTCB x t h payload =
          if hasFlag h.flags tcpFlagFIN then .sendAck t none else .idle := by
        simp [tcpDispatchToTCB,hnot,hs]
      rw [hd,iff_false_right hno]
      split
      · rw [(Kernel.exec_rx_sendAck Kernel.rxAt_pc).1]
        refine ⟨Kernel.rxAt_pc,?_⟩
        obtain ⟨w,hw⟩ := tcpSendSegment_fst k.shared.ourIP (ok 1) x tcpFlagACK [] []
        simp only [Kernel.rxAt_shared,Shared.operate_tcb,TcbOp.run,hx,hw]
        rintro (⟨hc,-⟩ | ⟨-,ht⟩)
        · exact hopen hc
        · exact ne_of_seqLT hlt ht.sndUna
      · rw [(Kernel.exec_rx_idle Kernel.rxAt_pc).1]
        refine ⟨Kernel.rxAt_pc,?_⟩
        rw [Kernel.rxAt_shared,hx]
        exact hself
    | lastAck =>
      have hd : tcpDispatchToTCB x t h payload =
          if h.ack = x.sndNxt then .free t else .idle := by
        simp [tcpDispatchToTCB,hnot,hs,hack]
      have hheed : AckHeeded x H h ↔ h.ack = x.sndNxt ∧ H.FinCovered h := by
        simp [AckHeeded,hnot,hs,and_comm]
      rw [hd,hheed]
      split
      · rename_i heq
        rw [(Kernel.exec_rx_free Kernel.rxAt_pc).1]
        refine ⟨Kernel.rxAt_pc,?_⟩
        simp only [Kernel.rxAt_shared,Shared.operate_tcb,TcbOp.run,hx,ackHandled_free_iff,hs,heq,
          true_and]
      · rename_i hne
        rw [(Kernel.exec_rx_idle Kernel.rxAt_pc).1]
        refine ⟨Kernel.rxAt_pc,?_⟩
        simp only [Kernel.rxAt_shared,hx,hself,hne,false_and]
    | _ => rw [hs] at hst; cases hst

/-- The client sends three bytes and their ACK is about to be dispatched. -/
def ackArrives : List Ev :=
  clientHandshake++clientSend [1,2,3]++fromPeer 1001 4 tcpFlagACK [] :: runs .rx 1

theorem ack_handled_established :
    let σ := exec (Sys.step 0) .boot ackArrives
    AckHandled (σ.tcb 0) σ.2 ⟨80,tcpEphemeralBase,1001,4,tcpFlagACK,8192,[]⟩
      ((exec Kernel.step σ.1 (sections .rx (fun _ => true) 5)).shared.tcb 0) := by
  intro σ
  refine (ack_handled_iff_heeded σ.1 σ.2 (fun _ => true) ⟨0,1⟩
    ⟨80,tcpEphemeralBase,1001,4,tcpFlagACK,8192,[]⟩ [] (by decide +kernel) (by decide +kernel)
    (by decide +kernel) (by decide +kernel) (by decide +kernel) (by decide +kernel)).2.mpr ?_
  refine .inr ⟨by decide +kernel,.inl (by decide +kernel),?_⟩
  unfold RetxOrdered
  decide +kernel

/-- The same, but the peer closes its side before it acknowledges the bytes. -/
def ackAfterFin : List Ev :=
  clientHandshake++clientSend [1,2,3]++
    fromPeer 1001 1 (tcpFlagFIN ||| tcpFlagACK) [] :: runs .rx 4++
    fromPeer 1002 4 tcpFlagACK [] :: runs .rx 1

/-- In CLOSE_WAIT the ACK of all our bytes is in order and new, and nothing happens: `sndUna`
stays and the descriptor of the bytes stays queued under an armed timer. -/
theorem close_wait_ignores_ack :
    let k := exec Kernel.step .boot ackAfterFin
    let x := k.shared.tcb 0
    let y := (exec Kernel.step k (sections .rx (fun _ => true) 5)).shared.tcb 0
    k.pc .rx = RxPc.dispatch ⟨0,1⟩ ⟨80,tcpEphemeralBase,1002,4,tcpFlagACK,8192,[]⟩ [] ∧
      x.state = .closeWait ∧ x.rcvNxt = 1002 ∧ seqLT x.sndUna 4 = true ∧ x.sndNxt = 4 ∧
      y.state = .closeWait ∧ y.sndUna = 1 ∧ (y.retxQ.contents.map (·.endSeq)) = [4] ∧
      y.rtoDeadline ≠ 0 := by
  decide +kernel

/-! ## Resets -/

theorem recoverWnd_le (w : UInt32) (n : ℕ) : (recoverWnd w n).toNat ≤ tcpRxBufSize := by
  have hcap : (UInt32.ofNat tcpRxBufSize).toNat = tcpRxBufSize := by decide
  rw [recoverWnd]
  split
  · exact hcap.le
  · rename_i hle
    rw [UInt32.lt_iff_toNat_lt] at hle
    omega

/-- No operation lets the window grow beyond the ring. -/
theorem TcbOp.run_rcvWnd_le (now : UInt64) {x : TCB} (op : TcbOp)
    (hx : x.rcvWnd.toNat ≤ tcpRxBufSize) : (op.run now x).rcvWnd.toNat ≤ tcpRxBufSize := by
  have hfull : (UInt32.ofNat tcpRxBufSize).toNat ≤ tcpRxBufSize := by decide
  have hless {u : TCB} {bytes : List UInt8} {fin : Bool} (hs : Stores x u bytes fin) :
      u.rcvWnd.toNat ≤ tcpRxBufSize := by
    rw [hs.rcvWnd]
    omega
  cases op with
  | passiveInit | activeInit => exact hfull
  | synSentAck h =>
    obtain ⟨f,hf⟩ := synSentAck_shape now h x
    rw [run,hf]
    exact hx
  | established h payload => exact hless (tcpHandleEstablished_stores now h payload x)
  | finWait1 h payload => exact hless (tcpHandleFinWait1_stores now h payload x).1
  | finWait2 h payload => exact hless (tcpHandleFinWait2_stores now h payload x).1
  | recvTake | echoTake => exact recoverWnd_le _ _
  | shutdownReset => exact hx
  | _ =>
    rw [(run_frame now x _).rcvWnd rfl rfl rfl]
    exact hx

theorem rcvWnd_le (es : List Ev) (i : Slot) :
    ((exec Kernel.step .boot es).shared.tcb i).rcvWnd.toNat ≤ tcpRxBufSize := by
  refine tcbInv_run (I := fun x => x.rcvWnd.toNat ≤ tcpRxBufSize) ?_ (by decide) es
  intro k e τ f op hk _ _
  exact op.run_rcvWnd_le _ hk

/-- `seq` lies in the receive window of `x`; an empty window still takes `rcvNxt`. -/
def InRecvWindow (x : TCB) (seq : UInt32) : Prop :=
  Circle.dist x.rcvNxt seq < x.rcvWnd.toNat ∨ (x.rcvWnd = 0 ∧ seq = x.rcvNxt)

/-- `ack` lies in `(sndUna,sndNxt]`. -/
def AcksSent (x : TCB) (ack : UInt32) : Prop :=
  0 < Circle.dist x.sndUna ack ∧ Circle.dist x.sndUna ack ≤ Circle.dist x.sndUna x.sndNxt

/-- The resets that may abort the connection. -/
def RstAcceptable (x : TCB) (h : TCPHeader) : Prop :=
  if x.state = .synSent then hasFlag h.flags tcpFlagACK = false ∨ AcksSent x h.ack
  else InRecvWindow x h.seq

/-- The numbers at which the comparisons of the code are off: right behind a non-empty
window, and half a circle away from an outstanding SYN. -/
def RstAtEdge (x : TCB) (h : TCPHeader) : Prop :=
  if x.state = .synSent then h.ack = x.sndUna+0x80000000 ∨ h.ack = x.sndUna+0x80000001
  else x.rcvWnd ≠ 0 ∧ h.seq = x.rcvNxt+x.rcvWnd

theorem rstInWindow_dist_le {x : TCB} {h : TCPHeader} (hwnd : x.rcvWnd.toNat ≤ tcpRxBufSize)
    (hin : rstInWindow x h = true) : Circle.dist x.rcvNxt h.seq ≤ x.rcvWnd.toNat := by
  simp only [tcpRxBufSize] at hwnd
  simp only [rstInWindow,Bool.and_eq_true,seqLE_iff,seqLT_iff] at hin
  have hedge : Circle.dist x.rcvNxt (x.rcvNxt+x.rcvWnd+1) = x.rcvWnd.toNat+1 := by
    rw [UInt32.add_assoc,Circle.dist_add_right,UInt32.toNat_add,Nat.mod_eq_of_lt]
    · rfl
    · change x.rcvWnd.toNat+1 < _
      omega
  generalize x.rcvNxt+x.rcvWnd+1 = edge at hin hedge
  by_contra hlt
  have hback := Circle.dist_split (a := x.rcvNxt) (b := edge) (c := h.seq) (by omega)
  have hne : h.seq ≠ edge := by
    rintro heq
    rw [heq] at hin
    simp at hin
  have hturn := Circle.dist_add_dist hne
  omega

theorem inRecvWindow_of_rst {x : TCB} {h : TCPHeader} (hwnd : x.rcvWnd.toNat ≤ tcpRxBufSize)
    (hin : rstInWindow x h = true) (hedge : ¬(x.rcvWnd ≠ 0 ∧ h.seq = x.rcvNxt+x.rcvWnd)) :
    InRecvWindow x h.seq := by
  rcases (rstInWindow_dist_le hwnd hin).lt_or_eq with hlt | heq
  · exact .inl hlt
  · have hseq : h.seq = x.rcvNxt+x.rcvWnd :=
      Circle.dist_left_inj (heq.trans (Circle.dist_add_right _ _).symm)
    have hzero : x.rcvWnd = 0 := by
      by_contra hne
      exact hedge ⟨hne,hseq⟩
    refine .inr ⟨hzero,?_⟩
    rw [hseq,hzero]
    simp

/-- The ACK test of `tcpHandleSynSent`, away from the far side of the circle. -/
theorem acksSent_of_tests {x : TCB} {ack : UInt32} (hlo : seqLE (x.sndUna+1) ack = true)
    (hhi : seqLE ack x.sndNxt = true)
    (hfar : ¬(ack = x.sndUna+0x80000000 ∨ ack = x.sndUna+0x80000001)) : AcksSent x ack := by
  rw [seqLE_iff] at hlo hhi
  have hone : Circle.dist x.sndUna (x.sndUna+1) = 1 := Circle.dist_add_right _ _
  have hpos : 0 < Circle.dist x.sndUna ack := by
    rw [Nat.pos_iff_ne_zero,Ne,Circle.dist_eq_zero]
    rintro rfl
    have hturn := Circle.dist_add_dist (a := x.sndUna) (b := x.sndUna+1) (by
      intro heq
      rw [← heq] at hone
      simp at hone)
    omega
  have hleg := Circle.dist_split (a := x.sndUna) (b := x.sndUna+1) (c := ack) (by omega)
  refine ⟨hpos,?_⟩
  by_contra hlt
  have hback := Circle.dist_split (a := x.sndUna) (b := x.sndNxt) (c := ack) (by omega)
  have hne : ack ≠ x.sndNxt := by
    rintro rfl
    omega
  have hturn := Circle.dist_add_dist hne
  have hat (n : UInt32) (hn : Circle.dist x.sndUna ack = n.toNat) : ack = x.sndUna+n :=
    Circle.dist_left_inj (hn.trans (Circle.dist_add_right _ _).symm)
  have h31 : Circle.dist x.sndUna ack = 2^31 ∨ Circle.dist x.sndUna ack = 2^31+1 := by omega
  rcases h31 with h31 | h31
  · exact hfar (.inl (hat _ h31))
  · exact hfar (.inr (hat _ h31))

/-- `tcpDispatchToTCB` with a reset: drop it, or free the TCB. -/
theorem tcpDispatchToTCB_reset {x : TCB} {h : TCPHeader} (t : TcbRef) (payload : List UInt8)
    (hwnd : x.rcvWnd.toNat ≤ tcpRxBufSize) (hrst : hasFlag h.flags tcpFlagRST = true)
    (hedge : ¬RstAtEdge x h) :
    tcpDispatchToTCB x t h payload = .idle ∨
      (tcpDispatchToTCB x t h payload = .free t ∧ RstAcceptable x h) := by
  rw [RstAtEdge] at hedge
  rw [RstAcceptable]
  by_cases hsyn : x.state = .synSent
  · simp only [hsyn,if_true] at hedge ⊢
    simp only [tcpDispatchToTCB,hsyn,bne_self_eq_false,Bool.and_false,Bool.false_eq_true,if_false,
      synSentCheck,hrst,Bool.not_true,if_true]
    split
    · exact .inl rfl
    · rename_i htest
      refine .inr ⟨rfl,?_⟩
      by_cases hack : hasFlag h.flags tcpFlagACK = true
      · simp only [hack,Bool.true_and,Bool.not_eq_true',Bool.not_eq_false,Bool.and_eq_true]
          at htest
        exact .inr (acksSent_of_tests htest.1 htest.2 hedge)
      · exact .inl (by simpa using hack)
  · rw [if_neg hsyn] at hedge ⊢
    rw [tcpDispatchToTCB_rst hrst hsyn]
    split
    · rename_i hin
      exact .inr ⟨rfl,inRecvWindow_of_rst hwnd hin hedge⟩
    · exact .inl rfl

/-- In every reachable state a reset aborts the connection only if its number lies in the
receive window or, in SYN_SENT, if it carries no ACK or one of our SYN. Every other reset
changes nothing and is not answered. -/
theorem rst_frees_only_if_acceptable (es : List Ev) (ok : ℕ → Bool) (t : TcbRef) (h : TCPHeader)
    (payload : List UInt8)
    (hpc : (exec Kernel.step .boot es).pc .rx = RxPc.dispatch t h payload)
    (hrst : hasFlag h.flags tcpFlagRST = true)
    (hedge : ¬RstAtEdge ((exec Kernel.step .boot es).shared.tcb t.slot) h) :
    let k := exec Kernel.step .boot es
    let k' := exec Kernel.step k (sections .rx ok 5)
    k'.pc .rx = RxPc.idle ∧ outs Kernel.step k (sections .rx ok 5) = [] ∧
      (k'.shared = k.shared ∨ (RstAcceptable (k.shared.tcb t.slot) h ∧
        k'.shared = k.shared.operate t.slot .free)) := by
  intro k k'
  obtain ⟨hexec,houts⟩ := Kernel.exec_rx_dispatch (n := 4) (o := ok) hpc
  change k' = _ at hexec
  rw [hexec,houts]
  rcases tcpDispatchToTCB_reset t payload (rcvWnd_le es t.slot) hrst hedge with
    hd | ⟨hd,hacc⟩
  · rw [hd,(Kernel.exec_rx_idle Kernel.rxAt_pc).1]
    exact ⟨Kernel.rxAt_pc,rfl,.inl rfl⟩
  · rw [hd,(Kernel.exec_rx_free Kernel.rxAt_pc).1]
    exact ⟨Kernel.rxAt_pc,rfl,.inr ⟨hacc,rfl⟩⟩

/-- A reset behind the window of an established connection is about to be dispatched. -/
def rstArrives : List Ev := clientHandshake++fromPeer 9194 0 tcpFlagRST [] :: runs .rx 1

theorem rst_behind_window_dropped :
    let k := exec Kernel.step .boot rstArrives
    ((exec Kernel.step k (sections .rx (fun _ => true) 5)).shared.tcb 0).active = true := by
  intro k
  have hedge : ¬RstAtEdge (k.shared.tcb 0) ⟨80,tcpEphemeralBase,9194,0,tcpFlagRST,8192,[]⟩ := by
    unfold RstAtEdge
    decide +kernel
  have hnot : ¬RstAcceptable (k.shared.tcb 0)
      ⟨80,tcpEphemeralBase,9194,0,tcpFlagRST,8192,[]⟩ := by
    unfold RstAcceptable InRecvWindow AcksSent
    decide +kernel
  obtain ⟨-,-,hsame | ⟨hacc,-⟩⟩ := rst_frees_only_if_acceptable rstArrives (fun _ => true) ⟨0,1⟩
    ⟨80,tcpEphemeralBase,9194,0,tcpFlagRST,8192,[]⟩ [] (by decide +kernel) (by decide) hedge
  · decide +kernel
  · exact absurd hacc hnot

/-- A reset without ACK reaches a connection that waits for the answer to its SYN. -/
def rstInSynSent : List Ev :=
  [.sys 0 .socket,.sys 0 (.connect 3 peerIP 80 0)]++runs (.proc 0) 6++
    fromPeer 77 0 tcpFlagRST [] :: runs .rx 1

theorem rst_without_ack_frees_syn_sent :
    let k := exec Kernel.step .boot rstInSynSent
    let y := (exec Kernel.step k (sections .rx (fun _ => true) 5)).shared.tcb 0
    k.pc .rx = RxPc.dispatch ⟨0,1⟩ ⟨80,tcpEphemeralBase,77,0,tcpFlagRST,8192,[]⟩ [] ∧
      (k.shared.tcb 0).active = true ∧ (k.shared.tcb 0).state = .synSent ∧
      hasFlag tcpFlagRST tcpFlagACK = false ∧ y.active = false := by
  decide +kernel

end Gooos
