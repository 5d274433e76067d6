import Mathlib
import Gooos.Tcp.ReceiveStream

/-!
# The end of the stream

`sys_tcp_recv` returns 0 when `rxBuf` is empty and the state is CLOSE_WAIT, LAST_ACK or
CLOSED. The first two mean that the peer's FIN was consumed. CLOSED means that the slot was
claimed again; and after a close of our own the FIN leads to CLOSING or TIME_WAIT, which are
not on the list.
-/

namespace Gooos

open Interleave
open Trace (Meets exec)

/-- The states of a connection that consumed the peer's FIN. -/
def TcbState.pastFin : TcbState → Bool
  | .closeWait | .lastAck | .closing | .timeWait => true
  | _ => false

/-- A section of `sys_tcp_recv` on slot `i` returns 0 exactly at the end of the stream. -/
def EofExact (stream : List UInt8) (i : Slot) (es : List Ev) : Prop :=
  ∀ es₀ p ok t bufMax timeout deadline, es₀++[.run (.proc p) ok] <+: es →
    let σ := exec (Sys.step i) .boot es₀
    let obs := (σ.step i (.run (.proc p) ok)).2
    σ.1.pc (.proc p) = ProcPc.recv t bufMax timeout deadline → t.slot = i → 0 < bufMax →
    (.returned p 0 ∈ obs → σ.2.finIn = true ∧ σ.2.delivered = stream) ∧
    (σ.2.finIn = true → (σ.tcb i).active = true → (σ.tcb i).state.pastFin = true →
      (σ.tcb i).rxBuf.contents = [] → .returned p 0 ∈ obs)

/-- A section of `sys_tcp_recv` that finds `rxBuf` empty finds neither a slot that was claimed
again nor a connection that we closed before the peer. -/
def readsOpen (i : Slot) (σ : Sys) (e : Ev) : Bool :=
  match e with
  | .run (.proc p) _ => match σ.1.pc (.proc p) with
    | .recv t _ _ _ => t.slot != i || (σ.tcb i).rxBuf.contents != [] ||
      !((σ.tcb i).state == .closed || (σ.tcb i).state == .closing || (σ.tcb i).state == .timeWait)
    | _ => true
  | _ => true

/-- The states in which only the peer can have closed first. -/
def TcbState.peerFirst : TcbState → Bool
  | .closeWait | .lastAck => true
  | _ => false

/-- When a section of `sys_tcp_recv` returns 0. -/
theorem recv_returns_zero {s : Shared} {ok : Bool} {p : ProcSlot} {t : TcbRef}
    {bufMax timeout deadline : UInt64} (hmax : 0 < bufMax) :
    .returned p 0 ∈ (procSection s ok p (.recv t bufMax timeout deadline)).obs ↔
      (s.tcb t.slot).active = true ∧ (s.tcb t.slot).rxBuf.contents = [] ∧
      ((s.tcb t.slot).state = .closeWait ∨ (s.tcb t.slot).state = .lastAck ∨
        (s.tcb t.slot).state = .closed) := by
  simp only [procSection]
  generalize s.tcb t.slot = x
  have hlen := x.rxBuf.rbLen_eq
  split
  · rename_i hact
    simp [sysReturn,hact,sysFailBad]
  · rename_i hact
    split
    · -- some bytes are read
      rename_i hsome
      have hne : x.rxBuf.contents ≠ [] := by
        rintro hnil
        rw [hlen,hnil] at hsome
        cases hsome
      have hread : (recvTake bufMax.toNat x).2.length = min (min x.rxBuf.rbLen bufMax.toNat) 1500 := by
        simp only [recvTake,TcpRingBuf.rbRead_snd,List.length_take]
        omega
      have hpos : UInt64.ofNat (recvTake bufMax.toNat x).2.length ≠ 0 := by
        rw [UInt64.lt_iff_toNat_lt] at hmax
        intro hzero
        have hnat := congrArg UInt64.toNat hzero
        rw [UInt64.toNat_ofNat'] at hnat
        change _ = 0 at hnat
        omega
      simp [hne,Ne.symm hpos]
    · have hnil : x.rxBuf.contents = [] := List.eq_nil_of_length_eq_zero (by omega)
      split
      · rename_i hst
        simp [sysReturn,hact,hnil,hst]
      · rename_i hst
        split
        · simp [sysReturn,sysFailBad,hst]
        · simp [hst]

theorem leads_peerFirst {op : TcbOp} {st st' : TcbState} (hl : op.leads st st' = true)
    (hst : st'.peerFirst = true) : (∃ h payload, op = .established h payload) ∨
      op = .closeMark ∧ st = .closeWait ∨ op = .echoFinCommit := by
  cases op with
  | established h payload => exact .inl ⟨h,payload,rfl⟩
  | echoFinCommit => exact .inr (.inr rfl)
  | closeMark =>
    rcases TcbOp.leads_closeMark.mp hl with ⟨_,rfl⟩ | ⟨hfrom,_⟩
    · cases hst
    · exact .inr (.inl ⟨rfl,hfrom⟩)
  | _ => cases st' <;> first | cases hst; done | cases hl

/-- CLOSE_WAIT and LAST_ACK are reached with the peer's FIN. -/
theorem peerFirst_finIn {op : TcbOp} {x : TCB} {H : Hist} (now : UInt64) (he : op ≠ .echoFinCommit)
    (hJ : x.state.peerFirst = true → H.finIn = true)
    (hst : (op.run now x).state.peerFirst = true) : (H.after x op).finIn = true := by
  have ho : op.opens = false := by
    cases op <;> first | rfl | cases hst
  by_cases hx : x.state.peerFirst = true
  · exact Hist.finIn_after x ho (hJ hx)
  rcases op.run_state now x with hsame | hleads
  · exact absurd (hsame ▸ hst) hx
  · rcases leads_peerFirst hleads hst with ⟨h,payload,rfl⟩ | ⟨rfl,hfrom⟩ | rfl
    · have hstate := tcpHandleEstablished_state now h payload x
      change (H.finIn || estFinIn x h) = true
      cases hfin : estFinIn x h with
      | true => exact Bool.or_true _
      | false =>
        rw [hfin] at hstate
        rw [TcbOp.run,hstate] at hst
        exact absurd hst hx
    · rw [hfrom] at hx
      exact absurd rfl hx
    · exact absurd rfl he

section Run

variable {stream : List UInt8} {i : Slot} {es : List Ev}

theorem finIn_run
    (h : Meets (Sys.step i) (fun σ e => recvClean stream i σ e = true) .boot es) :
    ((exec (Sys.step i) .boot es).tcb i).state.peerFirst = true →
      (exec (Sys.step i) .boot es).2.finIn = true := by
  refine slotInv_run (J := fun x H _ => x.state.peerFirst = true → H.finIn = true) ?_ ?_ ?_ h
  · intro σ e τ f op hJ hG he hop
    refine peerFirst_finIn _ ?_ hJ
    rintro rfl
    simp [recvClean,Sys.opOn_eq he hop] at hG
  · intro σ e τ f hJ _ _ _
    exact hJ
  · rintro ⟨⟩

end Run

/-- In every run whose steps keep to the peer's stream on slot `i`, with reads on open
connections, `sys_tcp_recv` returns 0 exactly at the end of the stream. -/
theorem recv_eof_exact (stream : List UInt8) (i : Slot) (es : List Ev)
    (h : Meets (Sys.step i)
      (fun σ e => recvClean stream i σ e = true ∧ readsOpen i σ e = true) .boot es) :
    EofExact stream i es := by
  intro es₀ p ok t bufMax timeout deadline hes σ obs hpc ht hmax
  obtain ⟨rest,rfl⟩ := hes
  obtain ⟨hm,_⟩ := Trace.meets_append.mp h
  obtain ⟨hm,hlast,_⟩ := Trace.meets_append.mp hm
  have hclean := hm.mono fun _ _ hG => hG.1
  have hI : RecvInv stream (σ.tcb i) σ.2 := recvInv_run hclean
  have hfin : (σ.tcb i).state.peerFirst = true → σ.2.finIn = true := finIn_run hclean
  have hopen : readsOpen i σ (.run (.proc p) ok) = true := hlast.2
  have hobs : obs = (procSection σ.1.shared ok p (.recv t bufMax timeout deadline)).obs := by
    show (threadSection σ.1.shared ok (.proc p) (σ.1.pc (.proc p))).obs = _
    rw [hpc]
    rfl
  simp only [readsOpen,hpc,ht,bne_self_eq_false,Bool.false_or,Bool.or_eq_true,bne_iff_ne,
    Bool.not_eq_true',Bool.or_eq_false_iff,beq_eq_false_iff_ne] at hopen
  rw [hobs,recv_returns_zero hmax,ht]
  show ((σ.tcb i).active = true ∧ (σ.tcb i).rxBuf.contents = [] ∧ _ → _) ∧ (_ → _ → _ → _ →
    (σ.tcb i).active = true ∧ (σ.tcb i).rxBuf.contents = [] ∧ _)
  constructor
  · rintro ⟨_,hnil,hst⟩
    have hin : σ.2.finIn = true := by
      rcases hopen with hne | ⟨⟨hncl,_⟩,_⟩
      · exact absurd hnil hne
      · rcases hst with hst | hst | hst
        · exact hfin (by rw [Sys.tcb,hst]; rfl)
        · exact hfin (by rw [Sys.tcb,hst]; rfl)
        · exact absurd hst hncl
    refine ⟨hin,?_⟩
    rw [← hI.complete hin,hI.buffered,hnil,List.append_nil]
  · intro _ hact hpast hnil
    refine ⟨hact,hnil,?_⟩
    rcases hopen with hne | ⟨⟨_,hncl⟩,hntw⟩
    · exact absurd hnil hne
    · change (σ.tcb i).state = .closeWait ∨ (σ.tcb i).state = .lastAck ∨ (σ.tcb i).state = .closed
      revert hpast hncl hntw
      cases (σ.tcb i).state <;> simp [TcbState.pastFin]

/-- Data with the FIN, a read, and the read that finds the end. -/
def readToEnd : List Ev :=
  clientHandshake++fromPeer 1001 1 (tcpFlagFIN ||| tcpFlagACK) [1,2,3] :: runs .rx 4++
  .sys 0 (.recv 3 userAddrMin 10 0) :: runs (.proc 0) 1++
  .sys 0 (.recv 3 userAddrMin 10 0) :: runs (.proc 0) 1

theorem recv_eof_exact_client :
    Meets (Sys.step 0) (fun σ e => recvClean [1,2,3] 0 σ e = true ∧ readsOpen 0 σ e = true)
      .boot readToEnd ∧ EofExact [1,2,3] 0 readToEnd :=
  ⟨by decide +kernel,recv_eof_exact _ 0 _ (by decide +kernel)⟩

/-- A client half-closes, and the peer answers with ACK and FIN and sends nothing. -/
def halfClose : List Ev :=
  clientHandshake++.sys 0 (.shutdown 3 1) :: runs (.proc 0) 3++
  fromPeer 1001 2 (tcpFlagFIN ||| tcpFlagACK) [] :: runs .rx 4++
  [.sys 0 (.recv 3 userAddrMin 10 0)]

/-- The connection is in TIME_WAIT, and the read waits. -/
theorem recv_waits_past_fin : ¬EofExact [] 0 (halfClose++[.run (.proc 0) true]) := by
  intro h
  have hend := (h halfClose 0 true ⟨0,1⟩ 10 0 0 (List.prefix_refl _) (by decide +kernel) rfl
    (by decide)).2 (by decide +kernel) (by decide +kernel) (by decide +kernel) (by decide +kernel)
  revert hend
  decide +kernel

end Gooos
