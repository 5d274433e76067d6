import Mathlib
import Gooos.Tcp.Inversion

/-!
# The acknowledgement of our FIN

`tcpClose` changes the state, transmits the FIN and advances `sndNxt` in three sections,
and the handlers take an ACK of `sndNxt` for an ACK of the FIN. Here: when that is right.
-/

namespace Gooos

open Interleave Function
open Bool (and_eq_true_iff)
open Trace (exec)

/-- `tcpClose` is between its state change and the end of its last section on slot `i`. -/
def ProcPc.closes (i : Slot) : ProcPc → Bool
  | .closeSend t _ | .closeCommit t _ => t.slot == i
  | _ => false

/-- The receive loop is about to run a handler of the closing states on slot `i`. -/
def RxPc.handlesFin (i : Slot) : RxPc → Bool
  | .finWait1 t _ _ | .finWait2 t _ _ | .closing t _ => t.slot == i
  | _ => false

/-- A FIN of the connection was transmitted at sequence number `f`. -/
def Hist.FinSent (H : Hist) (f : UInt32) : Prop :=
  ∃ seg ∈ H.sent, hasFlag seg.flags tcpFlagFIN = true ∧ seg.seq = f

/-- Some thread is inside `tcpClose` on slot `i`. -/
def Closing (i : Slot) (pc : (τ : Tid) → PcOf τ) : Prop :=
  ∃ p, ProcPc.closes i (pc (.proc p)) = true

/-- A FIN was transmitted right below `sndNxt`, and an ACK of `sndNxt` arrived. -/
def FinAcked (x : TCB) (H : Hist) : Prop :=
  ∃ f, H.FinSent f ∧ f+1 = x.sndNxt ∧
    ∃ h ∈ H.arrived, hasFlag h.flags tcpFlagACK = true ∧ h.ack = x.sndNxt

def TcbState.finAcked : TcbState → Bool
  | .finWait2 | .timeWait => true
  | _ => false

/-- The states `tcpClose` acts on. -/
def TcbState.closable : TcbState → Bool
  | .established | .closeWait => true
  | _ => false

/-- What the receive loop knows before it runs a handler of the closing states. -/
def RxFin (i : Slot) (x : TCB) (H : Hist) (pc : (τ : Tid) → PcOf τ) : RxPc → Prop
  | .finWait1 t h _ | .closing t h => t.slot = i → h ∈ H.arrived
  | .finWait2 t _ _ => t.slot = i → x.state.closable = false ∧
    (H.closeMarked = true → ¬Closing i pc ∧ FinAcked x H)
  | _ => True

/-- Once `tcpClose` changed the state, it is still at work or its FIN is right below
`sndNxt`. -/
structure FinInv (i : Slot) (x : TCB) (H : Hist) (pc : (τ : Tid) → PcOf τ) : Prop where
  marked : H.closeMarked = true → Closing i pc ∨ ∃ f, H.FinSent f ∧ f+1 = x.sndNxt
  once : ∀ p q, ProcPc.closes i (pc (.proc p)) = true →
    ProcPc.closes i (pc (.proc q)) = true → p = q
  closing : Closing i pc → H.closeMarked = true
  sent : ∀ p t c, pc (.proc p) = ProcPc.closeCommit t c → t.slot = i → H.FinSent x.sndNxt
  acked : H.closeMarked = true → x.state.finAcked = true → ¬Closing i pc ∧ FinAcked x H
  rx : RxFin i x H pc (pc .rx)

/-! ## Who closes -/

theorem afterClose_closes (s : Shared) (p : ProcSlot) (t : TcbRef) (c : AfterClose) (i : Slot) :
    (afterClose s p t c).next.closes i = false := by
  have h := afterClose_next s p t c
  revert h
  generalize (afterClose s p t c).next = l
  intro h
  cases h <;> rfl

theorem sysEntry_closes (s : Shared) (p : ProcSlot) (c : Syscall) (i : Slot) :
    (sysEntry s p c).next.closes i = false := by
  have h := sysEntry_next s p c
  revert h
  generalize (sysEntry s p c).next = l
  intro h
  cases h <;> rfl

variable {s : Shared} {ok : Bool} {p : ProcSlot} {l : ProcPc} {now : UInt64} {t : TcbRef}
  {c : AfterClose}

/-- A process comes to the later sections of `tcpClose` through the earlier ones. -/
theorem proc_next_closes {i : Slot} (h : (procSection s ok p l).next.closes i = true) :
    (procSection s ok p l).op = some (i,.closeMark) ∨
      ∃ t c, l = .closeSend t c ∧ t.slot = i ∧
        (procSection s ok p l).next = .closeCommit t c := by
  have hgo := proc_goes s ok p l
  generalize hn : (procSection s ok p l).next = l' at h hgo ⊢
  cases hgo with
  | closeMark t c x hx =>
    obtain rfl : t.slot = i := by simpa [ProcPc.closes] using h
    simp [procSection,hx]
  | closeSend t c => exact .inr ⟨t,c,rfl,by simpa [ProcPc.closes] using h,rfl⟩
  | closeSkip _ _ _ _ hl | closeFail _ _ _ hl | closeCommit _ _ _ hl => cases hl <;> cases h
  | _ => cases h

/-- A process inside `tcpClose` on slot `i` operates on it. -/
theorem closes_op {i : Slot}
    (h : l.closes i = true) : ∃ op, (procSection s ok p l).op = some (i,op) := by
  cases l with
  | closeSend t c =>
    have hi : t.slot = i := by simpa [ProcPc.closes] using h
    simp only [procSection]
    split
    · exact ⟨_,by rw [hi]⟩
    · exact ⟨_,by rw [hi]⟩
  | closeCommit t c =>
    have hi : t.slot = i := by simpa [ProcPc.closes] using h
    exact ⟨.closeCommit,by simp only [procSection,hi]⟩
  | _ => cases h

/-! ## Steps that leave the close alone -/

theorem Hist.FinSent.mono {H H' : Hist} {f : UInt32} (h : H.FinSent f) (hs : H.sent ⊆ H'.sent) :
    H'.FinSent f := by
  obtain ⟨seg,hseg,hf⟩ := h
  exact ⟨seg,hs hseg,hf⟩

section Keep

variable {i : Slot} {x x' : TCB} {H H' : Hist} {pc pc' : (τ : Tid) → PcOf τ}

theorem FinAcked.keep (h : FinAcked x H) (hnxt : x'.sndNxt = x.sndNxt) (hs : H.sent ⊆ H'.sent)
    (ha : H.arrived ⊆ H'.arrived) : FinAcked x' H' := by
  obtain ⟨f,hf,hnx,hd,hmem,hack⟩ := h
  exact ⟨f,hf.mono hs,by rw [hnxt,hnx],hd,ha hmem,by rw [hnxt]; exact hack⟩

theorem closing_congr (hcl : ∀ p, ProcPc.closes i (pc' (.proc p)) = ProcPc.closes i (pc (.proc p))) :
    Closing i pc' ↔ Closing i pc := by
  simp only [Closing,hcl]

/-- What the receive loop knows survives steps that do not reopen the connection. -/
theorem RxFin.keep {l : RxPc} (h : RxFin i x H pc l)
    (hcl : ∀ p, ProcPc.closes i (pc' (.proc p)) = ProcPc.closes i (pc (.proc p)))
    (hnxt : H.closeMarked = true → x'.sndNxt = x.sndNxt)
    (hmark : H'.closeMarked = H.closeMarked) (hs : H.sent ⊆ H'.sent)
    (ha : H.arrived ⊆ H'.arrived)
    (hst : x'.state.closable = true → x.state.closable = true) : RxFin i x' H' pc' l := by
  cases l with
  | finWait1 | closing => exact fun ht => ha (h ht)
  | finWait2 t hd payload =>
    intro ht
    obtain ⟨hc,hf⟩ := h ht
    refine ⟨?_,fun hm => ?_⟩
    · by_contra hx
      rw [hst (by simpa using hx)] at hc
      cases hc
    · rw [hmark] at hm
      obtain ⟨hno,hacked⟩ := hf hm
      exact ⟨fun hcl' => hno ((closing_congr hcl).mp hcl'),hacked.keep (hnxt hm) hs ha⟩
  | _ => trivial

/-- A step that moves nobody into or out of `tcpClose` and leaves `sndNxt` alone. -/
theorem FinInv.keep (h : FinInv i x H pc)
    (hcl : ∀ p, ProcPc.closes i (pc' (.proc p)) = ProcPc.closes i (pc (.proc p)))
    (hcommit : ∀ p t c, pc' (.proc p) = ProcPc.closeCommit t c → t.slot = i →
      pc (.proc p) = ProcPc.closeCommit t c ∨ H'.FinSent x'.sndNxt)
    (hnxt : H.closeMarked = true → x'.sndNxt = x.sndNxt)
    (hmark : H'.closeMarked = H.closeMarked) (hs : H.sent ⊆ H'.sent)
    (ha : H.arrived ⊆ H'.arrived)
    (hst : H.closeMarked = true → x'.state.finAcked = true →
      x.state.finAcked = true ∨ ¬Closing i pc ∧ FinAcked x H)
    (hrx : RxFin i x' H' pc' (pc' .rx)) : FinInv i x' H' pc' where
  marked hm := by
    rw [hmark] at hm
    rcases h.marked hm with hc | ⟨f,hf,hfx⟩
    · exact .inl ((closing_congr hcl).mpr hc)
    · exact .inr ⟨f,hf.mono hs,by rw [hnxt hm,hfx]⟩
  once p q hp hq := h.once p q (by rwa [hcl] at hp) (by rwa [hcl] at hq)
  closing hc := by
    rw [hmark]
    exact h.closing ((closing_congr hcl).mp hc)
  sent p t c hp ht := by
    rcases hcommit p t c hp ht with hp' | hf
    · have hc : Closing i pc := ⟨p,by rw [hp']; simp [ProcPc.closes,ht]⟩
      rw [hnxt (h.closing hc)]
      exact (h.sent p t c hp' ht).mono hs
    · exact hf
  acked hm hx := by
    rw [hmark] at hm
    have hold : ¬Closing i pc ∧ FinAcked x H := by
      rcases hst hm hx with hx' | hx'
      · exact h.acked hm hx'
      · exact hx'
    exact ⟨fun hc => hold.1 ((closing_congr hcl).mp hc),hold.2.keep (hnxt hm) hs ha⟩
  rx := hrx

end Keep

/-! ## What the handlers take for an ACK of the FIN -/

theorem tcpAckUpdate_snd {x : TCB} {h : TCPHeader} (hb : (tcpAckUpdate now x h).2 = true) :
    hasFlag h.flags tcpFlagACK = true ∧ h.ack = x.sndNxt := by
  rw [tcpAckUpdate] at hb
  split at hb
  · cases hb
  · rename_i hf
    split at hb
    · cases hb
    · refine ⟨by simpa using hf,?_⟩
      have hflow : TCB.FlowOf x
          (windowUpdate now (if x.sndUna ≠ h.ack then ackAdvance now x h.ack else x) h) :=
        (TCB.FlowOf.ite (ackAdvance_flow now x h.ack) (.refl x)).trans
          (windowUpdate_flow now _ h)
      obtain ⟨f,hx⟩ := hflow
      dsimp only at hb
      rw [hx] at hb
      exact eq_of_beq hb

theorem finWait1_acked {x : TCB} {h : TCPHeader} {payload : List UInt8}
    (hst : (tcpHandleFinWait1 now h payload x).state.finAcked = true) :
    x.state.finAcked = true ∨ hasFlag h.flags tcpFlagACK = true ∧ h.ack = x.sndNxt := by
  have hdata : (if h.seq = x.rcvNxt then acceptPayload payload x else x).state = x.state ∧
      (if h.seq = x.rcvNxt then acceptPayload payload x else x).sndNxt = x.sndNxt := by
    rw [acceptPayload]
    split_ifs <;> exact ⟨rfl,rfl⟩
  rw [tcpHandleFinWait1] at hst
  revert hst
  generalize (if h.seq = x.rcvNxt then acceptPayload payload x else x) = y at hdata ⊢
  have hkeep := (tcpAckUpdate_flow now y h).state_eq
  have hsnd : (tcpAckUpdate now y h).2 = true → _ := tcpAckUpdate_snd
  generalize tcpAckUpdate now y h = w at hkeep hsnd ⊢
  obtain ⟨u,ack⟩ := w
  intro hst
  cases ack with
  | true => exact .inr (hdata.2 ▸ hsnd rfl)
  | false =>
    refine .inl ?_
    rw [← hdata.1,← hkeep]
    cases hp : peerFinInOrder h payload u with
    | true =>
      simp only [hp,Bool.false_and,if_false,if_true,Bool.false_eq_true] at hst
      cases hst
    | false =>
      simpa only [hp,Bool.false_and,if_false,Bool.false_eq_true] using hst

theorem closing_acked (now : UInt64) {x : TCB} {h : TCPHeader}
    (hst : (tcpHandleClosing now h x).state.finAcked = true) :
    x.state.finAcked = true ∨ hasFlag h.flags tcpFlagACK = true ∧ h.ack = x.sndNxt := by
  rw [tcpHandleClosing] at hst
  revert hst
  have hkeep := (tcpAckUpdate_flow now x h).state_eq
  have hsnd : (tcpAckUpdate now x h).2 = true → _ := tcpAckUpdate_snd
  generalize tcpAckUpdate now x h = w at hkeep hsnd ⊢
  obtain ⟨u,ack⟩ := w
  intro hst
  cases ack with
  | true => exact .inr (hsnd rfl)
  | false =>
    refine .inl ?_
    rw [← hkeep]
    exact hst

/-- The head of the retransmission queue is a SYN. -/
def headSyn (x : TCB) : Bool := (retxHead x).any (hasFlag ·.flags tcpFlagSYN)

/-- A timer that fires for other than a SYN leaves `sndNxt` alone. -/
theorem tcpRTOFireBegin_sndNxt (now : UInt64) {x : TCB} (h : headSyn x = false) :
    (tcpRTOFireBegin now x).1.sndNxt = x.sndNxt := by
  rw [tcpRTOFireBegin]
  split
  · rfl
  · split
    · rfl
    · split
      · rfl
      · split
        · rfl
        · rename_i head hhead
          have hsyn : hasFlag head.flags tcpFlagSYN = false := by
            simpa [headSyn,hhead] using h
          obtain ⟨f,-,hf⟩ := rtoBackoff_shape now head x
          simp only [hsyn,Bool.false_eq_true,if_false,hf]
          rfl

/-- A segment without options and payload goes out whenever `ipv4Send` succeeds. -/
theorem bareSegment_isSome (ourIP : UInt32) (x : TCB) (flags : UInt8) :
    (tcpSendSegment ourIP true x flags [] []).2.isSome = true := by
  rw [tcpSendSegment]
  rfl

/-! ## Steps of a run -/

/-- Some process is inside `tcpClose` on slot `i`. -/
def Kernel.closing (k : Kernel) (i : Slot) : Bool :=
  (List.finRange 32).any fun p => ProcPc.closes i (k.pc (.proc p))

theorem Kernel.closing_iff {k : Kernel} {i : Slot} : k.closing i = true ↔ Closing i k.pc := by
  simp [closing,Closing]

/-- The event comes in order with `tcpClose` on slot `i`. While `tcpClose` is at work there,
no handler takes an ACK for that of the FIN, no second `tcpClose` starts and no connection
is opened; the FIN is transmitted; and nobody else moves `sndNxt` of a closed connection. -/
def finOrdered (i : Slot) (σ : Sys) (e : Ev) : Bool :=
  (match σ.opOn i e with
    | some (.passiveInit _ _) | some .activeInit =>
      !σ.1.closing i && !RxPc.handlesFin i (σ.1.pc .rx)
    | some .closeMark | some (.finWait1 _ _) | some (.closing _) => !σ.1.closing i
    | some (.dispatch _) => !σ.1.closing i || (σ.tcb i).state != .lastAck
    | some .synRollback | some (.synRestore _ _ _) | some (.drainCommit _)
    | some (.echoDataCommit _) | some .echoFinCommit | some (.rtoRestore _) =>
      !σ.2.closeMarked
    | some .rtoBegin => !σ.2.closeMarked || !headSyn (σ.tcb i)
    | _ => true) &&
  match e with
  | .run (.proc p) ok =>
    match (σ.1.pc (.proc p) : ProcPc) with
    | .closeSend t _ => ok || t.slot != i
    | _ => true
  | _ => true

/-- Without an operation on slot `i` the receive loop comes to no closing handler of it. -/
theorem rx_quiet_fin {l : RxPc} {i : Slot} {x : TCB} {H : Hist}
    {pc : (τ : Tid) → PcOf τ} (hq : ∀ op, (rxSection s ok l).op ≠ some (i,op)) :
    RxFin i x H pc (rxSection s ok l).next := by
  have hgo := rx_goes s ok l
  generalize hn : (rxSection s ok l).next = l' at hgo
  cases hgo with
  | dispatch t hd payload _ hdis =>
    have hne : t.slot ≠ i := fun h => hq _ (by rw [rxSection,h])
    cases hdis with
    | finWait1 | finWait2 | closing => exact fun ht => absurd ht hne
    | _ => trivial
  | _ => trivial

section Step

variable {i : Slot} {σ : Sys} {e : Ev} {τ : Tid} {f : Effect (PcOf τ)} {op : TcbOp}

/-- A thread that is not inside `tcpClose` and does not start it. -/
theorem closes_next (he : e.effect σ.1 = some ⟨τ,f⟩)
    (hout : ∀ p, τ = .proc p → ProcPc.closes i (σ.1.pc (.proc p)) = false)
    (hmark : f.op ≠ some (i,.closeMark)) (p : ProcSlot) :
    ProcPc.closes i (update σ.1.pc τ f.next (.proc p)) =
      ProcPc.closes i (σ.1.pc (.proc p)) := by
  by_cases hτ : τ = .proc p
  · subst hτ
    have hp := hout p rfl
    rw [update_self,hp]
    rcases effect_proc he with ⟨c,-,-,rfl⟩ | ⟨ok,-,rfl⟩
    · exact sysEntry_closes _ _ _ _
    · by_contra hc
      rcases proc_next_closes (by simpa using hc) with hop | ⟨t,c,hl,ht,-⟩
      · exact hmark hop
      · rw [hl] at hp
        simp [ProcPc.closes,ht] at hp
  · rw [update_of_ne (Ne.symm hτ)]

/-- Such a thread does not come to the last section of `tcpClose` either. -/
theorem commit_next (he : e.effect σ.1 = some ⟨τ,f⟩)
    (hout : ∀ p, τ = .proc p → ProcPc.closes i (σ.1.pc (.proc p)) = false)
    (hmark : f.op ≠ some (i,.closeMark))
    (hp : update σ.1.pc τ f.next (.proc p) = ProcPc.closeCommit t c) (ht : t.slot = i) :
    σ.1.pc (.proc p) = ProcPc.closeCommit t c := by
  have hcl := closes_next he hout hmark p
  by_cases hτ : τ = .proc p
  · subst hτ
    rw [hp,hout p rfl] at hcl
    simp [ProcPc.closes,ht] at hcl
  · rwa [update_of_ne (Ne.symm hτ)] at hp

/-- Quiet steps: nobody operates on the slot. -/
theorem FinInv.quiet (h : FinInv i (σ.tcb i) σ.2 σ.1.pc) (he : e.effect σ.1 = some ⟨τ,f⟩)
    (hq : ∀ op, f.op ≠ some (i,op)) :
    FinInv i (σ.tcb i) σ.2 (update σ.1.pc τ f.next) := by
  have hout : ∀ p, τ = .proc p → ProcPc.closes i (σ.1.pc (.proc p)) = false := by
    rintro p rfl
    rcases effect_proc he with ⟨c,-,hidle,-⟩ | ⟨ok,-,rfl⟩
    · rw [hidle]
      rfl
    · by_contra hc
      obtain ⟨op,hop⟩ := closes_op (s := σ.1.shared) (p := p) (by simpa using hc)
      exact hq op hop
  have hcl := closes_next he hout (hq _)
  refine h.keep hcl (fun p t c hp ht => .inl (commit_next he hout (hq _) hp ht)) (fun _ => rfl) rfl
    (fun _ hs => hs) (fun _ ha => ha) (fun _ hx => .inl hx) ?_
  by_cases hτ : τ = .rx
  · subst hτ
    rcases effect_rx he with ⟨hdr,hd,payload,-,-,rfl⟩ | ⟨ok,-,rfl⟩
    · trivial
    · exact rx_quiet_fin hq
  · rw [update_of_ne (Ne.symm hτ)]
    exact h.rx.keep hcl (fun _ => rfl) rfl (fun _ hs => hs) (fun _ ha => ha) fun hx => hx

theorem rxFin_of_not_handles {x : TCB} {H : Hist} {pc : (τ : Tid) → PcOf τ} {l : RxPc}
    (h : l.handlesFin i = false) : RxFin i x H pc l := by
  cases l with
  | finWait1 | finWait2 | closing => exact fun ht => by simp [RxPc.handlesFin,ht] at h
  | _ => trivial

/-- An open starts a history in which nothing was closed. -/
theorem FinInv.opened (he : e.effect σ.1 = some ⟨τ,f⟩) (hop : f.op = some (i,op))
    (ho : op.opens = true) (hG : finOrdered i σ e = true) {x : TCB} :
    FinInv i x (σ.2.after (σ.tcb i) op) (update σ.1.pc τ f.next) := by
  have hguard : σ.1.closing i = false ∧ RxPc.handlesFin i (σ.1.pc .rx) = false := by
    have hG := (and_eq_true_iff.mp hG).1
    rw [Sys.opOn_eq he hop] at hG
    cases op with
    | passiveInit | activeInit => simpa using hG
    | _ => cases ho
  have hno : ∀ p, ProcPc.closes i (σ.1.pc (.proc p)) = false := by
    intro p
    by_contra hc
    have hcl : Closing i σ.1.pc := ⟨p,by simpa using hc⟩
    rw [← Kernel.closing_iff,hguard.1] at hcl
    cases hcl
  have hmark : f.op ≠ some (i,.closeMark) := by
    rw [hop]
    rintro h
    cases h
    cases ho
  have hcl := closes_next he (fun p _ => hno p) hmark
  have hfresh : (σ.2.after (σ.tcb i) op).closeMarked = false := by
    cases op <;> first | rfl | cases ho
  have hnone : ¬Closing i (update σ.1.pc τ f.next) := by
    rintro ⟨p,hp⟩
    rw [hcl p,hno p] at hp
    cases hp
  refine ⟨?_,?_,fun hc => absurd hc hnone,?_,?_,?_⟩
  · intro hm
    rw [hfresh] at hm
    cases hm
  · intro p q hp
    exact absurd ⟨p,hp⟩ hnone
  · intro p t c hp ht
    exact absurd ⟨p,by rw [hp]; simp [ProcPc.closes,ht]⟩ hnone
  · intro hm
    rw [hfresh] at hm
    cases hm
  · by_cases hτ : τ = .rx
    · subst hτ
      obtain ⟨ok,-,rfl,hd⟩ := does_of_op he hop
      revert hd
      generalize σ.1.pc .rx = l
      intro hd
      cases hd with
      | openInit => trivial
      | _ => cases ho
    · rw [update_of_ne (Ne.symm hτ)]
      exact rxFin_of_not_handles hguard.2

/-- `tcpClose` changes the state. -/
theorem FinInv.mark (h : FinInv i (σ.tcb i) σ.2 σ.1.pc) (he : e.effect σ.1 = some ⟨τ,f⟩)
    (hop : f.op = some (i,.closeMark)) (hG : finOrdered i σ e = true) :
    FinInv i (TcbOp.closeMark.run now (σ.tcb i)) (σ.2.after (σ.tcb i) .closeMark)
      (update σ.1.pc τ f.next) := by
  have hno : ¬Closing i σ.1.pc := by
    have hG := (and_eq_true_iff.mp hG).1
    rw [Sys.opOn_eq he hop] at hG
    intro hc
    rw [Kernel.closing_iff.mpr hc] at hG
    cases hG
  obtain ⟨ok,-,rfl,hd⟩ := does_of_op he hop
  obtain ⟨p,t,c,y,rfl,hpc,rfl,hy⟩ : ∃ p t c y, τ = .proc p ∧
      HEq (σ.1.pc τ) (ProcPc.closeMark t c) ∧ t.slot = i ∧ tcpCloseMark (σ.tcb i) = some y := by
    revert hd
    generalize σ.1.pc τ = l
    intro hd
    cases hd with
    | closeMark p t c y hy => exact ⟨p,t,c,y,rfl,HEq.rfl,rfl,hy⟩
  have hpc := eq_of_heq hpc
  have hnext : (threadSection σ.1.shared ok (.proc p) (σ.1.pc (.proc p))).next =
      ProcPc.closeSend t c := by
    rw [hpc]
    simp only [threadSection,procSection]
    rw [show tcpCloseMark (σ.1.shared.tcb t.slot) = some y from hy]
  rw [hnext]
  have hother {q : ProcSlot} (hq : q ≠ p) : update σ.1.pc (.proc p)
      (ProcPc.closeSend t c) (.proc q) = σ.1.pc (.proc q) :=
    update_of_ne (fun h => hq (Tid.proc.inj h)) _ _
  have honly {q : ProcSlot} (hq : ProcPc.closes t.slot (update σ.1.pc (.proc p)
      (ProcPc.closeSend t c) (.proc q)) = true) : q = p := by
    by_contra hne
    rw [hother hne] at hq
    exact hno ⟨q,hq⟩
  have hmove : (σ.tcb t.slot).state.closable = true ∧
      (TcbOp.closeMark.run now (σ.tcb t.slot)).state.finAcked = false := by
    rw [TcbOp.run,hy]
    rw [tcpCloseMark] at hy
    split at hy
    · rename_i hst
      cases hy
      exact ⟨by rw [hst]; rfl,rfl⟩
    · rename_i hst
      cases hy
      exact ⟨by rw [hst]; rfl,rfl⟩
    · cases hy
  refine ⟨fun _ => .inl ⟨p,?_⟩,fun q r hq hr => (honly hq).trans (honly hr).symm,fun _ => rfl,
    ?_,?_,?_⟩
  · simp [ProcPc.closes]
  · intro q u d hq hu
    have hqp := honly (q := q) (by rw [hq]; simp [ProcPc.closes,hu])
    subst hqp
    rw [update_self] at hq
    cases hq
  · intro _ hx
    rw [hmove.2] at hx
    cases hx
  · rw [update_of_ne (by simp)]
    have hrx := h.rx
    revert hrx
    generalize σ.1.pc .rx = l
    intro hrx
    cases l with
    | finWait1 | closing => exact hrx
    | finWait2 u hd payload =>
      intro hu
      have := (hrx hu).1
      rw [hmove.1] at this
      cases this
    | _ => trivial

/-- `tcpClose` transmits the FIN. -/
theorem FinInv.sendFin (h : FinInv i (σ.tcb i) σ.2 σ.1.pc)
    (hpc : σ.1.pc (.proc p) = ProcPc.closeSend t c)
    {x : TCB} (hx : ∃ w, x = { σ.tcb i with lastAdvWin := w }) :
    FinInv i x (σ.2.after (σ.tcb i)
        (.send σ.1.shared.ourIP true (tcpFlagFIN ||| tcpFlagACK) [] []))
      (update σ.1.pc (.proc p) (ProcPc.closeCommit t c)) := by
  obtain ⟨w,rfl⟩ := hx
  obtain ⟨seg,hseg⟩ := Option.isSome_iff_exists.mp
    (bareSegment_isSome σ.1.shared.ourIP (σ.tcb i) (tcpFlagFIN ||| tcpFlagACK))
  obtain ⟨hseq,-,hflags,-⟩ := tcpSendSegment_snd hseg
  have hfin : (σ.2.after (σ.tcb i) (.send σ.1.shared.ourIP true (tcpFlagFIN ||| tcpFlagACK) []
      [])).FinSent (σ.tcb i).sndNxt := by
    refine ⟨seg,List.mem_append_right _ ?_,?_,hseq⟩
    · rw [hseg]
      exact List.mem_singleton.mpr rfl
    · rw [hflags]
      decide
  have hcl : ∀ q, ProcPc.closes i (update σ.1.pc (.proc p) (ProcPc.closeCommit t c)
      (.proc q)) = ProcPc.closes i (σ.1.pc (.proc q)) := by
    intro q
    by_cases hq : q = p
    · subst hq
      rw [update_self,hpc]
      rfl
    · rw [update_of_ne fun h => hq (Tid.proc.inj h)]
  obtain ⟨hs,ha,hm⟩ := σ.2.after_mono (σ.tcb i)
    (.send σ.1.shared.ourIP true (tcpFlagFIN ||| tcpFlagACK) [] []) rfl
  refine h.keep hcl (fun q u d _ _ => .inr hfin) (fun _ => rfl) rfl hs ha (fun _ hx => .inl hx) ?_
  exact h.rx.keep hcl (fun _ => rfl) rfl hs ha fun hx => hx

/-- `tcpClose` advances `sndNxt` over the FIN. -/
theorem FinInv.commit (h : FinInv i (σ.tcb i) σ.2 σ.1.pc)
    (hpc : σ.1.pc (.proc p) = ProcPc.closeCommit t c) (ht : t.slot = i)
    (hl : l.closes i = false) :
    FinInv i (TcbOp.closeCommit.run now (σ.tcb i)) (σ.2.after (σ.tcb i) .closeCommit)
      (update σ.1.pc (.proc p) l) := by
  have hclosing : Closing i σ.1.pc := ⟨p,by rw [hpc]; simp [ProcPc.closes,ht]⟩
  have hmarked := h.closing hclosing
  obtain ⟨g,-,hg⟩ := tcpCloseCommit_shape now (σ.tcb i)
  have hnone : ¬Closing i (update σ.1.pc (.proc p) l) := by
    rintro ⟨q,hq⟩
    by_cases hqp : q = p
    · subst hqp
      rw [update_self,hl] at hq
      cases hq
    · rw [update_of_ne fun h => hqp (Tid.proc.inj h)] at hq
      exact hqp (h.once q p hq (by rw [hpc]; simp [ProcPc.closes,ht]))
  rw [TcbOp.run,hg]
  refine ⟨fun _ => .inr ⟨_,h.sent p t c hpc ht,rfl⟩,fun q r hq => absurd ⟨q,hq⟩ hnone,
    fun hc => absurd hc hnone,?_,?_,?_⟩
  · intro q u d hq hu
    exact absurd ⟨q,by rw [hq]; simp [ProcPc.closes,hu]⟩ hnone
  · intro _ hx
    exact absurd hclosing (h.acked hmarked hx).1
  · rw [update_of_ne (by simp)]
    have hrx := h.rx
    revert hrx
    generalize σ.1.pc .rx = r
    intro hrx
    cases r with
    | finWait1 | closing => exact hrx
    | finWait2 u hd payload => exact fun hu => absurd hclosing ((hrx hu).2 hmarked).1
    | _ => trivial

/-- A closed connection's `sndNxt` stays. -/
theorem sndNxt_kept (hon : σ.opOn i e = some op) (ho : op.opens = false)
    (hc : op ≠ .closeCommit) (hG : finOrdered i σ e = true) (hm : σ.2.closeMarked = true) :
    (op.run now (σ.tcb i)).sndNxt = (σ.tcb i).sndNxt := by
  have hG := (and_eq_true_iff.mp hG).1
  rw [hon] at hG
  cases hs : op.shifts with
  | false => exact (op.run_frame now _).sndNxt ho hs
  | true =>
    cases op with
    | closeCommit => exact absurd rfl hc
    | rtoBegin =>
      refine tcpRTOFireBegin_sndNxt _ ?_
      simpa [hm] using hG
    | synRollback | synRestore | drainCommit | echoDataCommit | echoFinCommit | rtoRestore =>
      simp [hm] at hG
    | _ => cases hs

/-- The operations that lead to FIN_WAIT_2 or TIME_WAIT. -/
inductive EntersFin (x : TCB) : TcbOp → Prop where
  | finWait1 (h payload) (hack : hasFlag h.flags tcpFlagACK = true ∧ h.ack = x.sndNxt) :
    EntersFin x (.finWait1 h payload)
  | closing (h) (hack : hasFlag h.flags tcpFlagACK = true ∧ h.ack = x.sndNxt) :
    EntersFin x (.closing h)
  | finWait2 (h payload) : EntersFin x (.finWait2 h payload)

theorem entersFin_of_run {x : TCB}
    (hx : (op.run now x).state.finAcked = true) : x.state.finAcked = true ∨ EntersFin x op := by
  rcases TcbOp.run_state now x op with hst | hst
  · exact .inl (hst ▸ hx)
  have hrun := hx
  revert hx hst
  generalize (op.run now x).state = st'
  intro hx hst
  cases st' <;> cases hx
  all_goals
    cases op with
    | finWait1 h payload => exact (finWait1_acked hrun).imp_right (.finWait1 h payload)
    | closing h => exact (closing_acked _ hrun).imp_right (.closing h)
    | finWait2 h payload => exact .inr (.finWait2 h payload)
    | closeMark => simp [TcbOp.leads_closeMark] at hst
    | _ => cases hst

/-- Where the receive loop is when it runs a closing handler. -/
theorem RxFin.of_does {x : TCB} {H : Hist} {pc : (τ : Tid) → PcOf τ}
    (hrx : RxFin i x H pc (pc .rx)) (hd : Does s ok τ (pc τ) i op) :
    (∀ h payload, op = .finWait1 h payload → h ∈ H.arrived) ∧
    (∀ h, op = .closing h → h ∈ H.arrived) ∧
    ∀ h payload, op = .finWait2 h payload → H.closeMarked = true →
      ¬Closing i pc ∧ FinAcked x H := by
  refine ⟨fun h payload he => ?_,fun h he => ?_,fun h payload he => ?_⟩
  all_goals
    subst he
    generalize hl : pc τ = l at hd
    cases hd
    rw [hl] at hrx
  · exact hrx rfl
  · exact hrx rfl
  · exact (hrx rfl).2

/-- A closed connection comes to FIN_WAIT_2 or TIME_WAIT by an ACK of its FIN. -/
theorem FinInv.enters (h : FinInv i (σ.tcb i) σ.2 σ.1.pc) (he : e.effect σ.1 = some ⟨τ,f⟩)
    (hop : f.op = some (i,op)) (hG : finOrdered i σ e = true) (hm : σ.2.closeMarked = true)
    (hx : (op.run now (σ.tcb i)).state.finAcked = true) :
    (σ.tcb i).state.finAcked = true ∨ ¬Closing i σ.1.pc ∧ FinAcked (σ.tcb i) σ.2 := by
  have hgate := (and_eq_true_iff.mp hG).1
  rw [Sys.opOn_eq he hop] at hgate
  -- an ACK of `sndNxt` handled while nobody is inside `tcpClose`
  have hfin {hd : TCPHeader} (hno : (!σ.1.closing i) = true) (hmem : hd ∈ σ.2.arrived)
      (hack : hasFlag hd.flags tcpFlagACK = true ∧ hd.ack = (σ.tcb i).sndNxt) :
      ¬Closing i σ.1.pc ∧ FinAcked (σ.tcb i) σ.2 := by
    have hnc : ¬Closing i σ.1.pc := by
      intro hc
      rw [Kernel.closing_iff.mpr hc] at hno
      cases hno
    obtain ⟨g,hg,hgx⟩ := (h.marked hm).resolve_left hnc
    exact ⟨hnc,g,hg,hgx,hd,hmem,hack⟩
  obtain ⟨ok,-,rfl,hd⟩ := does_of_op he hop
  obtain ⟨hfw1,hclosing,hfw2⟩ := h.rx.of_does hd
  refine (entersFin_of_run hx).imp_right fun henter => ?_
  cases henter with
  | finWait1 hdr payload hack => exact hfin hgate (hfw1 hdr payload rfl) hack
  | closing hdr hack => exact hfin hgate (hclosing hdr rfl) hack
  | finWait2 hdr payload => exact hfw2 hdr payload rfl hm

/-- The receive loop after an operation on the slot. -/
theorem FinInv.rxNext (h : FinInv i (σ.tcb i) σ.2 σ.1.pc)
    (hop : (rxSection σ.1.shared ok (σ.1.pc .rx)).op = some (i,op)) {x : TCB}
    (hx : x = op.run now (σ.tcb i)) {pc' : (τ : Tid) → PcOf τ}
    (hcl : ∀ p, ProcPc.closes i (pc' (.proc p)) = ProcPc.closes i (σ.1.pc (.proc p))) :
    RxFin i x (σ.2.after (σ.tcb i) op) pc' (rxSection σ.1.shared ok (σ.1.pc .rx)).next := by
  have hgo := rx_goes σ.1.shared ok (σ.1.pc .rx)
  generalize hn : (rxSection σ.1.shared ok (σ.1.pc .rx)).next = l' at hgo
  generalize σ.1.pc .rx = l at hop hgo
  cases hgo with
  | dispatch t hd payload _ hdis =>
    cases rx_does hop
    have hmem : hd ∈ (σ.2.after (σ.tcb t.slot) (.dispatch hd)).arrived :=
      List.mem_append_right _ (List.mem_singleton.mpr rfl)
    have hx' : x = σ.tcb t.slot := hx
    cases hdis with
    | finWait1 | closing => exact fun _ => hmem
    | finWait2 hst =>
      have hst : (σ.tcb t.slot).state = .finWait2 := hst
      intro _
      rw [hx',hst]
      refine ⟨rfl,fun hm => ?_⟩
      obtain ⟨hno,hacked⟩ := h.acked hm (by rw [hst]; rfl)
      exact ⟨fun hc => hno ((closing_congr hcl).mp hc),
        hacked.keep rfl (fun _ hs => hs) (List.subset_append_left _ _)⟩
    | _ => trivial
  | _ => trivial

/-- Only the receive loop brings a connection to ESTABLISHED or CLOSE_WAIT. -/
theorem closable_run {l : PcOf τ} (hd : Does s ok τ l i op)
    (hτ : τ ≠ .rx) {x : TCB} (hx : (op.run now x).state.closable = true) :
    x.state.closable = true := by
  rcases op.run_state now x with hst | hst
  · exact hst ▸ hx
  revert hx hst
  generalize (op.run now x).state = st'
  intro hx hst
  cases st' <;> cases hx
  all_goals
    cases op with
    | synSentAck | synReceivedAck | established =>
      cases hd
      exact absurd rfl hτ
    | closeMark => simp [TcbOp.leads_closeMark] at hst
    | _ => cases hst

/-- Step lemma: operations on the slot. -/
theorem FinInv.operate (h : FinInv i (σ.tcb i) σ.2 σ.1.pc) (hG : finOrdered i σ e = true)
    (he : e.effect σ.1 = some ⟨τ,f⟩) (hop : f.op = some (i,op)) :
    FinInv i (op.run σ.1.shared.pitTicks (σ.tcb i)) (σ.2.after (σ.tcb i) op)
      (update σ.1.pc τ f.next) := by
  cases ho : op.opens with
  | true => exact .opened he hop ho hG
  | false =>
    by_cases hmark : op = .closeMark
    · subst hmark
      exact h.mark he hop hG
    · by_cases hin : ∃ p, τ = .proc p ∧ ProcPc.closes i (σ.1.pc (.proc p)) = true
      · -- the mover is inside `tcpClose`
        obtain ⟨p,rfl,hcl⟩ := hin
        obtain ⟨ok,hrun,rfl,hd⟩ := does_of_op he hop
        cases hpc : (σ.1.pc (.proc p) : ProcPc) with
        | closeSend t c =>
          have ht : t.slot = i := by simpa [hpc,ProcPc.closes] using hcl
          have hok : ok = true := by
            have hG := (and_eq_true_iff.mp hG).2
            simpa [hrun,hpc,ht] using hG
          subst hok
          have hsome := bareSegment_isSome σ.1.shared.ourIP (σ.1.shared.tcb t.slot)
            (tcpFlagFIN ||| tcpFlagACK)
          rw [hpc] at hop
          have hopeq : op = .send σ.1.shared.ourIP true (tcpFlagFIN ||| tcpFlagACK) [] [] := by
            simp only [threadSection,procSection,hsome,if_true,Option.some.injEq,
              Prod.mk.injEq] at hop
            exact hop.2.symm
          rw [hopeq]
          exact h.sendFin hpc (tcpSendSegment_fst _ _ _ _ _ _)
        | closeCommit t c =>
          have ht : t.slot = i := by simpa [hpc,ProcPc.closes] using hcl
          rw [hpc] at hop
          have hopeq : op = .closeCommit := by
            simp only [threadSection,procSection,Option.some.injEq,Prod.mk.injEq] at hop
            exact hop.2.symm
          rw [hopeq]
          refine h.commit hpc ht ?_
          exact afterClose_closes ..
        | _ =>
          rw [hpc] at hcl
          cases hcl
      · have hout : ∀ p, τ = .proc p → ProcPc.closes i (σ.1.pc (.proc p)) = false := by
          intro p hp
          by_contra hc
          exact hin ⟨p,hp,by simpa using hc⟩
        have hne : f.op ≠ some (i,.closeMark) := by
          rw [hop]
          intro heq
          exact hmark (Prod.mk.inj (Option.some.inj heq)).2
        obtain ⟨ok,hrun,hf,hd⟩ := does_of_op he hop
        have hcommit : op ≠ .closeCommit := by
          rintro rfl
          revert hd hout
          generalize hl : σ.1.pc τ = l
          intro hout hd
          cases hd with
          | closeCommit p t c =>
            have := hout p rfl
            rw [hl] at this
            simp [ProcPc.closes] at this
        have hcl := closes_next he hout hne
        obtain ⟨hs,ha,hm⟩ := σ.2.after_mono (σ.tcb i) op ho
        have hnxt (hc : σ.2.closeMarked = true) :
            (op.run σ.1.shared.pitTicks (σ.tcb i)).sndNxt = (σ.tcb i).sndNxt :=
          sndNxt_kept (Sys.opOn_eq he hop) ho hcommit hG hc
        refine h.keep hcl (fun p t c hp ht => .inl (commit_next he hout hne hp ht)) hnxt (hm hmark)
          hs ha (fun hc hx => h.enters he hop hG hc hx) ?_
        by_cases hτ : τ = .rx
        · subst hτ
          subst hf
          exact h.rxNext hop rfl hcl
        · rw [update_of_ne (Ne.symm hτ)]
          exact h.rx.keep hcl hnxt (hm hmark) hs ha (closable_run hd hτ)

end Step

/-! ## Soundness -/

theorem finInv_boot (i : Slot) : FinInv i (Sys.boot.tcb i) Sys.boot.2 Sys.boot.1.pc where
  marked h := by cases h
  once p q h := by cases h
  closing h := by obtain ⟨p,hp⟩ := h; cases hp
  sent p t c h := by cases h
  acked h := by cases h
  rx := trivial

theorem finInv_run (i : Slot) {es : List Ev}
    (hm : Trace.Meets (Sys.step i) (fun σ e => finOrdered i σ e = true) .boot es) :
    FinInv i ((exec (Sys.step i) .boot es).tcb i) (exec (Sys.step i) .boot es).2
      (exec (Sys.step i) .boot es).1.pc := by
  refine slotInv_run ?_ ?_ (finInv_boot i) hm
  · intro σ e τ f op h hG he hop
    exact h.operate hG he hop
  · intro σ e τ f h _ he hq
    exact h.quiet he hq

theorem seqLT_succ (f : UInt32) : seqLT f (f+1) = true := by
  simp only [seqLT]
  have h : f-(f+1) = 0xFFFFFFFF := by grind
  rw [h]
  decide

theorem seqLE_self (a : UInt32) : seqLE a a = true := by
  simp only [seqLE,sub_self]
  decide

/-- In every run in which the events come in order with `tcpClose`: a closed connection is in
FIN_WAIT_2 or TIME_WAIT only after its FIN was transmitted and an ACK that covers it arrived,
and the segment that frees it from LAST_ACK carries such an ACK. -/
theorem fin_ack_sound (i : Slot) (es : List Ev) (e : Ev)
    (hm : Trace.Meets (Sys.step i) (fun σ e => finOrdered i σ e = true) .boot (es++[e])) :
    let σ := exec (Sys.step i) .boot es
    let σ' := (Sys.step i σ e).1
    σ'.2.closeMarked = true →
    ((σ'.tcb i).state = .finWait2 ∨ (σ'.tcb i).state = .timeWait →
      ∃ f, σ'.2.FinSent f ∧ ∃ h ∈ σ'.2.arrived, hasFlag h.flags tcpFlagACK = true ∧
        seqLT f h.ack = true ∧ seqLE h.ack (σ'.tcb i).sndNxt = true) ∧
    (∀ t h payload ok, σ.1.pc .rx = RxPc.dispatch t h payload → t.slot = i → e = .run .rx ok →
      (σ.tcb i).state = .lastAck → hasFlag h.flags tcpFlagRST = false →
      (rxSection σ.1.shared ok (σ.1.pc .rx)).next = .free t →
      ∃ f, σ.2.FinSent f ∧ hasFlag h.flags tcpFlagACK = true ∧
        seqLT f h.ack = true ∧ seqLE h.ack (σ.tcb i).sndNxt = true) := by
  intro σ σ' hmarked
  obtain ⟨hes,hG,-⟩ := Trace.meets_append.mp hm
  have hinv := finInv_run i hes
  have hinv' := finInv_run i hm
  rw [Trace.exec_append] at hinv'
  refine ⟨fun hst => ?_,?_⟩
  · have hacked : (σ'.tcb i).state.finAcked = true := by
      rcases hst with hst | hst <;> (rw [hst]; rfl)
    obtain ⟨-,f,hf,hfx,h,hmem,hack,heq⟩ := hinv'.acked hmarked hacked
    refine ⟨f,hf,h,hmem,hack,?_,?_⟩
    · rw [heq,← hfx]
      exact seqLT_succ f
    · rw [heq]
      exact seqLE_self _
  · intro t h payload ok hpc ht he hst hrst hnext
    subst ht
    have hack : hasFlag h.flags tcpFlagACK = true ∧ h.ack = (σ.tcb t.slot).sndNxt := by
      rw [hpc] at hnext
      change tcpDispatchToTCB (σ.tcb t.slot) t h payload = _ at hnext
      simp only [tcpDispatchToTCB,hrst,hst,Bool.false_and,Bool.false_eq_true,if_false] at hnext
      split at hnext
      · rename_i hc
        simpa using hc
      · cases hnext
    have hop : σ.opOn t.slot e = some (.dispatch h) := by
      have hrun : e.effect σ.1 =
          some ⟨.rx,rxSection σ.1.shared ok (.dispatch t h payload)⟩ := by
        rw [he,Ev.effect,hpc]
        rfl
      exact Sys.opOn_eq hrun rfl
    have hsame : σ'.2.closeMarked = σ.2.closeMarked := by
      simp only [σ',Sys.step,hop]
      rfl
    have hnc : ¬Closing t.slot σ.1.pc := by
      have hgate := (and_eq_true_iff.mp hG).1
      intro hc
      have hc' := Kernel.closing_iff.mpr hc
      rw [show (exec (Sys.step t.slot) .boot es) = σ from rfl,hop] at hgate
      simp [hc',hst] at hgate
    obtain ⟨f,hf,hfx⟩ := (hinv.marked (hsame ▸ hmarked)).resolve_left hnc
    refine ⟨f,hf,hack.1,?_,?_⟩
    · rw [hack.2,← hfx]
      exact seqLT_succ f
    · rw [hack.2]
      exact seqLE_self _

/-- A client connects, closes, and the peer acknowledges the FIN. -/
def closeAcked : List Ev :=
  clientHandshake++.sys 0 (.close 3) :: runs (.proc 0) 3++
    fromPeer 1001 2 tcpFlagACK [] :: runs .rx 2

theorem fin_ack_sound_client :
    let σ := (Sys.step 0 (exec (Sys.step 0) .boot closeAcked) (.run .rx true)).1
    (σ.tcb 0).state = .finWait2 ∧
      ∃ f, σ.2.FinSent f ∧ ∃ h ∈ σ.2.arrived, hasFlag h.flags tcpFlagACK = true ∧
        seqLT f h.ack = true ∧ seqLE h.ack (σ.tcb 0).sndNxt = true :=
  ⟨by decide +kernel,(fin_ack_sound 0 closeAcked (.run .rx true) (by decide +kernel)
    (by decide +kernel)).1 (.inl (by decide +kernel))⟩

/-- The transmission of the FIN fails; the peer then repeats its last ACK. -/
def finLost : List Ev :=
  clientHandshake++[.sys 0 (.close 3),.run (.proc 0) true,.run (.proc 0) false]++
    fromPeer 1001 1 tcpFlagACK [] :: runs .rx 3

/-- The connection is in FIN_WAIT_2, and no FIN was ever transmitted. -/
theorem fin_wait_2_without_fin :
    let σ := exec (Sys.step 0) .boot finLost
    σ.2.closeMarked = true ∧ (σ.tcb 0).state = .finWait2 ∧
      (σ.2.sent.all fun seg => !hasFlag seg.flags tcpFlagFIN) = true := by
  decide +kernel

end Gooos
