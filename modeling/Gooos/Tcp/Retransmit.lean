import Mathlib
import Gooos.Tcp.RetxQueue

/-!
# Retransmissions

What `tcpRTOFire` puts on the wire for the descriptor at the head of `retxQ`. The segment is
rebuilt from the descriptor and the TCB: a SYN goes out again as it was, data does not.
-/

namespace Gooos

open Interleave
open Trace (exec outs)

/-! ## The descriptors of a queue -/

/-- ACK processing only shortens the queue from its head. -/
theorem tcpAckUpdate_suffix (now : UInt64) (x : TCB) (h : TCPHeader) :
    (tcpAckUpdate now x h).1.retxQ.contents <:+ x.retxQ.contents := by
  rw [tcpAckUpdate]
  split
  · exact List.suffix_refl _
  · split
    · exact List.suffix_refl _
    · rw [(windowUpdate_retx now _ h).2.1]
      split
      · obtain ⟨y,hy,-,hq,-⟩ := ackAdvance_shape now x h.ack
        rw [hy,(rearmRTO_kept now y).retxQ,hq]
        exact List.dropWhile_suffix _
      · exact List.suffix_refl _

theorem dupAckSection_retxQ (x : TCB) : (dupAckSection x).retxQ = x.retxQ := by
  simp only [dupAckSection,tcpCCOnDupAck]
  split <;> rfl

theorem synAcked_suffix (now : UInt64) (y : TCB) (ack : UInt32) :
    (synAcked now y ack).retxQ.contents <:+ y.retxQ.contents := by
  obtain ⟨z,hz,-,hq,-⟩ := synAcked_shape now y ack
  rw [hz,(rearmRTO_kept now z).retxQ,hq]
  exact List.dropWhile_suffix _

variable {op : TcbOp} {x : TCB} {now : UInt64}

theorem acks_suffix (ha : op.acks = true) (now : UInt64) (x : TCB) :
    (op.run now x).retxQ.contents <:+ x.retxQ.contents := by
  rcases TcbOp.acks_cases ha with ⟨h,rfl | rfl⟩ | ⟨h,hh⟩
  · exact synAcked_suffix now _ _
  · exact synAcked_suffix now _ _
  · obtain ⟨y,z,hy,hstep,hz⟩ := handler_ack hh now x
    rw [hz.retxQ,← hy.retxQ]
    cases hstep with
    | skip => exact List.suffix_refl _
    | update => exact tcpAckUpdate_suffix now y h
    | dup n hd => rw [dupAckSection_retxQ]

/-- What a retransmission reads of a descriptor. -/
def TcpRetxEntry.shape (d : TcpRetxEntry) : UInt32 × UInt32 × UInt8 := (d.seq,d.endSeq,d.flags)

theorem mem_retxPush {e d : TcpRetxEntry} (h : d ∈ (retxPush x e).1.retxQ.contents) :
    d ∈ x.retxQ.contents ∨ d = e := by
  by_cases hl : x.retxQ.contents.length < 64
  · obtain ⟨q,hq,hp⟩ := retxPush_of_lt x e hl
    rw [hp] at h
    rw [hq] at h
    simpa using h
  · rw [retxPush_of_full x e hl] at h
    exact .inl h

/-- Where the descriptors after an operation come from. -/
theorem entry_origin {d : TcpRetxEntry} (h : d ∈ (op.run now x).retxQ.contents) :
    (∃ d' ∈ x.retxQ.contents, d'.shape = d.shape) ∨
    (∃ orig flags ok, op = .synRestore orig flags ok ∧ d.shape = (x.iss,x.iss+1,flags)) ∨
    op = .closeCommit ∧ d.flags = tcpFlagFIN ||| tcpFlagACK ∨
    (∃ dr, op = .drainCommit dr) ∧ d.flags = tcpFlagACK ||| tcpFlagPSH := by
  by_cases ha : op.acks = true
  · exact .inl ⟨d,(acks_suffix ha now x).subset h,rfl⟩
  by_cases hq : op.queues = true
  · cases op with
    | synRestore orig flags ok =>
      simp only [TcbOp.run,synRestore] at h
      split at h
      · rcases mem_retxPush h with h | rfl
        · exact .inl ⟨d,h,rfl⟩
        · exact .inr (.inl ⟨_,_,_,rfl,rfl⟩)
      · exact .inl ⟨d,h,rfl⟩
    | closeCommit =>
      rcases mem_retxPush h with h | rfl
      · exact .inl ⟨d,h,rfl⟩
      · exact .inr (.inr (.inl ⟨rfl,rfl⟩))
    | drainCommit dr =>
      rcases mem_retxPush h with h | rfl
      · exact .inl ⟨d,h,rfl⟩
      · exact .inr (.inr (.inr ⟨⟨_,rfl⟩,rfl⟩))
    | rtoBegin =>
      left
      simp only [TcbOp.run,tcpRTOFireBegin] at h
      split at h
      · exact ⟨d,h,rfl⟩
      · split at h
        · exact ⟨d,h,rfl⟩
        · split at h
          · cases h
          · split at h
            · exact ⟨d,h,rfl⟩
            · rename_i head hhead
              obtain ⟨ys,hys⟩ := List.head?_eq_some_iff.mp hhead
              have hd : d ∈ (x.retxQ.setHead { head with
                  xmitCount := head.xmitCount+1, sentTicks := now }).contents := by
                revert h
                rw [rtoBackoff]
                split_ifs <;> exact fun h => h
              rw [RingQueue.contents_setHead _ _ _ _ hys] at hd
              rcases List.mem_cons.mp hd with rfl | hd
              · exact ⟨head,by rw [hys]; exact List.mem_cons_self,rfl⟩
              · exact ⟨d,by rw [hys]; exact List.mem_cons_of_mem _ hd,rfl⟩
    | _ => cases hq
  · rw [((op.run_frame now x).retx (by simpa using ha) (by simpa using hq)).1] at h
    exact .inl ⟨d,h,rfl⟩

/-- The descriptor of a SYN covers one sequence number. -/
def TcpRetxEntry.SynOk (d : TcpRetxEntry) : Prop :=
  hasFlag d.flags tcpFlagSYN = true → d.endSeq = d.seq+1 ∧
    (d.flags = tcpFlagSYN ∨ d.flags = tcpFlagSYN ||| tcpFlagACK)

theorem synOk_of_shape {d d' : TcpRetxEntry} (h : d'.SynOk) (hs : d'.shape = d.shape) : d.SynOk := by
  simp only [TcpRetxEntry.shape,Prod.mk.injEq] at hs
  obtain ⟨h1,h2,h3⟩ := hs
  simpa only [TcpRetxEntry.SynOk,h1,h2,h3] using h

theorem synOk_operate {k : Kernel} {e : Ev} {τ : Tid} {f : Effect (PcOf τ)} {i : Slot}
    (h : ∀ d ∈ (k.shared.tcb i).retxQ.contents, d.SynOk) (he : e.effect k = some ⟨τ,f⟩)
    (hop : f.op = some (i,op)) :
    ∀ d ∈ (op.run k.shared.pitTicks (k.shared.tcb i)).retxQ.contents, d.SynOk := by
  intro d hd
  rcases entry_origin hd with ⟨d',hd',hs⟩ | ⟨orig,flags,ok,rfl,hs⟩ | ⟨rfl,hf⟩ | ⟨⟨dr,rfl⟩,hf⟩
  · exact synOk_of_shape (h d' hd') hs
  · have hflags : flags = tcpFlagSYN ∨ flags = tcpFlagSYN ||| tcpFlagACK := by
      obtain ⟨_,-,-,hdo⟩ := does_of_op he hop
      generalize k.pc τ = l at hdo
      cases hdo with
      | openRestore => exact .inr rfl
      | connRestore => exact .inl rfl
    simp only [TcpRetxEntry.shape,Prod.mk.injEq] at hs
    obtain ⟨h1,h2,h3⟩ := hs
    intro _
    rw [h1,h2,h3]
    exact ⟨rfl,hflags⟩
  · intro hsyn
    rw [hf] at hsyn
    cases hsyn
  · intro hsyn
    rw [hf] at hsyn
    cases hsyn

/-- In every reachable state the SYN descriptors are those of an open. -/
theorem synOk_run (i : Slot) (es : List Ev) :
    ∀ d ∈ ((exec Kernel.step .boot es).shared.tcb i).retxQ.contents, d.SynOk := by
  refine tcbInv_run (I := fun x => ∀ d ∈ x.retxQ.contents, d.SynOk) ?_ ?_ es
  · intro k e τ f op h he hop
    exact synOk_operate h he hop
  · intro d hd
    cases hd

/-! ## One firing of the timer -/

/-- `tcpRTOFire` has to retransmit descriptor `d` now. -/
def RtoDue (now : UInt64) (x : TCB) (d : TcpRetxEntry) : Prop :=
  x.active = true ∧ x.rtoDeadline ≠ 0 ∧ x.rtoDeadline ≤ now ∧
    x.xmitCountHead < tcpMaxRetransmits ∧ retxHead x = some d

instance (now : UInt64) (x : TCB) (d : TcpRetxEntry) : Decidable (RtoDue now x d) :=
  inferInstanceAs (Decidable (_ ∧ _))

theorem RtoDue.begin {d : TcpRetxEntry} (h : RtoDue now x d) :
    tcpRTOFireBegin now x = (if hasFlag d.flags tcpFlagSYN
      then { rtoBackoff now d x with sndNxt := d.seq } else rtoBackoff now d x,
      .resend d.flags x.sndNxt) := by
  obtain ⟨hact,hdl,hdue,hcount,hhead⟩ := h
  have hlt : ¬now < x.rtoDeadline := UInt64.not_lt.mpr hdue
  have hmax : ¬tcpMaxRetransmits ≤ x.xmitCountHead := UInt8.not_le.mpr hcount
  obtain ⟨g,-,hg⟩ := rtoBackoff_shape now d x
  have hnxt : (rtoBackoff now d x).sndNxt = x.sndNxt := by rw [hg]; rfl
  rw [tcpRTOFireBegin,if_neg (by simp [hact,hdl]),if_neg hlt,if_neg hmax,hhead]
  simp only [hnxt]

/-- The segment rebuilt for a SYN in the state that goes with its descriptor. -/
theorem RtoDue.rebuild {d : TcpRetxEntry} (h : RtoDue now x d)
    (hd : d.SynOk) (hsyn : hasFlag d.flags tcpFlagSYN = true)
    (hst : hasFlag d.flags tcpFlagACK = true ↔ x.state = .synReceived) :
    (tcpRTOFireBegin now x).1.sndNxt = d.seq ∧ rtoSegment d.flags (tcpRTOFireBegin now x).1 =
      some (d.flags,tcpBuildMSSOption (tcpRTOFireBegin now x).1.mssLocal) := by
  obtain ⟨g,-,hg⟩ := rtoBackoff_shape now d x
  rw [h.begin]
  simp only [hsyn,if_true]
  refine ⟨trivial,?_⟩
  have hstate : (rtoBackoff now d x).state = x.state := by rw [hg]; rfl
  simp only [rtoSegment,hsyn,if_true,hstate]
  rcases (hd hsyn).2 with hfl | hfl
  · rw [hfl] at hst ⊢
    rw [if_neg fun hs => absurd (hst.mpr hs) (by decide)]
  · rw [hfl] at hst ⊢
    rw [if_pos (hst.mp (by decide))]

/-- A segment with an MSS option and no payload goes out when `ipv4Send` succeeds. -/
theorem synSegment (ourIP : UInt32) (x : TCB) (flags : UInt8) (mss : UInt16) :
    ∃ seg, (tcpSendSegment ourIP true x flags (tcpBuildMSSOption mss) []).2 = some seg := by
  have hlen : (tcpBuildMSSOption mss).length = 4 := rfl
  rw [tcpSendSegment,if_neg (by simp [hlen])]
  exact ⟨_,rfl⟩

/-- The scanner comes to `tcpRTOFire` of slot `i`, which it selected. -/
def ScanPc.firing (i : Slot) : ScanPc → Bool
  | .rto j f => j == i && f.rto i
  | _ => false

theorem ScanPc.firing_iff {i : Slot} {l : ScanPc} :
    l.firing i = true ↔ ∃ f, l = .rto i f ∧ f.rto i = true := by
  constructor
  · intro h
    cases l with
    | rto j f =>
      simp only [firing,Bool.and_eq_true,beq_iff_eq] at h
      obtain ⟨rfl,hf⟩ := h
      exact ⟨f,rfl,hf⟩
    | _ => cases h
  · rintro ⟨f,rfl,hf⟩
    simp [firing,hf]

section Fire

variable {k : Kernel} {i : Slot} {f : FireSet} {d : TcpRetxEntry}

/-- The section of the scanner that takes the head of the queue. -/
theorem RtoDue.step (h : RtoDue k.shared.pitTicks (k.shared.tcb i) d)
    (hpc : k.pc .scan = ScanPc.rto i f) (hf : f.rto i = true) : ∃ s : Shared,
    k.step (.run .scan true) =
      (k.move .scan s (ScanPc.rtoSend i f d.flags (k.shared.tcb i).sndNxt),[.rtoFired i]) ∧
    s.tcb i = (tcpRTOFireBegin k.shared.pitTicks (k.shared.tcb i)).1 ∧ s.ourIP = k.shared.ourIP := by
  have hfire := h.begin
  refine ⟨k.shared.apply (scanSection k.shared true (.rto i f)),?_,?_,rfl⟩
  · have heff : (Ev.run .scan true).effect k =
        some ⟨.scan,scanSection k.shared true (.rto i f)⟩ := by
      rw [Ev.effect,hpc]
      rfl
    rw [Kernel.step,heff]
    simp only [scanSection,if_pos hf,hfire]
    rfl
  · have hop : (scanSection k.shared true (.rto i f)).op = some (i,.rtoBegin) := by
      simp only [scanSection,if_pos hf]
    exact apply_tcb_of_op hop

/-- What the scanner sends for descriptor `d` right after. -/
theorem rtoSend_step {saved : UInt32} (hpc : k.pc .scan = ScanPc.rtoSend i f d.flags saved) :
    (k.step (.run .scan true)).2 = (rtoSegment d.flags (k.shared.tcb i)).elim [] fun w =>
      sentObs i (tcpSendSegment k.shared.ourIP true (k.shared.tcb i) w.1 w.2 []).2 := by
  have heff : (Ev.run .scan true).effect k =
      some ⟨.scan,scanSection k.shared true (.rtoSend i f d.flags saved)⟩ := by
    rw [Ev.effect,hpc]
    rfl
  rw [Kernel.step,heff]
  simp only [scanSection]
  split
  · rename_i flags options hseg
    rw [hseg]
    rfl
  · rename_i hseg
    rw [hseg]
    rfl

end Fire

/-- `tcpRTOFire` on the head of the queue, in every reachable state. The descriptor of a SYN
or SYN|ACK, in the state that goes with it, puts exactly one segment on the wire: at the
descriptor's sequence number, as long as the descriptor says, with its flags and no payload.
The descriptor of data puts nothing on the wire. -/
theorem rto_resends_syn (i : Slot) (es : List Ev) (d : TcpRetxEntry) :
    let k := exec Kernel.step .boot es
    let x := k.shared.tcb i
    ScanPc.firing i (k.pc .scan) = true → RtoDue k.shared.pitTicks x d →
    (hasFlag d.flags tcpFlagSYN = true →
      (hasFlag d.flags tcpFlagACK = true ↔ x.state = .synReceived) →
      ∃ seg, outs Kernel.step k (runs .scan 2) = [.rtoFired i,.sent i seg] ∧
        seg.seq = d.seq ∧ segLen seg.flags seg.payload.length = d.endSeq-d.seq ∧
        seg.flags = d.flags ∧ seg.payload = []) ∧
    (hasFlag d.flags tcpFlagSYN = false → hasFlag d.flags tcpFlagFIN = false →
      outs Kernel.step k (runs .scan 2) = [.rtoFired i]) := by
  intro k x hfire hdue
  obtain ⟨f,hpc,hf⟩ := ScanPc.firing_iff.mp hfire
  obtain ⟨s,hstep,htcb,-⟩ := hdue.step hpc hf
  have htcb : s.tcb i = (tcpRTOFireBegin k.shared.pitTicks x).1 := htcb
  have houts : outs Kernel.step k (runs .scan 2) = [.rtoFired i]++
      (rtoSegment d.flags (s.tcb i)).elim [] fun w =>
        sentObs i (tcpSendSegment s.ourIP true (s.tcb i) w.1 w.2 []).2 := by
    have hsend := rtoSend_step (k := k.move .scan s
      (ScanPc.rtoSend i f d.flags (k.shared.tcb i).sndNxt)) (i := i) (f := f) (d := d)
      (Conf.move_pc_self ..)
    rw [Conf.move_shared] at hsend
    simp only [runs,List.replicate,outs,hstep,hsend,List.append_nil]
  rw [houts,htcb]
  refine ⟨fun hsyn hack => ?_,fun hsyn hfin => ?_⟩
  · have hmem : d ∈ x.retxQ.contents := by
      obtain ⟨ys,hys⟩ := List.head?_eq_some_iff.mp hdue.2.2.2.2
      rw [hys]
      exact List.mem_cons_self
    have hd := synOk_run i es d hmem
    obtain ⟨hlen,hflags⟩ := hd hsyn
    obtain ⟨hnxt,hre⟩ := hdue.rebuild hd hsyn hack
    obtain ⟨seg,hseg⟩ := synSegment s.ourIP (tcpRTOFireBegin k.shared.pitTicks x).1 d.flags
      (tcpRTOFireBegin k.shared.pitTicks x).1.mssLocal
    obtain ⟨hseq,-,hsf,-,hpay⟩ := tcpSendSegment_snd hseg
    refine ⟨seg,?_,hseq.trans hnxt,?_,hsf,hpay⟩
    · rw [hre]
      simp only [Option.elim,hseg]
      rfl
    · have hone : d.endSeq-d.seq = 1 := by
        grind
      rw [hone,hsf,hpay]
      rcases hflags with hfl | hfl <;> (rw [hfl]; decide)
  · rw [rtoSegment]
    simp [hsyn,hfin]

/-- A second of ticks, after which the scanner comes to the head of slot 0. -/
def secondPasses : List Ev := List.replicate 100 .tick++[.scan,.run .scan true]

/-- The peer does not answer a SYN. -/
def synUnanswered : List Ev :=
  [.sys 0 .socket,.sys 0 (.connect 3 peerIP 80 0)]++runs (.proc 0) 6++secondPasses

theorem rto_resends_syn_unanswered :
    let k := exec Kernel.step .boot synUnanswered
    ∃ seg, outs Kernel.step k (runs .scan 2) = [.rtoFired 0,.sent 0 seg] ∧
      seg.seq = 0 ∧ segLen seg.flags seg.payload.length = 1 ∧ seg.flags = tcpFlagSYN ∧
      seg.payload = [] :=
  (rto_resends_syn 0 synUnanswered ⟨0,1,tcpFlagSYN,0,0,0,0⟩ (by decide +kernel)
    (by decide +kernel)).1 (by decide) (by decide +kernel)

/-- Three bytes of data are not acknowledged. -/
def dataUnanswered : List Ev := clientHandshake++clientSend [1,2,3]++secondPasses

/-- The timer fires on the descriptor of the data, and nothing is sent. -/
theorem rto_sends_no_data :
    let k := exec Kernel.step .boot dataUnanswered
    RtoDue k.shared.pitTicks (k.shared.tcb 0) ⟨1,4,tcpFlagACK ||| tcpFlagPSH,0,3,0,0⟩ ∧
      outs Kernel.step k (runs .scan 2) = [.rtoFired 0] := by
  decide +kernel

end Gooos
