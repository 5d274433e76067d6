import Mathlib
import Gooos.Tcp.SendWindow
import Gooos.Tcp.ReceiveStream

/-!
# The FIN comes behind the data

`tcpClose` sends its FIN wherever `sndNxt` stands and never looks at `txBuf`. The numbers up
to `sndNxt` were transmitted with the bytes of the stream, so a FIN sent when `sndNxt` has
reached the end of `txBuf` comes behind the last byte.
-/

namespace Gooos

open Interleave Function
open Bool (and_eq_true)
open Trace (Meets exec)

/-- Byte `j` of the stream was transmitted at its number. -/
def ByteSent (x : TCB) (H : Hist) (j : ℕ) : Prop :=
  ∃ seg ∈ H.sent, ∃ k < seg.payload.length, seg.seq+UInt32.ofNat k = x.iss+1+UInt32.ofNat j ∧
    seg.payload[k]? = H.accepted[j]?

instance (x : TCB) (H : Hist) (j : ℕ) : Decidable (ByteSent x H j) :=
  inferInstanceAs (Decidable (∃ seg ∈ H.sent, ∃ k < seg.payload.length, _ ∧ _))

/-- A FIN was transmitted. -/
def Hist.finSent (H : Hist) : Bool := H.sent.any fun seg => hasFlag seg.flags tcpFlagFIN

/-! ## The condition on runs -/

/-- The operation comes in its place: SYNs and their ACKs during the handshake, with `sndNxt`
behind the SYN; the other handlers after it; data is accounted for where it was cut and the
FIN of `tcpClose` after its transmission; the echo server stays away. -/
def TcbOp.inPlace (x : TCB) (H : Hist) : TcbOp → Bool
  | .synSentAck _ | .synReceivedAck _ => x.state.synPhase && x.sndNxt == x.iss+1
  | .established .. | .finWait1 .. | .finWait2 .. | .closing _ => x.state.synchronized
  | .drainCommit d => x.sndNxt == d.seq
  | .closeCommit => H.finSent
  | .echoDataCommit _ | .echoFinCommit => false
  | op => !op.rewinds x || x.state.synPhase

/-- The step keeps the data of slot `i` aligned and its operation comes in its place; a new
connection finds all data accounted for. -/
def dataPlaced (i : Slot) (σ : Sys) (e : Ev) : Bool :=
  sendAligned i σ e && match σ.opOn i e with
  | some op => op.inPlace (σ.tcb i) σ.2 && (!op.opens || !σ.1.uncommitted i)
  | none => true

/-- `tcpClose` transmits the first FIN of slot `i`, on an open connection, when all of `txBuf`
is accounted for. -/
def closesDrained (i : Slot) (σ : Sys) (e : Ev) : Bool :=
  match e with
  | .run (.proc p) _ => match σ.1.pc (.proc p) with
    | .closeSend t _ => t.slot != i || ((σ.tcb i).state.synchronized && !σ.2.finSent &&
      (σ.tcb i).sndNxt == (σ.tcb i).iss+1+UInt32.ofNat (σ.tcb i).txBuf.rbLen)
    | _ => true
  | _ => true

/-! ## The outline -/

/-- The connection is past its handshake and its FIN is not out. -/
def Filling (x : TCB) (H : Hist) : Prop := x.state.synchronized = true ∧ H.finSent = false

/-- The number of byte `j` was transmitted. -/
def Covered (x : TCB) (H : Hist) (j : ℕ) : Prop :=
  ∃ seg ∈ H.sent, Circle.dist seg.seq (x.iss+1+UInt32.ofNat j) < seg.payload.length

/-- Bytes behind the SYN up to `sndNxt`. -/
def TCB.passed (x : TCB) : ℕ := Circle.dist (x.iss+1) x.sndNxt

/-- What is about to be accounted for was transmitted. -/
def drainLoc (i : Slot) : (τ : Tid) → PcOf τ → TCB × Hist → Prop
  | .proc _, ProcPc.drainCommit t _ d, (_,H) =>
    t.slot = i → ∃ seg ∈ H.sent, seg.seq = d.seq ∧ seg.payload = d.bytes
  | _, _, _ => True

/-- The send stream is right, and the numbers up to `sndNxt` were transmitted. -/
def drainOutline (i : Slot) : SlotOutline where
  glob w := (sendOutline i).glob w ∧ (Filling w.1 w.2 → ∀ j < w.1.passed, Covered w.1 w.2 j)
  loc τ l w := (sendOutline i).loc τ l w ∧ drainLoc i τ l w

theorem drainOutline_send {i : Slot} {σ : Sys} (h : (drainOutline i).At i σ) :
    (sendOutline i).At i σ := ⟨h.1.1,fun τ => (h.2 τ).1⟩

variable {op : TcbOp} {x y : TCB} {H : Hist} {d : Drain}

/-- Bytes of the stream do not run over its end. -/
theorem CarriesStream.within {iss seq : UInt32} {stream bytes : List UInt8}
    (h : CarriesStream iss stream seq bytes) (hpos : 0 < bytes.length)
    (hs : stream.length < 2^32) : Circle.dist (iss+1) seq+bytes.length ≤ stream.length := by
  have hin (j : ℕ) (hj : j < bytes.length) :
      Circle.dist (iss+1) (seq+UInt32.ofNat j) < stream.length := by
    have hbyte := h j hj
    rw [List.getElem?_eq_getElem hj] at hbyte
    exact (List.getElem?_eq_some_iff.mp hbyte).1
  have hfirst := hin 0 hpos
  rw [show seq+UInt32.ofNat 0 = seq from UInt32.add_zero seq] at hfirst
  by_contra hlt
  have hend := hin (stream.length-Circle.dist (iss+1) seq) (by omega)
  have hleg : Circle.dist seq (seq+UInt32.ofNat (stream.length-Circle.dist (iss+1) seq)) =
      stream.length-Circle.dist (iss+1) seq := by
    rw [Circle.dist_add_right,UInt32.toNat_ofNat_of_lt' (by simp [UInt32.size]; omega)]
  rw [Circle.dist_trans (b := seq) (by omega),hleg] at hend
  omega

/-! ## One operation -/

theorem finSent_after (ho : op.opens = false) (h : (H.after x op).finSent = false) :
    H.finSent = false := by
  rw [Hist.finSent,List.any_eq_false] at *
  exact fun seg hseg => h seg ((H.after_mono x op ho).1 hseg)

theorem Covered.after {j : ℕ} (h : Covered x H j) (ho : op.opens = false) (hiss : y.iss = x.iss) :
    Covered y (H.after x op) j := by
  obtain ⟨seg,hseg,hlt⟩ := h
  exact ⟨seg,(H.after_mono x op ho).1 hseg,by rw [hiss]; exact hlt⟩

theorem drainLoc_mono {i : Slot} {τ : Tid} {l : PcOf τ} {H' : Hist} (hs : H.sent ⊆ H'.sent)
    (h : drainLoc i τ l (x,H)) : drainLoc i τ l (y,H') := by
  cases τ with
  | proc p =>
    cases l with
    | drainCommit t n d =>
      intro ht
      obtain ⟨seg,hseg,hd⟩ := h ht
      exact ⟨seg,hs hseg,hd⟩
    | _ => trivial
  | _ => trivial

/-- The ACK of our SYN. -/
def TcbOp.acksSyn : TcbOp → Bool
  | .synSentAck _ => true
  | .synReceivedAck _ => true
  | _ => false

/-- A connection past its handshake was so before, or comes out of it. -/
theorem synchronized_before (now : UInt64) (hin : op.inPlace x H = true)
    (hst : (op.run now x).state.synchronized = true) :
    x.state.synchronized = true ∨ op.acksSyn = true := by
  rcases op.run_state now x with hsame | hleads
  · exact .inl (hsame ▸ hst)
  · revert hst hleads
    generalize (op.run now x).state = st'
    intro hst hleads
    cases op with
    | synSentAck | synReceivedAck => exact .inr rfl
    | established | finWait1 | finWait2 | closing => exact .inl hin
    | closeMark =>
      obtain ⟨hst,-⟩ | ⟨hst,-⟩ := TcbOp.leads_closeMark.mp hleads
      · exact .inl (by rw [hst]; rfl)
      · exact .inl (by rw [hst]; rfl)
    | echoFinCommit => cases hin
    | _ => cases st' <;> first | cases hst; done | cases hleads

/-- The next number of a connection that fills its stream moves with the data. -/
theorem sndNxt_filling (now : UInt64) (ho : op.opens = false) (hin : op.inPlace x H = true)
    (hfill : Filling x H) : (op.run now x).sndNxt = x.sndNxt ∨ ∃ d, op = .drainCommit d ∧
      x.sndNxt = d.seq ∧ (op.run now x).sndNxt = x.sndNxt+UInt32.ofNat d.bytes.length := by
  have hr : op.rewinds x = false := by
    by_contra hrew
    rw [Bool.not_eq_false] at hrew
    have hsyn : x.state.synPhase = true := by
      cases op with
      | synRollback | synRestore | rtoRestore => exact hin
      | rtoBegin =>
        change (!TcbOp.rtoBegin.rewinds x || _) = true at hin
        rwa [hrew] at hin
      | _ => cases hrew
    have hsync := hfill.1
    revert hsyn hsync
    cases x.state <;> exact nofun
  have hnxt := op.run_sndNxt now ho hr
  cases op with
  | drainCommit d => exact .inr ⟨d,rfl,by simpa [TcbOp.inPlace] using hin,hnxt⟩
  | closeCommit =>
    rw [TcbOp.inPlace,hfill.2] at hin
    cases hin
  | echoDataCommit | echoFinCommit => cases hin
  | _ => exact .inl (hnxt.trans (UInt32.add_zero _))

/-- A segment accounted for where it was sent covers the numbers it adds. -/
theorem covered_commit {stream : List UInt8} {seg : Segment} (hlen : stream.length < 2^32)
    (hok : CarriesStream x.iss stream seg.seq seg.payload) (hseq : x.sndNxt = seg.seq)
    (hiss : y.iss = x.iss) (hnxt : y.sndNxt = x.sndNxt+UInt32.ofNat seg.payload.length) {j : ℕ}
    (hj : j < y.passed) :
    j < x.passed ∨ Circle.dist seg.seq (x.iss+1+UInt32.ofNat j) < seg.payload.length := by
  rw [TCB.passed,hiss,hnxt] at hj
  by_cases hpos : 0 < seg.payload.length
  · have hin := hok.within hpos hlen
    by_cases hold : j < x.passed
    · exact .inl hold
    rw [TCB.passed,hseq] at hold
    have hadd := Circle.dist_add_le (x.iss+1) x.sndNxt seg.payload.length
    rw [hseq] at hadd hj
    have hj' : Circle.dist (x.iss+1) (x.iss+1+UInt32.ofNat j) = j := by
      rw [Circle.dist_add_right,UInt32.toNat_ofNat_of_lt' (by simp [UInt32.size]; omega)]
    have hsplit := Circle.dist_split (a := x.iss+1) (b := seg.seq)
      (c := x.iss+1+UInt32.ofNat j) (by omega)
    exact .inr (by omega)
  · rw [show seg.payload.length = 0 by omega,show UInt32.ofNat 0 = 0 from rfl,
      UInt32.add_zero] at hj
    exact .inl hj

section Step

variable {i : Slot} {σ : Sys} {e : Ev} {τ : Tid} {f : Effect (PcOf τ)}

theorem dataPlaced_op (hG : dataPlaced i σ e = true) (hop : σ.opOn i e = some op) :
    op.inPlace (σ.tcb i) σ.2 = true ∧ (op.opens = true → σ.1.uncommitted i = false) := by
  simp only [dataPlaced,hop,and_eq_true,Bool.or_eq_true,Bool.not_eq_true'] at hG
  exact ⟨hG.2.1,fun ho => by simpa [ho] using hG.2.2⟩

theorem accepted_lt (h : (sendOutline i).At i σ) : σ.2.accepted.length < 2^32 := by
  have hcap := (σ.tcb i).txBuf.rbLen_le
  rw [(σ.tcb i).txBuf.rbLen_eq,h.1.1,tcpRxBufSize] at hcap
  omega

/-- The numbers up to `sndNxt` stay covered. -/
theorem covered_op (hA : (drainOutline i).At i σ) (hG : dataPlaced i σ e = true)
    (he : e.effect σ.1 = some ⟨τ,f⟩) (hop : f.op = some (i,op)) (ho : op.opens = false)
    (hfill : Filling (op.run σ.1.shared.pitTicks (σ.tcb i)) (σ.2.after (σ.tcb i) op)) {j : ℕ}
    (hj : j < (op.run σ.1.shared.pitTicks (σ.tcb i)).passed) :
    Covered (op.run σ.1.shared.pitTicks (σ.tcb i)) (σ.2.after (σ.tcb i) op) j := by
  have hfr := op.run_frame σ.1.shared.pitTicks (σ.tcb i)
  obtain ⟨hin,-⟩ := dataPlaced_op hG (Sys.opOn_eq he hop)
  rcases synchronized_before _ hin hfill.1 with hsync | hsyn
  · have hx : Filling (σ.tcb i) σ.2 := ⟨hsync,finSent_after ho hfill.2⟩
    refine Covered.after ?_ ho (hfr.iss ho)
    rcases sndNxt_filling σ.1.shared.pitTicks ho hin hx with hsame | ⟨d,rfl,hcut,hmove⟩
    · rw [TCB.passed,hfr.iss ho,hsame] at hj
      exact hA.1.2 hx j hj
    · -- the segment was transmitted where `sndNxt` still stands
      obtain ⟨seg,hseg,hseq,hpay⟩ : ∃ seg ∈ σ.2.sent, seg.seq = d.seq ∧ seg.payload = d.bytes := by
        obtain ⟨ok,rfl,rfl,hdo⟩ := does_of_op he hop
        have hloc := (hA.2 τ).2
        generalize σ.1.pc τ = l at hdo hloc
        cases hdo with
        | drainCommit => exact hloc rfl
      rcases covered_commit (accepted_lt (drainOutline_send hA)) (hA.1.1.2 seg hseg)
        (hcut.trans hseq.symm) (hfr.iss ho) (by rw [hmove,hpay]) hj with hold | hnew
      · exact hA.1.2 hx j hold
      · exact ⟨seg,hseg,hnew⟩
  · have hnxt : (σ.tcb i).sndNxt = (σ.tcb i).iss+1 ∧ op.shifts = false := by
      cases op with
      | synSentAck | synReceivedAck =>
        simp only [TcbOp.inPlace,and_eq_true,beq_iff_eq] at hin
        exact ⟨hin.2,rfl⟩
      | _ => cases hsyn
    rw [TCB.passed,hfr.iss ho,hfr.sndNxt ho hnxt.2,hnxt.1,Circle.dist_self] at hj
    exact absurd hj (Nat.not_lt_zero j)

/-- What a process accounts for next it has just transmitted. -/
theorem drainLoc_next {H' : Hist} (hG : dataPlaced i σ e = true) (he : e.effect σ.1 = some ⟨τ,f⟩)
    (hop : ∀ op, f.op = some (i,op) → H' = σ.2.after (σ.tcb i) op) :
    drainLoc i τ f.next (y,H') := by
  cases τ with
  | proc p =>
    cases hl : (f.next : ProcPc) with
    | drainCommit t n d =>
      rintro rfl
      rcases effect_proc he with ⟨c,-,-,rfl⟩ | ⟨ok,rfl,rfl⟩
      · have hent := sysEntry_next σ.1.shared p c
        rw [hl] at hent
        cases hent
      · obtain ⟨hpc,seg,hseg⟩ : σ.1.pc (.proc p) = .drainSend t n d ∧ ∃ seg,
            (tcpSendSegment σ.1.shared.ourIP ok (σ.tcb t.slot) (tcpFlagACK ||| tcpFlagPSH) []
              d.bytes).2 = some seg := by
          have hgo := proc_goes σ.1.shared ok p (σ.1.pc (.proc p))
          rw [hl] at hgo
          generalize hpc : σ.1.pc (.proc p) = l at hgo hl
          cases hgo with
          | drainSend =>
            refine ⟨rfl,Option.ne_none_iff_exists'.mp fun hnone => ?_⟩
            rw [Sys.tcb] at hnone
            simp [procSection,hnone] at hl
          | closeSkip _ _ _ _ hr | closeFail _ _ _ hr | closeCommit _ _ _ hr => cases hr
        rw [hop _ (by rw [hpc,procSection])]
        obtain ⟨hseq,-,-,-,hpay⟩ := tcpSendSegment_snd hseg
        refine ⟨seg,List.mem_append_right _ (Option.mem_toList.mpr hseg),?_,hpay⟩
        simp only [dataPlaced,sendAligned,hpc,and_eq_true,bne_self_eq_false,Bool.false_or,
          beq_iff_eq] at hG
        rw [hseq,hG.1.2]
    | _ => trivial
  | _ => trivial

/-- An operation on the slot keeps the outline. -/
theorem drain_op (hA : (drainOutline i).At i σ) (hG : dataPlaced i σ e = true)
    (he : e.effect σ.1 = some ⟨τ,f⟩) (hop : f.op = some (i,op)) :
    (drainOutline i).glob (op.run σ.1.shared.pitTicks (σ.tcb i),σ.2.after (σ.tcb i) op) ∧
    (drainOutline i).loc τ f.next (op.run σ.1.shared.pitTicks (σ.tcb i),σ.2.after (σ.tcb i) op) ∧
    ∀ τ', τ' ≠ τ → (drainOutline i).loc τ' (σ.1.pc τ') (σ.tcb i,σ.2) →
      (drainOutline i).loc τ' (σ.1.pc τ')
        (op.run σ.1.shared.pitTicks (σ.tcb i),σ.2.after (σ.tcb i) op) := by
  obtain ⟨hglob,hloc,hstable⟩ := send_op (drainOutline_send hA) (Bool.and_eq_true_iff.mp hG).1 he hop
  have hnext := drainLoc_next (y := op.run σ.1.shared.pitTicks (σ.tcb i)) hG he fun op' hop' => by
    rw [hop] at hop'
    cases hop'
    rfl
  refine ⟨⟨hglob,fun hfill j hj => ?_⟩,⟨hloc,hnext⟩,fun τ' hτ h => ⟨hstable τ' hτ h.1,?_⟩⟩
  · cases ho : op.opens with
    | true =>
      have hst := hfill.1
      cases op with
      | passiveInit | activeInit => cases hst
      | _ => cases ho
    | false => exact covered_op hA hG he hop ho hfill hj
  · cases ho : op.opens with
    | true =>
      -- no other process has data to account for
      have hfree := (dataPlaced_op hG (Sys.opOn_eq he hop)).2 ho
      cases τ' with
      | proc p =>
        cases hl : (σ.1.pc (.proc p) : ProcPc) with
        | drainCommit t n d =>
          intro ht
          have howes : Owes σ.1 i d.bytes.length (.proc p) := .drain p t n d hl ht rfl
          rw [howes.uncommitted] at hfree
          cases hfree
        | _ => trivial
      | _ => trivial
    | false => exact drainLoc_mono (σ.2.after_mono (σ.tcb i) op ho).1 h.2

end Step

/-! ## Every run -/

section Run

variable {i : Slot} {es : List Ev}

theorem drainOutline_run
    (h : Meets (Sys.step i) (fun σ e => dataPlaced i σ e = true) .boot es) :
    (drainOutline i).At i (exec (Sys.step i) .boot es) := by
  have hboot : (drainOutline i).At i .boot := by
    refine ⟨⟨(@sendOutline_run i [] trivial).1,fun hfill => ?_⟩,fun τ => ?_⟩
    · cases hfill.1
    · cases τ <;> exact ⟨trivial,trivial⟩
  refine SlotOutline.run (fun _ _ _ _ _ hA hG he hop => drain_op hA hG he hop) ?_ hboot h
  intro σ e τ f hA hG he hq
  exact ⟨send_quiet (drainOutline_send hA) (Bool.and_eq_true_iff.mp hG).1 he hq,
    drainLoc_next hG he fun op hop => absurd hop (hq op)⟩

/-- A number that was transmitted carried its byte. -/
theorem byteSent_of_covered {σ : Sys} {j : ℕ} (hok : SendStreamOk i σ)
    (h : Covered (σ.tcb i) σ.2 j) (hj : j < 2^32) : ByteSent (σ.tcb i) σ.2 j := by
  obtain ⟨seg,hseg,hlt⟩ := h
  have hnum : seg.seq+UInt32.ofNat (Circle.dist seg.seq ((σ.tcb i).iss+1+UInt32.ofNat j)) =
      (σ.tcb i).iss+1+UInt32.ofNat j := by
    rw [Circle.dist,UInt32.ofNat_toNat]
    grind
  refine ⟨seg,hseg,_,hlt,hnum,?_⟩
  have hc := hok seg hseg _ hlt
  rw [hnum,Circle.dist_add_right,UInt32.toNat_ofNat_of_lt' (by simpa [UInt32.size] using hj)] at hc
  exact hc.symm

end Run

/-- `tcpClose` sends its FIN behind the bytes `sys_tcp_send` took, all of them transmitted. -/
def FinBehindData (i : Slot) (es : List Ev) : Prop :=
  ∀ es₀ p ok t c seg, es₀++[.run (.proc p) ok] <+: es →
    let σ := exec (Sys.step i) .boot es₀
    σ.1.pc (.proc p) = ProcPc.closeSend t c → t.slot = i →
    σ.sends i (.run (.proc p) ok) = some seg →
    seg.seq = (σ.tcb i).iss+1+UInt32.ofNat σ.2.accepted.length ∧
      ∀ j < σ.2.accepted.length, ByteSent (σ.tcb i) σ.2 j

/-- In every run whose steps keep the data of slot `i` aligned and in its place, and whose FINs
are sent when all of `txBuf` is accounted for, each FIN comes behind the last byte. -/
theorem fin_behind_data (i : Slot) (es : List Ev)
    (h : Meets (Sys.step i)
      (fun σ e => dataPlaced i σ e = true ∧ closesDrained i σ e = true) .boot es) :
    FinBehindData i es := by
  intro es₀ p ok t c seg hes σ hpc ht hseg
  obtain ⟨rest,rfl⟩ := hes
  obtain ⟨hm,_⟩ := Trace.meets_append.mp h
  obtain ⟨hm,hlast,_⟩ := Trace.meets_append.mp hm
  change dataPlaced i σ _ = true ∧ closesDrained i σ _ = true at hlast
  have hA : (drainOutline i).At i σ := drainOutline_run (hm.mono fun _ _ hG => hG.1)
  have hclose := hlast.2
  simp only [closesDrained,hpc,ht,bne_self_eq_false,Bool.false_or,and_eq_true,
    Bool.not_eq_true',beq_iff_eq] at hclose
  obtain ⟨hfill,hend⟩ := hclose
  rw [(σ.tcb i).txBuf.rbLen_eq,hA.1.1.1] at hend
  obtain ⟨_,_,_,_,_,_,hsend⟩ := Sys.sends_op hseg
  refine ⟨by rw [(tcpSendSegment_snd hsend).1,hend],fun j hj => ?_⟩
  have hlen : σ.2.accepted.length < 2^32 := accepted_lt (drainOutline_send hA)
  have hpassed : (σ.tcb i).passed = σ.2.accepted.length := by
    rw [TCB.passed,hend,Circle.dist_add_right,
      UInt32.toNat_ofNat_of_lt' (by simpa [UInt32.size] using hlen)]
  exact byteSent_of_covered hA.1.1.2 (hA.1.2 hfill j (by rw [hpassed]; exact hj)) (by omega)

/-- A client that sends three bytes and closes. -/
def sendAndClose : List Ev :=
  clientHandshake++clientSend [10,20,30]++.sys 0 (.close 3) :: runs (.proc 0) 2

theorem fin_behind_data_client :
    Meets (Sys.step 0)
      (fun σ e => dataPlaced 0 σ e = true ∧ closesDrained 0 σ e = true) .boot sendAndClose ∧
    FinBehindData 0 sendAndClose :=
  ⟨by decide +kernel,fin_behind_data 0 _ (by decide +kernel)⟩

/-- The handshake of `clientHandshake` with a peer that offers a window of two. -/
def smallHandshake : List Ev :=
  [.sys 0 .socket,.sys 0 (.connect 3 peerIP 80 0)]++runs (.proc 0) 6++
  [.segment ⟨peerIP,ourAddr⟩ ⟨80,tcpEphemeralBase,1000,1,tcpFlagSYN ||| tcpFlagACK,2,[]⟩ []]++
  runs .rx 4++runs (.proc 0) 1

/-- A client that closes with three bytes waiting at a full window. -/
def closeAtFullWindow : List Ev :=
  smallHandshake++clientSend [1,2,3,4,5]++.sys 0 (.close 3) :: runs (.proc 0) 1

/-- Its FIN takes the number of the first byte that waits. -/
theorem fin_before_data : ¬FinBehindData 0 (closeAtFullWindow++[.run (.proc 0) true]) := by
  intro h
  have hfin := h closeAtFullWindow 0 true ⟨0,1⟩ (.closeConn 0)
    ⟨ourAddr,peerIP,tcpEphemeralBase,80,3,1001,tcpFlagFIN ||| tcpFlagACK,8192,[],[]⟩
    (List.prefix_refl _) (by decide +kernel) rfl (by decide +kernel)
  revert hfin
  decide +kernel

end Gooos
