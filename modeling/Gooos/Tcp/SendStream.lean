import Mathlib
import Gooos.Tcp.Inversion

/-!
# The send stream

Byte `k` that `sys_tcp_send` took belongs at sequence number `iss+1+k`. The ring
`txBuf` is never drained, so its offset 0 stays byte 0 of the stream while
`tcpTCBDrainTX` counts offsets from `sndUna`: the two agree only until the first data
byte is acknowledged.
-/

namespace Gooos

open Interleave

/-- The bytes at `seq` are the bytes of the stream that belong there. -/
def CarriesStream (iss : UInt32) (stream : List UInt8) (seq : UInt32) (bytes : List UInt8) : Prop :=
  ∀ j < bytes.length, stream[Circle.dist (iss+1) (seq+UInt32.ofNat j)]? = bytes[j]?

instance (iss : UInt32) (stream : List UInt8) (seq : UInt32) (bytes : List UInt8) :
    Decidable (CarriesStream iss stream seq bytes) :=
  inferInstanceAs (Decidable (∀ j < bytes.length, _))

theorem carriesStream_nil (iss : UInt32) (stream : List UInt8) (seq : UInt32) :
    CarriesStream iss stream seq [] := by
  intro j hj
  simp at hj

/-- Bytes taken later do not disturb what was right. -/
theorem CarriesStream.append {iss seq : UInt32} {stream bytes : List UInt8}
    (h : CarriesStream iss stream seq bytes) (more : List UInt8) :
    CarriesStream iss (stream++more) seq bytes := by
  intro j hj
  have hb := h j hj
  rw [List.getElem?_eq_getElem hj] at hb ⊢
  obtain ⟨hlt,_⟩ := List.getElem?_eq_some_iff.mp hb
  rw [List.getElem?_append_left hlt]
  exact hb

/-- A slice of the stream, at the sequence number of its first byte. -/
theorem carriesStream_slice (iss : UInt32) (stream : List UInt8) {seq : UInt32} {off n : ℕ}
    (hseq : Circle.dist (iss+1) seq = off) (hlen : off+n ≤ stream.length)
    (hs : stream.length < 2^32) : CarriesStream iss stream seq ((stream.drop off).take n) := by
  intro j hj
  have hjn : j < n := by
    simp only [List.length_take,List.length_drop] at hj
    omega
  have hleg : Circle.dist seq (seq+UInt32.ofNat j) = j := by
    rw [Circle.dist_add_right,UInt32.toNat_ofNat_of_lt' (by simp [UInt32.size]; omega)]
  have hdist : Circle.dist (iss+1) (seq+UInt32.ofNat j) = off+j := by
    rw [Circle.dist_trans (b := seq) (by omega),hseq,hleg]
  rw [hdist,List.getElem?_take_of_lt hjn,List.getElem?_drop]

/-- Every payload byte the connection in slot `i` has transmitted is the byte of its
stream that belongs at that sequence number. -/
def SendStreamOk (i : Slot) (σ : Sys) : Prop :=
  ∀ seg ∈ σ.2.sent, CarriesStream (σ.tcb i).iss σ.2.accepted seg.seq seg.payload

instance (i : Slot) (σ : Sys) : Decidable (SendStreamOk i σ) :=
  inferInstanceAs (Decidable (∀ seg ∈ σ.2.sent, _))

/-! ## The condition on runs -/

/-- A data segment or probe of slot `i` is cut but not transmitted yet. -/
def Kernel.cutsData (k : Kernel) (i : Slot) : Bool :=
  (match k.pc .scan with
    | .persistSend j _ _ => j == i
    | _ => false) ||
  (List.finRange 32).any fun p => match k.pc (.proc p) with
    | .drainSend t _ _ => t.slot == i
    | _ => false

/-- The step keeps ring offsets and sequence numbers of slot `i` aligned: an open finds an
empty `txBuf`; data is cut while no data byte is acknowledged and not more is in flight than
is buffered; what was cut is transmitted where it was cut; a probe goes out while nothing
was sent; the echo server does not send. -/
def sendAligned (i : Slot) (σ : Sys) (e : Ev) : Bool :=
  let x := σ.tcb i
  (match σ.opOn i e with
    | some op => !op.opens || (x.txBuf.contents == [] && !σ.1.cutsData i)
    | none => true) &&
  match e with
  | .run (.proc p) _ => match σ.1.pc (.proc p) with
    | .drain t _ => t.slot != i ||
      (x.sndUna == x.iss+1 && decide ((x.sndNxt-x.sndUna).toNat ≤ x.txBuf.rbLen))
    | .drainSend t _ d => t.slot != i || x.sndNxt == d.seq
    | _ => true
  | .run .scan _ => match σ.1.pc .scan with
    | .persistSend j _ _ => j != i || x.sndNxt == x.iss+1
    | _ => true
  | .run .echo _ => match σ.1.pc .echo with
    | .send j _ => j != i
    | _ => true
  | _ => true

/-! ## The outline -/

/-- What is cut and waits for its transmission. -/
def sendLoc (i : Slot) : (τ : Tid) → PcOf τ → TCB × Hist → Prop
  | .proc _, ProcPc.drainSend t _ d, (x,H) =>
    t.slot = i → CarriesStream x.iss H.accepted d.seq d.bytes
  | .scan, ScanPc.persistSend j _ probe, (x,H) =>
    j = i → CarriesStream x.iss H.accepted (x.iss+1) probe
  | _, _, _ => True

/-- `txBuf` holds the whole stream, and every segment agrees with it. -/
def sendOutline (i : Slot) : SlotOutline where
  glob := fun (x,H) => x.txBuf.contents = H.accepted ∧
    ∀ seg ∈ H.sent, CarriesStream x.iss H.accepted seg.seq seg.payload
  loc := sendLoc i

/-- Without a transmission of slot `i` at hand its assertions are void. -/
theorem sendLoc_of_not_cuts {i : Slot} {k : Kernel} (h : k.cutsData i = false) (τ : Tid)
    (w : TCB × Hist) : sendLoc i τ (k.pc τ) w := by
  obtain ⟨x,H⟩ := w
  simp only [Kernel.cutsData,Bool.or_eq_false_iff,List.any_eq_false,List.mem_finRange,
    true_implies] at h
  obtain ⟨hscan,hproc⟩ := h
  cases τ with
  | rx | echo => trivial
  | scan =>
    cases hl : k.pc .scan with
    | persistSend j f probe =>
      intro hj
      rw [hl] at hscan
      simp [hj] at hscan
    | _ => trivial
  | proc p =>
    cases hl : k.pc (.proc p) with
    | drainSend t n d =>
      intro ht
      have := hproc p
      rw [hl] at this
      simp [ht] at this
    | _ => trivial

/-- The assertions read the TCB's `iss` and the accepted bytes, and survive more of them. -/
theorem sendLoc_mono {i : Slot} {τ : Tid} {l : PcOf τ} {x x' : TCB} {H H' : Hist}
    {more : List UInt8} (hiss : x'.iss = x.iss) (hacc : H'.accepted = H.accepted++more)
    (h : sendLoc i τ l (x,H)) : sendLoc i τ l (x',H') := by
  cases τ with
  | rx | echo => trivial
  | scan =>
    cases l with
    | persistSend j f probe =>
      intro hj
      rw [hiss,hacc]
      exact (h hj).append more
    | _ => trivial
  | proc p =>
    cases l with
    | drainSend t n d =>
      intro ht
      rw [hiss,hacc]
      exact (h ht).append more
    | _ => trivial

/-! ## One step -/

theorem contents_rbWriteEach (r : TcpRingBuf) (bytes : List UInt8)
    (h : bytes.length ≤ r.rbFree) : (rbWriteEach r bytes).contents = r.contents++bytes := by
  induction bytes generalizing r with
  | nil => simp [rbWriteEach]
  | cons b bs ih =>
    simp only [List.length_cons] at h
    have hone : (r.rbWrite [b]).1.contents = r.contents++[b] := by
      rw [TcpRingBuf.contents_rbWrite,TcpRingBuf.rbWrite_snd]
      have hmin : min [b].length r.rbFree = 1 := by simp only [List.length_singleton]; omega
      rw [hmin]
      rfl
    have hfree : bs.length ≤ (r.rbWrite [b]).1.rbFree := by
      rw [TcpRingBuf.rbFree_eq,hone,List.length_append,List.length_singleton]
      rw [TcpRingBuf.rbFree_eq] at h
      omega
    change (rbWriteEach (r.rbWrite [b]).1 bs).contents = _
    rw [ih _ hfree,hone,List.append_assoc]
    rfl

/-- `sys_tcp_send` appends exactly the bytes it reports as taken. -/
theorem contents_enqueue (now : UInt64) (x : TCB) (H : Hist) (buf : List UInt8)
    (h : x.txBuf.contents = H.accepted) :
    ((TcbOp.enqueue buf).run now x).txBuf.contents = (H.after x (.enqueue buf)).accepted := by
  simp only [TcbOp.run,Hist.after,sendEnqueue]
  split
  · simp only [Option.map_some,Option.getD_some]
    rw [contents_rbWriteEach,h]
    simp only [List.length_take]
    omega
  · simp [h]

variable {op : TcbOp} {x : TCB} {d : Drain} {stream : List UInt8}

theorem after_opens (h : op.opens = true) (H : Hist) (x : TCB) :
    (H.after x op).accepted = [] ∧ (H.after x op).sent = [] := by
  cases op <;> first | exact ⟨rfl,rfl⟩ | cases h

theorem after_accepted (h : op.opens = false) (H : Hist) (x : TCB) :
    ∃ more, (H.after x op).accepted = H.accepted++more ∧ (op.isEnqueue = false → more = []) := by
  cases op with
  | enqueue buf => exact ⟨_,rfl,fun h => by cases h⟩
  | passiveInit | activeInit => cases h
  | _ => exact ⟨[],(List.append_nil _).symm,fun _ => rfl⟩

/-- The history of sent segments grows by what a transmission puts on the wire. -/
theorem mem_after_sent (h : op.opens = false) {H : Hist} {seg : Segment}
    (hs : seg ∈ (H.after x op).sent) : seg ∈ H.sent ∨ ∃ ip ok flags options payload,
      op = .send ip ok flags options payload ∧ seg.seq = x.sndNxt ∧ seg.payload = payload ∧
      seg.flags = flags := by
  cases op with
  | send ip ok flags options payload =>
    rcases List.mem_append.mp hs with hold | hnew
    · exact .inl hold
    · rw [Option.mem_toList] at hnew
      obtain ⟨hseq,_,hflags,_,hpay⟩ := tcpSendSegment_snd hnew
      exact .inr ⟨_,_,_,_,_,rfl,hseq,hpay,hflags⟩
  | passiveInit | activeInit => cases h
  | _ => exact .inl hs

/-- What `tcpTCBDrainTX` cuts: the bytes at offset `flight`, at most a segment's worth. -/
theorem drainPeek_spec (h : drainPeek x = some d) :
    x.active = true ∧ x.state = .established ∧ d.seq = x.sndNxt ∧ d.flight = x.sndNxt-x.sndUna ∧
      ∃ n : UInt32, d.bytes = x.txBuf.rbPeek d.flight n ∧ 0 < n ∧ n ≤ 1500 ∧
        n ≤ UInt32.ofNat x.txBuf.rbLen-d.flight := by
  rw [drainPeek] at h
  split at h
  · cases h
  · rename_i hact
    simp only [Bool.or_eq_true,Bool.not_eq_true',bne_iff_ne,ne_eq,not_or,Bool.not_eq_false,
      not_not] at hact
    dsimp only at h
    generalize (if x.cwnd < x.sndWnd then x.cwnd else x.sndWnd) = win at h
    split at h
    · cases h
    · rename_i hwin
      split at h
      · cases h
      · rename_i hq
        cases h
        refine ⟨hact.1,hact.2,rfl,rfl,_,rfl,?_,?_,?_⟩
        · simp only [drainSize]
          generalize UInt32.ofNat x.txBuf.rbLen-(x.sndNxt-x.sndUna) = queued at *
          generalize x.sndNxt-x.sndUna = flight at *
          split_ifs <;> grind
        · simp only [drainSize]
          split_ifs <;> grind
        · simp only [drainSize]
          split_ifs <;> grind

/-- Cut with no more in flight than is buffered, the bytes are buffered bytes. -/
theorem drainPeek_within (h : drainPeek x = some d)
    (hfl : (x.sndNxt-x.sndUna).toNat ≤ x.txBuf.rbLen) :
    ∃ n : UInt32, d.bytes = x.txBuf.rbPeek (x.sndNxt-x.sndUna) n ∧
      (x.sndNxt-x.sndUna).toNat+n.toNat ≤ x.txBuf.rbLen := by
  obtain ⟨_,_,_,hflight,n,hbytes,_,_,hn⟩ := drainPeek_spec h
  rw [hflight] at hbytes hn
  refine ⟨n,hbytes,?_⟩
  have hle : x.sndNxt-x.sndUna ≤ UInt32.ofNat x.txBuf.rbLen := by
    rw [UInt32.le_iff_toNat_le,x.txBuf.rbLen_toUInt32]
    exact hfl
  rw [UInt32.le_iff_toNat_le,UInt32.toNat_sub_of_le _ _ hle,x.txBuf.rbLen_toUInt32] at hn
  omega

/-- Cut before any data byte was acknowledged, the bytes belong where they are sent. -/
theorem drainPeek_carries
    (h : drainPeek x = some d) (hbuf : x.txBuf.contents = stream) (huna : x.sndUna = x.iss+1)
    (hfl : (x.sndNxt-x.sndUna).toNat ≤ x.txBuf.rbLen) :
    CarriesStream x.iss stream d.seq d.bytes := by
  obtain ⟨_,_,hseq,_⟩ := drainPeek_spec h
  obtain ⟨n,hbytes,hsum⟩ := drainPeek_within h hfl
  have hcap := x.txBuf.rbLen_le
  have hlen := x.txBuf.rbLen_eq
  simp only [tcpRxBufSize] at hcap
  rw [hbytes,hseq,TcpRingBuf.rbPeek_eq _ _ _ hsum,hbuf]
  refine carriesStream_slice _ _ ?_ ?_ ?_
  · rw [Circle.dist,← huna]
  · rw [← hbuf,← hlen]
    exact hsum
  · rw [← hbuf]
    omega

/-- The probe byte is the first byte of the stream. -/
theorem persistProbe_carries {now : UInt64} {probe stream : List UInt8}
    (h : (tcpPersistFireBegin now x).2 = some probe) (hbuf : x.txBuf.contents = stream) :
    CarriesStream x.iss stream (x.iss+1) probe := by
  have hcap := x.txBuf.rbLen_le
  have hlen := x.txBuf.rbLen_eq
  simp only [tcpRxBufSize] at hcap
  rw [tcpPersistFireBegin] at h
  split at h
  · cases h
  · split at h
    · cases h
    · split at h
      · cases h
      · cases h
        have hone : (0 : UInt32).toNat+(1 : UInt32).toNat ≤ x.txBuf.rbLen := by
          change 0+1 ≤ _
          omega
        rw [TcpRingBuf.rbPeek_eq _ _ _ hone,hbuf]
        refine carriesStream_slice _ _ ?_ ?_ ?_
        · rw [Circle.dist_self]
          rfl
        · rw [← hbuf,← hlen]
          exact hone
        · rw [← hbuf]
          omega

section Step

variable {i : Slot} {σ : Sys} {e : Ev} {τ : Tid} {f : Effect (PcOf τ)}

/-- An effect that does not operate on the slot may cut the next segment. -/
theorem send_quiet (hA : (sendOutline i).At i σ) (hG : sendAligned i σ e = true)
    (he : e.effect σ.1 = some ⟨τ,f⟩) (hq : ∀ op, f.op ≠ some (i,op)) :
    sendLoc i τ f.next (σ.tcb i,σ.2) := by
  obtain ⟨⟨hbuf,_⟩,_⟩ := hA
  cases Ev.moved he with
  | sys p c =>
    have hent := sysEntry_next σ.1.shared p c
    generalize (sysEntry σ.1.shared p c).next = l at hent
    cases hent <;> trivial
  | run τ ok =>
    cases τ with
    | rx | echo => trivial
    | scan =>
      cases hl : (threadSection σ.1.shared ok .scan (σ.1.pc .scan)).next with
      | persistSend j fs probe =>
        rintro rfl
        obtain ⟨hpc,hf,_⟩ := scan_next_persistSend hl
        refine absurd ?_ (hq .persistBegin)
        simp only [threadSection,hpc,scanSection,hf,if_true]
      | _ => trivial
    | proc p =>
      cases hl : (threadSection σ.1.shared ok (.proc p) (σ.1.pc (.proc p))).next with
      | drainSend t n d =>
        rintro rfl
        obtain ⟨hpc,hpeek⟩ := proc_next_drainSend hl
        simp only [sendAligned,hpc,Bool.and_eq_true,bne_self_eq_false,Bool.false_or,
          beq_iff_eq,decide_eq_true_eq] at hG
        exact drainPeek_carries hpeek hbuf hG.2.1 hG.2.2
      | _ => trivial
  | _ => trivial

/-- A payload that leaves slot `i` was cut from the right place. -/
theorem sent_carries {ok : Bool} {ip : UInt32} {b : Bool} {flags : UInt8}
    {options payload : List UInt8} (hA : (sendOutline i).At i σ)
    (hG : sendAligned i σ (.run τ ok) = true)
    (hd : Does σ.1.shared ok τ (σ.1.pc τ) i (.send ip b flags options payload)) :
    CarriesStream (σ.tcb i).iss σ.2.accepted (σ.tcb i).sndNxt payload := by
  obtain ⟨_,hloc⟩ := hA
  have hτ := hloc τ
  revert hτ hG
  -- only three of the transmissions carry payload
  generalize hpc : σ.1.pc τ = l at hd
  intro hG hτ
  cases hd with
  | drainSend | persistSend =>
    simp only [sendAligned,hpc,Bool.and_eq_true,bne_self_eq_false,Bool.false_or,
      beq_iff_eq] at hG
    rw [hG.2]
    exact hτ rfl
  | echoSend j bytes => simp [sendAligned,hpc] at hG
  | _ => exact carriesStream_nil _ _ _

/-- An operation on the slot keeps the outline. -/
theorem send_op (hA : (sendOutline i).At i σ) (hG : sendAligned i σ e = true)
    (he : e.effect σ.1 = some ⟨τ,f⟩) (hfop : f.op = some (i,op)) :
    (sendOutline i).glob (op.run σ.1.shared.pitTicks (σ.tcb i),σ.2.after (σ.tcb i) op) ∧
    (sendOutline i).loc τ f.next (op.run σ.1.shared.pitTicks (σ.tcb i),σ.2.after (σ.tcb i) op) ∧
    ∀ τ', τ' ≠ τ → (sendOutline i).loc τ' (σ.1.pc τ') (σ.tcb i,σ.2) →
      (sendOutline i).loc τ' (σ.1.pc τ')
        (op.run σ.1.shared.pitTicks (σ.tcb i),σ.2.after (σ.tcb i) op) := by
  obtain ⟨ok,rfl,rfl,hd⟩ := does_of_op he hfop
  have hfr := op.run_frame σ.1.shared.pitTicks (σ.tcb i)
  obtain ⟨⟨hbuf,hsent⟩,hloc⟩ := hA
  by_cases ho : op.opens = true
  · -- an open starts a new, empty stream over an empty ring
    have hG1 := hG
    simp only [sendAligned,Sys.opOn_eq he hfop,ho,Bool.not_true,Bool.false_or,Bool.and_eq_true,
      beq_iff_eq,Bool.not_eq_true'] at hG1
    obtain ⟨⟨hempty,hcut⟩,_⟩ := hG1
    have hne : op.isEnqueue = false := by cases op <;> first | rfl | cases ho
    obtain ⟨hacc,hnone⟩ := after_opens ho σ.2 (σ.tcb i)
    refine ⟨⟨?_,fun seg h => ?_⟩,?_,fun τ' _ _ => sendLoc_of_not_cuts hcut τ' _⟩
    · rw [hfr.txBuf hne,hempty,hacc]
    · rw [hnone] at h
      cases h
    · generalize σ.1.pc τ = l at hd ⊢
      cases hd with
      | openInit | connInit => trivial
      | _ => cases ho
  · rw [Bool.not_eq_true] at ho
    obtain ⟨more,hacc,hmore⟩ := after_accepted ho σ.2 (σ.tcb i)
    refine ⟨⟨?_,?_⟩,?_,fun τ' _ h => sendLoc_mono (hfr.iss ho) hacc h⟩
    · by_cases hen : op.isEnqueue = true
      · cases op with
        | enqueue buf => exact contents_enqueue _ _ _ _ hbuf
        | _ => cases hen
      · rw [Bool.not_eq_true] at hen
        rw [hfr.txBuf hen,hacc,hmore hen,List.append_nil]
        exact hbuf
    · intro seg hseg
      rw [hfr.iss ho,hacc]
      rcases mem_after_sent ho hseg with hold | ⟨ip,b,flags,options,payload,rfl,hseq,hpay,_⟩
      · exact (hsent seg hold).append more
      · rw [hseq,hpay]
        exact (sent_carries ⟨⟨hbuf,hsent⟩,hloc⟩ hG hd).append more
    · -- the scanner may have cut a probe
      cases τ with
      | rx | echo => trivial
      | scan =>
        cases hl : (threadSection σ.1.shared ok .scan (σ.1.pc .scan)).next with
        | persistSend j fs probe =>
          rintro rfl
          obtain ⟨_,_,hprobe⟩ := scan_next_persistSend hl
          rw [hfr.iss ho,hacc]
          exact (persistProbe_carries hprobe hbuf).append more
        | _ => trivial
      | proc p =>
        cases hl : (threadSection σ.1.shared ok (.proc p) (σ.1.pc (.proc p))).next with
        | drainSend t n d =>
          obtain ⟨hpc,_⟩ := proc_next_drainSend hl
          rw [hpc] at hd
          cases hd
        | _ => trivial

end Step

theorem sendOutline_run {i : Slot} {es : List Ev}
    (h : Trace.Meets (Sys.step i) (fun σ e => sendAligned i σ e = true) .boot es) :
    (sendOutline i).At i (Trace.exec (Sys.step i) .boot es) := by
  have hboot : (sendOutline i).At i .boot := by
    refine ⟨⟨rfl,fun _ h => by cases h⟩,fun τ => ?_⟩
    cases τ <;> trivial
  exact SlotOutline.run (fun _ _ _ _ _ hA hG he hop => send_op hA hG he hop)
    (fun _ _ _ _ hA hG he hq => send_quiet hA hG he hq) hboot h

/-- In every run whose steps keep offsets and sequence numbers of slot `i` aligned, every
payload byte the connection transmits is the byte `sys_tcp_send` took for that place. -/
theorem send_stream_correct (i : Slot) (es : List Ev)
    (h : Trace.Meets (Sys.step i) (fun σ e => sendAligned i σ e = true) .boot es) :
    SendStreamOk i (Trace.exec (Sys.step i) .boot es) := (sendOutline_run h).1.2

/-- Two sends before the first acknowledgement meet the condition. -/
theorem send_stream_correct_unacked :
    Trace.Meets (Sys.step 0) (fun σ e => sendAligned 0 σ e = true) .boot
      (clientHandshake++clientSend [10,20,30]++clientSend [40,50]) ∧
    SendStreamOk 0 (Trace.exec (Sys.step 0) .boot
      (clientHandshake++clientSend [10,20,30]++clientSend [40,50])) :=
  ⟨by decide +kernel,send_stream_correct 0 _ (by decide +kernel)⟩

/-- Once the first three bytes are acknowledged, the next segment starts with them again. -/
theorem send_stream_repeats_acked : ¬SendStreamOk 0 (Trace.exec (Sys.step 0) .boot
    (clientHandshake++clientSend [10,20,30]++fromPeer 1001 4 tcpFlagACK [] :: runs .rx 4++
      clientSend [40,50])) := by
  decide +kernel

end Gooos
