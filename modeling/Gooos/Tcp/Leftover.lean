import Mathlib
import Gooos.Tcp.Frames
import Gooos.Tcp.RingBuffer

/-!
# TCBs that differ in dead fields only

Two TCBs are alike if they agree on everything that the code reads: their rings hold the
same elements, wherever in the array, and fields that are written again before they are
read may differ. Every operation keeps that.
-/

namespace Gooos

open RingQueue (length_contents)

namespace TcpRingBuf

variable {r r' : TcpRingBuf}

theorem rbLen_congr (h : r'.contents = r.contents) : r'.rbLen = r.rbLen := by
  rw [rbLen_eq,rbLen_eq,h]

theorem rbFree_congr (h : r'.contents = r.contents) : r'.rbFree = r.rbFree := by
  rw [rbFree_eq,rbFree_eq,h]

theorem rbWrite_congr (h : r'.contents = r.contents) (src : List UInt8) :
    (r'.rbWrite src).2 = (r.rbWrite src).2 ∧
      (r'.rbWrite src).1.contents = (r.rbWrite src).1.contents := by
  have hn : (r'.rbWrite src).2 = (r.rbWrite src).2 := by
    rw [rbWrite_snd,rbWrite_snd,rbFree_congr h]
  refine ⟨hn,?_⟩
  rw [contents_rbWrite,contents_rbWrite,hn,h]

theorem rbRead_congr (h : r'.contents = r.contents) (n : ℕ) :
    (r'.rbRead n).2 = (r.rbRead n).2 ∧
      (r'.rbRead n).1.contents = (r.rbRead n).1.contents := by
  refine ⟨?_,?_⟩
  · rw [rbRead_snd,rbRead_snd,h]
  · rw [contents_rbRead,contents_rbRead,h]

/-- A segment's worth of bytes is peeked from the queued bytes only. -/
theorem rbPeek_of_le (r : TcpRingBuf) (off n : UInt32) (hn : n ≤ 1500) :
    r.rbPeek off n = ((r.contents.drop off.toNat).take n.toNat)++
      List.replicate (n.toNat-(r.contents.length-off.toNat)) 0 := by
  have hn' : n.toNat ≤ 1500 := UInt32.le_iff_toNat_le.mp hn
  have hlen : (List.replicate n.toNat (0 : UInt8)).length = n.toNat := List.length_replicate
  rw [rbPeek_eq_into,rbPeekInto_eq _ _ _ _ (by omega),hlen,Nat.min_self,List.drop_replicate,
    List.length_take,List.length_drop]
  congr 2
  omega

theorem rbPeek_congr (h : r'.contents = r.contents) (off n : UInt32) (hn : n ≤ 1500) :
    r'.rbPeek off n = r.rbPeek off n := by
  rw [rbPeek_of_le _ _ _ hn,rbPeek_of_le _ _ _ hn,h]

end TcpRingBuf

theorem rbWriteEach_congr {r r' : TcpRingBuf} (h : r'.contents = r.contents)
    (bytes : List UInt8) : (rbWriteEach r' bytes).contents = (rbWriteEach r bytes).contents := by
  induction bytes generalizing r r' with
  | nil => exact h
  | cons b bytes ih => exact ih (TcpRingBuf.rbWrite_congr h [b]).2

/-- The pops of `retxAckTo` are determined by the queued descriptors. -/
theorem retxAckLoop_congr (ack : UInt32) (fuel : ℕ) {q q' : TcpRetxQueue} (r : AckPops)
    (h : q'.contents = q.contents) :
    (retxAckLoop ack fuel q' r).2 = (retxAckLoop ack fuel q r).2 := by
  induction fuel generalizing q q' r with
  | zero => rfl
  | succ fuel ih =>
    have hcount : q'.count.toNat = q.count.toNat := by
      rw [← length_contents,← length_contents,h]
    rw [retxAckLoop,retxAckLoop]
    by_cases hpos : 0 < q.count.toNat
    · have hpos' : 0 < q'.count.toNat := hcount ▸ hpos
      have hhead : q'.cells (RingQueue.cell 64 q'.head 0) = q.cells (RingQueue.cell 64 q.head 0) := by
        have he := RingQueue.head?_contents q hpos
        rw [← h,RingQueue.head?_contents q' hpos'] at he
        exact Option.some.inj he
      rw [dif_pos hpos']
      simp only [hhead]
      split
      · refine ih _ ?_
        rw [RingQueue.contents_pop,RingQueue.contents_pop,h]
      · rfl
    · rw [dif_neg hpos,dif_neg (hcount ▸ hpos)]

/-! ## Dead fields -/

/-- Fields that may differ throughout: the rings as arrays, and what is not read, or read
only in a state that sets it. -/
structure Skin where
  txBuf : TcpRingBuf
  rxBuf : TcpRingBuf
  retxQ : TcpRetxQueue
  irs : UInt32
  mssPeer : UInt16
  listener : Option (Fin 4)
  timeWaitDeadline : UInt64

/-- Fields that the handshake sets before anything reads them. -/
structure SendVars where
  sndWnd : UInt32
  sndWl1 : UInt32
  sndWl2 : UInt32
  cwnd : UInt32
  ssthresh : UInt32
  cwndAccum : UInt32
  dupAcks : UInt8

namespace TCB

def withSkin (x : TCB) (s : Skin) : TCB :=
  { x with
    txBuf := s.txBuf
    rxBuf := s.rxBuf
    retxQ := s.retxQ
    irs := s.irs
    mssPeer := s.mssPeer
    listener := s.listener
    timeWaitDeadline := s.timeWaitDeadline }

def skin (x : TCB) : Skin where
  txBuf := x.txBuf
  rxBuf := x.rxBuf
  retxQ := x.retxQ
  irs := x.irs
  mssPeer := x.mssPeer
  listener := x.listener
  timeWaitDeadline := x.timeWaitDeadline

def withSend (x : TCB) (v : SendVars) : TCB :=
  { x with
    sndWnd := v.sndWnd
    sndWl1 := v.sndWl1
    sndWl2 := v.sndWl2
    cwnd := v.cwnd
    ssthresh := v.ssthresh
    cwndAccum := v.cwndAccum
    dupAcks := v.dupAcks }

def send (x : TCB) : SendVars where
  sndWnd := x.sndWnd
  sndWl1 := x.sndWl1
  sndWl2 := x.sndWl2
  cwnd := x.cwnd
  ssthresh := x.ssthresh
  cwndAccum := x.cwndAccum
  dupAcks := x.dupAcks

/-- The rings of the skin hold what the rings of the TCB hold, and in TIME_WAIT the
deadline is the same. -/
def Fits (x : TCB) (s : Skin) : Prop :=
  s.txBuf.contents = x.txBuf.contents ∧ s.rxBuf.contents = x.rxBuf.contents ∧
    s.retxQ.contents = x.retxQ.contents ∧
    (x.state = .timeWait → s.timeWaitDeadline = x.timeWaitDeadline)

/-- `x` and `y` agree on what is read; with `full` on the handshake's fields as well. -/
def Alike (full : Bool) (x y : TCB) : Prop :=
  ∃ s v, y = (x.withSkin s).withSend v ∧ x.Fits s ∧ (full = true → v = x.send)

/-- With the handshake's fields the same, only the skin differs. -/
theorem alike_full {x y : TCB} :
    Alike true x y ↔ ∃ s, y = x.withSkin s ∧ x.Fits s := by
  constructor
  · rintro ⟨s,v,rfl,hq,hv⟩
    obtain rfl := hv rfl
    exact ⟨s,rfl,hq⟩
  · rintro ⟨s,rfl,hq⟩
    exact ⟨s,x.send,rfl,hq,fun _ => rfl⟩

theorem Alike.refl (full : Bool) (x : TCB) : Alike full x x :=
  ⟨x.skin,x.send,rfl,⟨rfl,rfl,rfl,fun _ => rfl⟩,fun _ => rfl⟩

/-- A function that commutes with replacing the dead fields does not touch them. It must
not enter TIME_WAIT without setting the deadline. -/
theorem Alike.map {f : TCB → TCB} {x y : TCB} {full : Bool} (h : Alike full x y)
    (hf : ∀ s v, f ((x.withSkin s).withSend v) = ((f x).withSkin s).withSend v)
    (ht : (f x).state = .timeWait → x.state = .timeWait) :
    Alike full (f x) (f y) := by
  obtain ⟨s,v,rfl,⟨htx,hrx,hre,htw⟩,hv⟩ := h
  have hself : f x = ((f x).withSkin x.skin).withSend x.send := hf x.skin x.send
  refine ⟨s,v,hf s v,?_,?_⟩
  · rw [hself] at ht ⊢
    exact ⟨htx,hrx,hre,fun h => htw (ht h)⟩
  · rw [hself]
    exact hv

theorem Alike.mapSkin {f : TCB → TCB} {x y : TCB} (h : Alike true x y)
    (hf : ∀ s, f (x.withSkin s) = (f x).withSkin s)
    (ht : (f x).state = .timeWait → x.state = .timeWait) :
    Alike true (f x) (f y) := by
  obtain ⟨s,rfl,htx,hrx,hre,htw⟩ := alike_full.mp h
  have hself : f x = (f x).withSkin x.skin := hf x.skin
  refine alike_full.mpr ⟨s,hf s,?_⟩
  rw [hself] at ht ⊢
  exact ⟨htx,hrx,hre,fun h => htw (ht h)⟩

theorem withSkin_ite (c : Prop) [Decidable c] (a b : TCB) (s : Skin) :
    (if c then a else b).withSkin s = if c then a.withSkin s else b.withSkin s :=
  apply_ite (·.withSkin s) c a b

theorem withSend_ite (c : Prop) [Decidable c] (a b : TCB) (v : SendVars) :
    (if c then a else b).withSend v = if c then a.withSend v else b.withSend v :=
  apply_ite (·.withSend v) c a b

end TCB

open TCB

section Leaves

variable {full : Bool} {x y : TCB}

theorem tcpArmRTO_alike (now : UInt64) (h : Alike full x y) :
    Alike full (tcpArmRTO now x) (tcpArmRTO now y) :=
  h.map (fun _ _ => rfl) fun ht => (tcpArmRTO_flow now x).state_eq ▸ ht

theorem retxQ_empty_alike (h : Alike full x y) :
    y.retxQ.count.toNat = 0 ↔ x.retxQ.count.toNat = 0 := by
  obtain ⟨s,v,rfl,hq,_⟩ := h
  rw [← length_contents,← length_contents]
  change s.retxQ.contents.length = 0 ↔ _
  rw [hq.2.2.1]

theorem rearmRTO_alike (now : UInt64) (h : Alike full x y) :
    Alike full (rearmRTO now x) (rearmRTO now y) := by
  have he := retxQ_empty_alike h
  rw [rearmRTO,rearmRTO]
  by_cases hx : x.retxQ.count.toNat = 0
  · rw [if_pos hx,if_pos (he.mpr hx)]
    exact h.map (f := fun t => { t with rtoDeadline := 0 }) (fun _ _ => rfl) id
  · rw [if_neg hx,if_neg (he.not.mpr hx)]
    exact tcpArmRTO_alike now h

theorem retxPush_alike (e : TcpRetxEntry) (h : Alike full x y) :
    Alike full (retxPush x e).1 (retxPush y e).1 := by
  obtain ⟨s,v,rfl,hq,hv⟩ := h
  by_cases hx : x.retxQ.contents.length < 64
  · obtain ⟨q,hqc,hpush⟩ := retxPush_of_lt x e hx
    have hy : ((x.withSkin s).withSend v).retxQ.contents.length < 64 := by
      change s.retxQ.contents.length < 64
      rw [hq.2.2.1]
      exact hx
    obtain ⟨q',hqc',hpush'⟩ := retxPush_of_lt _ e hy
    rw [hpush,hpush']
    refine ⟨{ s with retxQ := q' },v,rfl,⟨hq.1,hq.2.1,?_,hq.2.2.2⟩,hv⟩
    rw [hqc,hqc']
    change s.retxQ.contents++[e] = _
    rw [hq.2.2.1]
  · have hy : ¬((x.withSkin s).withSend v).retxQ.contents.length < 64 := by
      change ¬s.retxQ.contents.length < 64
      rw [hq.2.2.1]
      exact hx
    rw [retxPush_of_full x e hx,retxPush_of_full _ e hy]
    exact ⟨s,v,rfl,hq,hv⟩

theorem retxAckTo_alike (ack : UInt32) (h : Alike full x y) :
    (retxAckTo y ack).2 = (retxAckTo x ack).2 ∧
      Alike full (retxAckTo x ack).1 (retxAckTo y ack).1 := by
  obtain ⟨s,v,rfl,hq,hv⟩ := h
  have hcount : s.retxQ.count.toNat = x.retxQ.count.toNat := by
    rw [← length_contents,← length_contents,hq.2.2.1]
  constructor
  · change (retxAckLoop ack s.retxQ.count.toNat s.retxQ _).2 = _
    rw [hcount]
    exact retxAckLoop_congr ack _ _ hq.2.2.1
  · refine ⟨{ s with retxQ := (retxAckTo ((x.withSkin s).withSend v) ack).1.retxQ },v,rfl,
      ⟨hq.1,hq.2.1,?_,hq.2.2.2⟩,hv⟩
    change (retxAckLoop ack s.retxQ.count.toNat s.retxQ _).1.contents =
      (retxAckLoop ack x.retxQ.count.toNat x.retxQ _).1.contents
    rw [contents_retxAckLoop ack _ s.retxQ _ le_rfl,contents_retxAckLoop ack _ x.retxQ _ le_rfl,
      hq.2.2.1]

theorem tcpRTTSample_alike (now sent : UInt64) (b : Bool) (h : Alike full x y) :
    Alike full (tcpRTTSample now x sent b) (tcpRTTSample now y sent b) := by
  refine h.map (f := fun t => tcpRTTSample now t sent b) (fun s v => ?_)
    fun ht => (tcpRTTSample_flow now x sent b).state_eq ▸ ht
  simp only [tcpRTTSample,tcpRTTUpdate,tcpRTTInit,withSkin_ite,withSend_ite]
  rfl

/-- Once the window fields agree, `tcpCCInit` makes the rest agree. -/
theorem tcpCCInit_alike {s : Skin} {v : SendVars} (hq : x.Fits s)
    (hw : v.sndWnd = x.sndWnd ∧ v.sndWl1 = x.sndWl1 ∧ v.sndWl2 = x.sndWl2) :
    Alike true (tcpCCInit x) (tcpCCInit ((x.withSkin s).withSend v)) := by
  obtain ⟨w,wl1,wl2,c,ss,acc,d⟩ := v
  obtain ⟨rfl,rfl,rfl⟩ := hw
  exact ⟨s,(tcpCCInit x).send,rfl,hq,fun _ => rfl⟩

theorem synAcked_alike {s : Skin} {v : SendVars} (now : UInt64) (ack : UInt32)
    (hq : x.Fits s)
    (hw : v.sndWnd = x.sndWnd ∧ v.sndWl1 = x.sndWl1 ∧ v.sndWl2 = x.sndWl2) :
    Alike true (synAcked now x ack) (synAcked now ((x.withSkin s).withSend v) ack) := by
  obtain ⟨hpops,hack⟩ := retxAckTo_alike ack (tcpCCInit_alike hq hw)
  rw [synAcked,synAcked]
  dsimp only
  rw [hpops]
  exact rearmRTO_alike now (tcpRTTSample_alike now _ _ hack)

/-! ## ACK processing, on TCBs that agree on the handshake's fields -/

theorem tcpCCOnAck_alike (n : UInt32) (h : Alike true x y) :
    Alike true (tcpCCOnAck x n) (tcpCCOnAck y n) := by
  refine h.mapSkin (f := fun t => tcpCCOnAck t n) (fun s => ?_)
    fun ht => (tcpCCOnAck_flow x n).state_eq ▸ ht
  have hT : (if (x.withSkin s).cwnd = 0 then tcpCCInit (x.withSkin s) else x.withSkin s) =
      (if x.cwnd = 0 then tcpCCInit x else x).withSkin s := by
    rw [withSkin_ite]
    rfl
  simp only [tcpCCOnAck,hT]
  generalize (if x.cwnd = 0 then tcpCCInit x else x) = t
  simp only [withSkin_ite]
  rfl

theorem ackAdvance_alike (now : UInt64) (ack : UInt32) (h : Alike true x y) :
    Alike true (ackAdvance now x ack) (ackAdvance now y ack) := by
  have hnew : ack-y.sndUna = ack-x.sndUna := by
    obtain ⟨s,rfl,_⟩ := alike_full.mp h
    rfl
  have huna := h.mapSkin (f := fun t => { t with sndUna := ack }) (fun _ => rfl) id
  obtain ⟨hpops,hack⟩ := retxAckTo_alike ack huna
  rw [ackAdvance,ackAdvance]
  dsimp only
  rw [hpops,hnew]
  have hcc := tcpCCOnAck_alike (ack-x.sndUna) (tcpRTTSample_alike now
    (retxAckTo { x with sndUna := ack } ack).2.oldestSent
    (retxAckTo { x with sndUna := ack } ack).2.anyPristine hack)
  exact rearmRTO_alike now (hcc.mapSkin (f := fun t => { t with dupAcks := 0 }) (fun _ => rfl) id)

theorem tcpMaybeArmPersist_alike (now : UInt64) (h : Alike true x y) :
    Alike true (tcpMaybeArmPersist now x) (tcpMaybeArmPersist now y) := by
  obtain ⟨s,rfl,hq⟩ := alike_full.mp h
  have hlen : s.txBuf.rbLen = x.txBuf.rbLen := TcpRingBuf.rbLen_congr hq.1
  have heq : tcpMaybeArmPersist now (x.withSkin s) = (tcpMaybeArmPersist now x).withSkin s := by
    simp only [tcpMaybeArmPersist,withSkin_ite]
    change (if x.sndWnd ≠ 0 then _ else if s.txBuf.rbLen = 0 then _ else _) = _
    rw [hlen]
    rfl
  rw [alike_full,heq]
  refine ⟨s,rfl,?_⟩
  simp only [tcpMaybeArmPersist]
  split_ifs <;> exact hq

theorem windowUpdate_alike (now : UInt64) (hd : TCPHeader) (h : Alike true x y) :
    Alike true (windowUpdate now x hd) (windowUpdate now y hd) := by
  have hset := tcpMaybeArmPersist_alike now (h.mapSkin (f := fun t =>
    { t with sndWnd := hd.window.toUInt32, sndWl1 := hd.seq, sndWl2 := hd.ack }) (fun _ => rfl) id)
  have hcond : (seqLT y.sndWl1 hd.seq || (y.sndWl1 == hd.seq && seqLE y.sndWl2 hd.ack)) =
      (seqLT x.sndWl1 hd.seq || (x.sndWl1 == hd.seq && seqLE x.sndWl2 hd.ack)) := by
    obtain ⟨s,rfl,_⟩ := alike_full.mp h
    rfl
  rw [windowUpdate,windowUpdate,hcond]
  split
  · exact hset
  · exact h

theorem tcpAckUpdate_alike (now : UInt64) (hd : TCPHeader) (h : Alike true x y) :
    (tcpAckUpdate now y hd).2 = (tcpAckUpdate now x hd).2 ∧
      Alike true (tcpAckUpdate now x hd).1 (tcpAckUpdate now y hd).1 := by
  have hu : y.sndUna = x.sndUna ∧ y.sndNxt = x.sndNxt := by
    obtain ⟨s,rfl,_⟩ := alike_full.mp h
    exact ⟨rfl,rfl⟩
  rw [tcpAckUpdate,tcpAckUpdate,hu.1,hu.2]
  split
  · exact ⟨rfl,h⟩
  · split
    · exact ⟨rfl,h⟩
    · have hadv : Alike true (if x.sndUna ≠ hd.ack then ackAdvance now x hd.ack else x)
          (if x.sndUna ≠ hd.ack then ackAdvance now y hd.ack else y) := by
        split
        · exact ackAdvance_alike now hd.ack h
        · exact h
      have hwin := windowUpdate_alike now hd hadv
      refine ⟨?_,hwin⟩
      obtain ⟨s,heq,_⟩ := alike_full.mp hwin
      dsimp only
      rw [heq]
      rfl

theorem establishedAck_alike (now : UInt64) (hd : TCPHeader) (n : ℕ) (h : Alike true x y) :
    Alike true (establishedAck now hd n x) (establishedAck now hd n y) := by
  have hdup : tcpIsDuplicateACK y hd n = tcpIsDuplicateACK x hd n := by
    obtain ⟨s,rfl,_⟩ := alike_full.mp h
    rfl
  rw [establishedAck,establishedAck,hdup]
  split
  · refine h.mapSkin (f := dupAckSection) (fun s => ?_)
      fun ht => (dupAckSection_flow x).state_eq ▸ ht
    have hcc : tcpCCOnDupAck (x.withSkin s) =
        ((tcpCCOnDupAck x).1.withSkin s,(tcpCCOnDupAck x).2) := by
      simp only [tcpCCOnDupAck]
      change (if x.dupAcks+1 ≠ 3 then _ else _) = _
      split_ifs <;> rfl
    rw [dupAckSection,dupAckSection,hcc]
    obtain ⟨t,fastRetx⟩ := tcpCCOnDupAck x
    cases fastRetx <;> rfl
  · exact (tcpAckUpdate_alike now hd h).2

/-! ## The receive handlers -/

theorem acceptPayload_alike (payload : List UInt8) (h : Alike full x y) :
    Alike full (acceptPayload payload x) (acceptPayload payload y) := by
  rw [acceptPayload,acceptPayload]
  split
  · obtain ⟨s,v,rfl,hq,hv⟩ := h
    obtain ⟨hn,hc⟩ := TcpRingBuf.rbWrite_congr hq.2.1 payload
    refine ⟨{ s with rxBuf := (s.rxBuf.rbWrite payload).1 },v,?_,⟨hq.1,hc,hq.2.2.1,hq.2.2.2⟩,hv⟩
    change ({ (x.withSkin s).withSend v with
      rxBuf := (s.rxBuf.rbWrite payload).1
      rcvNxt := x.rcvNxt+UInt32.ofNat (s.rxBuf.rbWrite payload).2
      rcvWnd := if UInt32.ofNat (s.rxBuf.rbWrite payload).2 < x.rcvWnd
        then x.rcvWnd-UInt32.ofNat (s.rxBuf.rbWrite payload).2 else 0 } : TCB) = _
    rw [hn]
    rfl
  · exact h

theorem enterTimeWait_alike (now : UInt64) (h : Alike full x y) :
    Alike full { x with state := .timeWait, timeWaitDeadline := now+tcpTimeWaitTicks }
      { y with state := .timeWait, timeWaitDeadline := now+tcpTimeWaitTicks } := by
  obtain ⟨s,v,rfl,hq,hv⟩ := h
  exact ⟨{ s with timeWaitDeadline := now+tcpTimeWaitTicks },v,rfl,
    ⟨hq.1,hq.2.1,hq.2.2.1,fun _ => rfl⟩,hv⟩

theorem timeWaitRefresh_alike (now : UInt64) (h : Alike full x y) :
    Alike full (timeWaitRefresh now x) (timeWaitRefresh now y) := by
  obtain ⟨s,v,rfl,hq,hv⟩ := h
  rw [timeWaitRefresh,timeWaitRefresh]
  generalize now+tcpTimeWaitTicks = d
  exact ⟨{ s with timeWaitDeadline := d },v,rfl,⟨hq.1,hq.2.1,hq.2.2.1,fun _ => rfl⟩,hv⟩

theorem TCB.Alike.rcvNxt (h : Alike full x y) : y.rcvNxt = x.rcvNxt := by
  obtain ⟨s,v,rfl,_⟩ := h
  rfl

theorem tcpHandleEstablished_alike (now : UInt64) (hd : TCPHeader) (payload : List UInt8)
    (h : Alike true x y) :
    Alike true (tcpHandleEstablished now hd payload x) (tcpHandleEstablished now hd payload y) := by
  have hin := acceptPayload_alike payload (establishedAck_alike now hd payload.length h)
  rw [tcpHandleEstablished,tcpHandleEstablished,h.rcvNxt]
  split
  · exact h
  · split
    · exact hin.mapSkin (f := fun t => { t with rcvNxt := t.rcvNxt+1, state := .closeWait })
        (fun _ => rfl) (by rintro ⟨⟩)
    · exact hin

/-- The payload part of the FIN_WAIT handlers. -/
theorem inOrder_alike (hd : TCPHeader) (payload : List UInt8) (h : Alike true x y) :
    Alike true (if hd.seq = x.rcvNxt then acceptPayload payload x else x)
      (if hd.seq = y.rcvNxt then acceptPayload payload y else y) := by
  rw [h.rcvNxt]
  split
  · exact acceptPayload_alike payload h
  · exact h

theorem tcpHandleFinWait1_alike (now : UInt64) (hd : TCPHeader) (payload : List UInt8)
    (h : Alike true x y) :
    Alike true (tcpHandleFinWait1 now hd payload x) (tcpHandleFinWait1 now hd payload y) := by
  obtain ⟨hack,hup⟩ := tcpAckUpdate_alike now hd (inOrder_alike hd payload h)
  simp only [tcpHandleFinWait1,hack]
  generalize (tcpAckUpdate now (if hd.seq = x.rcvNxt then acceptPayload payload x else x) hd).2 = ack
  generalize (tcpAckUpdate now (if hd.seq = x.rcvNxt then acceptPayload payload x else x) hd).1 = u
    at hup
  generalize (tcpAckUpdate now (if hd.seq = y.rcvNxt then acceptPayload payload y else y) hd).1 = w
    at hup
  have hfin : peerFinInOrder hd payload w = peerFinInOrder hd payload u := by
    rw [peerFinInOrder,peerFinInOrder,hup.rcvNxt]
  rw [hfin]
  have hnxt : Alike true (if peerFinInOrder hd payload u = true then
      { u with rcvNxt := u.rcvNxt+1 } else u)
      (if peerFinInOrder hd payload u = true then { w with rcvNxt := w.rcvNxt+1 } else w) := by
    split
    · exact hup.mapSkin (f := fun t => { t with rcvNxt := t.rcvNxt+1 }) (fun _ => rfl) id
    · exact hup
  generalize (if peerFinInOrder hd payload u = true then
    { u with rcvNxt := u.rcvNxt+1 } else u) = u' at hnxt
  generalize (if peerFinInOrder hd payload u = true then
    { w with rcvNxt := w.rcvNxt+1 } else w) = w' at hnxt
  split
  · exact enterTimeWait_alike now hnxt
  · split
    · exact hnxt.mapSkin (f := fun t => { t with state := .finWait2 }) (fun _ => rfl) (by rintro ⟨⟩)
    · split
      · exact hnxt.mapSkin (f := fun t => { t with state := .closing }) (fun _ => rfl) (by rintro ⟨⟩)
      · exact hnxt

theorem tcpHandleFinWait2_alike (now : UInt64) (hd : TCPHeader) (payload : List UInt8)
    (h : Alike true x y) :
    Alike true (tcpHandleFinWait2 now hd payload x) (tcpHandleFinWait2 now hd payload y) := by
  have hin := inOrder_alike hd payload (tcpAckUpdate_alike now hd h).2
  simp only [tcpHandleFinWait2]
  generalize (if hd.seq = (tcpAckUpdate now x hd).1.rcvNxt then
    acceptPayload payload (tcpAckUpdate now x hd).1 else (tcpAckUpdate now x hd).1) = u at hin
  generalize (if hd.seq = (tcpAckUpdate now y hd).1.rcvNxt then
    acceptPayload payload (tcpAckUpdate now y hd).1 else (tcpAckUpdate now y hd).1) = w at hin
  have hfin : peerFinInOrder hd payload w = peerFinInOrder hd payload u := by
    rw [peerFinInOrder,peerFinInOrder,hin.rcvNxt]
  rw [hfin]
  split
  · exact enterTimeWait_alike now
      (hin.mapSkin (f := fun t => { t with rcvNxt := t.rcvNxt+1 }) (fun _ => rfl) id)
  · exact hin

theorem tcpHandleClosing_alike (now : UInt64) (hd : TCPHeader) (h : Alike true x y) :
    Alike true (tcpHandleClosing now hd x) (tcpHandleClosing now hd y) := by
  obtain ⟨hack,hup⟩ := tcpAckUpdate_alike now hd h
  simp only [tcpHandleClosing,hack]
  split
  · exact enterTimeWait_alike now hup
  · exact hup

/-! ## The other sections -/

theorem tcpSendSegment_alike (ip : UInt32) (ok : Bool) (flags : UInt8)
    (options payload : List UInt8) (h : Alike full x y) :
    (tcpSendSegment ip ok y flags options payload).2 =
        (tcpSendSegment ip ok x flags options payload).2 ∧
      Alike full (tcpSendSegment ip ok x flags options payload).1
        (tcpSendSegment ip ok y flags options payload).1 := by
  have hwin : (tcpAdvertiseWin y).2 = (tcpAdvertiseWin x).2 := by
    obtain ⟨s,v,rfl,_⟩ := h
    simp only [tcpAdvertiseWin,apply_ite Prod.snd]
    rfl
  have hadv : Alike full (tcpAdvertiseWin x).1 (tcpAdvertiseWin y).1 := by
    refine h.map (f := fun t => (tcpAdvertiseWin t).1) (fun s v => ?_) fun ht => ?_
    case refine_2 =>
      simp only [tcpAdvertiseWin] at ht
      split_ifs at ht <;> exact ht
    simp only [tcpAdvertiseWin,apply_ite Prod.fst,withSkin_ite,withSend_ite]
    rfl
  have hid : y.remoteIP = x.remoteIP ∧ y.localPort = x.localPort ∧ y.remotePort = x.remotePort ∧
      y.sndNxt = x.sndNxt ∧ y.rcvNxt = x.rcvNxt := by
    obtain ⟨s,v,rfl,_⟩ := h
    exact ⟨rfl,rfl,rfl,rfl,rfl⟩
  obtain ⟨hip,hlp,hrp,hsn,hrn⟩ := hid
  rw [tcpSendSegment,tcpSendSegment]
  dsimp only
  split
  · exact ⟨rfl,h⟩
  · split
    · exact ⟨rfl,h⟩
    · rw [hip,hlp,hrp,hsn,hrn,hwin]
      exact ⟨rfl,hadv⟩

theorem pushArm_alike (now : UInt64) (e : TcpRetxEntry) (h : Alike full x y) :
    Alike full (tcpArmRTO now (retxPush x e).1) (tcpArmRTO now (retxPush y e).1) :=
  tcpArmRTO_alike now (retxPush_alike e h)

theorem TCB.Alike.state (h : Alike full x y) : y.state = x.state := by
  obtain ⟨s,v,rfl,_⟩ := h
  rfl

theorem synRestore_alike (now : UInt64) (orig : UInt32) (flags : UInt8) (ok : Bool)
    (h : Alike full x y) :
    Alike full (synRestore now orig flags ok x) (synRestore now orig flags ok y) := by
  have hset := h.map (f := fun t => { t with sndNxt := orig }) (fun _ _ => rfl) id
  obtain ⟨s,v,rfl,_⟩ := h
  rw [synRestore,synRestore]
  split
  · exact pushArm_alike now _ hset
  · exact hset

theorem tcpCloseCommit_alike (now : UInt64) (h : Alike full x y) :
    Alike full (tcpCloseCommit now x) (tcpCloseCommit now y) := by
  have hset := h.map (f := fun t => { t with sndNxt := t.sndNxt+1 }) (fun _ _ => rfl) id
  obtain ⟨s,v,rfl,_⟩ := h
  exact pushArm_alike now _ hset

theorem drainCommit_alike (now : UInt64) (d : Drain) (h : Alike full x y) :
    Alike full (drainCommit now d x) (drainCommit now d y) :=
  pushArm_alike now _ (h.map
    (f := fun t => { t with sndNxt := t.sndNxt+UInt32.ofNat d.bytes.length }) (fun _ _ => rfl) id)

theorem tcpCloseMark_alike (h : Alike full x y) :
    (tcpCloseMark y).isSome = (tcpCloseMark x).isSome ∧
      Alike full ((tcpCloseMark x).getD x) ((tcpCloseMark y).getD y) := by
  rw [tcpCloseMark,tcpCloseMark,h.state]
  split
  · exact ⟨rfl,h.map (f := fun t => { t with state := .finWait1 }) (fun _ _ => rfl) (by rintro ⟨⟩)⟩
  · exact ⟨rfl,h.map (f := fun t => { t with state := .lastAck }) (fun _ _ => rfl) (by rintro ⟨⟩)⟩
  · exact ⟨rfl,h⟩

theorem sendEnqueue_alike (buf : List UInt8) (h : Alike full x y) :
    (sendEnqueue buf y).map Prod.snd = (sendEnqueue buf x).map Prod.snd ∧
      Alike full (((sendEnqueue buf x).map Prod.fst).getD x)
        (((sendEnqueue buf y).map Prod.fst).getD y) := by
  obtain ⟨s,v,rfl,hq,hv⟩ := h
  rw [sendEnqueue,sendEnqueue]
  change Option.map Prod.snd (ite ((x.active && x.state == .established) = true) _ _) = _ ∧
    Alike full _ ((Option.map Prod.fst (ite ((x.active && x.state == .established) = true) _ _)).getD _)
  split
  · have hfree : s.txBuf.rbFree = x.txBuf.rbFree := TcpRingBuf.rbFree_congr hq.1
    refine ⟨?_,{ s with txBuf := rbWriteEach s.txBuf (buf.take (min buf.length s.txBuf.rbFree)) },
      v,rfl,⟨?_,hq.2⟩,hv⟩
    · change some (min buf.length s.txBuf.rbFree) = _
      rw [hfree]
      rfl
    · rw [hfree]
      exact rbWriteEach_congr hq.1 _
  · exact ⟨rfl,s,v,rfl,hq,hv⟩

/-- Bytes leave `rxBuf` the same way. -/
theorem readRx_alike (n : ℕ) (h : Alike full x y) :
    (y.rxBuf.rbRead n).2 = (x.rxBuf.rbRead n).2 ∧
      Alike full
        { x with
          rxBuf := (x.rxBuf.rbRead n).1
          rcvWnd := recoverWnd x.rcvWnd (x.rxBuf.rbRead n).2.length }
        { y with
          rxBuf := (y.rxBuf.rbRead n).1
          rcvWnd := recoverWnd y.rcvWnd (y.rxBuf.rbRead n).2.length } := by
  obtain ⟨s,v,rfl,hq,hv⟩ := h
  obtain ⟨hgot,hrest⟩ := TcpRingBuf.rbRead_congr hq.2.1 n
  refine ⟨hgot,{ s with rxBuf := (s.rxBuf.rbRead n).1 },v,?_,⟨hq.1,hrest,hq.2.2.1,hq.2.2.2⟩,hv⟩
  rw [← hgot]
  rfl

theorem TCB.Alike.rxLen (h : Alike full x y) : y.rxBuf.rbLen = x.rxBuf.rbLen := by
  obtain ⟨s,v,rfl,hq,_⟩ := h
  exact TcpRingBuf.rbLen_congr hq.2.1

theorem recvTake_alike (n : ℕ) (h : Alike full x y) :
    (recvTake n y).2 = (recvTake n x).2 ∧
      Alike full (recvTake n x).1 (recvTake n y).1 := by
  rw [recvTake,h.rxLen]
  exact readRx_alike _ h

theorem echoTake_alike (h : Alike full x y) :
    (echoTake y).2 = (echoTake x).2 ∧ Alike full (echoTake x).1 (echoTake y).1 := by
  have hread := fun n => readRx_alike n h
  obtain ⟨s,v,rfl,_⟩ := h
  exact hread _

theorem shutdownReset_alike (h : Alike full x y) :
    Alike full (shutdownReset x) (shutdownReset y) := by
  obtain ⟨s,v,rfl,hq,hv⟩ := h
  refine ⟨{ s with rxBuf := s.rxBuf.rbReset },v,rfl,⟨hq.1,?_,hq.2.2.1,hq.2.2.2⟩,hv⟩
  exact (TcpRingBuf.contents_rbReset _).trans (TcpRingBuf.contents_rbReset _).symm

theorem retxHead_alike (h : Alike full x y) : retxHead y = retxHead x := by
  obtain ⟨s,v,rfl,hq,_⟩ := h
  exact congrArg List.head? hq.2.2.1

theorem tcpCCOnRTO_alike (h : Alike full x y) : Alike full (tcpCCOnRTO x) (tcpCCOnRTO y) := by
  obtain ⟨s,v,rfl,hq,hv⟩ := h
  refine ⟨s,{ v with ssthresh := lossSsthresh x, cwnd := ccMss x, cwndAccum := 0, dupAcks := 0 },
    rfl,hq,fun hf => ?_⟩
  rw [hv hf]
  rfl

theorem rtoBackoff_alike (now : UInt64) {head : TcpRetxEntry} (hhead : retxHead x = some head)
    (h : Alike full x y) : Alike full (rtoBackoff now head x) (rtoBackoff now head y) := by
  let head' := { head with xmitCount := head.xmitCount+1, sentTicks := now }
  have hcount : Alike full
      { x with retxQ := x.retxQ.setHead head', xmitCountHead := x.xmitCountHead+1 }
      { y with retxQ := y.retxQ.setHead head', xmitCountHead := y.xmitCountHead+1 } := by
    obtain ⟨s,v,rfl,hq,hv⟩ := h
    obtain ⟨es,hes⟩ := List.head?_eq_some_iff.mp hhead
    refine ⟨{ s with retxQ := s.retxQ.setHead head' },v,rfl,⟨hq.1,hq.2.1,?_,hq.2.2.2⟩,hv⟩
    rw [RingQueue.contents_setHead _ _ _ _ hes,
      RingQueue.contents_setHead _ _ _ _ (hq.2.2.1.trans hes)]
  have hloss : ∀ {x y : TCB}, Alike full x y →
      Alike full (if x.rtoFastRetx then { x with rtoFastRetx := false } else tcpCCOnRTO x)
        (if y.rtoFastRetx then { y with rtoFastRetx := false } else tcpCCOnRTO y) := by
    intro x y h
    have hfast : y.rtoFastRetx = x.rtoFastRetx := by
      obtain ⟨s,v,rfl,_⟩ := h
      rfl
    rw [hfast]
    split
    · exact h.map (f := fun t => { t with rtoFastRetx := false }) (fun _ _ => rfl) id
    · exact tcpCCOnRTO_alike h
  let double (n : UInt32) : UInt32 := if tcpRTOMaxTicks < n*2 then tcpRTOMaxTicks else n*2
  have hdouble : ∀ {x y : TCB}, Alike full x y →
      Alike full { x with
        rtoTicks := double x.rtoTicks, rtoDeadline := now+(double x.rtoTicks).toUInt64 }
      { y with
        rtoTicks := double y.rtoTicks, rtoDeadline := now+(double y.rtoTicks).toUInt64 } :=
    fun h => h.map (f := fun t => { t with
      rtoTicks := double t.rtoTicks, rtoDeadline := now+(double t.rtoTicks).toUInt64 })
      (fun _ _ => rfl) id
  exact hdouble (hloss hcount)

theorem tcpRTOFireBegin_alike (now : UInt64) (h : Alike full x y) :
    (tcpRTOFireBegin now y).2 = (tcpRTOFireBegin now x).2 ∧
      Alike full (tcpRTOFireBegin now x).1 (tcpRTOFireBegin now y).1 := by
  have hcond : (!y.active || y.rtoDeadline == 0) = (!x.active || x.rtoDeadline == 0) ∧
      (now < y.rtoDeadline ↔ now < x.rtoDeadline) ∧
      (tcpMaxRetransmits ≤ y.xmitCountHead ↔ tcpMaxRetransmits ≤ x.xmitCountHead) := by
    obtain ⟨s,v,rfl,_⟩ := h
    exact ⟨rfl,.rfl,.rfl⟩
  simp only [tcpRTOFireBegin,hcond.1,hcond.2.1,hcond.2.2,retxHead_alike h]
  split
  · exact ⟨rfl,h⟩
  · split
    · exact ⟨rfl,h⟩
    · split
      · refine ⟨rfl,?_⟩
        obtain ⟨s,v,rfl,hq,hv⟩ := h
        exact ⟨{ s with retxQ := RingQueue.empty fun _ => .zero },v,rfl,⟨hq.1,hq.2.1,rfl,hq.2.2.2⟩,hv⟩
      · split
        · exact ⟨rfl,h.map (f := fun t => { t with rtoDeadline := 0 }) (fun _ _ => rfl) id⟩
        · rename_i head hhead
          have hback := rtoBackoff_alike now hhead h
          have hnxt : (rtoBackoff now head y).sndNxt = (rtoBackoff now head x).sndNxt := by
            obtain ⟨s,v,heq,_⟩ := hback
            rw [heq]
            rfl
          refine ⟨by rw [hnxt],?_⟩
          split
          · exact hback.map (f := fun t => { t with sndNxt := head.seq }) (fun _ _ => rfl) id
          · exact hback

/-- The probe of `tcpPersistFire` reads the peer's window. -/
theorem tcpPersistFireBegin_alike (now : UInt64) (h : Alike full x y)
    (hw : x.persistDeadline = 0 ∨ y.sndWnd = x.sndWnd) :
    (tcpPersistFireBegin now y).2 = (tcpPersistFireBegin now x).2 ∧
      Alike full (tcpPersistFireBegin now x).1 (tcpPersistFireBegin now y).1 := by
  have hcond : (!y.active || y.persistDeadline == 0) = (!x.active || x.persistDeadline == 0) ∧
      (now < y.persistDeadline ↔ now < x.persistDeadline) := by
    obtain ⟨s,v,rfl,_⟩ := h
    exact ⟨rfl,.rfl⟩
  have htx : y.txBuf.contents = x.txBuf.contents := by
    obtain ⟨s,v,rfl,hq,_⟩ := h
    exact hq.1
  simp only [tcpPersistFireBegin,hcond.1,hcond.2]
  split
  · exact ⟨rfl,h⟩
  · rename_i hon
    have hwnd : y.txBuf.rbLen = 0 ∨ y.sndWnd ≠ 0 ↔ x.txBuf.rbLen = 0 ∨ x.sndWnd ≠ 0 := by
      have hw' : y.sndWnd = x.sndWnd := by
        refine hw.resolve_left fun h0 => hon ?_
        simp [h0]
      rw [TcpRingBuf.rbLen_congr htx,hw']
    simp only [hwnd]
    split
    · exact ⟨rfl,h⟩
    · split
      · exact ⟨rfl,h.map (f := fun t => { t with persistDeadline := 0, persistTicks := 0 })
          (fun _ _ => rfl) id⟩
      · refine ⟨congrArg some (TcpRingBuf.rbPeek_congr htx 0 1 (by decide)),?_⟩
        let backoff (n : UInt32) : UInt32 := if n < tcpPersistMaxTicks
          then if tcpPersistMaxTicks < n*2 then tcpPersistMaxTicks else n*2
          else n
        exact h.map (f := fun t => { t with
          persistTicks := backoff t.persistTicks
          persistDeadline := now+(backoff t.persistTicks).toUInt64 }) (fun _ _ => rfl) id

theorem tcpDelackFireBegin_alike (now : UInt64) (h : Alike full x y) :
    (tcpDelackFireBegin now y).2 = (tcpDelackFireBegin now x).2 ∧
      Alike full (tcpDelackFireBegin now x).1 (tcpDelackFireBegin now y).1 := by
  constructor
  · obtain ⟨s,v,rfl,_⟩ := h
    simp only [tcpDelackFireBegin,apply_ite Prod.snd]
    rfl
  · refine h.map (f := fun t => (tcpDelackFireBegin now t).1) (fun s v => ?_) fun ht => ?_
    case refine_2 =>
      obtain ⟨d,hd⟩ := tcpDelackFireBegin_fst now x
      rw [hd] at ht
      exact ht
    simp only [tcpDelackFireBegin,apply_ite Prod.fst,withSkin_ite,withSend_ite]
    rfl

/-- What `tcpTCBDrainTX` cuts next. -/
theorem drainPeek_alike (h : Alike full x y) (hf : full = false → x.state ≠ .established) :
    drainPeek y = drainPeek x := by
  cases full with
  | false =>
    have hidle : ∀ t : TCB, t.state ≠ .established → drainPeek t = none := by
      intro t ht
      simp [drainPeek,ht]
    rw [hidle x (hf rfl),hidle y (h.state ▸ hf rfl)]
  | true =>
    obtain ⟨s,rfl,hq⟩ := alike_full.mp h
    have hlen : s.txBuf.rbLen = x.txBuf.rbLen := TcpRingBuf.rbLen_congr hq.1
    have hpeek (off n : UInt32) (hn : n ≤ 1500) : s.txBuf.rbPeek off n = x.txBuf.rbPeek off n :=
      TcpRingBuf.rbPeek_congr hq.1 off n hn
    have hsize (queued canSend : UInt32) : drainSize x queued canSend ≤ 1500 := by
      simp only [drainSize]
      split_ifs <;> grind
    simp only [drainPeek]
    change (if (!x.active || x.state != .established) = true then none else
      if (if x.cwnd < x.sndWnd then x.cwnd else x.sndWnd) ≤ x.sndNxt-x.sndUna then none else
      if UInt32.ofNat s.txBuf.rbLen-(x.sndNxt-x.sndUna) = 0 then none else
      some (Drain.mk x.sndNxt (x.sndNxt-x.sndUna) (s.txBuf.rbPeek (x.sndNxt-x.sndUna)
        (drainSize x (UInt32.ofNat s.txBuf.rbLen-(x.sndNxt-x.sndUna))
          ((if x.cwnd < x.sndWnd then x.cwnd else x.sndWnd)-(x.sndNxt-x.sndUna)))))) = _
    rw [hlen,hpeek _ _ (hsize _ _)]

end Leaves

/-! ## Operations -/

namespace TcbOp

/-- Reads the fields that the handshake sets. -/
def readsSend : TcbOp → Bool
  | .established .. | .finWait1 .. | .finWait2 .. | .closing _ => true
  | _ => false

/-- Completes the handshake. -/
def setsSend : TcbOp → Bool
  | .synSentAck _ | .synReceivedAck _ => true
  | _ => false

theorem run_alike (now : UInt64) {full : Bool} {x y : TCB} (op : TcbOp) (h : Alike full x y)
    (hr : op.readsSend = true → full = true)
    (hw : op.probes = true → x.persistDeadline = 0 ∨ y.sndWnd = x.sndWnd) :
    Alike (full || op.setsSend) (op.run now x) (op.run now y) := by
  by_cases hs : op.setsSend = true
  · -- the acknowledgement of our SYN sets all that may differ
    rw [hs,Bool.or_true]
    obtain ⟨s,v,rfl,hq,_⟩ := h
    cases op with
    | synSentAck hd =>
      exact synAcked_alike (s := { s with irs := hd.seq, mssPeer := peerMSSOf hd })
        (v := { v with sndWnd := hd.window.toUInt32, sndWl1 := hd.seq, sndWl2 := hd.ack })
        now hd.ack ⟨hq.1,hq.2.1,hq.2.2.1,nofun⟩ ⟨rfl,rfl,rfl⟩
    | synReceivedAck hd =>
      exact synAcked_alike (s := s)
        (v := { v with sndWnd := hd.window.toUInt32, sndWl1 := hd.seq, sndWl2 := hd.ack })
        now hd.ack ⟨hq.1,hq.2.1,hq.2.2.1,nofun⟩ ⟨rfl,rfl,rfl⟩
    | _ => cases hs
  · rw [Bool.not_eq_true] at hs
    rw [hs,Bool.or_false]
    cases op with
    | alloc lip lp rip rp =>
      exact h.map (f := fun t => { t with
        localIP := lip, localPort := lp, remoteIP := rip, remotePort := rp
        state := .closed, userOwner := -1, active := true }) (fun _ _ => rfl) nofun
    | free =>
      exact h.map (f := fun t => { t with
        active := false, state := .closed, localIP := 0, localPort := 0, remoteIP := 0
        remotePort := 0, userOwner := -1 }) (fun _ _ => rfl) nofun
    | passiveInit l hd =>
      obtain ⟨s,v,rfl,hq,hv⟩ := h
      refine ⟨{ s with irs := hd.seq, mssPeer := peerMSSOf hd, listener := some l },
        { v with sndWnd := hd.window.toUInt32, sndWl1 := hd.seq, sndWl2 := 0 },rfl,
        ⟨hq.1,hq.2.1,hq.2.2.1,nofun⟩,fun hf => ?_⟩
      rw [hv hf]
      rfl
    | activeInit =>
      exact h.map (f := fun t => { t with
        state := .synSent, iss := isnNext now, sndUna := isnNext now, sndNxt := isnNext now+1
        rcvWnd := UInt32.ofNat tcpRxBufSize, mssLocal := tcpDefaultMSS
        mssEff := tcpDefaultMSS }) (fun _ _ => rfl) nofun
    | synRollback =>
      exact h.map (f := fun t => { t with sndNxt := t.iss }) (fun _ _ => rfl) id
    | synRestore orig flags ok => exact synRestore_alike now orig flags ok h
    | dispatch hd => exact h
    | synSentAck | synReceivedAck => cases hs
    | established hd payload =>
      obtain rfl := hr rfl
      exact tcpHandleEstablished_alike now hd payload h
    | finWait1 hd payload =>
      obtain rfl := hr rfl
      exact tcpHandleFinWait1_alike now hd payload h
    | finWait2 hd payload =>
      obtain rfl := hr rfl
      exact tcpHandleFinWait2_alike now hd payload h
    | closing hd =>
      obtain rfl := hr rfl
      exact tcpHandleClosing_alike now hd h
    | timeWait => exact timeWaitRefresh_alike now h
    | send ip ok flags options payload =>
      exact (tcpSendSegment_alike ip ok flags options payload h).2
    | closeMark => exact (tcpCloseMark_alike h).2
    | closeCommit => exact tcpCloseCommit_alike now h
    | clearListener =>
      obtain ⟨s,v,rfl,hq,hv⟩ := h
      exact ⟨{ s with listener := none },v,rfl,hq,hv⟩
    | enqueue buf => exact (sendEnqueue_alike buf h).2
    | drainCommit d => exact drainCommit_alike now d h
    | recvTake n => exact (recvTake_alike n h).2
    | shutdownReset => exact shutdownReset_alike h
    | echoTake => exact (echoTake_alike h).2
    | echoDataCommit n =>
      exact h.map (f := fun t => { t with sndNxt := t.sndNxt+UInt32.ofNat n }) (fun _ _ => rfl) id
    | echoFinCommit =>
      exact h.map (f := fun t => { t with sndNxt := t.sndNxt+1, state := .lastAck })
        (fun _ _ => rfl) nofun
    | rtoBegin => exact (tcpRTOFireBegin_alike now h).2
    | rtoRestore saved =>
      exact h.map (f := fun t => { t with sndNxt := saved }) (fun _ _ => rfl) id
    | persistBegin => exact (tcpPersistFireBegin_alike now h (hw rfl)).2
    | delackBegin => exact (tcpDelackFireBegin_alike now h).2

end TcbOp

end Gooos
