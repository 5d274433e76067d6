import Mathlib
import Gooos.Lib.RingQueue
import Gooos.Tcp.Segment

/-!
# Transmission control blocks

The TCB record of `tcp.go` with its two byte rings and its retransmission ring.
-/

namespace Gooos

inductive TcbState where
  | closed | listen | synSent | synReceived | established | finWait1 | finWait2
  | closeWait | closing | lastAck | timeWait
  deriving DecidableEq, Repr

def tcpRxBufSize : ℕ := 8192
def tcpAcceptQueueDepth : ℕ := 8

/-- `tcpRingBuf`: byte FIFO of `tcpRxBufSize` cells over 32-bit counters. -/
abbrev TcpRingBuf := RingQueue 32 8192 UInt8

namespace TcpRingBuf

def rbFree (r : TcpRingBuf) : ℕ := tcpRxBufSize-r.count.toNat

def rbLen (r : TcpRingBuf) : ℕ := r.count.toNat

def rbReset (r : TcpRingBuf) : TcpRingBuf := RingQueue.empty r.cells

theorem rbWrite_fits (r : TcpRingBuf) (src : List UInt8) :
    r.count.toNat+(src.take (min src.length r.rbFree)).length ≤ 8192 := by
  have hc := r.count_le
  simp only [rbFree,tcpRxBufSize,List.length_take]
  omega

/-- Copy up to `len(src)` bytes to the tail; the second value is how many fit. -/
def rbWrite (r : TcpRingBuf) (src : List UInt8) : TcpRingBuf × ℕ :=
  let n := min src.length r.rbFree
  (r.write (src.take n) (r.rbWrite_fits src),n)

theorem rbRead_le (r : TcpRingBuf) (n : ℕ) : min n r.rbLen ≤ r.count.toNat :=
  Nat.min_le_right _ _

/-- Copy up to `n = len(dst)` bytes out of the head. -/
def rbRead (r : TcpRingBuf) (n : ℕ) : TcpRingBuf × List UInt8 :=
  (r.drop (min n r.rbLen) (r.rbRead_le n),r.peek 0 (min n r.rbLen))

/-- The bytes a zeroed destination of length `n` holds after `rbPeek`. -/
def rbPeek (r : TcpRingBuf) (off n : UInt32) : List UInt8 :=
  let avail := UInt32.ofNat r.rbLen
  if avail ≤ off then List.replicate n.toNat 0
  else
    let m := if avail < off+n then avail-off else n
    r.peek off.toNat m.toNat++List.replicate (n.toNat-m.toNat) 0

section

variable (r : TcpRingBuf)
include r

@[simp] theorem contents_rbReset : r.rbReset.contents = [] :=
  RingQueue.contents_empty _

@[simp] theorem rbWrite_snd (src : List UInt8) :
    (r.rbWrite src).2 = min src.length r.rbFree := rfl

@[simp] theorem contents_rbWrite (src : List UInt8) :
    (r.rbWrite src).1.contents = r.contents++src.take (r.rbWrite src).2 :=
  RingQueue.contents_write r _ (r.rbWrite_fits src)

@[simp] theorem contents_rbRead (n : ℕ) : (r.rbRead n).1.contents = r.contents.drop n := by
  have hlen : r.rbLen = r.contents.length := r.length_contents.symm
  rw [rbRead]
  simp only [RingQueue.contents_drop,hlen]
  rcases Nat.le_total n r.contents.length with h | h
  · rw [Nat.min_eq_left h]
  · rw [Nat.min_eq_right h,List.drop_of_length_le le_rfl,List.drop_of_length_le h]

@[simp] theorem rbRead_snd (n : ℕ) : (r.rbRead n).2 = r.contents.take n := by
  have hlen : r.rbLen = r.contents.length := r.length_contents.symm
  have hpeek := RingQueue.peek_zero r _ (r.rbRead_le n)
  rw [rbRead]
  dsimp only
  rw [hpeek,hlen]
  rcases Nat.le_total n r.contents.length with h | h
  · rw [Nat.min_eq_left h]
  · rw [Nat.min_eq_right h,List.take_of_length_le le_rfl,List.take_of_length_le h]

theorem rbLen_eq : r.rbLen = r.contents.length := r.length_contents.symm

theorem rbLen_le : r.rbLen ≤ tcpRxBufSize := r.count_le

theorem rbFree_eq : r.rbFree = tcpRxBufSize-r.contents.length := by
  rw [r.length_contents]; rfl

theorem rbLen_toUInt32 : (UInt32.ofNat r.rbLen).toNat = r.rbLen := by
  have := r.rbLen_le
  simp only [tcpRxBufSize] at this
  rw [UInt32.toNat_ofNat_of_lt' (by simp [UInt32.size]; omega)]

/-- `rbPeek` fills the whole destination. -/
theorem length_rbPeek (off n : UInt32) : (r.rbPeek off n).length = n.toNat := by
  rw [rbPeek]
  split
  · exact List.length_replicate
  · have hm : (if UInt32.ofNat r.rbLen < off+n then UInt32.ofNat r.rbLen-off else n) ≤ n := by
      split <;> grind
    rw [UInt32.le_iff_toNat_le] at hm
    rw [List.length_append,List.length_replicate,RingQueue.peek,List.length_map,List.length_range]
    omega

/-- Inside the buffered bytes `rbPeek` copies a slice of the queue. -/
theorem rbPeek_eq (off n : UInt32) (h : off.toNat+n.toNat ≤ r.rbLen) :
    r.rbPeek off n = (r.contents.drop off.toNat).take n.toNat := by
  have hle := r.rbLen_le
  have hav := r.rbLen_toUInt32
  simp only [tcpRxBufSize] at hle
  have hadd : (off+n).toNat = off.toNat+n.toNat := by
    rw [UInt32.toNat_add,Nat.mod_eq_of_lt (by omega)]
  unfold rbPeek
  by_cases hoff : UInt32.ofNat r.rbLen ≤ off
  · have hn : n.toNat = 0 := by
      rw [UInt32.le_iff_toNat_le] at hoff
      omega
    simp [hoff,hn]
  · have hlt : ¬UInt32.ofNat r.rbLen < off+n := by
      rw [UInt32.lt_iff_toNat_lt]
      omega
    simp only [hoff,hlt,if_false,Nat.sub_self,List.replicate_zero,List.append_nil]
    exact RingQueue.peek_eq r _ _ h

end

end TcpRingBuf

/-- Descriptor of one in-flight segment. -/
structure TcpRetxEntry where
  seq : UInt32
  endSeq : UInt32
  flags : UInt8
  bufOff : UInt32
  bufLen : UInt16
  sentTicks : UInt64
  xmitCount : UInt8
  deriving DecidableEq, Repr

def TcpRetxEntry.zero : TcpRetxEntry := ⟨0,0,0,0,0,0,0⟩

/-- `tcpRetxQueue`: descriptors in a ring of `tcpRetxMax` cells over 8-bit counters. -/
abbrev TcpRetxQueue := RingQueue 8 64 TcpRetxEntry

structure TCB where
  localIP : UInt32
  localPort : UInt16
  remoteIP : UInt32
  remotePort : UInt16
  state : TcbState
  /-- Index of the listener that spawned the TCB. -/
  listener : Option (Fin 4)
  sndUna : UInt32
  sndNxt : UInt32
  sndWnd : UInt32
  sndWl1 : UInt32
  sndWl2 : UInt32
  iss : UInt32
  rcvNxt : UInt32
  rcvWnd : UInt32
  irs : UInt32
  mssLocal : UInt16
  mssPeer : UInt16
  mssEff : UInt16
  txBuf : TcpRingBuf
  rxBuf : TcpRingBuf
  retxQ : TcpRetxQueue
  rtoTicks : UInt32
  rtoDeadline : UInt64
  xmitCountHead : UInt8
  rtoFastRetx : Bool
  srttTicks : UInt32
  rttvarTicks : UInt32
  rttInitialized : Bool
  timeWaitDeadline : UInt64
  lastAdvWin : UInt32
  persistDeadline : UInt64
  persistTicks : UInt32
  cwnd : UInt32
  ssthresh : UInt32
  cwndAccum : UInt32
  dupAcks : UInt8
  delackDeadline : UInt64
  userOwner : Int
  active : Bool

/-- A table slot before its first use. -/
def TCB.zero : TCB where
  localIP := 0
  localPort := 0
  remoteIP := 0
  remotePort := 0
  state := .closed
  listener := none
  sndUna := 0
  sndNxt := 0
  sndWnd := 0
  sndWl1 := 0
  sndWl2 := 0
  iss := 0
  rcvNxt := 0
  rcvWnd := 0
  irs := 0
  mssLocal := 0
  mssPeer := 0
  mssEff := 0
  txBuf := RingQueue.empty fun _ => 0
  rxBuf := RingQueue.empty fun _ => 0
  retxQ := RingQueue.empty fun _ => .zero
  rtoTicks := 0
  rtoDeadline := 0
  xmitCountHead := 0
  rtoFastRetx := false
  srttTicks := 0
  rttvarTicks := 0
  rttInitialized := false
  timeWaitDeadline := 0
  lastAdvWin := 0
  persistDeadline := 0
  persistTicks := 0
  cwnd := 0
  ssthresh := 0
  cwndAccum := 0
  dupAcks := 0
  delackDeadline := 0
  userOwner := 0
  active := false

/-- Append a descriptor at the tail; `false` when the queue is full. -/
def retxPush (t : TCB) (e : TcpRetxEntry) : TCB × Bool :=
  if h : t.retxQ.count.toNat+[e].length ≤ 64
  then ({ t with retxQ := t.retxQ.write [e] h },true)
  else (t,false)

/-- The oldest unacknowledged descriptor. -/
def retxHead (t : TCB) : Option TcpRetxEntry := t.retxQ.contents.head?

/-- What `retxAckTo` reports about the descriptors it popped. -/
structure AckPops where
  popped : ℕ
  oldestSent : UInt64
  anyPristine : Bool

/-- The loop of `retxAckTo`; `fuel` is the queue length it starts from. -/
def retxAckLoop (ack : UInt32) : ℕ → TcpRetxQueue → AckPops → TcpRetxQueue × AckPops
  | 0, q, r => (q,r)
  | fuel+1, q, r =>
    if h : 0 < q.count.toNat then
      let e := q.cells (RingQueue.cell 64 q.head 0)
      if seqLE e.endSeq ack then
        retxAckLoop ack fuel (q.pop .zero h)
          { popped := r.popped+1
            oldestSent := if r.popped = 0 ∨ e.sentTicks < r.oldestSent
              then e.sentTicks else r.oldestSent
            anyPristine := r.anyPristine || e.xmitCount == 0 }
      else (q,r)
    else (q,r)

/-- Pop the descriptors whose `endSeq` is at or before `ack`. -/
def retxAckTo (t : TCB) (ack : UInt32) : TCB × AckPops :=
  let (q,r) := retxAckLoop ack t.retxQ.count.toNat t.retxQ ⟨0,0,false⟩
  ({ t with retxQ := q },r)

def retxFlush (t : TCB) : TCB := { t with retxQ := RingQueue.empty fun _ => .zero }

theorem retxPush_of_lt (t : TCB) (e : TcpRetxEntry) (h : t.retxQ.contents.length < 64) :
    ∃ q : TcpRetxQueue, q.contents = t.retxQ.contents++[e] ∧
      retxPush t e = ({ t with retxQ := q },true) := by
  have hfit : t.retxQ.count.toNat+[e].length ≤ 64 := by simpa using h
  exact ⟨t.retxQ.write [e] hfit,RingQueue.contents_write _ _ _,by rw [retxPush,dif_pos hfit]⟩

theorem retxPush_of_full (t : TCB) (e : TcpRetxEntry) (h : ¬t.retxQ.contents.length < 64) :
    retxPush t e = (t,false) := by
  rw [retxPush,dif_neg (by simpa using h)]

theorem contents_retxAckLoop (ack : UInt32) (fuel : ℕ) (q : TcpRetxQueue) (r : AckPops)
    (h : q.count.toNat ≤ fuel) :
    (retxAckLoop ack fuel q r).1.contents = q.contents.dropWhile (seqLE ·.endSeq ack) := by
  induction fuel generalizing q r with
  | zero =>
    have hnil : q.contents = [] := (RingQueue.contents_eq_nil q).mpr (by omega)
    simp [retxAckLoop,hnil]
  | succ fuel ih =>
    rw [retxAckLoop]
    split
    · rename_i hpos
      have hhead := RingQueue.head?_contents q hpos
      obtain ⟨ys,hys⟩ := List.head?_eq_some_iff.mp hhead
      dsimp only
      split
      · rename_i hle
        rw [ih _ _ (by rw [RingQueue.count_pop]; omega),RingQueue.contents_pop,hys]
        simp [hle]
      · rename_i hle
        simp [hys,hle]
    · have hnil : q.contents = [] := (RingQueue.contents_eq_nil q).mpr (by omega)
      simp [hnil]

/-- `retxAckTo` changes the queue only, to the suffix that is still unacknowledged. -/
theorem retxAckTo_shape (t : TCB) (ack : UInt32) : ∃ (q : TcpRetxQueue) (r : AckPops),
    q.contents = t.retxQ.contents.dropWhile (seqLE ·.endSeq ack) ∧
      retxAckTo t ack = ({ t with retxQ := q },r) :=
  ⟨_,_,contents_retxAckLoop ack _ t.retxQ _ le_rfl,rfl⟩

end Gooos
