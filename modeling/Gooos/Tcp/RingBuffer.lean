import Gooos.Lib.Trace
import Gooos.Tcp.Tcb

/-!
# The byte rings as bounded queues

`tcpRingBuf` of `tcp.go` with the destination of `rbPeek`, and what a run of calls looks like to
its caller: a list of at most `tcpRxBufSize` bytes.
-/

namespace Gooos

open Trace (exec outs)

namespace TcpRingBuf

/-- `rbPeek(off, n, dst)`: what `dst` holds afterwards. -/
def rbPeekInto (r : TcpRingBuf) (off n : UInt32) (dst : List UInt8) : List UInt8 :=
  let n := if UInt32.ofNat dst.length < n then UInt32.ofNat dst.length else n
  let avail := UInt32.ofNat r.rbLen
  if avail ≤ off then dst
  else
    let n := if avail < off+n then avail-off else n
    r.peek off.toNat n.toNat++dst.drop n.toNat

/-- The form the senders use, which peek into a buffer of their own. -/
theorem rbPeek_eq_into (r : TcpRingBuf) (off n : UInt32) :
    r.rbPeek off n = r.rbPeekInto off n (List.replicate n.toNat 0) := by
  have hn : UInt32.ofNat n.toNat = n := UInt32.ofNat_toNat
  simp only [rbPeek,rbPeekInto,List.length_replicate,hn,List.drop_replicate]
  rw [if_neg (UInt32.lt_irrefl n)]

/-- The number of bytes that `rbPeek` copies is computed without wrapping. -/
theorem rbPeekInto_eq (r : TcpRingBuf) (off n : UInt32) (dst : List UInt8)
    (hdst : dst.length < 2^31) :
    r.rbPeekInto off n dst = (r.contents.drop off.toNat).take (min n.toNat dst.length)++
      dst.drop ((r.contents.drop off.toNat).take (min n.toNat dst.length)).length := by
  have hle := r.rbLen_le
  have hav := r.rbLen_toUInt32
  have hlen := r.rbLen_eq
  simp only [tcpRxBufSize] at hle
  have hdl : (UInt32.ofNat dst.length).toNat = dst.length :=
    UInt32.toNat_ofNat_of_lt' (by simp only [UInt32.size]; omega)
  obtain ⟨m,hm,hmin⟩ : ∃ m : UInt32, m.toNat = min n.toNat dst.length ∧
      (if UInt32.ofNat dst.length < n then UInt32.ofNat dst.length else n) = m := by
    refine ⟨_,?_,rfl⟩
    split
    next h =>
      rw [UInt32.lt_iff_toNat_lt] at h
      omega
    next h =>
      rw [UInt32.lt_iff_toNat_lt] at h
      omega
  rw [rbPeekInto]
  simp only [hmin,← hm]
  split
  next hoff =>
    -- nothing is buffered at the offset
    rw [UInt32.le_iff_toNat_le,hav,hlen] at hoff
    rw [List.drop_eq_nil_of_le hoff]
    simp
  next hoff =>
    rw [UInt32.le_iff_toNat_le] at hoff
    have hadd : (off+m).toNat = off.toNat+m.toNat := by
      rw [UInt32.toNat_add,Nat.mod_eq_of_lt (by omega)]
    split
    next hmore =>
      -- the list ends before the destination
      rw [UInt32.lt_iff_toNat_lt] at hmore
      have hsub : (UInt32.ofNat r.rbLen-off).toNat = r.rbLen-off.toNat := by
        rw [UInt32.toNat_sub_of_le _ _ (UInt32.le_iff_toNat_le.mpr (by omega)),hav]
      have htake : (r.contents.drop off.toNat).length ≤ m.toNat := by
        rw [List.length_drop]
        omega
      have hpeek := RingQueue.peek_eq r off.toNat (r.rbLen-off.toNat) (by rw [rbLen] at *; omega)
      rw [hsub,hpeek,List.take_of_length_le htake,List.length_drop,← hlen,
        List.take_of_length_le (by rw [List.length_drop,← hlen])]
    next hmore =>
      rw [UInt32.lt_iff_toNat_lt] at hmore
      have hpeek := RingQueue.peek_eq r off.toNat m.toNat (by rw [rbLen] at *; omega)
      rw [hpeek,List.length_take,List.length_drop,Nat.min_eq_left (by omega)]

end TcpRingBuf

/-! ## Runs -/

/-- A call with its arguments; of the destination of `rbRead` only the length matters. -/
inductive RingOp where
  | rbWrite (src : List UInt8)
  | rbRead (len : ℕ)
  | rbReset
  | rbPeek (off n : UInt32) (dst : List UInt8)
  deriving DecidableEq, Repr

/-- What the caller gets back. -/
inductive RingOut where
  | written (n : ℕ)
  | read (bytes : List UInt8)
  | peeked (dst : List UInt8)
  deriving DecidableEq, Repr

def TcpRingBuf.step (r : TcpRingBuf) : RingOp → TcpRingBuf × List RingOut
  | .rbWrite src => ((r.rbWrite src).1,[.written (r.rbWrite src).2])
  | .rbRead len => ((r.rbRead len).1,[.read (r.rbRead len).2])
  | .rbReset => (r.rbReset,[])
  | .rbPeek off n dst => (r,[.peeked (r.rbPeekInto off n dst)])

/-- The same calls on a list of at most `tcpRxBufSize` bytes. -/
def byteQueueStep (q : List UInt8) : RingOp → List UInt8 × List RingOut
  | .rbWrite src =>
    let fits := src.take (tcpRxBufSize-q.length)
    (q++fits,[.written fits.length])
  | .rbRead len => (q.drop len,[.read (q.take len)])
  | .rbReset => ([],[])
  | .rbPeek off n dst =>
    let found := (q.drop off.toNat).take (min n.toNat dst.length)
    (q,[.peeked (found++dst.drop found.length)])

/-- Destinations of `rbPeek` are shorter than `2^31` bytes. -/
def RingOp.Sized : RingOp → Prop
  | .rbPeek _ _ dst => dst.length < 2^31
  | _ => True

instance : DecidablePred RingOp.Sized
  | .rbPeek _ _ dst => inferInstanceAs (Decidable (dst.length < 2^31))
  | .rbWrite _ | .rbRead _ | .rbReset => .isTrue trivial

namespace TcpRingBuf

/-- One call does to the queued bytes what it does to the list. -/
theorem step_refines (r : TcpRingBuf) (op : RingOp) (hop : op.Sized) :
    (r.step op).1.contents = (byteQueueStep r.contents op).1 ∧
      (r.step op).2 = (byteQueueStep r.contents op).2 := by
  cases op with
  | rbWrite src =>
    have hmin : min src.length (tcpRxBufSize-r.contents.length) =
        (src.take (tcpRxBufSize-r.contents.length)).length := by
      rw [List.length_take,Nat.min_comm]
    refine ⟨?_,?_⟩
    · simp only [step,byteQueueStep,contents_rbWrite,rbWrite_snd,rbFree_eq]
      congr 1
      rw [List.take_eq_take_iff]
      omega
    · simp only [step,byteQueueStep,rbWrite_snd,rbFree_eq,hmin]
  | rbRead len => exact ⟨r.contents_rbRead len,by simp only [step,byteQueueStep,rbRead_snd]⟩
  | rbReset => exact ⟨r.contents_rbReset,rfl⟩
  | rbPeek off n dst =>
    refine ⟨rfl,?_⟩
    simp only [step,byteQueueStep,r.rbPeekInto_eq off n dst hop]

/-- After any run the ring holds the list's bytes and its callers saw what the list's would have. -/
theorem run_refines (r : TcpRingBuf) (ops : List RingOp) (hops : ∀ op ∈ ops, op.Sized) :
    (exec step r ops).contents = exec byteQueueStep r.contents ops ∧
      outs step r ops = outs byteQueueStep r.contents ops := by
  induction ops generalizing r with
  | nil => exact ⟨rfl,rfl⟩
  | cons op ops ih =>
    obtain ⟨hstate,hout⟩ := r.step_refines op (hops op List.mem_cons_self)
    obtain ⟨ihstate,ihout⟩ := ih (r.step op).1 fun op' h => hops op' (List.mem_cons_of_mem op h)
    refine ⟨?_,?_⟩
    · rw [exec,ihstate,hstate]
      rfl
    · rw [outs,ihout,hstate,hout]
      rfl

/-- From every ring, wherever its counters stand. -/
theorem ring_refines_byte_queue (r : TcpRingBuf) (ops : List RingOp)
    (hops : ∀ op ∈ ops, op.Sized) :
    let r' := exec step r ops
    let q := exec byteQueueStep r.contents ops
    outs step r ops = outs byteQueueStep r.contents ops ∧ r'.contents = q ∧
      q.length ≤ tcpRxBufSize ∧ r'.rbLen = q.length ∧ r'.rbLen+r'.rbFree = tcpRxBufSize ∧
      r'.count = r'.tail-r'.head := by
  intro r' q
  obtain ⟨hstate,hout⟩ := run_refines r ops hops
  have hlen : r'.rbLen = q.length := by rw [rbLen_eq,hstate]
  have hle := r'.rbLen_le
  refine ⟨hout,hstate,hlen ▸ hle,hlen,?_,?_⟩
  · change r'.rbLen+(tcpRxBufSize-r'.rbLen) = tcpRxBufSize
    omega
  · rw [r'.tail_eq,BitVec.add_comm,BitVec.add_sub_cancel]

/-- Counters that are about to wrap. -/
def nearWrap : TcpRingBuf := ⟨fun _ => 0,-2,-2,0,by decide,by decide⟩

theorem ring_refines_byte_queue_wrapping :
    let ops : List RingOp := [.rbWrite [1,2,3,4],.rbPeek 1 9 [7,7,7,7,7],.rbRead 3,.rbRead 3]
    (∀ op ∈ ops, op.Sized) ∧ outs step nearWrap ops =
      [.written 4,.peeked [2,3,4,7,7],.read [1,2,3],.read [4]] := by
  intro ops
  have hsized : ∀ op ∈ ops, op.Sized := by decide
  refine ⟨hsized,(ring_refines_byte_queue nearWrap ops hsized).1.trans ?_⟩
  decide

end TcpRingBuf

end Gooos
