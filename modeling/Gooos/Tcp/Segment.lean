import Mathlib
import Gooos.Lib.Circle

/-!
# TCP segments

Header view, flag bits, options and sequence comparisons of `tcp_segment.go` and
`tcp.go`. A parsed header carries its option bytes as the list `Options[:OptLen]`.
-/

namespace Gooos

def tcpHeaderMinSize : ℕ := 20
def tcpHeaderMaxSize : ℕ := 60
def ipv4MaxPayload : ℕ := 1480
def tcpScratchSize : ℕ := tcpHeaderMaxSize+ipv4MaxPayload

def tcpFlagFIN : UInt8 := 0x01
def tcpFlagSYN : UInt8 := 0x02
def tcpFlagRST : UInt8 := 0x04
def tcpFlagPSH : UInt8 := 0x08
def tcpFlagACK : UInt8 := 0x10

def tcpOptEnd : UInt8 := 0
def tcpOptNop : UInt8 := 1
def tcpOptMSS : UInt8 := 2

def tcpDefaultMSS : UInt16 := 536

/-- `flags&bit != 0`. -/
def hasFlag (flags bit : UInt8) : Bool := flags &&& bit != 0

/-- Addresses of the IPv4 header that the TCP handlers read. -/
structure IPv4Header where
  srcIP : UInt32
  dstIP : UInt32
  deriving DecidableEq, Repr

structure TCPHeader where
  srcPort : UInt16
  dstPort : UInt16
  seq : UInt32
  ack : UInt32
  flags : UInt8
  window : UInt16
  options : List UInt8
  deriving DecidableEq, Repr

/-- A segment handed to `ipv4Send`; its checksum is computed for `srcIP` and `dstIP`. -/
structure Segment where
  srcIP : UInt32
  dstIP : UInt32
  srcPort : UInt16
  dstPort : UInt16
  seq : UInt32
  ack : UInt32
  flags : UInt8
  window : UInt16
  options : List UInt8
  payload : List UInt8
  deriving DecidableEq, Repr

/-- Sequence numbers consumed by a segment: payload plus one for each of SYN and FIN. -/
def segLen (flags : UInt8) (payloadLen : ℕ) : UInt32 :=
  let n := UInt32.ofNat payloadLen
  let n := if hasFlag flags tcpFlagSYN then n+1 else n
  if hasFlag flags tcpFlagFIN then n+1 else n

def seqLT (a b : UInt32) : Bool := (a-b).toInt32 < 0
def seqLE (a b : UInt32) : Bool := (a-b).toInt32 ≤ 0

theorem seqLT_iff (a b : UInt32) :
    seqLT a b = true ↔ 0 < Circle.dist a b ∧ Circle.dist a b ≤ 2^31 := by
  simpa [seqLT] using Circle.sub_neg_iff a b

theorem seqLE_iff (a b : UInt32) : seqLE a b = true ↔ Circle.dist a b ≤ 2^31 := by
  simpa [seqLE] using Circle.sub_nonpos_iff a b

section Window

variable {b p q : UInt32} (hp : Circle.dist b p < 2^31) (hq : Circle.dist b q < 2^31)
include hp hq

theorem seqLE_iff_of_span : seqLE p q = true ↔ Circle.dist b p ≤ Circle.dist b q := by
  have hb := b.toNat_lt
  have hpn := p.toNat_lt
  have hqn := q.toNat_lt
  rw [seqLE_iff]
  simp only [Circle.dist,UInt32.toNat_sub] at *
  omega

theorem seqLT_iff_of_span : seqLT p q = true ↔ Circle.dist b p < Circle.dist b q := by
  have hb := b.toNat_lt
  have hpn := p.toNat_lt
  have hqn := q.toNat_lt
  rw [seqLT_iff]
  simp only [Circle.dist,UInt32.toNat_sub] at *
  omega

end Window

/-- Within a span shorter than half the circle the comparisons are the order of the offsets, and
they do not see a shift. -/
theorem seq_window_order :
    (∀ b x y : UInt32, x.toNat < 2^31 → y.toNat < 2^31 →
      (seqLT (b+x) (b+y) = true ↔ x < y) ∧ (seqLE (b+x) (b+y) = true ↔ x ≤ y)) ∧
    (∀ (b : UInt32) (S : Set UInt32), (∀ p ∈ S, Circle.dist b p < 2^31) →
      (∀ p ∈ S, seqLE p p = true) ∧
      (∀ p ∈ S, ∀ q ∈ S, seqLE p q = true → seqLE q p = true → p = q) ∧
      (∀ p ∈ S, ∀ q ∈ S, ∀ r ∈ S, seqLE p q = true → seqLE q r = true → seqLE p r = true) ∧
      (∀ p ∈ S, ∀ q ∈ S, seqLE p q = true ∨ seqLE q p = true) ∧
      ∀ p ∈ S, ∀ q ∈ S, seqLT p q = true ↔ seqLE p q = true ∧ p ≠ q) ∧
    ∀ p q c : UInt32, seqLT (p+c) (q+c) = seqLT p q ∧ seqLE (p+c) (q+c) = seqLE p q := by
  refine ⟨fun b x y hx hy => ?_,fun b S hS => ?_,fun p q c => ?_⟩
  · rw [← Circle.dist_add_right b] at hx hy
    rw [seqLT_iff_of_span hx hy,seqLE_iff_of_span hx hy,Circle.dist_add_right,
      Circle.dist_add_right]
    exact ⟨UInt32.lt_iff_toNat_lt.symm,UInt32.le_iff_toNat_le.symm⟩
  · have hle : ∀ p ∈ S, ∀ q ∈ S, seqLE p q = true ↔ Circle.dist b p ≤ Circle.dist b q :=
      fun p hp q hq => seqLE_iff_of_span (hS p hp) (hS q hq)
    refine ⟨fun p hp => (hle p hp p hp).mpr le_rfl,fun p hp q hq h h' => ?_,
      fun p hp q hq r hr h h' => ?_,fun p hp q hq => ?_,fun p hp q hq => ?_⟩
    · exact Circle.dist_left_inj (((hle p hp q hq).mp h).antisymm ((hle q hq p hp).mp h'))
    · exact (hle p hp r hr).mpr (((hle p hp q hq).mp h).trans ((hle q hq r hr).mp h'))
    · rw [hle p hp q hq,hle q hq p hp]
      exact Nat.le_total ..
    · rw [seqLT_iff_of_span (hS p hp) (hS q hq),hle p hp q hq,lt_iff_le_and_ne]
      exact and_congr_right fun _ => not_congr ⟨Circle.dist_left_inj,congrArg _⟩
  · have hshift : p+c-(q+c) = p-q := by grind
    rw [seqLT,seqLE,hshift]
    exact ⟨rfl,rfl⟩

/-- The walk of `tcpParseOptions` over the bytes from index `i` on, with `iter`
iterations left of its cap. -/
def tcpParseOptionsFrom : ℕ → List UInt8 → UInt16 → UInt16 × Bool
  | 0, _, peerMSS => (peerMSS,true)
  | _+1, [], peerMSS => (peerMSS,true)
  | iter+1, kind :: rest, peerMSS =>
    if kind = tcpOptEnd then (peerMSS,true)
    else if kind = tcpOptNop then tcpParseOptionsFrom iter rest peerMSS
    else match rest with
      | [] => (tcpDefaultMSS,false)
      | length :: _ =>
        if length < 2 ∨ rest.length+1 < length.toNat then (tcpDefaultMSS,false)
        else
          let peerMSS := if kind = tcpOptMSS ∧ length = 4
            then (rest.getD 1 0).toUInt16 <<< 8 ||| (rest.getD 2 0).toUInt16 else peerMSS
          tcpParseOptionsFrom iter ((kind :: rest).drop length.toNat) peerMSS

def tcpParseOptions (opts : List UInt8) : UInt16 × Bool :=
  tcpParseOptionsFrom 40 opts tcpDefaultMSS

/-- The peer's MSS as both opens read it: the default when no options are present. -/
def peerMSSOf (h : TCPHeader) : UInt16 :=
  if 0 < h.options.length then (tcpParseOptions h.options).1 else tcpDefaultMSS

def tcpBuildMSSOption (mss : UInt16) : List UInt8 :=
  [tcpOptMSS,4,(mss >>> 8).toUInt8,mss.toUInt8]

/-- The stateless RST answer of `tcpSendReset`. -/
def tcpSendReset (srcIP : UInt32) (srcPort : UInt16) (dstIP : UInt32) (dstPort : UInt16)
    (inAck inSeq : UInt32) (inFlags : UInt8) (inPayloadLen : ℕ) : Segment :=
  let ackSet := hasFlag inFlags tcpFlagACK
  { srcIP := srcIP, dstIP := dstIP, srcPort := srcPort, dstPort := dstPort
    seq := if ackSet then inAck else 0
    ack := if ackSet then 0 else inSeq+segLen inFlags inPayloadLen
    flags := if ackSet then tcpFlagRST else tcpFlagRST ||| tcpFlagACK
    window := 0
    options := []
    payload := [] }

end Gooos
