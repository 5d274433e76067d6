import Mathlib
import Gooos.Lib.BigEndian
import Gooos.Tcp.Segment

/-!
# The TCP header on the wire

`tcpParse` and `tcpBuildSegment` of `tcp_segment.go`, byte by byte, and that each undoes
the other on the packets the kernel itself can build.
-/

namespace Gooos

open BigEndian

/-- The parsed header with the fields that no handler reads. -/
structure TCPWireHeader extends TCPHeader where
  dataOff : UInt8
  chksum : UInt16
  urgent : UInt16
  deriving DecidableEq, Repr

def tcpParse (packet : List UInt8) : Option (TCPWireHeader × List UInt8) :=
  if packet.length < tcpHeaderMinSize then none else
  let b := fun i => packet.getD i 0
  let dataOff := b 12 >>> 4
  if dataOff < 5 then none else
  let hdrLen := dataOff.toNat*4
  if tcpHeaderMaxSize < hdrLen ∨ packet.length < hdrLen then none else
  some ({
    srcPort := word16 (b 0) (b 1)
    dstPort := word16 (b 2) (b 3)
    seq := word32 (b 4) (b 5) (b 6) (b 7)
    ack := word32 (b 8) (b 9) (b 10) (b 11)
    dataOff := dataOff
    flags := b 13 &&& 0x3F
    window := word16 (b 14) (b 15)
    chksum := word16 (b 16) (b 17)
    urgent := word16 (b 18) (b 19)
    options := (packet.drop tcpHeaderMinSize).take (hdrLen-tcpHeaderMinSize) },
    packet.drop hdrLen)

/-- The twenty fixed bytes, checksum and urgent pointer zero. -/
def tcpFixedHeader (srcPort dstPort : UInt16) (seq ack : UInt32) (hdrLen : ℕ) (flags : UInt8)
    (window : UInt16) : List UInt8 :=
  bytes16 srcPort++bytes16 dstPort++bytes32 seq++bytes32 ack++
    [UInt8.ofNat ((hdrLen/4) <<< 4),flags &&& 0x3F]++bytes16 window++[0,0,0,0]

/-- The buffer `out` afterwards and the number of bytes written, zero when refused. -/
def tcpBuildSegment (out : List UInt8) (srcPort dstPort : UInt16) (seq ack : UInt32)
    (flags : UInt8) (window : UInt16) (options payload : List UInt8) : List UInt8 × ℕ :=
  let optLen := options.length
  if optLen%4 ≠ 0 ∨ 40 < optLen then (out,0) else
  let hdrLen := tcpHeaderMinSize+optLen
  let total := hdrLen+payload.length
  if out.length < total then (out,0) else
  (tcpFixedHeader srcPort dstPort seq ack hdrLen flags window++options++payload++
    out.drop total,total)

@[simp] theorem length_tcpFixedHeader (srcPort dstPort : UInt16) (seq ack : UInt32) (hdrLen : ℕ)
    (flags : UInt8) (window : UInt16) :
    (tcpFixedHeader srcPort dstPort seq ack hdrLen flags window).length = tcpHeaderMinSize := rfl

section Build

variable {out options payload : List UInt8} (srcPort dstPort : UInt16) (seq ack : UInt32)
  (flags : UInt8) (window : UInt16)

/-- What is written when the option block and the buffer are large enough. -/
theorem tcpBuildSegment_eq (h4 : options.length%4 = 0) (h40 : options.length ≤ 40)
    (hout : tcpHeaderMinSize+options.length+payload.length ≤ out.length) :
    tcpBuildSegment out srcPort dstPort seq ack flags window options payload =
      (tcpFixedHeader srcPort dstPort seq ack (tcpHeaderMinSize+options.length) flags window++
        options++payload++out.drop (tcpHeaderMinSize+options.length+payload.length),
        tcpHeaderMinSize+options.length+payload.length) := by
  have hopt : ¬(options.length%4 ≠ 0 ∨ 40 < options.length) := by omega
  simp only [tcpBuildSegment,hopt,if_false,Nat.not_lt.mpr hout]

/-- The bytes written, without the rest of the buffer. -/
theorem tcpBuildSegment_take (h4 : options.length%4 = 0) (h40 : options.length ≤ 40)
    (hout : tcpHeaderMinSize+options.length+payload.length ≤ out.length) :
    let r := tcpBuildSegment out srcPort dstPort seq ack flags window options payload
    r.2 = tcpHeaderMinSize+options.length+payload.length ∧ r.1.take r.2 =
      tcpFixedHeader srcPort dstPort seq ack (tcpHeaderMinSize+options.length) flags window++
        options++payload := by
  rw [tcpBuildSegment_eq srcPort dstPort seq ack flags window h4 h40 hout]
  refine ⟨rfl,List.take_left' ?_⟩
  simp only [List.length_append,length_tcpFixedHeader]

end Build

/-- The nibble holds every header length up to sixty bytes. -/
theorem dataOff_byte {n : ℕ} (h4 : n%4 = 0) (h : n ≤ 40) :
    UInt8.ofNat (((tcpHeaderMinSize+n)/4) <<< 4) >>> 4 = UInt8.ofNat (5+n/4) := by
  have hk : (tcpHeaderMinSize+n)/4 = 5+n/4 := by
    simp only [tcpHeaderMinSize]
    omega
  rw [hk]
  obtain ⟨k,hk'⟩ : ∃ k, n/4 = k := ⟨_,rfl⟩
  have : k ≤ 10 := by omega
  rw [hk']
  interval_cases k <;> rfl

/-- A byte with nothing in its low nibble is its high nibble moved back. -/
theorem byte_of_nibble {b : UInt8} (h : b &&& 0x0F = 0) :
    UInt8.ofNat ((b >>> 4).toNat <<< 4) = b := by
  have hb := b.toNat_lt
  have hlow : b.toNat%16 = 0 := by
    have := congrArg UInt8.toNat h
    rw [← Nat.and_two_pow_sub_one_eq_mod b.toNat 4]
    exact this
  rw [← UInt8.toNat_inj,UInt8.toNat_ofNat',UInt8.toNat_shiftRight]
  simp only [UInt8.reduceToNat,Nat.shiftLeft_eq,Nat.shiftRight_eq_div_pow,Nat.reduceMod,
    Nat.reducePow]
  omega

theorem flags_and_of_lt {b : UInt8} (h : b < 64) : b &&& 0x3F = b := by
  rw [← UInt8.toNat_inj]
  change b.toNat &&& (2^6-1) = b.toNat
  rw [Nat.and_two_pow_sub_one_eq_mod]
  exact Nat.mod_eq_of_lt h

theorem flags_and_of_reserved {b : UInt8} (h : b &&& 0xC0 = 0) : b &&& 0x3F = b := by
  have hbits : ∀ v : BitVec 8, v &&& 0xC0#8 = 0#8 → v &&& 0x3F#8 = v := by decide
  exact UInt8.eq_of_toBitVec_eq (hbits b.toBitVec (congrArg UInt8.toBitVec h))

/-- The bits of the header that `tcpParse` does not return. -/
def ReservedZero (packet : List UInt8) : Prop :=
  packet.getD 12 0 &&& 0x0F = 0 ∧ packet.getD 13 0 &&& 0xC0 = 0

instance (packet : List UInt8) : Decidable (ReservedZero packet) :=
  inferInstanceAs (Decidable (_ ∧ _))

/-- Parsing what was built. -/
theorem tcpParse_build (srcPort dstPort : UInt16) (seq ack : UInt32) {flags : UInt8}
    (window : UInt16) {options payload : List UInt8} (hflags : flags < 64)
    (h4 : options.length%4 = 0) (h40 : options.length ≤ 40) :
    tcpParse (tcpFixedHeader srcPort dstPort seq ack (tcpHeaderMinSize+options.length) flags
        window++options++payload) =
      some ({ srcPort := srcPort, dstPort := dstPort, seq := seq, ack := ack, flags := flags
              window := window, options := options
              dataOff := UInt8.ofNat (5+options.length/4), chksum := 0, urgent := 0 },
        payload) := by
  have hfixed := length_tcpFixedHeader srcPort dstPort seq ack (tcpHeaderMinSize+options.length)
    flags window
  have hbyte : ((tcpFixedHeader srcPort dstPort seq ack (tcpHeaderMinSize+options.length)
      flags window++options++payload).getD 12 0) >>> 4 = UInt8.ofNat (5+options.length/4) :=
    dataOff_byte h4 h40
  have hoff : (UInt8.ofNat (5+options.length/4)).toNat = 5+options.length/4 :=
    UInt8.toNat_ofNat_of_lt' (by simp only [UInt8.size]; omega)
  have hmin : ¬UInt8.ofNat (5+options.length/4) < 5 := by
    rw [UInt8.lt_iff_toNat_lt,hoff]
    simp only [UInt8.reduceToNat]
    omega
  have hhdr : (5+options.length/4)*4 = tcpHeaderMinSize+options.length := by
    simp only [tcpHeaderMinSize]
    omega
  have hfit : ¬(tcpHeaderMaxSize < tcpHeaderMinSize+options.length ∨
      tcpHeaderMinSize+options.length+payload.length < tcpHeaderMinSize+options.length) := by
    simp only [tcpHeaderMaxSize,tcpHeaderMinSize]
    omega
  have hshort : ¬tcpHeaderMinSize+options.length+payload.length < tcpHeaderMinSize := by omega
  have hopts : (((tcpFixedHeader srcPort dstPort seq ack (tcpHeaderMinSize+options.length)
      flags window++options++payload).drop tcpHeaderMinSize).take options.length) = options := by
    rw [List.append_assoc,List.drop_left' hfixed,List.take_left]
  have hpay : (tcpFixedHeader srcPort dstPort seq ack (tcpHeaderMinSize+options.length)
      flags window++options++payload).drop (tcpHeaderMinSize+options.length) = payload :=
    List.drop_left' (by rw [List.length_append,hfixed])
  unfold tcpParse
  simp only [List.length_append,hfixed,hshort,if_false,hbyte,hmin,hoff,hhdr,hfit,
    Nat.add_sub_cancel_left,hopts,hpay]
  -- the fixed fields are read at literal positions of the twenty bytes
  congr 4
  · exact word16_bytes16 srcPort
  · exact word16_bytes16 dstPort
  · exact word32_bytes32 seq
  · exact word32_bytes32 ack
  · change (flags &&& 0x3F) &&& 0x3F = flags
    rw [flags_and_of_lt hflags,flags_and_of_lt hflags]
  · exact word16_bytes16 window
  · change word16 0 0 = 0
    decide
  · change word16 0 0 = 0
    decide

/-- A packet of at least twenty bytes. -/
theorem exists_fixed {packet : List UInt8} (h : ¬packet.length < tcpHeaderMinSize) :
    ∃ b0 b1 b2 b3 b4 b5 b6 b7 b8 b9 b10 b11 b12 b13 b14 b15 b16 b17 b18 b19 rest,
      packet = [b0,b1,b2,b3,b4,b5,b6,b7,b8,b9,b10,b11,b12,b13,b14,b15,b16,b17,b18,b19]++rest := by
  have hlen : (packet.take 20).length = 20 := by
    rw [List.length_take]
    simp only [tcpHeaderMinSize] at h
    omega
  match hp : packet.take 20, hlen with
  | [b0,b1,b2,b3,b4,b5,b6,b7,b8,b9,b10,b11,b12,b13,b14,b15,b16,b17,b18,b19], _ =>
    refine ⟨b0,b1,b2,b3,b4,b5,b6,b7,b8,b9,b10,b11,b12,b13,b14,b15,b16,b17,b18,b19,
      packet.drop 20,?_⟩
    rw [← hp,List.take_append_drop]

/-- Building from what was parsed. -/
theorem tcpFixedHeader_of_parse {packet : List UInt8} {h : TCPWireHeader} {payload : List UInt8}
    (hp : tcpParse packet = some (h,payload)) (hres : ReservedZero packet)
    (hsum : h.chksum = 0) (hurg : h.urgent = 0) :
    h.options.length%4 = 0 ∧ h.options.length ≤ 40 ∧
      tcpFixedHeader h.srcPort h.dstPort h.seq h.ack (tcpHeaderMinSize+h.options.length) h.flags
        h.window++h.options++payload = packet := by
  unfold tcpParse at hp
  split at hp
  · contradiction
  next hlong =>
  obtain ⟨b0,b1,b2,b3,b4,b5,b6,b7,b8,b9,b10,b11,b12,b13,b14,b15,b16,b17,b18,b19,rest,rfl⟩ :=
    exists_fixed hlong
  obtain ⟨hr12,hr13⟩ := hres
  change b13 &&& 0xC0 = 0 at hr13
  simp only at hp
  split at hp
  · contradiction
  next hmin =>
  split at hp
  · contradiction
  next hfit =>
  cases hp
  change ¬b12 >>> 4 < 5 at hmin
  change ¬(60 < (b12 >>> 4).toNat*4 ∨ rest.length+20 < (b12 >>> 4).toNat*4) at hfit
  change word16 b16 b17 = 0 at hsum
  change word16 b18 b19 = 0 at hurg
  change (rest.take ((b12 >>> 4).toNat*4-20)).length%4 = 0 ∧
    (rest.take ((b12 >>> 4).toNat*4-20)).length ≤ 40 ∧
    tcpFixedHeader (word16 b0 b1) (word16 b2 b3) (word32 b4 b5 b6 b7) (word32 b8 b9 b10 b11)
      (20+(rest.take ((b12 >>> 4).toNat*4-20)).length) (b13 &&& 0x3F) (word16 b14 b15)++
      rest.take ((b12 >>> 4).toNat*4-20)++List.drop ((b12 >>> 4).toNat*4) _ = _
  obtain ⟨k,hk⟩ : ∃ k, (b12 >>> 4).toNat = 5+k := by
    rw [UInt8.lt_iff_toNat_lt] at hmin
    simp only [UInt8.reduceToNat] at hmin
    exact ⟨(b12 >>> 4).toNat-5,by omega⟩
  have hopt : (5+k)*4-20 = 4*k := by omega
  have htake : (rest.take (4*k)).length = 4*k := by
    rw [List.length_take]
    omega
  have hdrop : (5+k)*4 = 20+4*k := by omega
  have hb12 : UInt8.ofNat (((20+4*k)/4) <<< 4) = b12 := by
    rw [show (20+4*k)/4 = (b12 >>> 4).toNat by omega]
    exact byte_of_nibble hr12
  rw [hk,hopt,htake,hdrop]
  refine ⟨by omega,by omega,?_⟩
  have hzero16 := bytes16_word16 b16 b17
  have hzero18 := bytes16_word16 b18 b19
  rw [hsum] at hzero16
  rw [hurg] at hzero18
  rw [tcpFixedHeader,bytes16_word16,bytes16_word16,bytes32_word32,bytes32_word32,bytes16_word16,
    hb12,flags_and_of_reserved hr13,flags_and_of_reserved hr13,← List.drop_drop]
  change [b0,b1,b2,b3,b4,b5,b6,b7,b8,b9,b10,b11,b12,b13,b14,b15]++(bytes16 0++bytes16 0)++
    rest.take (4*k)++rest.drop (4*k) = _
  rw [congrArg₂ (·++·) hzero16 hzero18,List.append_assoc,List.take_append_drop]
  rfl

/-- `tcpParse` and `tcpBuildSegment` undo each other: every field and the payload come back
from the bytes written, and every accepted packet without reserved bits, checksum and urgent
pointer is written again byte for byte. -/
theorem tcp_codec_inverse :
    (∀ (out : List UInt8) (srcPort dstPort : UInt16) (seq ack : UInt32) (flags : UInt8)
        (window : UInt16) (options payload : List UInt8),
      flags < 64 → options.length%4 = 0 → options.length ≤ 40 →
      tcpHeaderMinSize+options.length+payload.length ≤ out.length →
      let r := tcpBuildSegment out srcPort dstPort seq ack flags window options payload
      r.2 = tcpHeaderMinSize+options.length+payload.length ∧
      tcpParse (r.1.take r.2) =
        some ({ srcPort := srcPort, dstPort := dstPort, seq := seq, ack := ack, flags := flags
                window := window, options := options
                dataOff := UInt8.ofNat (5+options.length/4), chksum := 0, urgent := 0 },
          payload)) ∧
    (∀ (packet : List UInt8) (h : TCPWireHeader) (payload out : List UInt8),
      tcpParse packet = some (h,payload) → ReservedZero packet → h.chksum = 0 → h.urgent = 0 →
      packet.length ≤ out.length →
      let r := tcpBuildSegment out h.srcPort h.dstPort h.seq h.ack h.flags h.window h.options
        payload
      r.2 = packet.length ∧ r.1.take r.2 = packet) := by
  constructor
  · intro out srcPort dstPort seq ack flags window options payload hflags h4 h40 hout
    obtain ⟨hn,htake⟩ := tcpBuildSegment_take srcPort dstPort seq ack flags window h4 h40 hout
    refine ⟨hn,?_⟩
    rw [htake]
    exact tcpParse_build srcPort dstPort seq ack window hflags h4 h40
  · intro packet h payload out hp hres hsum hurg hout
    obtain ⟨h4,h40,heq⟩ := tcpFixedHeader_of_parse hp hres hsum hurg
    have hlen : tcpHeaderMinSize+h.options.length+payload.length = packet.length := by
      rw [← heq]
      simp only [List.length_append,length_tcpFixedHeader]
    obtain ⟨hn,htake⟩ := tcpBuildSegment_take h.srcPort h.dstPort h.seq h.ack h.flags h.window
      h4 h40 (hlen.trans_le hout)
    exact ⟨hn.trans hlen,htake.trans heq⟩

/-- A SYN with an MSS option, built and parsed, and parsed and built. -/
theorem tcp_codec_inverse_syn :
    let packet : List UInt8 := [0x12,0x34,0,80,0xDE,0xAD,0xBE,0xEF,0,0,0,7,0x60,2,0xFF,0xFE,0,0,0,0,
      2,4,5,0xB4,1,2]
    let r := tcpBuildSegment (List.replicate 30 0xEE) 0x1234 80 0xDEADBEEF 7 tcpFlagSYN 0xFFFE
      [2,4,5,0xB4] [1,2]
    r.2 = 26 ∧ (tcpParse (r.1.take r.2)).map (·.2) = some [1,2] ∧ r.1.take r.2 = packet := by
  intro packet r
  have hbuilt := tcp_codec_inverse.1 (List.replicate 30 0xEE) 0x1234 80 0xDEADBEEF 7
    tcpFlagSYN 0xFFFE [2,4,5,0xB4] [1,2] (by decide) (by decide) (by decide) (by decide)
  have hparsed : tcpParse packet = some (
      { srcPort := 0x1234, dstPort := 80, seq := 0xDEADBEEF, ack := 7, flags := tcpFlagSYN
        window := 0xFFFE, options := [2,4,5,0xB4], dataOff := 6, chksum := 0, urgent := 0 },
      [1,2]) := by decide
  have hagain := tcp_codec_inverse.2 packet _ _ (List.replicate 30 0xEE) hparsed (by decide) rfl rfl
    (by decide)
  exact ⟨hbuilt.1,congrArg (Option.map (·.2)) hbuilt.2,hagain.2⟩

end Gooos
