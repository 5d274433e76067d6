import Gooos.Lib.OnesSum

/-!
# ICMP echo

`icmpHandle` of `icmp.go` with `ipv4Checksum`. Whether a datagram leaves the host (a NIC, an own
address, a next hop that resolves, room in the transmit ring) is left to `ready`.
-/

namespace Gooos.Net

open BigEndian OnesSum

def icmpTypeEchoReply : UInt8 := 0
def icmpTypeEchoRequest : UInt8 := 8
def icmpHeaderSize : ℕ := 8
def ipProtoICMP : UInt8 := 1
def ipv4MaxPayload : ℕ := 1500-20

def ipv4Checksum (data : List UInt8) : UInt16 := ~~~(fold (sumWords 0 data)).toUInt16

/-- What `ipv4Send` puts on the wire, without the headers. -/
structure Datagram where
  proto : UInt8
  dstIP : UInt32
  payload : List UInt8
  deriving DecidableEq

def ipv4Send (ready : UInt32 → Bool) (proto : UInt8) (dstIP : UInt32) (payload : List UInt8) :
    Option Datagram :=
  if payload.length ≤ ipv4MaxPayload ∧ ready dstIP then some ⟨proto,dstIP,payload⟩ else none

/-- The reply to the request `inner`. -/
def echoReply (inner : List UInt8) : List UInt8 :=
  let reply := (((inner.set 0 icmpTypeEchoReply).set 1 0).set 2 0).set 3 0
  let csum := ipv4Checksum reply
  (reply.set 2 (csum >>> 8).toUInt8).set 3 (csum &&& (0xFF : UInt16)).toUInt8

def icmpHandle (ready : UInt32 → Bool) (srcIP : UInt32) (inner : List UInt8) : Option Datagram :=
  if inner.length < icmpHeaderSize then none
  else if inner[0]? ≠ some icmpTypeEchoRequest then none
  else if ipv4Checksum inner ≠ 0 then none
  else ipv4Send ready ipProtoICMP srcIP (echoReply inner)

theorem toNat_ipv4Checksum {data : List UInt8} (h : total data < 2^32) :
    (ipv4Checksum data).toNat =
      65535-if total data = 0 then 0 else (total data-1)%65535+1 := by
  have hsum : (sumWords 0 data).toNat = total data := by
    have hnat := toNat_sumWords 0 data (by rwa [UInt32.toNat_zero,Nat.zero_add])
    rwa [UInt32.toNat_zero,Nat.zero_add] at hnat
  have hfold := toNat_fold (sumWords 0 data)
  rw [hsum] at hfold
  rw [ipv4Checksum,UInt16.toNat_not,UInt32.toNat_toUInt16,hfold]
  change 65536-1-_ = _
  split <;> omega

theorem toNat_lowByte (v : UInt16) : (v &&& (0xFF : UInt16)).toUInt8 = v.toUInt8 := by
  rw [← UInt8.toNat_inj,UInt16.toNat_toUInt8,UInt16.toNat_toUInt8,UInt16.toNat_and]
  have hmask : v.toNat &&& (0xFF : UInt16).toNat = v.toNat%2^8 :=
    Nat.and_two_pow_sub_one_eq_mod v.toNat 8
  rw [hmask,Nat.mod_mod]

/-- The checksum of a string in which the checksum of the rest stands as a word. -/
theorem ipv4Checksum_filled {rest : List UInt8} (hlen : rest.length ≤ ipv4MaxPayload) :
    let csum := ipv4Checksum (0::0::0::0::rest)
    ipv4Checksum (0::0::(csum >>> 8).toUInt8::(csum &&& (0xFF : UInt16)).toUInt8::rest) = 0 := by
  intro csum
  have hle := total_le rest
  rw [ipv4MaxPayload] at hlen
  have hzero : total (0::0::0::0::rest) = total rest := by simp [total]
  have hcsum : csum.toNat = 65535-if total rest = 0 then 0 else (total rest-1)%65535+1 := by
    rw [← hzero]
    exact toNat_ipv4Checksum (by omega)
  have hword : total (0::0::(csum >>> 8).toUInt8::(csum &&& (0xFF : UInt16)).toUInt8::rest) =
      csum.toNat+total rest := by
    rw [toNat_lowByte,total,total,toNat_hi16,toNat_lo16,UInt8.toNat_zero]
    omega
  have hlt := csum.toNat_lt
  rw [← UInt16.toNat_inj,toNat_ipv4Checksum (by omega),hword,hcsum,UInt16.toNat_zero]
  -- the folded sum is `0xFFFF`, whether the rest sums to zero or not
  by_cases h : total rest = 0
  · rw [if_pos h,h]
    rfl
  · rw [if_neg h,if_neg (by omega)]
    omega

/-- An echo request of 8 to 1480 bytes with a good checksum is answered by a message of its
length with type and code zero, the request's bytes from offset 4 on and a good checksum; no
other message is answered. -/
theorem icmp_echo (ready : UInt32 → Bool) (srcIP : UInt32) (inner : List UInt8) :
    (icmpHeaderSize ≤ inner.length → inner.length ≤ ipv4MaxPayload →
      inner[0]? = some icmpTypeEchoRequest → ipv4Checksum inner = 0 → ready srcIP = true →
      ∃ reply, icmpHandle ready srcIP inner = some ⟨ipProtoICMP,srcIP,reply⟩ ∧
        reply.length = inner.length ∧ reply[0]? = some icmpTypeEchoReply ∧ reply[1]? = some 0 ∧
        reply.drop 4 = inner.drop 4 ∧ ipv4Checksum reply = 0) ∧
    (inner[0]? ≠ some icmpTypeEchoRequest ∨ ipv4Checksum inner ≠ 0 →
      icmpHandle ready srcIP inner = none) := by
  refine ⟨fun hmin hmax htype hsum hready => ?_,fun hbad => ?_⟩
  · have hlen : (echoReply inner).length = inner.length := by simp [echoReply]
    refine ⟨echoReply inner,?_,hlen,?_⟩
    · rw [icmpHandle,if_neg hmin.not_gt,if_neg (not_not.mpr htype),if_neg (not_not.mpr hsum),
        ipv4Send,if_pos ⟨hlen.trans_le hmax,hready⟩]
    · match inner, hmin, hmax with
      | _::_::_::_::rest, _, hmax =>
        refine ⟨rfl,rfl,rfl,ipv4Checksum_filled (le_trans ?_ hmax)⟩
        simp only [List.length_cons]
        omega
  · rw [icmpHandle]
    split
    · rfl
    · obtain htype | hsum := hbad
      · rw [if_pos htype]
      · rw [if_pos hsum,ite_self]

/-- Three bytes of data, so that the last word is padded. -/
theorem icmp_echo_odd : ∃ reply,
    icmpHandle (fun _ => true) 7 [8,0,0x33,0x9A,0,1,0,2,0x61,0x62,0x63] =
      some ⟨ipProtoICMP,7,reply⟩ ∧
    reply.drop 4 = [0,1,0,2,0x61,0x62,0x63] ∧ ipv4Checksum reply = 0 := by
  obtain ⟨reply,hsend,-,-,-,hdata,hsum⟩ :=
    (icmp_echo (fun _ => true) 7 [8,0,0x33,0x9A,0,1,0,2,0x61,0x62,0x63]).1
      (by decide) (by decide) rfl (by decide +kernel) rfl
  exact ⟨reply,hsend,hdata,hsum⟩

end Gooos.Net
