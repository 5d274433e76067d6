import Mathlib

/-!
# Words in network byte order

Bytes of 16- and 32-bit words, most significant first, and the words of such bytes.
-/

namespace BigEndian

/-- `uint16(a)<<8 | uint16(b)`. -/
def word16 (a b : UInt8) : UInt16 := a.toUInt16 <<< 8 ||| b.toUInt16

/-- `uint32(a)<<24 | uint32(b)<<16 | uint32(c)<<8 | uint32(d)`. -/
def word32 (a b c d : UInt8) : UInt32 :=
  a.toUInt32 <<< 24 ||| b.toUInt32 <<< 16 ||| c.toUInt32 <<< 8 ||| d.toUInt32

def bytes16 (v : UInt16) : List UInt8 := [(v >>> 8).toUInt8,v.toUInt8]

def bytes32 (v : UInt32) : List UInt8 :=
  [(v >>> 24).toUInt8,(v >>> 16).toUInt8,(v >>> 8).toUInt8,v.toUInt8]

/-- Parts that do not overlap. -/
theorem lor_eq_add {a b : ℕ} (i : ℕ) (h : b < 2^i) : a <<< i ||| b = a*2^i+b := by
  rw [← Nat.shiftLeft_add_eq_or_of_lt h,Nat.shiftLeft_eq]

theorem toNat_word16 (a b : UInt8) : (word16 a b).toNat = a.toNat*256+b.toNat := by
  have ha := a.toNat_lt
  have hb := b.toNat_lt
  have hshift : (a.toUInt16 <<< 8).toNat = a.toNat <<< 8 := by
    rw [UInt16.toNat_shiftLeft,UInt8.toNat_toUInt16]
    simp only [UInt16.reduceToNat,Nat.shiftLeft_eq,Nat.reduceMod,Nat.reducePow]
    omega
  rw [word16,UInt16.toNat_or,hshift,UInt8.toNat_toUInt16]
  exact lor_eq_add 8 hb

theorem toNat_shl32 (a : UInt8) {n : ℕ} (hn : n ≤ 24) :
    (a.toUInt32 <<< UInt32.ofNat n).toNat = a.toNat <<< n := by
  have hlt : a.toNat <<< n < 2^32 := by
    rw [Nat.shiftLeft_eq]
    calc a.toNat*2^n < 2^8*2^n := Nat.mul_lt_mul_of_pos_right a.toNat_lt (Nat.two_pow_pos n)
      _ ≤ 2^8*2^24 := Nat.mul_le_mul_left _ (Nat.pow_le_pow_right (by decide) hn)
  rw [UInt32.toNat_shiftLeft,UInt8.toNat_toUInt32,UInt32.toNat_ofNat_of_lt' (by
    simp only [UInt32.size]; omega),Nat.mod_eq_of_lt (by omega : n < 32),Nat.mod_eq_of_lt hlt]

theorem toNat_word32 (a b c d : UInt8) : (word32 a b c d).toNat =
    a.toNat*16777216+b.toNat*65536+c.toNat*256+d.toNat := by
  have hb := b.toNat_lt
  have hc := c.toNat_lt
  have hd := d.toNat_lt
  have h24 : (a.toUInt32 <<< 24).toNat = a.toNat <<< 24 := toNat_shl32 a le_rfl
  have h16 : (b.toUInt32 <<< 16).toNat = b.toNat <<< 16 := toNat_shl32 b (by decide)
  have h8 : (c.toUInt32 <<< 8).toNat = c.toNat <<< 8 := toNat_shl32 c (by decide)
  rw [word32,UInt32.toNat_or,UInt32.toNat_or,UInt32.toNat_or,h24,h16,h8,UInt8.toNat_toUInt32,
    Nat.or_assoc,Nat.or_assoc,lor_eq_add (a := c.toNat) 8 hd,
    lor_eq_add (a := b.toNat) 16 (by omega),lor_eq_add (a := a.toNat) 24 (by omega)]
  omega

theorem toNat_hi16 (v : UInt16) : ((v >>> 8).toUInt8).toNat = v.toNat/256 := by
  have hv := v.toNat_lt
  rw [UInt16.toNat_toUInt8,UInt16.toNat_shiftRight]
  simp only [UInt16.reduceToNat,Nat.shiftRight_eq_div_pow,Nat.reduceMod,Nat.reducePow]
  omega

theorem toNat_lo16 (v : UInt16) : v.toUInt8.toNat = v.toNat%256 := UInt16.toNat_toUInt8 v

/-- The bytes of a word give it back. -/
theorem word16_bytes16 (v : UInt16) : word16 (v >>> 8).toUInt8 v.toUInt8 = v := by
  rw [← UInt16.toNat_inj,toNat_word16,toNat_hi16,toNat_lo16]
  omega

/-- The word of two bytes gives them back. -/
theorem bytes16_word16 (a b : UInt8) : bytes16 (word16 a b) = [a,b] := by
  have ha := a.toNat_lt
  have hb := b.toNat_lt
  have hhi : (word16 a b >>> 8).toUInt8 = a := by
    rw [← UInt8.toNat_inj,toNat_hi16,toNat_word16]
    omega
  have hlo : (word16 a b).toUInt8 = b := by
    rw [← UInt8.toNat_inj,toNat_lo16,toNat_word16]
    omega
  rw [bytes16,hhi,hlo]

theorem toNat_byte32 (v : UInt32) (n : ℕ) (hn : n < 32) :
    ((v >>> UInt32.ofNat n).toUInt8).toNat = v.toNat/2^n%256 := by
  rw [UInt32.toNat_toUInt8,UInt32.toNat_shiftRight,UInt32.toNat_ofNat_of_lt' (by
    simp only [UInt32.size]; omega),Nat.mod_eq_of_lt hn,Nat.shiftRight_eq_div_pow]

theorem word32_bytes32 (v : UInt32) :
    word32 (v >>> 24).toUInt8 (v >>> 16).toUInt8 (v >>> 8).toUInt8 v.toUInt8 = v := by
  have hv := v.toNat_lt
  have h24 := toNat_byte32 v 24 (by decide)
  have h16 := toNat_byte32 v 16 (by decide)
  have h8 := toNat_byte32 v 8 (by decide)
  rw [← UInt32.toNat_inj,toNat_word32]
  change (v >>> 24).toUInt8.toNat = _ at h24
  change (v >>> 16).toUInt8.toNat = _ at h16
  change (v >>> 8).toUInt8.toNat = _ at h8
  rw [h24,h16,h8,UInt32.toNat_toUInt8 v]
  omega

theorem bytes32_word32 (a b c d : UInt8) : bytes32 (word32 a b c d) = [a,b,c,d] := by
  have ha := a.toNat_lt
  have hb := b.toNat_lt
  have hc := c.toNat_lt
  have hd := d.toNat_lt
  have hv := toNat_word32 a b c d
  have hbyte {n : ℕ} (hn : n < 32) {x : UInt8} (hx : (word32 a b c d).toNat/2^n%256 = x.toNat) :
      (word32 a b c d >>> UInt32.ofNat n).toUInt8 = x :=
    UInt8.toNat_inj.mp ((toNat_byte32 _ n hn).trans hx)
  have h24 : (word32 a b c d >>> 24).toUInt8 = a := hbyte (by decide : 24 < 32) (by omega)
  have h16 : (word32 a b c d >>> 16).toUInt8 = b := hbyte (by decide : 16 < 32) (by omega)
  have h8 : (word32 a b c d >>> 8).toUInt8 = c := hbyte (by decide : 8 < 32) (by omega)
  have h0 : (word32 a b c d).toUInt8 = d := by
    rw [← UInt8.toNat_inj,UInt32.toNat_toUInt8]
    omega
  rw [bytes32,h24,h16,h8,h0]

end BigEndian
