import Gooos.Lib.BigEndian

/-!
# Ones' complement sums

The sum of the 16-bit words of a byte string in a 32-bit accumulator, its end-around carry
and what the folded value says about the words.
-/

namespace OnesSum

open BigEndian
open UInt32 (reduceToNat toNat_add)

/-- The summation loop, from the accumulator `sum`; an odd last byte is a high half. -/
def sumWords : UInt32 → List UInt8 → UInt32
  | sum, hi :: lo :: rest => sumWords (sum+(hi.toUInt32 <<< 8 ||| lo.toUInt32)) rest
  | sum, [hi] => sum+hi.toUInt32 <<< 8
  | sum, [] => sum

theorem toNat_carry (sum : UInt32) :
    ((sum &&& (0xFFFF : UInt32))+(sum >>> 16)).toNat = sum.toNat%65536+sum.toNat/65536 := by
  have hs := sum.toNat_lt
  have hlow : (sum &&& (0xFFFF : UInt32)).toNat = sum.toNat%65536 := by
    rw [UInt32.toNat_and]
    exact Nat.and_two_pow_sub_one_eq_mod sum.toNat 16
  have hhigh : (sum >>> 16).toNat = sum.toNat/65536 := by
    rw [UInt32.toNat_shiftRight]
    simp only [reduceToNat,Nat.shiftRight_eq_div_pow,Nat.reduceMod,Nat.reducePow]
  rw [toNat_add,hlow,hhigh]
  omega

theorem carry_eq_zero_iff (sum : UInt32) : sum >>> 16 = 0 ↔ sum.toNat < 65536 := by
  rw [← UInt32.toNat_inj,UInt32.toNat_shiftRight]
  simp only [reduceToNat,Nat.shiftRight_eq_div_pow,Nat.reduceMod,Nat.reducePow]
  omega

/-- The end-around carry loop. -/
def fold (sum : UInt32) : UInt32 :=
  if sum >>> 16 ≠ 0 then fold ((sum &&& (0xFFFF : UInt32))+(sum >>> 16)) else sum
termination_by sum.toNat
decreasing_by
  rename_i h
  rw [ne_eq,carry_eq_zero_iff] at h
  rw [toNat_carry]
  omega

/-- Carrying keeps the sum modulo `65535`, and zero stands for zero only. -/
theorem toNat_fold (sum : UInt32) :
    (fold sum).toNat = if sum.toNat = 0 then 0 else (sum.toNat-1)%65535+1 := by
  induction sum using fold.induct with
  | case1 sum h ih =>
    rw [fold,if_pos h,ih,toNat_carry]
    rw [ne_eq,carry_eq_zero_iff] at h
    rw [if_neg (by omega),if_neg (by omega)]
    omega
  | case2 sum h =>
    rw [fold,if_neg h]
    have hlt := (carry_eq_zero_iff sum).mp (not_not.mp h)
    split
    · assumption
    · omega

/-- The sum of the words as a natural number. -/
def total : List UInt8 → ℕ
  | hi :: lo :: rest => hi.toNat*256+lo.toNat+total rest
  | [hi] => hi.toNat*256
  | [] => 0

theorem total_le (bs : List UInt8) : total bs ≤ (bs.length+1)/2*65535 := by
  induction bs using total.induct with
  | case1 hi lo rest ih =>
    have hhi := hi.toNat_lt
    have hlo := lo.toNat_lt
    simp only [total,List.length_cons]
    omega
  | case2 hi =>
    have hhi := hi.toNat_lt
    simp only [total,List.length_singleton]
    omega
  | case3 => rfl

/-- Without overflow the accumulator holds the natural sum. -/
theorem toNat_sumWords (sum : UInt32) (bs : List UInt8) (h : sum.toNat+total bs < 2^32) :
    (sumWords sum bs).toNat = sum.toNat+total bs := by
  have hshift (hi : UInt8) : (hi.toUInt32 <<< 8).toNat = hi.toNat <<< 8 := by
    have hh := hi.toNat_lt
    rw [UInt32.toNat_shiftLeft,UInt8.toNat_toUInt32]
    simp only [reduceToNat,Nat.shiftLeft_eq,Nat.reduceMod,Nat.reducePow]
    omega
  induction sum, bs using sumWords.induct with
  | case1 sum hi lo rest ih =>
    have hword : (hi.toUInt32 <<< 8 ||| lo.toUInt32).toNat = hi.toNat*256+lo.toNat := by
      rw [UInt32.toNat_or,hshift,UInt8.toNat_toUInt32]
      exact lor_eq_add 8 lo.toNat_lt
    have hsum : (sum+(hi.toUInt32 <<< 8 ||| lo.toUInt32)).toNat =
        sum.toNat+(hi.toNat*256+lo.toNat) := by
      rw [total] at h
      rw [toNat_add,hword]
      omega
    rw [total] at h ⊢
    rw [sumWords,ih (by omega),hsum]
    omega
  | case2 sum hi =>
    rw [total] at h ⊢
    rw [sumWords,toNat_add,hshift,Nat.shiftLeft_eq]
    omega
  | case3 sum => rfl

end OnesSum
