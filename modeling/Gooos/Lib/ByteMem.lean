import Mathlib

/-!
# Words in a mapped byte memory

The low 48 bits of a virtual address lead to a physical byte, no two of them to the same one.
Words are eight bytes, the lowest first, and each byte is looked up on its own.
-/

namespace ByteMem

open Function
open BitVec (toNat_ofNat)

abbrev Addr := BitVec 64
abbrev Word := BitVec 64

/-- The bits of an address that are looked up. -/
def low (a : Addr) : BitVec 48 := a.setWidth 48

theorem low_add (a b : Addr) : low (a+b) = low a+low b := BitVec.setWidth_add _ _ (by decide)

theorem toNat_low_ofNat {i : ℕ} (hi : i < 2^48) : (low (BitVec.ofNat 64 i)).toNat = i := by
  rw [low,BitVec.toNat_setWidth,toNat_ofNat]
  omega

structure Mem where
  walk : BitVec 48 → Option ℕ
  inj : ∀ a b p, walk a = some p → walk b = some p → a = b
  phys : ℕ → BitVec 8

namespace Mem

def read (m : Mem) (a : Addr) : Option (BitVec 8) := (m.walk (low a)).map m.phys

def setPhys (m : Mem) (p : ℕ) (b : BitVec 8) : Mem := { m with phys := update m.phys p b }

/-- Byte `i` of a word. -/
def byteOf (v : Word) (i : ℕ) : BitVec 8 := v.extractLsb' (8*i) 8

/-- The word that the first `n` bytes from `a` on make. -/
def readBytes (m : Mem) (a : Addr) : ℕ → Option Word
  | 0 => some 0
  | n+1 =>
    match m.readBytes a n with
    | none => none
    | some v => (m.read (a+BitVec.ofNat 64 n)).map fun b =>
        v ||| (BitVec.setWidth 64 b <<< (8*n : ℕ) : Word)

/-- Write the first `n` bytes of a word; the bytes before an unmapped one are written. -/
def writeBytes (m : Mem) (a : Addr) (v : Word) : ℕ → Bool × Mem
  | 0 => (true,m)
  | n+1 =>
    match m.writeBytes a v n with
    | (false,m) => (false,m)
    | (true,m) =>
      match m.walk (low (a+BitVec.ofNat 64 n)) with
      | none => (false,m)
      | some p => (true,m.setPhys p (byteOf v n))

def readU64 (m : Mem) (a : Addr) : Option Word := m.readBytes a 8

def writeU64 (m : Mem) (a : Addr) (v : Word) : Bool × Mem := m.writeBytes a v 8

/-- Push words one below the other. -/
def pushWords (m : Mem) (a : Addr) : List Word → Bool × Mem
  | [] => (true,m)
  | w::ws =>
    match m.writeU64 (a-8) w with
    | (false,m) => (false,m)
    | (true,m) => m.pushWords (a-8) ws

variable {m m' : Mem} {a x : Addr} {v : Word} {n : ℕ}

/-! ### Bytes -/

theorem read_setPhys {p : ℕ} (ha : m.walk (low a) = some p) (b : BitVec 8) :
    (m.setPhys p b).read x = if low x = low a then some b else m.read x := by
  rw [read,read]
  change (m.walk (low x)).map (update m.phys p b) = _
  by_cases hx : low x = low a
  · rw [hx,if_pos rfl,ha,Option.map_some,update_self]
  · rw [if_neg hx]
    refine Option.map_congr fun q hq => update_of_ne ?_ ..
    rintro rfl
    exact hx (m.inj _ _ _ hq ha)

/-- Addresses that are not written keep their byte. -/
theorem read_writeBytes_of_ne (hx : ∀ i < n, low x ≠ low (a+BitVec.ofNat 64 i)) :
    (m.writeBytes a v n).2.read x = m.read x := by
  induction n with
  | zero => rfl
  | succ n ih =>
    have ih := ih fun i hi => hx i (Nat.lt_succ_of_lt hi)
    rw [writeBytes]
    split
    · rename_i h
      rw [h] at ih
      exact ih
    · rename_i h
      rw [h] at ih
      split
      · exact ih
      · rename_i p hp
        rw [read_setPhys hp,if_neg (hx n (Nat.lt_succ_self n))]
        exact ih

/-- What has been written is read. -/
theorem read_writeBytes (hn : n ≤ 8) (hw : (m.writeBytes a v n).1 = true) {i : ℕ} (hi : i < n) :
    (m.writeBytes a v n).2.read (a+BitVec.ofNat 64 i) = some (byteOf v i) := by
  induction n with
  | zero => omega
  | succ n ih =>
    rw [writeBytes] at hw ⊢
    cases h : m.writeBytes a v n with
    | mk b m₁ =>
      rw [h] at hw ih
      cases b with
      | false => cases hw
      | true =>
        dsimp only at hw ⊢
        cases hp : m₁.walk (low (a+BitVec.ofNat 64 n)) with
        | none =>
          rw [hp] at hw
          cases hw
        | some p =>
          dsimp only
          rw [read_setPhys hp]
          by_cases hin : i = n
          · rw [hin,if_pos rfl]
          · have hne : low (a+BitVec.ofNat 64 i) ≠ low (a+BitVec.ofNat 64 n) := by
              intro heq
              rw [low_add,low_add] at heq
              have := congrArg BitVec.toNat (add_left_cancel heq)
              rw [toNat_low_ofNat (by omega),toNat_low_ofNat (by omega)] at this
              exact hin this
            rw [if_neg hne]
            exact ih (by omega) rfl (by omega)

/-! ### Words -/

theorem readBytes_congr (h : ∀ i < n, m'.read (a+BitVec.ofNat 64 i) = m.read (a+BitVec.ofNat 64 i)) :
    m'.readBytes a n = m.readBytes a n := by
  induction n with
  | zero => rfl
  | succ n ih =>
    rw [readBytes,readBytes,ih fun i hi => h i (Nat.lt_succ_of_lt hi),h n (Nat.lt_succ_self n)]

/-- Bytes of a word make the word again, as far as they go. -/
theorem readBytes_of_bytes (h : ∀ i < n, m.read (a+BitVec.ofNat 64 i) = some (byteOf v i)) :
    ∃ w, m.readBytes a n = some w ∧ ∀ j, w.getLsbD j = (decide (j < 8*n) && v.getLsbD j) := by
  induction n with
  | zero => exact ⟨0,rfl,fun j => by simp⟩
  | succ n ih =>
    obtain ⟨w,hw,hbits⟩ := ih fun i hi => h i (Nat.lt_succ_of_lt hi)
    refine ⟨_,by rw [readBytes,hw]; dsimp only; rw [h n (Nat.lt_succ_self n),Option.map_some],
      fun j => ?_⟩
    rw [BitVec.getLsbD_or,hbits,BitVec.getLsbD_shiftLeft,BitVec.getLsbD_setWidth,byteOf,
      BitVec.getLsbD_extractLsb']
    by_cases hj : j < 64
    · by_cases hlow : j < 8*n
      · simp [hlow,show j < 8*(n+1) by omega]
      · by_cases hhigh : j < 8*(n+1)
        · have h₁ : j-8*n < 64 := by omega
          have h₂ : j-8*n < 8 := by omega
          have h₃ : 8*n+(j-8*n) = j := by omega
          simp [hj,hlow,hhigh,h₁,h₂,h₃]
        · have h₂ : ¬j-8*n < 8 := by omega
          simp [hlow,hhigh,h₂]
    · have : v.getLsbD j = false := BitVec.getLsbD_of_ge v j (by omega)
      simp [hj,this]

theorem readU64_of_bytes (h : ∀ i < 8, m.read (a+BitVec.ofNat 64 i) = some (byteOf v i)) :
    m.readU64 a = some v := by
  obtain ⟨w,hw,hbits⟩ := readBytes_of_bytes h
  rw [readU64,hw]
  refine congrArg some (BitVec.eq_of_getLsbD_eq fun j hj => ?_)
  rw [hbits,decide_eq_true (by omega),Bool.true_and]

theorem readU64_congr (h : ∀ i < 8, m'.read (a+BitVec.ofNat 64 i) = m.read (a+BitVec.ofNat 64 i)) :
    m'.readU64 a = m.readU64 a := readBytes_congr h

theorem readU64_writeU64 (hw : (m.writeU64 a v).1 = true) : (m.writeU64 a v).2.readU64 a = some v :=
  readU64_of_bytes fun _ hi => read_writeBytes le_rfl hw hi

/-! ### Pushed words -/

theorem offset_ne {i j : ℕ} (hi : i < 8) (hj : j+8 < 2^48) :
    low (a+BitVec.ofNat 64 j) ≠ low (a-8+BitVec.ofNat 64 i) := by
  intro heq
  rw [sub_eq_add_neg,add_assoc,low_add,low_add,low_add] at heq
  have hval := congrArg BitVec.toNat (add_left_cancel heq)
  rw [BitVec.toNat_add,toNat_low_ofNat (by omega),toNat_low_ofNat (by omega)] at hval
  have hneg : (low (-8)).toNat = 2^48-8 := by decide
  rw [hneg] at hval
  omega

theorem offset_sub (j : ℕ) : a+BitVec.ofNat 64 j = a-8+BitVec.ofNat 64 (j+8) := by
  rw [BitVec.ofNat_add]
  change _ = a-8+(BitVec.ofNat 64 j+8)
  ring

/-- Pushing leaves what is not below the stack pointer. -/
theorem read_pushWords {ws : List Word} {j : ℕ} (hj : j+8*ws.length < 2^48) :
    (m.pushWords a ws).2.read (a+BitVec.ofNat 64 j) = m.read (a+BitVec.ofNat 64 j) := by
  induction ws generalizing m a j with
  | nil => rfl
  | cons w ws ih =>
    rw [List.length_cons] at hj
    have hwrite : (m.writeU64 (a-8) w).2.read (a+BitVec.ofNat 64 j) = m.read (a+BitVec.ofNat 64 j) :=
      read_writeBytes_of_ne fun i hi => offset_ne hi (by omega)
    rw [pushWords]
    split
    · rename_i m₁ h
      rwa [h] at hwrite
    · rename_i m₁ h
      rw [h] at hwrite
      rw [offset_sub,ih (by omega),← offset_sub]
      exact hwrite

/-- Every word is found where it was pushed. -/
theorem readU64_pushWords {ws : List Word} (hlen : 8*ws.length+8 < 2^48)
    (hp : (m.pushWords a ws).1 = true) (k : ℕ) (hk : k < ws.length) :
    (m.pushWords a ws).2.readU64 (a-BitVec.ofNat 64 (8*(k+1))) = some ws[k] := by
  induction ws generalizing m a k with
  | nil => cases hk
  | cons w ws ih =>
    rw [List.length_cons] at hlen hk
    rw [pushWords] at hp ⊢
    cases h : m.writeU64 (a-8) w with
    | mk b m₁ =>
      rw [h] at hp
      cases b with
      | false => cases hp
      | true =>
        dsimp only at hp ⊢
        cases k with
        | zero =>
          have hw : (m.writeU64 (a-8) w).2.readU64 (a-8) = some w :=
            readU64_writeU64 (by rw [h])
          rw [h] at hw
          change (m₁.pushWords (a-8) ws).2.readU64 (a-8) = some w
          rw [← hw]
          exact readU64_congr fun i hi => read_pushWords (by omega)
        | succ k =>
          have hadd : a-BitVec.ofNat 64 (8*(k+1+1)) = a-8-BitVec.ofNat 64 (8*(k+1)) := by
            rw [show 8*(k+1+1) = 8+8*(k+1) by omega,BitVec.ofNat_add]
            change a-(8+_) = _
            ring
          rw [hadd]
          exact ih (by omega) hp k (by omega)

end Mem

end ByteMem
