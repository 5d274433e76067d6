import Mathlib

/-!
# Byte spans of a 64-bit address space

The addresses of `n` bytes from a pointer, as a copy loop visits them, and the
accesses of such loops. Addresses wrap at the top of the address space.
-/

namespace Span

/-- The addresses `p`, `p+1`, … of `n` bytes. -/
def addrs (p : UInt64) : ℕ → List UInt64
  | 0 => []
  | n+1 => p :: addrs (p+1) n

theorem mem_addrs {a p : UInt64} {n : ℕ} :
    a ∈ addrs p n ↔ ∃ i, i < n ∧ a = p+UInt64.ofNat i := by
  induction n generalizing p with
  | zero => simp [addrs]
  | succ n ih =>
    rw [addrs,List.mem_cons,ih]
    have hshift (i : ℕ) : p+1+UInt64.ofNat i = p+UInt64.ofNat (i+1) := by
      rw [UInt64.ofNat_add,UInt64.add_assoc,UInt64.add_comm 1]
      rfl
    constructor
    · rintro (rfl | ⟨i,hi,rfl⟩)
      · exact ⟨0,Nat.succ_pos n,by simp⟩
      · exact ⟨i+1,Nat.succ_lt_succ hi,hshift i⟩
    · rintro ⟨i,hi,rfl⟩
      cases i with
      | zero => exact .inl (by simp)
      | succ i => exact .inr ⟨i,Nat.lt_of_succ_lt_succ hi,(hshift i).symm⟩

/-- A span that starts `k` bytes into another and ends within it. -/
theorem addrs_sub {p : UInt64} {k m n : ℕ} (h : k+m ≤ n) :
    addrs (p+UInt64.ofNat k) m ⊆ addrs p n := by
  intro a ha
  obtain ⟨i,hi,rfl⟩ := mem_addrs.mp ha
  refine mem_addrs.mpr ⟨k+i,by omega,?_⟩
  rw [UInt64.ofNat_add,UInt64.add_assoc]

theorem addrs_mono {p : UInt64} {m n : ℕ} (h : m ≤ n) : addrs p m ⊆ addrs p n := by
  have hsub := addrs_sub (p := p) (k := 0) (show 0+m ≤ n by omega)
  rwa [show UInt64.ofNat 0 = 0 from rfl,UInt64.add_zero] at hsub

theorem mem_addrs_self {p : UInt64} {n : ℕ} (h : 0 < n) : p ∈ addrs p n :=
  mem_addrs.mpr ⟨0,h,by simp⟩

/-- A non-empty span lies in the half-open window exactly if it starts there and does not
run past the end, as numbers. -/
theorem addrs_within {lo hi p : UInt64} {n : ℕ} (hn : 0 < n) :
    (∀ a ∈ addrs p n, lo ≤ a ∧ a < hi) ↔ lo ≤ p ∧ p.toNat+n ≤ hi.toNat := by
  have htop := hi.toNat_lt
  constructor
  · intro h
    obtain ⟨hlo,hp⟩ := h p (mem_addrs_self hn)
    refine ⟨hlo,?_⟩
    by_contra hend
    -- a longer span has the first address past the window among its own
    have hp := UInt64.lt_iff_toNat_lt.mp hp
    have hmem : hi ∈ addrs p n := by
      refine mem_addrs.mpr ⟨hi.toNat-p.toNat,by omega,?_⟩
      apply UInt64.toNat_inj.mp
      rw [UInt64.toNat_add,UInt64.toNat_ofNat']
      omega
    exact absurd (h hi hmem).2 (UInt64.lt_irrefl hi)
  · rintro ⟨hlo,hend⟩ a ha
    obtain ⟨i,hin,rfl⟩ := mem_addrs.mp ha
    have hlo := UInt64.le_iff_toNat_le.mp hlo
    have hsum : (p+UInt64.ofNat i).toNat = p.toNat+i := by
      rw [UInt64.toNat_add,UInt64.toNat_ofNat']
      omega
    rw [UInt64.le_iff_toNat_le,UInt64.lt_iff_toNat_lt,hsum]
    omega

/-- One byte read or written through a pointer. -/
inductive Access where
  | read (addr : UInt64)
  | write (addr : UInt64) (byte : UInt8)
  deriving DecidableEq, Repr

def Access.addr : Access → UInt64
  | .read a => a
  | .write a _ => a

/-- A loop that reads `n` bytes. -/
def copyIn (p : UInt64) (n : ℕ) : List Access :=
  (addrs p n).map .read

/-- A loop that writes the bytes one after the other. -/
def copyOut (p : UInt64) : List UInt8 → List Access
  | [] => []
  | b::bs => .write p b :: copyOut (p+1) bs

/-- The same loop, asking before each byte whether it may go on; the answer says
whether all bytes were written. -/
def copyOutWhile (ok : UInt64 → Bool) (p : UInt64) : List UInt8 → List Access × Bool
  | [] => ([],true)
  | b::bs =>
    if ok p then
      let (rest,done) := copyOutWhile ok (p+1) bs
      (.write p b :: rest,done)
    else ([],false)

@[simp]
theorem copyIn_addrs (p : UInt64) (n : ℕ) : (copyIn p n).map Access.addr = addrs p n := by
  rw [copyIn,List.map_map]
  exact List.map_id _

@[simp]
theorem copyOut_addrs (p : UInt64) (bs : List UInt8) :
    (copyOut p bs).map Access.addr = addrs p bs.length := by
  induction bs generalizing p with
  | nil => rfl
  | cons b bs ih =>
    show p :: (copyOut (p+1) bs).map Access.addr = p :: addrs (p+1) bs.length
    rw [ih]

theorem copyOutWhile_addrs (ok : UInt64 → Bool) (p : UInt64) (bs : List UInt8) :
    (copyOutWhile ok p bs).1.map Access.addr ⊆ addrs p bs.length := by
  induction bs generalizing p with
  | nil => exact List.Subset.refl _
  | cons b bs ih =>
    rw [copyOutWhile]
    by_cases hok : ok p
    · rw [if_pos hok]
      show p :: (copyOutWhile ok (p+1) bs).1.map Access.addr ⊆ p :: addrs (p+1) bs.length
      exact List.cons_subset_cons p (ih (p+1))
    · rw [if_neg hok]
      exact List.nil_subset _

@[simp]
theorem copyIn_eq_nil {p : UInt64} {n : ℕ} : copyIn p n = [] ↔ n = 0 := by
  cases n <;> simp [copyIn,addrs]

end Span
