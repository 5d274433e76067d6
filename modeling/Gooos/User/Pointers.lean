import Mathlib
import Gooos.User.Handlers

/-!
# Pointer arguments

Which byte ranges a call names through its pointer arguments, when a call keeps to the
user window, and what is to be known of a handler for that.
-/

namespace Gooos.User

open Span

/-- The address is inside the user window. -/
def InWindow (a : UInt64) : Prop := userAddrMin ≤ a ∧ a < userAddrMax

instance (a : UInt64) : Decidable (InWindow a) := inferInstanceAs (Decidable (_ ∧ _))

/-- `RAX` holds a negative number. -/
def Call.failed (c : Call) : Prop := ∃ v, c.rax = some v ∧ 2^63 ≤ v.toNat

/-- The byte ranges a call names by its pointer arguments, with the lengths the handlers
clamp to. -/
def pointerArgs (f : Frame) : Sysno → List (UInt64 × UInt64)
  | .write => [(f.rsi,writeLen f.rdx)]
  | .read => [(f.rsi,textLen f.rdx)]
  | .exec | .spawn => [(f.rdi,textLen f.rsi),(f.rdx,textLen f.r10)]
  | .fsRead | .fsWrite => [(f.rdi,textLen f.rsi),(f.rdx,f.r10)]
  | .fsList | .getargs => [(f.rdi,f.rsi)]
  | .open => [(f.rdi,textLen f.rsi)]
  | .pipe => [(f.rdi,16)]
  | .readKey => [(f.rdi,4)]
  | .sendto | .sendtoBcast | .tcpSend | .tcpRecv => [(f.rsi,f.rdx)]
  | .recvfrom => (f.rsi,f.rdx) :: if f.r10 = 0 then [] else [(f.r10,8)]
  | .netConfig => if f.rdi = netConfigGetMAC then [(f.rsi,6)] else []
  | .accept => if f.rsi = 0 then [] else [(f.rsi,8)]
  | .waitpid => if f.rdx = 0 then [] else [(f.rdx,4)]
  | .listprocs => [(f.rdi,UInt64.ofNat (64*procInfoMax f.rsi))]
  | _ => []

/-- The ranges named by a call with these registers; an unknown number names none. -/
def callPointers (f : Frame) : List (UInt64 × UInt64) :=
  (Sysno.all[f.rax.toNat]?).elim [] (pointerArgs f)

/-- Every access is inside the user window, and a call that names an address outside it
fails without an access. -/
def Confined (f : Frame) (env : CallEnv) : Prop :=
  (∀ x ∈ (syscallDispatch f env).touched, InWindow x.addr) ∧
  ((∃ r ∈ callPointers f, ∃ a ∈ addrs r.1 r.2.toNat, ¬InWindow a) →
    (syscallDispatch f env).touched = [] ∧ (syscallDispatch f env).failed)

/-- The handlers that compare their pointers with the window. -/
def Sysno.checksRange : Sysno → Bool
  | .sendto | .recvfrom | .netConfig | .sendtoBcast | .accept | .tcpSend | .tcpRecv => true
  | _ => false

/-- The call is turned down before a pointer is used: there is no process, no such
descriptor or child, nothing to read, no room for the result. -/
def refused (f : Frame) (env : CallEnv) : Sysno → Prop
  | .write => callerFD f env = none
  | .read => ∀ d, callerFD f env = some d →
      (d.read (textLen f.rdx).toNat).2 ≠ .ok ∧ (d.read (textLen f.rdx).toNat).2 ≠ .eof
  | .exec | .spawn | .open => env.currentProc = none
  | .fsRead => f.rsi = 0 ∧ env.fsSendRead [] = none
  | .fsWrite => f.rsi = 0 ∧ f.r10.toNat > maxFileData
  | .pipe => ∀ p, env.currentProc = some p → ∀ q, procAllocFD p env.newPipe.1 = some q →
      procAllocFD q.2 env.newPipe.2 = none
  | .readKey => env.currentProc = none ∨ env.foreground = false
  | .waitpid => env.currentProc = none ∨ waitpidChild f env = none
  | .listprocs => env.currentProc = none ∨ f.rdi = 0 ∨ f.rsi.toUInt32 = 0
  | _ => False

/-- A call whose pointers are in order as far as the kernel is concerned: its handler
compares them itself, or does not come to use them, or they are inside the window. -/
def PointersInOrder (f : Frame) (env : CallEnv) : Prop :=
  ∀ s, Sysno.all[f.rax.toNat]? = some s →
    s.checksRange ∨ refused f env s ∨ ∀ r ∈ pointerArgs f s, userBufInRange r.1 r.2

/-! ## The range check -/

theorem userBufInRange_iff (p len : UInt64) :
    userBufInRange p len = true ↔ ∀ a ∈ addrs p len.toNat, InWindow a := by
  by_cases hlen : len = 0
  · subst hlen
    simp [userBufInRange,addrs]
  have hpos : 0 < len.toNat := by
    have : len.toNat ≠ 0 := fun h => hlen (UInt64.toNat_inj.mp h)
    omega
  rw [show (∀ a ∈ addrs p len.toNat, InWindow a) ↔ _ from addrs_within hpos]
  have hp := p.toNat_lt
  have hl := len.toNat_lt
  have hmin : userAddrMin.toNat = 0x40000000 := rfl
  have hmax : userAddrMax.toNat = 0x80000000 := rfl
  simp only [userBufInRange,if_neg hlen,UInt64.le_iff_toNat_le,UInt64.lt_iff_toNat_lt,
    UInt64.toNat_add]
  split
  · rename_i hlow
    simp only [Bool.false_eq_true,false_iff]
    omega
  · split
    · rename_i hlow hwrap
      simp only [Bool.false_eq_true,false_iff]
      omega
    · rename_i hlow hwrap
      rw [decide_eq_true_iff]
      omega

variable {len p : UInt64} {as : List Access} {n : ℕ} {x : Access}

/-- A range that fails the check is not empty. -/
theorem pos_of_not_inRange (h : userBufInRange p len = false) : 0 < len.toNat := by
  by_contra hz
  have hlen : len = 0 := UInt64.toNat_inj.mp (by simpa using hz)
  rw [userBufInRange,if_pos hlen] at h
  exact absurd h (by decide)

theorem ne_zero_of_not_inRange (h : userBufInRange p len = false) : len ≠ 0 := by
  rintro rfl
  exact absurd (pos_of_not_inRange h) (Nat.lt_irrefl 0)

/-! ## Answers -/

@[simp]
theorem failed_minusOne : (Call.mk as (some minusOne)).failed :=
  ⟨minusOne,rfl,by decide⟩

theorem failed_sysFail {e : FdErr} (h : e ≠ .ok) : (Call.mk as (some (sysFail e))).failed := by
  refine ⟨sysFail e,rfl,?_⟩
  cases e with
  | ok => exact absurd rfl h
  | eof | pipe | bad => decide

@[simp]
theorem ret_fails : (Call.ret (sysFail .bad)).touched = [] ∧ (Call.ret (sysFail .bad)).failed :=
  ⟨rfl,failed_sysFail (by decide)⟩

/-- A count of bytes or entries is no error. -/
theorem not_failed_ofNat (h : n < 2^63) : ¬(Call.mk as (some (UInt64.ofNat n))).failed := by
  rintro ⟨v,hv,hneg⟩
  obtain rfl := Option.some.inj hv
  rw [UInt64.toNat_ofNat'] at hneg
  omega

theorem textLen_le (len : UInt64) : (textLen len).toNat ≤ 256 := by
  rw [textLen]
  split
  · decide
  · rename_i h
    exact UInt64.le_iff_toNat_le.mp (UInt64.not_lt.mp h)

theorem textLen_pos (h : len ≠ 0) : 0 < (textLen len).toNat := by
  have : len.toNat ≠ 0 := fun hz => h (UInt64.toNat_inj.mp hz)
  rw [textLen]
  split
  · decide
  · omega

/-! ## One handler at a time -/

/-- The named range `r` fails the check. -/
def BadRange (f : Frame) (s : Sysno) : Prop :=
  ∃ r ∈ pointerArgs f s, userBufInRange r.1 r.2 = false

/-- What is to be known of a handler. -/
structure HandlerSpec (f : Frame) (env : CallEnv) (s : Sysno) : Prop where
  /-- No access leaves the named ranges. -/
  covered : ∀ x ∈ (handler s f env).touched, ∃ r ∈ pointerArgs f s, x.addr ∈ addrs r.1 r.2.toNat
  refuses : refused f env s → (handler s f env).touched = [] ∧ (handler s f env).failed
  checks : s.checksRange → BadRange f s →
    (handler s f env).touched = [] ∧ (handler s f env).failed
  /-- A handler that neither checks nor refuses does something with a bad range. -/
  goesOn : s.checksRange = false → ¬refused f env s → BadRange f s →
    (handler s f env).touched = [] → ¬(handler s f env).failed

variable {f : Frame} {env : CallEnv}

/-- A handler without the range check. -/
theorem HandlerSpec.unchecked {s : Sysno} {c : Call} (hc : handler s f env = c)
    (hs : s.checksRange = false)
    (covered : ∀ x ∈ c.touched, ∃ r ∈ pointerArgs f s, x.addr ∈ addrs r.1 r.2.toNat)
    (refuses : refused f env s → c.touched = [] ∧ c.failed)
    (goesOn : ¬refused f env s → BadRange f s → c.touched = [] → ¬c.failed) :
    HandlerSpec f env s := by
  subst hc
  refine ⟨covered,refuses,fun h => ?_,fun _ => goesOn⟩
  rw [hs] at h
  cases h

/-- A handler with the range check, which refuses for no other reason named here. -/
theorem HandlerSpec.checked {s : Sysno} {c : Call} (hc : handler s f env = c) (hs : s.checksRange)
    (hr : ¬refused f env s)
    (covered : ∀ x ∈ c.touched, ∃ r ∈ pointerArgs f s, x.addr ∈ addrs r.1 r.2.toNat)
    (checks : BadRange f s → c.touched = [] ∧ c.failed) : HandlerSpec f env s := by
  subst hc
  refine ⟨covered,fun h => absurd h hr,fun _ => checks,fun h => ?_⟩
  rw [hs] at h
  cases h

theorem addr_mem_copyIn (h : x ∈ copyIn p n) : x.addr ∈ addrs p n := by
  rw [← copyIn_addrs]
  exact List.mem_map_of_mem h

theorem addr_mem_copyOut {bs : List UInt8} (h : x ∈ copyOut p bs) :
    x.addr ∈ addrs p bs.length := by
  rw [← copyOut_addrs]
  exact List.mem_map_of_mem h

/-- A write of a clamped piece of the data stays within the destination. -/
theorem addr_mem_copyOut_take {bs : List UInt8} {n m : ℕ}
    (h : x ∈ copyOut p (bs.take n)) (hn : n ≤ m) : x.addr ∈ addrs p m := by
  refine addrs_mono ?_ (addr_mem_copyOut h)
  rw [List.length_take]
  omega

end Gooos.User
