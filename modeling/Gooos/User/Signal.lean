import Gooos.Lib.ByteMem
import Gooos.Lib.Trace
import Gooos.Tcp.Syscalls

/-!
# Delivery of SIGALRM and `sys_sigreturn`

`user_signal.go`: the words that `maybeDeliverSignal` pushes on the user stack, and what
`sys_sigreturn` makes of the words it finds there.
-/

namespace Gooos.User

open ByteMem

/-- The registers as `isr_common` pushes them. -/
structure SyscallFrame where
  r15 : Word
  r14 : Word
  r13 : Word
  r12 : Word
  r11 : Word
  r10 : Word
  r9 : Word
  r8 : Word
  rbp : Word
  rdi : Word
  rsi : Word
  rdx : Word
  rcx : Word
  rbx : Word
  rax : Word
  vector : Word
  errorCode : Word
  rip : Word
  cs : Word
  rflags : Word
  rsp : Word
  ss : Word
  deriving DecidableEq

/-- The signal fields of a `Process`. -/
structure SigState where
  sigAlrmHandler : Word
  userPreemptPending : Bool
  userQuantumTicks : ℕ
  userQuantumCounter : ℕ
  sigInProgress : Bool
  sigSavedRSP : Word
  deriving DecidableEq

def sigAlrmNumber : ℕ := 14
def sigMagic : Word := 0xDEADBEEF
def sigFrameSize : ℕ := 104

structure SigFrame where
  magic : Word
  r11 : Word
  r10 : Word
  r9 : Word
  r8 : Word
  rdi : Word
  rsi : Word
  rdx : Word
  rcx : Word
  rax : Word
  rflags : Word
  rsp : Word
  rip : Word
  deriving DecidableEq

/-- `sysFail(fdErrBad)`. -/
def sysFailBadFd : Word := -3

def maybeSignalUserPreempt (p : SigState) : SigState :=
  if p.sigAlrmHandler = 0 then
    p
  else if p.userQuantumCounter+1 < p.userQuantumTicks then
    { p with userQuantumCounter := p.userQuantumCounter+1 }
  else
    { p with userQuantumCounter := 0, userPreemptPending := true }

/-- `RDI`, `RSI` and `RDX` are the signal, the handler and the flags. -/
def sysSigactionHandler (p : SigState) (f : SyscallFrame) : SigState × SyscallFrame :=
  if f.rdi.toNat%2^32 ≠ sigAlrmNumber ∨ f.rdx.toNat%2^32 ≠ 0 then
    (p,{ f with rax := sysFailBadFd })
  else
    ({ p with
      sigAlrmHandler := f.rsi
      userQuantumCounter := 0
      userQuantumTicks := if p.userQuantumTicks = 0 then 10 else p.userQuantumTicks
      sigInProgress := false
      userPreemptPending := false },{ f with rax := 0 })

/-- The words of a `sigFrame` in the order in which they are pushed. -/
def sigWords (f : SyscallFrame) : List Word :=
  [f.rip,f.rsp,f.rflags,f.rax,f.rcx,f.rdx,f.rsi,f.rdi,f.r8,f.r9,f.r10,f.r11,sigMagic]

/-- Nothing but some words below the stack pointer changes unless the signal is delivered. -/
def maybeDeliverSignal (p : SigState) (f : SyscallFrame) (m : Mem) :
    Bool × SigState × SyscallFrame × Mem :=
  if p.sigAlrmHandler = 0 ∨ p.userPreemptPending = false ∨ p.sigInProgress = true then
    (false,p,f,m)
  else
    match m.pushWords f.rsp (sigWords f) with
    | (false,m) => (false,p,f,m)
    | (true,m) =>
      let userRSP := f.rsp-BitVec.ofNat 64 sigFrameSize
      (true,{ p with sigSavedRSP := userRSP, sigInProgress := true, userPreemptPending := false },
        { f with rip := p.sigAlrmHandler, rsp := userRSP },m)

/-- The words of a `sigFrame` at an address, if all can be read. -/
def readSigFrame (m : Mem) (a : Addr) : Option SigFrame := do
  let word k := m.readU64 (a+BitVec.ofNat 64 (8*k))
  let magic ← word 0
  let r11 ← word 1
  let r10 ← word 2
  let r9 ← word 3
  let r8 ← word 4
  let rdi ← word 5
  let rsi ← word 6
  let rdx ← word 7
  let rcx ← word 8
  let rax ← word 9
  let rflags ← word 10
  let rsp ← word 11
  let rip ← word 12
  return { magic, r11, r10, r9, r8, rdi, rsi, rdx, rcx, rax, rflags, rsp, rip }

inductive Sigreturn where
  /-- the call fails -/
  | bad (f : SyscallFrame)
  /-- the process exits -/
  | killed
  | resumed (p : SigState) (f : SyscallFrame)
  deriving DecidableEq

def sysSigreturnHandler (p : SigState) (f : SyscallFrame) (m : Mem) : Sigreturn :=
  if p.sigSavedRSP = 0 then
    .bad { f with rax := sysFailBadFd }
  else
    match readSigFrame m p.sigSavedRSP with
    | none => .killed
    | some s =>
      if s.magic ≠ sigMagic then
        .killed
      else
        .resumed { p with sigInProgress := false }
          { f with
            r11 := s.r11
            r10 := s.r10
            r9 := s.r9
            r8 := s.r8
            rdi := s.rdi
            rsi := s.rsi
            rdx := s.rdx
            rcx := s.rcx
            rax := s.rax
            rflags := s.rflags
            rsp := s.rsp
            rip := s.rip }

/-- Every address is mapped, to bytes that are zero. -/
def flatMem : Mem where
  walk a := some a.toNat
  inj _ _ _ ha hb := BitVec.eq_of_toNat_eq (Option.some.inj (ha.trans hb.symm))
  phys _ := 0

/-- Registers of a process that is about to make a call. -/
def userFrame (rip rsp rflags : Word) : SyscallFrame :=
  ⟨0,0,0,0,0,0,0,0,0,0,0,0,0,0,0,0x80,0,rip,0x1B,rflags,rsp,0x23⟩

/-! ### Privilege -/

/-- The status flags and the direction flag: CF, PF, AF, ZF, SF, DF and OF. -/
def statusFlags : Word := 0xCD5

/-- The window of user addresses. -/
def InUserWindow (a : Addr) : Prop :=
  userAddrMin.toNat ≤ a.toNat ∧ a.toNat < userAddrMax.toNat

/-- A frame to return to with the privileges of the frame on entry. -/
structure Unprivileged (entry f : SyscallFrame) : Prop where
  cs : f.cs = entry.cs
  ss : f.ss = entry.ss
  rflags : f.rflags &&& ~~~statusFlags = entry.rflags &&& ~~~statusFlags
  rip : InUserWindow f.rip
  rsp : InUserWindow f.rsp

/-- The frame that the process goes on with, if it does. -/
def Sigreturn.frame : Sigreturn → Option SyscallFrame
  | .bad f => some f
  | .killed => none
  | .resumed _ f => some f

/-- The words at `SigSavedRSP`, if they make a `sigFrame`, have the flags of the frame on entry and
addresses in the window. Without a saved pointer the entry itself has to be in the window. -/
def HarmlessSigFrame (p : SigState) (entry : SyscallFrame) (m : Mem) : Prop :=
  if p.sigSavedRSP = 0 then
    InUserWindow entry.rip ∧ InUserWindow entry.rsp
  else
    ∀ s, readSigFrame m p.sigSavedRSP = some s → s.magic = sigMagic →
      s.rflags &&& ~~~statusFlags = entry.rflags &&& ~~~statusFlags ∧
        InUserWindow s.rip ∧ InUserWindow s.rsp

/-- `sys_sigreturn` keeps the privileges exactly if the words it finds are harmless. -/
theorem sigreturn_unprivileged_iff (p : SigState) (entry : SyscallFrame) (m : Mem) :
    (∀ f, (sysSigreturnHandler p entry m).frame = some f → Unprivileged entry f) ↔
      HarmlessSigFrame p entry m := by
  rw [sysSigreturnHandler,HarmlessSigFrame]
  by_cases hzero : p.sigSavedRSP = 0
  · rw [if_pos hzero,if_pos hzero]
    constructor
    · intro h
      have hf := h _ rfl
      exact ⟨hf.rip,hf.rsp⟩
    · rintro ⟨hrip,hrsp⟩ f ⟨⟩
      exact ⟨rfl,rfl,rfl,hrip,hrsp⟩
  rw [if_neg hzero,if_neg hzero]
  cases hs : readSigFrame m p.sigSavedRSP with
  | none =>
    constructor
    · intro _ s h
      cases h
    · intro _ f h
      cases h
  | some s =>
    dsimp only
    by_cases hmagic : s.magic = sigMagic
    · rw [if_neg (not_not_intro hmagic)]
      constructor
      · rintro h _ ⟨⟩ _
        have hf := h _ rfl
        exact ⟨hf.rflags,hf.rip,hf.rsp⟩
      · rintro h f ⟨⟩
        obtain ⟨hflags,hrip,hrsp⟩ := h s rfl hmagic
        exact ⟨rfl,rfl,hflags,hrip,hrsp⟩
    · rw [if_pos hmagic]
      constructor
      · rintro _ _ ⟨⟩ h
        exact absurd h hmagic
      · intro _ f h
        cases h

/-- A process writes a `sigFrame` of its own at `SigSavedRSP`: it goes on at kernel addresses, with
interrupts disabled and with I/O privilege level 3. -/
theorem sigreturn_raises_privilege :
    let entry := userFrame 0x40000000 0x40002000 0x202
    let p : SigState := ⟨0x40000100,false,10,0,true,0x40001000⟩
    let m := (flatMem.pushWords 0x40001068 (sigWords (userFrame 0x100000 0x200000 0x3002))).2
    ∃ f, (sysSigreturnHandler p entry m).frame = some f ∧
      (f.rip,f.rsp,f.rflags) = (0x100000,0x200000,0x3002) ∧ ¬Unprivileged entry f := by
  intro entry p m
  have hframe : (sysSigreturnHandler p entry m).frame.map (fun f => (f.rip,f.rsp,f.rflags)) =
      some (0x100000,0x200000,0x3002) := by decide +kernel
  obtain ⟨f,hf,hvals⟩ := Option.map_eq_some_iff.mp hframe
  refine ⟨f,hf,hvals,fun h => ?_⟩
  have hrip := h.rip.1
  rw [(Prod.mk.inj hvals).1] at hrip
  exact absurd hrip (by decide)

end Gooos.User
