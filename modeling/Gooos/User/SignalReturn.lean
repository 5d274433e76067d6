import Gooos.User.Signal

/-!
# What a handler returns to

Deliveries and returns of one process, with whatever Ring 3 does in between. The deliveries that
have not been returned from are kept beside the state.
-/

namespace Gooos.User

open ByteMem

/-- The registers of Ring 3: the instruction pointer, the flags and the sixteen general ones. -/
def SyscallFrame.context (f : SyscallFrame) : List Word :=
  [f.rip,f.rflags,f.rsp,f.rax,f.rbx,f.rcx,f.rdx,f.rsi,f.rdi,f.rbp,f.r8,f.r9,f.r10,f.r11,f.r12,f.r13,
    f.r14,f.r15]

/-- The registers that a `sigFrame` does not have. -/
def SyscallFrame.calleeSaved (f : SyscallFrame) : List Word := [f.rbx,f.rbp,f.r12,f.r13,f.r14,f.r15]

/-- An interrupted context, and the stack pointer and memory when its `sigFrame` had been pushed. -/
structure Delivery where
  interrupted : SyscallFrame
  rsp : Addr
  mem : Mem

/-- The bytes of the `sigFrame` are as they were pushed. -/
def Delivery.Intact (d : Delivery) (m : Mem) : Prop :=
  ∀ j < sigFrameSize, m.read (d.rsp+BitVec.ofNat 64 j) = d.mem.read (d.rsp+BitVec.ofNat 64 j)

/-- A process in Ring 3. The outstanding deliveries, the last one first, are not part of the
kernel's state. -/
structure Ring3 where
  sig : SigState
  frame : SyscallFrame
  mem : Mem
  alive : Bool
  outstanding : List Delivery

inductive SigEv where
  /-- user code runs: any registers and memory -/
  | user (frame : SyscallFrame) (mem : Mem)
  | tick
  | preemptIPI
  | sigaction
  | sigreturn

/-- A `sys_sigreturn`: the last outstanding delivery, the memory, and the frame that is resumed if
the call succeeds. -/
structure SigObs where
  last : Option Delivery
  mem : Mem
  resumed : Option SyscallFrame

/-- The call resumes the context of the last delivery, if its `sigFrame` is intact; without an
outstanding delivery it fails. -/
def SigObs.Matched (o : SigObs) : Prop :=
  match o.last with
  | none => o.resumed = none
  | some d => d.Intact o.mem → ∃ f, o.resumed = some f ∧ f.context = d.interrupted.context

variable {w : Ring3} {m : Mem} {d : Delivery}

namespace Ring3

def sigreturn (w : Ring3) : Ring3 × List SigObs :=
  match sysSigreturnHandler w.sig w.frame w.mem with
  | .bad f => ({ w with frame := f },[⟨w.outstanding.head?,w.mem,none⟩])
  | .killed => ({ w with alive := false },[⟨w.outstanding.head?,w.mem,none⟩])
  | .resumed p f =>
    ({ w with sig := p, frame := f, outstanding := w.outstanding.tail },
      [⟨w.outstanding.head?,w.mem,some f⟩])

def preemptIPI (w : Ring3) : Ring3 :=
  match maybeDeliverSignal w.sig w.frame w.mem with
  | (false,p,f,m) => { w with sig := p, frame := f, mem := m }
  | (true,p,f,m) =>
    { w with sig := p, frame := f, mem := m, outstanding := ⟨w.frame,f.rsp,m⟩::w.outstanding }

def step (w : Ring3) (e : SigEv) : Ring3 × List SigObs :=
  if w.alive then
    match e with
    | .user frame mem => ({ w with frame, mem },[])
    | .tick => ({ w with sig := maybeSignalUserPreempt w.sig },[])
    | .preemptIPI => (w.preemptIPI,[])
    | .sigaction =>
      let r := sysSigactionHandler w.sig w.frame
      ({ w with sig := r.1, frame := r.2 },[])
    | .sigreturn => w.sigreturn
  else
    (w,[])

/-- A process that starts: no handler yet. -/
def start (frame : SyscallFrame) (mem : Mem) : Ring3 := ⟨⟨0,false,0,0,false,0⟩,frame,mem,true,[]⟩

/-- A `sys_sigreturn` comes when `SigSavedRSP` is the pointer of the last outstanding delivery, and
with the registers of that context that the `sigFrame` does not have; without an outstanding
delivery there is no `sigFrame` at `SigSavedRSP`. -/
def Orderly (w : Ring3) : SigEv → Prop
  | .sigreturn =>
    match w.outstanding with
    | [] => w.sig.sigSavedRSP = 0 ∨
      (readSigFrame w.mem w.sig.sigSavedRSP).map SigFrame.magic ≠ some sigMagic
    | d::_ => w.sig.sigSavedRSP = d.rsp ∧ d.rsp ≠ 0 ∧
      w.frame.calleeSaved = d.interrupted.calleeSaved
  | _ => True

instance decidableOrderly (w : Ring3) : (e : SigEv) → Decidable (w.Orderly e)
  | .user _ _ | .tick | .preemptIPI | .sigaction => .isTrue trivial
  | .sigreturn =>
    match h : w.outstanding with
    | [] => decidable_of_iff (w.sig.sigSavedRSP = 0 ∨
      (readSigFrame w.mem w.sig.sigSavedRSP).map SigFrame.magic ≠ some sigMagic)
        (by rw [Orderly,h])
    | d::_ => decidable_of_iff (w.sig.sigSavedRSP = d.rsp ∧ d.rsp ≠ 0 ∧
      w.frame.calleeSaved = d.interrupted.calleeSaved) (by rw [Orderly,h])

/-! ### The `sigFrame` of a delivery -/

/-- The `sigFrame` that was pushed. -/
structure Pushed (d : Delivery) : Prop where
  rsp : d.rsp = d.interrupted.rsp-BitVec.ofNat 64 sigFrameSize
  words : ∀ k < 13, d.mem.readU64 (d.interrupted.rsp-BitVec.ofNat 64 (8*(k+1))) =
    (sigWords d.interrupted)[k]?

theorem Pushed.deliver {p : SigState} {f : SyscallFrame}
    (h : maybeDeliverSignal w.sig w.frame w.mem = (true,p,f,m)) : Pushed ⟨w.frame,f.rsp,m⟩ := by
  rw [maybeDeliverSignal] at h
  split at h
  · cases h
  cases hp : w.mem.pushWords w.frame.rsp (sigWords w.frame) with
  | mk b m' =>
    rw [hp] at h
    cases b with
    | false => cases h
    | true =>
      cases h
      have hlen : (sigWords w.frame).length = 13 := rfl
      have hpush : (w.mem.pushWords w.frame.rsp (sigWords w.frame)).1 = true := by rw [hp]
      refine ⟨rfl,fun k hk => ?_⟩
      have hword := Mem.readU64_pushWords (by rw [hlen]; decide) hpush k (hlen ▸ hk)
      rw [hp] at hword
      rw [List.getElem?_eq_getElem (hlen ▸ hk)]
      exact hword

/-- An intact `sigFrame` is read back word by word. -/
theorem Pushed.readU64 (h : Pushed d) (hm : d.Intact m) {k : ℕ} (hk : k < 13) :
    m.readU64 (d.rsp+BitVec.ofNat 64 (8*k)) = (sigWords d.interrupted)[12-k]? := by
  have hsame : m.readU64 (d.rsp+BitVec.ofNat 64 (8*k)) =
      d.mem.readU64 (d.rsp+BitVec.ofNat 64 (8*k)) := by
    refine Mem.readU64_congr fun i hi => ?_
    rw [add_assoc,← BitVec.ofNat_add]
    exact hm (8*k+i) (by rw [sigFrameSize]; omega)
  have haddr : d.rsp+BitVec.ofNat 64 (8*k) =
      d.interrupted.rsp-BitVec.ofNat 64 (8*(12-k+1)) := by
    have hsize : sigFrameSize = 8*k+8*(12-k+1) := by rw [sigFrameSize]; omega
    rw [h.rsp,hsize,BitVec.ofNat_add]
    ring
  rw [hsame,haddr]
  exact h.words (12-k) (by omega)

theorem Pushed.readSigFrame (h : Pushed d) (hm : d.Intact m) : readSigFrame m d.rsp = some
      ⟨sigMagic,d.interrupted.r11,d.interrupted.r10,d.interrupted.r9,d.interrupted.r8,
        d.interrupted.rdi,d.interrupted.rsi,d.interrupted.rdx,d.interrupted.rcx,d.interrupted.rax,
        d.interrupted.rflags,d.interrupted.rsp,d.interrupted.rip⟩ := by
  have hword (k : ℕ) (hk : k < 13) := h.readU64 hm hk
  rw [User.readSigFrame]
  simp only [hword 0 (by omega),hword 1 (by omega),hword 2 (by omega),hword 3 (by omega),
    hword 4 (by omega),hword 5 (by omega),hword 6 (by omega),hword 7 (by omega),
    hword 8 (by omega),hword 9 (by omega),hword 10 (by omega),hword 11 (by omega),
    hword 12 (by omega)]
  rfl

/-- With the registers that the `sigFrame` lacks, the whole context is back. -/
theorem Pushed.resumes (h : Pushed d) (hm : d.Intact w.mem)
    (hrsp : w.sig.sigSavedRSP = d.rsp) (hzero : d.rsp ≠ 0)
    (hsaved : w.frame.calleeSaved = d.interrupted.calleeSaved) :
    ∃ p f, sysSigreturnHandler w.sig w.frame w.mem = .resumed p f ∧
      f.context = d.interrupted.context := by
  simp only [SyscallFrame.calleeSaved,List.cons.injEq,and_true] at hsaved
  obtain ⟨hrbx,hrbp,hr12,hr13,hr14,hr15⟩ := hsaved
  rw [sysSigreturnHandler,hrsp,if_neg hzero,h.readSigFrame hm]
  refine ⟨_,_,rfl,?_⟩
  simp only [SyscallFrame.context,hrbx,hrbp,hr12,hr13,hr14,hr15]

/-! ### Runs -/

def Inv (w : Ring3) : Prop := ∀ d ∈ w.outstanding, Pushed d

theorem Inv.preemptIPI (hw : w.Inv) : w.preemptIPI.Inv := by
  rw [Ring3.preemptIPI]
  cases h : maybeDeliverSignal w.sig w.frame w.mem with
  | mk b r =>
    obtain ⟨p,f,m⟩ := r
    cases b with
    | false => exact hw
    | true =>
      intro d hd
      obtain rfl | hd := List.mem_cons.mp hd
      · exact Pushed.deliver h
      · exact hw d hd

theorem Inv.sigreturn (hw : w.Inv) : w.sigreturn.1.Inv := by
  rw [Ring3.sigreturn]
  split
  · exact hw
  · exact hw
  · exact fun d hd => hw d (List.mem_of_mem_tail hd)

theorem Inv.step (hw : w.Inv) (e : SigEv) : (w.step e).1.Inv := by
  rw [Ring3.step.eq_def]
  split
  · cases e with
    | user | tick | sigaction => exact hw
    | preemptIPI => exact hw.preemptIPI
    | sigreturn => exact hw.sigreturn
  · exact hw

theorem Inv.sigreturn_matched (hw : w.Inv) (hg : w.Orderly .sigreturn) :
    ∀ o ∈ w.sigreturn.2, o.Matched := by
  rw [Orderly] at hg
  cases hout : w.outstanding with
  | nil =>
    rw [hout] at hg
    -- nothing to return from: the handler does not restore
    have hfail (p : SigState) (f : SyscallFrame) :
        sysSigreturnHandler w.sig w.frame w.mem ≠ .resumed p f := by
      intro h
      rw [sysSigreturnHandler] at h
      split at h
      · cases h
      · rename_i hzero
        cases hs : User.readSigFrame w.mem w.sig.sigSavedRSP with
        | none =>
          rw [hs] at h
          cases h
        | some s =>
          rw [hs] at h
          dsimp only at h
          have hmagic := hg.resolve_left hzero
          rw [hs,Option.map_some,Ne,Option.some_inj] at hmagic
          rw [if_pos hmagic] at h
          cases h
    rw [Ring3.sigreturn,hout]
    cases hret : sysSigreturnHandler w.sig w.frame w.mem with
    | bad | killed =>
      rintro o ho
      obtain rfl := List.mem_singleton.mp ho
      rfl
    | resumed p f => exact absurd hret (hfail p f)
  | cons d ds =>
    rw [hout] at hg
    obtain ⟨hrsp,hzero,hsaved⟩ := hg
    have hpushed : Pushed d := hw d (by rw [hout]; exact List.mem_cons_self ..)
    intro o ho
    have hlast : o.last = some d ∧ o.mem = w.mem := by
      rw [Ring3.sigreturn,hout] at ho
      split at ho
      all_goals
        obtain rfl := List.mem_singleton.mp ho
        exact ⟨rfl,rfl⟩
    rw [SigObs.Matched,hlast.1,hlast.2]
    intro hm
    obtain ⟨p,f,hret,hctx⟩ := hpushed.resumes hm hrsp hzero hsaved
    rw [Ring3.sigreturn,hret] at ho
    obtain rfl := List.mem_singleton.mp ho
    exact ⟨f,rfl,hctx⟩

end Ring3

/-- Every `sys_sigreturn` of an orderly run resumes the context of the last outstanding delivery. -/
theorem sigreturn_matches_delivery (frame : SyscallFrame) (mem : Mem) (es : List SigEv)
    (hg : Trace.Meets Ring3.step Ring3.Orderly (Ring3.start frame mem) es) :
    ∀ o ∈ Trace.outs Ring3.step (Ring3.start frame mem) es, o.Matched := by
  refine Trace.Meets.all_outs (G := Ring3.Orderly) (I := Ring3.Inv) (fun w e hw _ => hw.step e)
    (fun w e hw hg => ?_) (by simp [Ring3.Inv,Ring3.start]) hg
  rw [Ring3.step.eq_def]
  split
  · cases e with
    | sigreturn => exact hw.sigreturn_matched hg
    | user | tick | preemptIPI | sigaction => exact fun _ h => by cases h
  · exact fun _ h => by cases h

/-- The calls and ticks of a process up to the first signal; `f` is what it does then. -/
def untilSignal (f : SyscallFrame) : List SigEv :=
  [.user { f with rdi := 14, rsi := 0x40000100, rdx := 0 } flatMem,.sigaction]++
    List.replicate 10 .tick++[.user f flatMem,.preemptIPI]

/-- A handler that returns at once. -/
theorem sigreturn_matches_delivery_once :
    let f := userFrame 0x40000000 0x40002000 0x202
    ∀ o ∈ Trace.outs Ring3.step (Ring3.start f flatMem) (untilSignal f++[.sigreturn]), o.Matched :=
  sigreturn_matches_delivery _ _ _ (by decide +kernel)

/-- A handler leaves the memory alone but uses `RBX`: the interrupted code finds the handler's
value there. A second `sys_sigreturn`, with nothing to return from, restores the context once
more. -/
theorem sigreturn_not_matched :
    let f := userFrame 0x40000000 0x40002000 0x202
    let m := (flatMem.pushWords f.rsp (sigWords f)).2
    (Trace.outs Ring3.step (Ring3.start f flatMem)
      (untilSignal f++[.user { f with rbx := 7 } m,.sigreturn,.sigreturn])).map
        (fun o => (o.last.map (·.interrupted.rbx),o.resumed.map (·.rbx),o.resumed.map (·.rip))) =
      [(some 0,some 7,some 0x40000000),(none,some 7,some 0x40000000)] := by
  decide +kernel

end Gooos.User
