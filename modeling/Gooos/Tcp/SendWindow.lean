import Mathlib
import Gooos.Tcp.FinAck
import Gooos.Tcp.RetxQueue

/-!
# The send window

`tcpTCBDrainTX` cuts a segment under the lock, transmits it without the lock and moves
`sndNxt` in a third section; `tcpEchoPass` does the same but never looks at the window. A
data segment stays within the window its function saw last, and no two of them overlap, as
long as `sndNxt` is where the function saw it and no segment is transmitted before the last
one is accounted for.
-/

namespace Gooos

open Interleave
open Bool (and_eq_true)
open Option (bind_some)
open Sys (opOn opOn_eq step_op)
open Trace (Meets exec meets_append)

/-- The states before the handshake is complete. -/
def TcbState.synPhase : TcbState → Bool
  | .synSent | .synReceived => true
  | _ => false

/-- Only an open leads to a state before the end of the handshake. -/
theorem leads_synPhase {op : TcbOp} {st st' : TcbState} (hl : op.leads st st' = true)
    (hst : st'.synPhase = true) : op.opens = true := by
  cases op with
  | passiveInit => rfl
  | activeInit => rfl
  | closeMark => rcases TcbOp.leads_closeMark.mp hl with ⟨-,rfl⟩ | ⟨-,rfl⟩ <;> cases hst
  | _ => cases st' <;> first | cases hst; done | cases hl

/-! ## Data segments -/

namespace Kernel

/-- The thread is about to transmit data of slot `i`. -/
def atData (k : Kernel) (i : Slot) : Tid → Bool
  | .proc p => match k.pc (.proc p) with
    | .drainSend t _ _ => t.slot == i
    | _ => false
  | .echo => match k.pc .echo with
    | .send j _ => j == i
    | _ => false
  | _ => false

/-- The thread has transmitted data of slot `i` and is about to move `sndNxt`. -/
def atCommit (k : Kernel) (i : Slot) : Tid → Bool
  | .proc p => match k.pc (.proc p) with
    | .drainCommit t _ _ => t.slot == i
    | _ => false
  | .echo => match k.pc .echo with
    | .commit j _ => j == i
    | _ => false
  | _ => false

/-- Some data segment of slot `i` is transmitted and not accounted for. -/
def uncommitted (k : Kernel) (i : Slot) : Bool :=
  k.atCommit i .echo || (List.finRange 32).any fun p => k.atCommit i (.proc p)

/-- The number the next data segment of a process was cut at. -/
def cutAt (k : Kernel) : Tid → Option UInt32
  | .proc p => match k.pc (.proc p) with
    | .drainSend _ _ d => some d.seq
    | _ => none
  | _ => none

end Kernel

/-- The data segment an event transmits on slot `i` for `tcpTCBDrainTX` or `tcpEchoPass`. -/
def Sys.dataSent (i : Slot) (σ : Sys) (e : Ev) : Option Segment :=
  match e with
  | .run τ _ => if σ.1.atData i τ then σ.sends i e else none
  | _ => none

/-- How far an operation moves `sndNxt` forward. -/
def TcbOp.advance : TcbOp → ℕ
  | .closeCommit => 1
  | .drainCommit d => d.bytes.length
  | .echoDataCommit n => n
  | .echoFinCommit => 1
  | _ => 0

/-- How far a run moves `sndNxt` of slot `i` forward. -/
def Sys.advanced (i : Slot) : Sys → List Ev → ℕ
  | _, [] => 0
  | σ, e :: es => ((σ.opOn i e).map TcbOp.advance).getD 0+advanced i (σ.step i e).1 es

/-- The bytes in flight and `n` more. -/
def TCB.flightWith (x : TCB) (n : ℕ) : ℕ := Circle.dist x.sndUna x.sndNxt+n

/-- The window that limits transmission. -/
def TCB.sendWindow (x : TCB) : ℕ := min x.sndWnd.toNat x.cwnd.toNat

/-! ## The property -/

/-- A data segment stays within the window that its thread saw in its last section. -/
def WindowKept (i : Slot) (es : List Ev) : Prop :=
  ∀ es₀ es₁ τ ok ok' seg, es₀++.run τ ok :: es₁++[.run τ ok'] <+: es →
    (∀ e ∈ es₁, e.thread ≠ some τ) →
    (exec (Sys.step i) .boot (es₀++.run τ ok :: es₁)).dataSent i (.run τ ok') = some seg →
    let x := (exec (Sys.step i) .boot es₀).tcb i
    Circle.dist x.sndUna seg.seq+seg.payload.length ≤ x.sendWindow

/-- Segment `t` starts `n` numbers after segment `s`, behind its last byte; within one turn of
the circle they have no number in common. -/
structure Segment.Behind (t s : Segment) (n : ℕ) : Prop where
  seq : t.seq = s.seq+UInt32.ofNat n
  le : s.payload.length ≤ n
  disjoint : n+t.payload.length ≤ 2^32 → ∀ j < s.payload.length, ∀ j' < t.payload.length,
    s.seq+UInt32.ofNat j ≠ t.seq+UInt32.ofNat j'

/-- Of two data segments of one connection the later one lies behind the earlier one. -/
def DataDisjoint (i : Slot) (es : List Ev) : Prop :=
  ∀ es₀ es₁ e e' seg seg', es₀++e :: es₁++[e'] <+: es →
    let σ := exec (Sys.step i) .boot es₀
    Meets (Sys.step i) (fun σ e => σ.continues i e = true) σ (e :: es₁) →
    σ.dataSent i e = some seg →
    (exec (Sys.step i) σ (e :: es₁)).dataSent i e' = some seg' →
    seg'.Behind seg (σ.advanced i (e :: es₁))

/-! ## The condition on runs -/

/-- The operation puts `sndNxt` on another number than the next one. -/
def TcbOp.rewinds (x : TCB) : TcbOp → Bool
  | .synRollback => true
  | .synRestore .. => true
  | .rtoRestore _ => true
  | .rtoBegin => (retxHead x).any fun d => hasFlag d.flags tcpFlagSYN
  | _ => false

/-- The echo server holds bytes of slot `i` it is about to transmit. -/
def Kernel.echoHolds (k : Kernel) (i : Slot) : Bool := k.atData i .echo

/-- The operation keeps to the window and the order of slot `i`: a SYN is transmitted during
the handshake only; the echo server reads what the window has room for; and `sndNxt` stays
where it is until the echo server has transmitted what it read. -/
def opInOrder (i : Slot) (σ : Sys) (op : TcbOp) : Bool :=
  let x := σ.tcb i
  (!op.rewinds x || x.state.synPhase) &&
  (match op with
    | .echoTake => decide (x.flightWith (echoTake x).2.length ≤ x.sendWindow)
    | _ => true) &&
  (!(op.shifts || op.opens) || !σ.1.echoHolds i)

/-- The step keeps to the window and the order of slot `i`; a data segment is transmitted
after the handshake, at the number it was cut at, and when the last one is accounted for. -/
def sendInOrder (i : Slot) (σ : Sys) (e : Ev) : Bool :=
  (match σ.opOn i e with
    | some op => opInOrder i σ op
    | none => true) &&
  match e with
  | .run τ _ => !σ.1.atData i τ || (!σ.1.uncommitted i && !(σ.tcb i).state.synPhase &&
      ((σ.1.cutAt τ).all fun seq => (σ.tcb i).sndNxt == seq))
  | _ => true

/-! ## Within the window -/

theorem drainSize_le (x : TCB) (queued canSend : UInt32) : drainSize x queued canSend ≤ canSend := by
  simp only [drainSize]
  split_ifs <;> grind

/-- What `tcpTCBDrainTX` cuts fits into the window. -/
theorem drainPeek_window {x : TCB} {d : Drain} (h : drainPeek x = some d) :
    x.flightWith d.bytes.length ≤ x.sendWindow := by
  have hwin : (if x.cwnd < x.sndWnd then x.cwnd else x.sndWnd).toNat = x.sendWindow := by
    rw [TCB.sendWindow]
    split
    · rename_i hlt
      rw [UInt32.lt_iff_toNat_lt] at hlt
      omega
    · rename_i hle
      rw [UInt32.lt_iff_toNat_lt] at hle
      omega
  rw [drainPeek] at h
  generalize (if x.cwnd < x.sndWnd then x.cwnd else x.sndWnd) = win at h hwin
  split at h
  · cases h
  · dsimp only at h
    split at h
    · cases h
    · rename_i hroom
      split at h
      · cases h
      · cases h
        have hn := drainSize_le x (UInt32.ofNat x.txBuf.rbLen-(x.sndNxt-x.sndUna))
          (win-(x.sndNxt-x.sndUna))
        rw [UInt32.not_le] at hroom
        rw [UInt32.le_iff_toNat_le,UInt32.toNat_sub_of_le _ _ (UInt32.le_of_lt hroom)] at hn
        rw [UInt32.lt_iff_toNat_lt] at hroom
        rw [TCB.flightWith,TcpRingBuf.length_rbPeek,Circle.dist]
        omega

variable {es : List Ev} {ok : Bool} {seg : Segment}

theorem exec_pc_of_ne {i : Slot} {σ : Sys} {τ : Tid} (h : ∀ e ∈ es, e.thread ≠ some τ) :
    (exec (Sys.step i) σ es).1.pc τ = σ.1.pc τ := by
  induction es generalizing σ with
  | nil => rfl
  | cons e es ih =>
    rw [exec,ih fun e' he' => h e' (List.mem_cons_of_mem e he')]
    exact Kernel.step_pc_of_ne (h e List.mem_cons_self)

/-- The thread is about to transmit `bytes` of slot `i`. -/
inductive DataAt (k : Kernel) (i : Slot) : Tid → List UInt8 → Prop where
  | drain (p t n d) (hpc : k.pc (.proc p) = ProcPc.drainSend t n d) (ht : t.slot = i) :
    DataAt k i (.proc p) d.bytes
  | echo (bytes) (hpc : k.pc .echo = EchoPc.send i bytes) : DataAt k i .echo bytes

/-- Data on its way out is the only thing a thread at such a point sends. -/
theorem dataAt_of_sends {i : Slot} {σ : Sys} {τ : Tid}
    (hat : σ.1.atData i τ = true) (hseg : σ.sends i (.run τ ok) = some seg) :
    DataAt σ.1 i τ seg.payload := by
  obtain ⟨ip,b,flags,options,payload,hon,hsend⟩ := Sys.sends_op hseg
  rw [(tcpSendSegment_snd hsend).2.2.2.2]
  cases τ with
  | rx | scan => cases hat
  | echo =>
    simp only [Kernel.atData] at hat
    split at hat
    · rename_i j bytes hpc
      rw [beq_iff_eq] at hat
      subst hat
      simp only [opOn,Ev.effect,threadSection,hpc,echoSection,bind_some,if_true] at hon
      cases hon
      exact .echo _ hpc
    · cases hat
  | proc p =>
    simp only [Kernel.atData] at hat
    split at hat
    · rename_i t n d hpc
      rw [beq_iff_eq] at hat
      simp only [opOn,Ev.effect,threadSection,hpc,procSection,bind_some,hat,if_true]
        at hon
      cases hon
      exact .drain p t n d hpc hat
    · cases hat

theorem Sys.dataSent_spec {i : Slot} {σ : Sys} {e : Ev}
    (h : σ.dataSent i e = some seg) : ∃ τ ok, e = .run τ ok ∧ σ.1.atData i τ = true ∧
      DataAt σ.1 i τ seg.payload ∧ seg.seq = (σ.tcb i).sndNxt ∧
      σ.sends i (.run τ ok) = some seg := by
  cases e with
  | run τ ok =>
    simp only [Sys.dataSent] at h
    split at h
    · rename_i hat
      obtain ⟨_,_,_,_,_,_,hseg⟩ := Sys.sends_op h
      exact ⟨τ,ok,rfl,hat,dataAt_of_sends hat h,(tcpSendSegment_snd hseg).1,h⟩
    · cases h
  | _ => cases h

section Window

variable {i : Slot} {σ : Sys} {e : Ev}

theorem sendInOrder_op {op : TcbOp} (hG : sendInOrder i σ e = true) (hop : σ.opOn i e = some op) :
    opInOrder i σ op = true := by
  simp only [sendInOrder,hop,and_eq_true] at hG
  exact hG.1

/-- What the echo server transmits it has read in its last section. -/
theorem echo_next_send {s : Shared} {l : EchoPc} {bytes : List UInt8}
    (h : (echoSection s ok l).next = .send i bytes) :
    (echoSection s ok l).op = some (i,.echoTake) ∧ bytes = (echoTake (s.tcb i)).2 := by
  have hskip (j : Slot) : echoNext j ≠ .send i bytes := by
    rw [echoNext]
    split <;> rintro ⟨⟩
  cases l with
  | check j =>
    revert h
    simp only [echoSection]
    split
    · exact fun h => absurd h (hskip j)
    · split
      · split
        · exact fun h => absurd h (hskip j)
        · split
          · exact fun h => absurd h (hskip j)
          · intro h
            cases h
            exact ⟨rfl,rfl⟩
      · split
        · rintro ⟨⟩
        · exact fun h => absurd h (hskip j)
      · exact fun h => absurd h (hskip j)
  | idle => cases h
  | send j | finSend j =>
    simp only [echoSection] at h
    split at h
    · cases h
    · exact absurd h (hskip j)
  | commit j | finCommit j => exact absurd h (hskip j)

/-- An operation that does not shift leaves `sndNxt` where it is. -/
theorem step_sndNxt (h : ∀ op, σ.opOn i e = some op → op.opens = false ∧ op.shifts = false) :
    ((σ.step i e).1.tcb i).sndNxt = (σ.tcb i).sndNxt := by
  cases he : e.effect σ.1 with
  | none => rw [(Sys.step_env (i := i) he).1]
  | some w =>
    obtain ⟨τ,f⟩ := w
    by_cases hi : ∃ op, f.op = some (i,op)
    · obtain ⟨op,hop⟩ := hi
      obtain ⟨ho,hs⟩ := h op (opOn_eq he hop)
      rw [(step_op he hop).1]
      exact (op.run_frame σ.1.shared.pitTicks (σ.tcb i)).sndNxt ho hs
    · rw [(Sys.step_quiet he fun op hop => hi ⟨op,hop⟩).1]

/-- While the echo server holds bytes of the slot, `sndNxt` stays. -/
theorem echo_holds_sndNxt {bytes : List UInt8} (hpc : σ.1.pc .echo = EchoPc.send i bytes)
    (hm : Meets (Sys.step i) (fun σ e => sendInOrder i σ e = true) σ es)
    (hth : ∀ e ∈ es, e.thread ≠ some .echo) :
    ((exec (Sys.step i) σ es).tcb i).sndNxt = (σ.tcb i).sndNxt := by
  induction es generalizing σ with
  | nil => rfl
  | cons e es ih =>
    have hpc' : (σ.step i e).1.1.pc .echo = EchoPc.send i bytes := by
      rw [← hpc]
      exact Kernel.step_pc_of_ne (hth e List.mem_cons_self)
    rw [exec,ih hpc' hm.2 fun e' he' => hth e' (List.mem_cons_of_mem e he')]
    refine step_sndNxt fun op hop => ?_
    have hG := sendInOrder_op hm.1 hop
    have hholds : σ.1.echoHolds i = true := by
      simp only [Kernel.echoHolds,Kernel.atData,hpc,beq_self_eq_true]
    simp only [opInOrder,hholds,and_eq_true,Bool.not_true,Bool.or_false,Bool.not_eq_true',
      Bool.or_eq_false_iff] at hG
    exact ⟨hG.2.2,hG.2.1⟩

end Window

theorem window_kept {i : Slot}
    (h : Meets (Sys.step i) (fun σ e => sendInOrder i σ e = true) .boot es) :
    WindowKept i es := by
  intro es₀ es₁ τ ok ok' seg hes hth hdata
  obtain ⟨rest,rfl⟩ := hes
  obtain ⟨hm,_⟩ := meets_append.mp h
  obtain ⟨hm,hlast⟩ := meets_append.mp hm
  obtain ⟨_,hfirst,hmid⟩ := meets_append.mp hm
  rw [Trace.exec_append] at hdata hlast
  generalize hσ₀ : exec (Sys.step i) .boot es₀ = σ₀ at *
  obtain ⟨τ',ok'',heq,hat,hdat,hseq,_⟩ := Sys.dataSent_spec hdata
  cases heq
  have hpc := exec_pc_of_ne (i := i) (σ := (σ₀.step i (.run τ ok)).1) hth
  have hnext : (σ₀.step i (.run τ ok)).1.1.pc τ =
      (threadSection σ₀.1.shared ok τ (σ₀.1.pc τ)).next := Conf.move_pc_self ..
  rw [hnext] at hpc
  rw [exec] at hdata hdat hat hlast hseq
  generalize hσ : exec (Sys.step i) (σ₀.step i (.run τ ok)).1 es₁ = σ at *
  generalize seg.payload = payload at hdat ⊢
  cases hdat with
  | drain p t n d hdpc ht =>
    rw [hdpc] at hpc
    obtain ⟨_,hpeek⟩ := proc_next_drainSend hpc.symm
    have hcut : (σ.tcb i).sndNxt = d.seq := by
      have hG := hlast.1
      simp only [sendInOrder,hat,Kernel.cutAt,hdpc,and_eq_true,Bool.not_true,Bool.false_or,
        Option.all_some,beq_iff_eq] at hG
      exact hG.2.2
    rw [ht] at hpeek
    have hwin := drainPeek_window hpeek
    rw [hseq,hcut,(drainPeek_spec hpeek).2.2.1]
    exact hwin
  | echo bytes hepc =>
    rw [hepc] at hpc
    obtain ⟨hop,hbytes⟩ := echo_next_send hpc.symm
    have hon : σ₀.opOn i (.run .echo ok) = some .echoTake :=
      opOn_eq (τ := .echo) rfl hop
    have hroom := sendInOrder_op hfirst hon
    simp only [opInOrder,and_eq_true,decide_eq_true_eq] at hroom
    have hstay : (σ.tcb i).sndNxt = (σ₀.tcb i).sndNxt := by
      rw [← hσ,echo_holds_sndNxt (hnext.trans hpc.symm) hmid hth]
      refine step_sndNxt fun op hop' => ?_
      rw [hon] at hop'
      cases hop'
      exact ⟨rfl,rfl⟩
    rw [hseq,hstay,hbytes]
    exact hroom.1.2

/-! ## One behind the other -/

/-- The thread has transmitted `n` bytes of slot `i` and will add them to `sndNxt`. -/
inductive Owes (k : Kernel) (i : Slot) (n : ℕ) : Tid → Prop where
  | drain (p t c d) (hpc : k.pc (.proc p) = ProcPc.drainCommit t c d) (ht : t.slot = i)
    (hn : d.bytes.length = n) : Owes k i n (.proc p)
  | echo (hpc : k.pc .echo = EchoPc.commit i n) : Owes k i n .echo

theorem Owes.uncommitted {k : Kernel} {i : Slot} {n : ℕ} {τ : Tid} (h : Owes k i n τ) :
    k.uncommitted i = true := by
  rw [Kernel.uncommitted,Bool.or_eq_true]
  cases h with
  | drain p t c d hpc ht hn =>
    right
    rw [List.any_eq_true]
    exact ⟨p,List.mem_finRange p,by simp only [Kernel.atCommit,hpc,ht,beq_self_eq_true]⟩
  | echo hpc => exact .inl (by simp only [Kernel.atCommit,hpc,beq_self_eq_true])

theorem Owes.congr {k k' : Kernel} {i : Slot} {n : ℕ} {τ : Tid} (h : Owes k i n τ)
    (hpc : k'.pc τ = k.pc τ) : Owes k' i n τ := by
  cases h with
  | drain p t c d hd ht hn => exact .drain p t c d (hpc.trans hd) ht hn
  | echo he => exact .echo (hpc.trans he)

/-- A transmission that took place is accounted for next. -/
theorem owes_of_sends {i : Slot} {σ : Sys} {τ : Tid}
    (hdat : DataAt σ.1 i τ seg.payload) (hseg : σ.sends i (.run τ ok) = some seg) :
    Owes (σ.step i (.run τ ok)).1.1 i seg.payload.length τ := by
  have hnext : (σ.step i (.run τ ok)).1.1.pc τ =
      (threadSection σ.1.shared ok τ (σ.1.pc τ)).next := Conf.move_pc_self ..
  generalize seg.payload = payload at hdat
  cases hdat with
  | drain p t n d hpc ht =>
    refine .drain p t n d ?_ ht rfl
    simp only [Sys.sends,opOn,Ev.effect,threadSection,hpc,procSection,bind_some,ht,
      if_true] at hseg
    rw [hnext,hpc]
    show (if (tcpSendSegment σ.1.shared.ourIP ok (σ.1.shared.tcb t.slot)
      (tcpFlagACK ||| tcpFlagPSH) [] d.bytes).2.isSome then _ else _) = _
    rw [ht,Sys.tcb] at *
    rw [hseg]
    rfl
  | echo bytes hpc =>
    refine .echo ?_
    simp only [Sys.sends,opOn,Ev.effect,threadSection,hpc,echoSection,bind_some,
      if_true] at hseg
    rw [hnext,hpc]
    show (if (tcpSendSegment σ.1.shared.ourIP ok (σ.1.shared.tcb i)
      (tcpFlagACK ||| tcpFlagPSH) [] payload).2.isSome then _ else _) = _
    rw [Sys.tcb] at hseg
    rw [hseg]
    rfl

theorem TcbOp.run_sndNxt {op : TcbOp} {x : TCB} (now : UInt64) (ho : op.opens = false)
    (hr : op.rewinds x = false) :
    (op.run now x).sndNxt = x.sndNxt+UInt32.ofNat op.advance := by
  have hzero (a : UInt32) : a = a+UInt32.ofNat 0 := (UInt32.add_zero a).symm
  cases op with
  | closeCommit =>
    obtain ⟨f,_,hf⟩ := tcpCloseCommit_shape now x
    rw [run,hf]
    rfl
  | drainCommit d =>
    obtain ⟨f,_,hf⟩ := drainCommit_shape now d x
    rw [run,hf]
    rfl
  | echoDataCommit | echoFinCommit => rfl
  | synRollback | synRestore | rtoRestore => cases hr
  | rtoBegin => exact (tcpRTOFireBegin_sndNxt now hr).trans (hzero _)
  | passiveInit | activeInit => cases ho
  | _ => exact ((run_frame now x _).sndNxt rfl rfl).trans (hzero _)

/-- `n` bytes were transmitted at `s` by thread `τ`, and `sndNxt` moved on by `m` since. -/
structure Ahead (i : Slot) (s : UInt32) (n m : ℕ) (τ : Tid) (σ : Sys) : Prop where
  seq : (σ.tcb i).sndNxt = s+UInt32.ofNat m
  late : (σ.tcb i).state.synPhase = false
  done : n ≤ m ∨ Owes σ.1 i n τ

section Ahead

variable {i : Slot} {s : UInt32} {n m : ℕ} {τ : Tid} {σ : Sys} {e : Ev}

/-- The thread moves on by accounting for its segment. -/
theorem Owes.step {τ' : Tid} {f : Effect (PcOf τ')} (h : Owes σ.1 i n τ)
    (he : e.effect σ.1 = some ⟨τ',f⟩) :
    Owes (σ.step i e).1.1 i n τ ∨ ((σ.opOn i e).map TcbOp.advance).getD 0 = n := by
  by_cases hτ : e.thread = some τ
  · right
    rw [Ev.thread_of_effect he] at hτ
    cases hτ
    cases h with
    | drain p t c d hpc ht hn =>
      rcases effect_proc he with ⟨_,_,hidle,_⟩ | ⟨ok,rfl,rfl⟩
      · rw [hpc] at hidle
        cases hidle
      · have hon : σ.opOn i (.run (.proc p) ok) = some (.drainCommit d) := by
          refine opOn_eq (τ := .proc p) rfl ?_
          rw [threadSection,hpc,procSection,ht]
        rw [hon]
        exact hn
    | echo hpc =>
      rcases effect_echo he with ⟨_,hidle,_⟩ | ⟨ok,rfl,rfl⟩
      · rw [hpc] at hidle
        cases hidle
      · have hon : σ.opOn i (.run .echo ok) = some (.echoDataCommit n) := by
          refine opOn_eq (τ := .echo) rfl ?_
          rw [threadSection,hpc,echoSection]
        rw [hon]
        rfl
  · exact .inl (h.congr (Kernel.step_pc_of_ne hτ))

theorem Ahead.step (h : Ahead i s n m τ σ) (hG : sendInOrder i σ e = true)
    (hc : σ.continues i e = true) :
    Ahead i s n (m+((σ.opOn i e).map TcbOp.advance).getD 0) τ (σ.step i e).1 := by
  cases he : e.effect σ.1 with
  | none =>
    obtain ⟨htcb,_,hpc⟩ := Sys.step_env (i := i) he
    have hon : σ.opOn i e = none := by simp only [opOn,he,Option.bind_none]
    rw [hon]
    exact ⟨by rw [htcb]; exact h.seq,by rw [htcb]; exact h.late,
      h.done.imp_right fun ho => ho.congr (congrFun hpc τ)⟩
  | some w =>
    obtain ⟨τ',f⟩ := w
    have hdone : n ≤ m+((σ.opOn i e).map TcbOp.advance).getD 0 ∨
        Owes (σ.step i e).1.1 i n τ := by
      rcases h.done with hle | howes
      · exact .inl (by omega)
      · rcases howes.step he with hkeep | hadv
        · exact .inr hkeep
        · exact .inl (by omega)
    by_cases hi : ∃ op, f.op = some (i,op)
    · obtain ⟨op,hop⟩ := hi
      have hon := opOn_eq he hop
      have ho : op.opens = false := by simpa [Sys.continues,hon] using hc
      have hr : op.rewinds (σ.tcb i) = false := by
        have hord := sendInOrder_op hG hon
        simp only [opInOrder,h.late,Bool.or_false,and_eq_true,Bool.not_eq_true'] at hord
        exact hord.1.1
      refine ⟨?_,?_,hdone⟩
      · rw [(step_op he hop).1,TcbOp.run_sndNxt _ ho hr,h.seq,UInt32.ofNat_add]
        grind
      · rw [(step_op he hop).1]
        rcases op.run_state σ.1.shared.pitTicks (σ.tcb i) with hsame | hleads
        · rw [hsame]
          exact h.late
        · by_contra hsyn
          rw [Bool.not_eq_false] at hsyn
          rw [leads_synPhase hleads hsyn] at ho
          cases ho
    · have hq : ∀ op, f.op ≠ some (i,op) := fun op hop => hi ⟨op,hop⟩
      obtain ⟨htcb,_,_⟩ := Sys.step_quiet he hq
      rw [Sys.opOn_quiet he hq] at hdone ⊢
      exact ⟨by rw [htcb]; exact h.seq,by rw [htcb]; exact h.late,hdone⟩

theorem Ahead.run (h : Ahead i s n m τ σ)
    (hm : Meets (Sys.step i) (fun σ e => sendInOrder i σ e = true) σ es)
    (hc : Meets (Sys.step i) (fun σ e => σ.continues i e = true) σ es) :
    Ahead i s n (m+σ.advanced i es) τ (exec (Sys.step i) σ es) := by
  induction es generalizing σ m with
  | nil => exact h
  | cons e es ih =>
    have hrest := ih (h.step hm.1 hc.1) hm.2 hc.2
    rw [Nat.add_assoc] at hrest
    exact hrest

end Ahead

theorem behind_of {s t : Segment} {n : ℕ} (hseq : t.seq = s.seq+UInt32.ofNat n)
    (hle : s.payload.length ≤ n) : t.Behind s n := by
  refine ⟨hseq,hle,fun hturn j hj j' hj' heq => ?_⟩
  have hnat : UInt32.ofNat j = UInt32.ofNat (n+j') := by
    rw [UInt32.ofNat_add]
    grind
  have hmod := congrArg UInt32.toNat hnat
  simp only [UInt32.toNat_ofNat'] at hmod
  omega

theorem data_disjoint {i : Slot}
    (h : Meets (Sys.step i) (fun σ e => sendInOrder i σ e = true) .boot es) :
    DataDisjoint i es := by
  intro es₀ es₁ e e' seg seg' hes σ hc hdata hdata'
  obtain ⟨rest,rfl⟩ := hes
  obtain ⟨hm,_⟩ := meets_append.mp h
  obtain ⟨hm,hlast⟩ := meets_append.mp hm
  obtain ⟨_,hfirst,hmid⟩ := meets_append.mp hm
  rw [Trace.exec_append] at hlast
  change Meets _ _ (exec (Sys.step i) σ (e :: es₁)) _ at hlast
  change sendInOrder i σ e = true at hfirst
  change Meets _ _ (σ.step i e).1 _ at hmid
  clear_value σ
  obtain ⟨τ,ok,rfl,hat,hdat,hseq,hsend⟩ := Sys.dataSent_spec hdata
  obtain ⟨τ',ok',rfl,hat',_,hseq',_⟩ := Sys.dataSent_spec hdata'
  have hlate : (σ.tcb i).state.synPhase = false := by
    simp only [sendInOrder,hat,and_eq_true,Bool.not_true,Bool.false_or,
      Bool.not_eq_true'] at hfirst
    exact hfirst.2.1.2
  -- right after the first segment `sndNxt` is still on its number
  have hstart : Ahead i seg.seq seg.payload.length 0 τ (σ.step i (.run τ ok)).1 := by
    obtain ⟨ip,b,flags,options,payload,hon,hseg⟩ := Sys.sends_op hsend
    obtain ⟨τ₁,f,he,hop⟩ := Sys.step_of_opOn hon
    obtain ⟨htcb,_,_⟩ := step_op he hop
    have hfr := (TcbOp.send ip b flags options payload).run_frame σ.1.shared.pitTicks (σ.tcb i)
    refine ⟨?_,?_,.inr (owes_of_sends hdat hsend)⟩
    · rw [htcb,hfr.sndNxt rfl rfl,hseq]
      exact (UInt32.add_zero _).symm
    · rw [htcb,hfr.state rfl]
      exact hlate
  have hadv : ((σ.opOn i (.run τ ok)).map TcbOp.advance).getD 0 = 0 := by
    obtain ⟨ip,b,flags,options,payload,hon,_⟩ := Sys.sends_op hsend
    rw [hon]
    rfl
  have hend := hstart.run hmid hc.2
  have hfree : (exec (Sys.step i) σ (.run τ ok :: es₁)).1.uncommitted i = false := by
    have hG := hlast.1
    simp only [sendInOrder,hat',and_eq_true,Bool.not_true,Bool.false_or,
      Bool.not_eq_true'] at hG
    exact hG.2.1.1
  have hlen : seg.payload.length ≤ 0+(σ.step i (.run τ ok)).1.advanced i es₁ := by
    rcases hend.done with hle | howes
    · exact hle
    · rw [exec,howes.uncommitted] at hfree
      cases hfree
  rw [Sys.advanced,hadv]
  exact behind_of (hseq'.trans hend.seq) hlen

/-- In every run whose steps keep to the window and the order of slot `i`, each data segment
stays within the window its function saw last, and the later of two lies behind the earlier. -/
theorem data_in_window_and_disjoint (i : Slot) (es : List Ev)
    (h : Meets (Sys.step i) (fun σ e => sendInOrder i σ e = true) .boot es) :
    WindowKept i es ∧ DataDisjoint i es := ⟨window_kept h,data_disjoint h⟩

/-- Two sends of a client and an acknowledgement in between. -/
def twoSends : List Ev :=
  clientHandshake++clientSend [10,20,30]++fromPeer 1001 4 tcpFlagACK [] :: runs .rx 4++
  clientSend [40,50]

theorem data_in_window_two_sends :
    Meets (Sys.step 0) (fun σ e => sendInOrder 0 σ e = true) .boot twoSends ∧
    WindowKept 0 twoSends ∧ DataDisjoint 0 twoSends :=
  ⟨by decide +kernel,data_in_window_and_disjoint 0 twoSends (by decide +kernel)⟩

/-- Ten bytes for the echo server from a peer with a window of four. -/
def echoSmallWindow : List Ev :=
  echoHandshake++.segment ⟨peerIP,ourAddr⟩ ⟨5000,tcpEchoListenPort,1001,1,tcpFlagACK,4,[]⟩
    (List.replicate 10 7) :: runs .rx 4++[.echo]

/-- The echo server sends all ten bytes back at once. -/
theorem echo_exceeds_window :
    ¬WindowKept 0 (echoSmallWindow++[.run .echo true,.run .echo true]) := by
  intro hkept
  have hdata : (exec (Sys.step 0) .boot (echoSmallWindow++.run .echo true :: [])).dataSent 0
      (.run .echo true) = some ⟨ourAddr,peerIP,tcpEchoListenPort,5000,1,1011,
        tcpFlagACK ||| tcpFlagPSH,8182,[],List.replicate 10 7⟩ := by
    decide +kernel
  have hwin := hkept echoSmallWindow [] .echo true true _ (by simp) nofun hdata
  revert hwin
  decide +kernel

end Gooos
