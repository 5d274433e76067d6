import Mathlib
import Gooos.Tcp.Pointers

/-!
# A connect that fails

`sys_connect` claims a slot, sends a SYN and polls the state. When the SYN cannot be sent it
frees the slot, and when a RST or the retransmission limit ended the attempt the slot is free
already. At its own deadline it relies on `tcpClose`, which does nothing in SYN_SENT.
-/

namespace Gooos

open Interleave
open Trace (Meets exec)

/-- The TCB that `tcbAlloc` returned as `t` is still in the table. -/
def Kernel.Left (k : Kernel) (t : TcbRef) : Prop :=
  (k.shared.tcb t.slot).active = true ∧ k.shared.gen t.slot = t.gen

instance (k : Kernel) (t : TcbRef) : Decidable (k.Left t) := inferInstanceAs (Decidable (_ ∧ _))

/-- A `sys_connect` that claimed a slot and returned an error has nothing left in the table,
then and later: between the two sections of the process it was in this one call. -/
def ConnectLeavesNothing (es : List Ev) : Prop :=
  ∀ es₀ es₁ es₂ p ok ok' s lp dstIP dstPort timeout i rax,
    es₀++.run (.proc p) ok :: es₁++.run (.proc p) ok' :: es₂ = es →
    let k := exec Kernel.step .boot es₀
    let k₁ := exec Kernel.step k (.run (.proc p) ok :: es₁)
    k.pc (.proc p) = ProcPc.connAlloc s lp dstIP dstPort timeout →
    tcbAllocFind k.shared.tcb = some i →
    (∀ es', es' <+: es₁ →
      (exec Kernel.step k (.run (.proc p) ok :: es')).pc (.proc p) ≠ ProcPc.idle) →
    .returned p rax ∈ (k₁.step (.run (.proc p) ok')).2 → rax ≠ 0 →
    ¬(exec Kernel.step k₁ (.run (.proc p) ok' :: es₂)).Left (k.shared.newRef i)

/-- No `sys_connect` reaches its deadline with the attempt still open. -/
def connectAnswered (k : Kernel) (e : Ev) : Bool :=
  match e with
  | .run (.proc p) _ => match k.pc (.proc p) with
    | .connPoll _ t deadline => (k.shared.tcb t.slot).state == .established ||
      (k.shared.tcb t.slot).state == .closed || !(k.shared.tcb t.slot).active ||
      decide (k.shared.pitTicks < deadline)
    | _ => true
  | _ => true

/-! ## A TCB that is gone -/

/-- Slots are claimed again, never given back an old number. -/
theorem Kernel.gen_step (k : Kernel) (e : Ev) (i : Slot) :
    k.shared.gen i ≤ (k.step e).1.shared.gen i := by
  rw [Kernel.step]
  split
  · cases e <;> exact Nat.le_refl _
  · rename_i τ f he
    by_cases ha : ∃ op, f.op = some (i,op) ∧ op.isAlloc = true
    · obtain ⟨op,hop,ha⟩ := ha
      show _ ≤ (k.shared.apply f).gen i
      rw [gen_apply_alloc hop ha]
      exact Nat.le_succ _
    · show _ ≤ (k.shared.apply f).gen i
      rw [gen_apply fun op hop => by
        by_contra hal
        exact ha ⟨op,hop,by simpa using hal⟩]

/-- What is in the table after a step was there before, and open if it is open. -/
theorem Kernel.Left.before {k : Kernel} {e : Ev} {t : TcbRef} (h : (k.step e).1.Left t)
    (hborn : t.gen ≤ k.shared.gen t.slot) : k.Left t ∧
      (((k.step e).1.shared.tcb t.slot).state = .closed → (k.shared.tcb t.slot).state = .closed) := by
  obtain ⟨hact,hgen⟩ := h
  revert hact hgen
  rw [Kernel.step]
  split
  · cases e <;> exact fun hact hgen => ⟨⟨hact,hgen⟩,id⟩
  · rename_i τ f he
    show ((k.shared.apply f).tcb t.slot).active = true → (k.shared.apply f).gen t.slot = t.gen → _ ∧
      (((k.shared.apply f).tcb t.slot).state = .closed → _)
    intro hact hgen
    by_cases hi : ∃ op, f.op = some (t.slot,op)
    · obtain ⟨op,hop⟩ := hi
      have hal : op.isAlloc = false := by
        by_contra hal
        rw [gen_apply_alloc hop (by simpa using hal)] at hgen
        omega
      rw [gen_apply fun op' hop' => by rw [hop] at hop'; cases hop'; exact hal] at hgen
      rw [apply_tcb_of_op hop] at hact ⊢
      have hb : op.binds = false := by
        cases op with
        | alloc => cases hal
        | free => cases hact
        | _ => rfl
      have haddr := (op.run_frame k.shared.pitTicks (k.shared.tcb t.slot)).addr hb
      refine ⟨⟨haddr.1 ▸ hact,hgen⟩,fun hcl => ?_⟩
      rcases op.run_state k.shared.pitTicks (k.shared.tcb t.slot) with hsame | hleads
      · exact hsame.symm.trans hcl
      · rw [hcl] at hleads
        cases op with
        | alloc | free => cases hb
        | closeMark => rcases TcbOp.leads_closeMark.mp hleads with ⟨_,h⟩ | ⟨_,h⟩ <;> cases h
        | _ => cases hleads
    · have hq : ∀ op, f.op ≠ some (t.slot,op) := fun op hop => hi ⟨op,hop⟩
      rw [gen_apply fun op hop => absurd hop (hq op)] at hgen
      rw [apply_tcb_of_quiet hq] at hact ⊢
      exact ⟨⟨hact,hgen⟩,id⟩

/-- A TCB that is gone does not come back. -/
theorem Kernel.not_left_exec {k : Kernel} {t : TcbRef} (es : List Ev)
    (hborn : t.gen ≤ k.shared.gen t.slot) (h : ¬k.Left t) :
    ¬(exec Kernel.step k es).Left t := by
  induction es generalizing k with
  | nil => exact h
  | cons e es ih =>
    exact ih (Nat.le_trans hborn (k.gen_step e t.slot)) fun hl => h (hl.before hborn).1

/-! ## The call -/

/-- The TCB of the `sys_connect` in progress. -/
def ProcPc.connects : ProcPc → Option TcbRef
  | .connInit _ t _ => some t
  | .connRollback _ t _ => some t
  | .connSend _ t _ _ => some t
  | .connRestore _ t _ _ _ => some t
  | .connPoll _ t _ => some t
  | .connFree t => some t
  | _ => none

/-- The `sys_connect` in progress has put its TCB into SYN_SENT. -/
def ProcPc.started : ProcPc → Bool
  | .connRollback .. | .connSend .. | .connRestore .. | .connPoll .. => true
  | _ => false

/-- Process `p` is in a `sys_connect` that claimed `t`, and as long as nobody freed `t` it is
not CLOSED. -/
structure Connecting (p : ProcSlot) (t : TcbRef) (k : Kernel) : Prop where
  call : ProcPc.connects (k.pc (.proc p)) = some t
  born : t.gen ≤ k.shared.gen t.slot
  alive : ProcPc.started (k.pc (.proc p)) = true → k.Left t → (k.shared.tcb t.slot).state ≠ .closed

section Step

variable {p : ProcSlot} {t : TcbRef} {k : Kernel}

/-- The sections of the call itself. -/
theorem Connecting.run (h : Connecting p t k) {ok : Bool}
    (hG : connectAnswered k (.run (.proc p) ok) = true)
    (hidle : (k.step (.run (.proc p) ok)).1.pc (.proc p) ≠ ProcPc.idle) :
    Connecting p t (k.step (.run (.proc p) ok)).1 := by
  obtain ⟨hcall,hborn,halive⟩ := h
  have hborn' := Nat.le_trans hborn (k.gen_step (.run (.proc p) ok) t.slot)
  have hnext : (k.step (.run (.proc p) ok)).1.pc (.proc p) =
      (procSection k.shared ok p (k.pc (.proc p))).next := Conf.move_pc_self ..
  have hkeep (hs : ProcPc.started (k.pc (.proc p)) = true)
      (hl : (k.step (.run (.proc p) ok)).1.Left t) :
      ((k.step (.run (.proc p) ok)).1.shared.tcb t.slot).state ≠ .closed := by
    obtain ⟨hleft,hcl⟩ := hl.before hborn
    exact fun hst => halive hs hleft (hcl hst)
  revert hkeep
  cases hpc : k.pc (.proc p) with
  | connInit s u timeout =>
    intro _
    rw [hpc] at hcall hnext
    cases hcall
    refine ⟨by rw [hnext]; rfl,hborn',fun _ _ => ?_⟩
    have hop : (threadSection k.shared ok (.proc p) (k.pc (.proc p))).op =
        some (t.slot,.activeInit) := by
      rw [hpc]
      rfl
    show ((k.shared.apply (threadSection k.shared ok (.proc p) (k.pc (.proc p)))).tcb t.slot).state ≠ _
    rw [apply_tcb_of_op hop]
    exact nofun
  | connRollback | connSend =>
    intro hkeep
    rw [hpc] at hcall hnext
    cases hcall
    exact ⟨by rw [hnext]; rfl,hborn',fun _ => hkeep rfl⟩
  | connRestore s u timeout orig sent =>
    intro hkeep
    rw [hpc] at hcall hnext
    cases hcall
    refine ⟨?_,hborn',fun _ => hkeep rfl⟩
    rw [hnext]
    cases sent <;> rfl
  | connPoll s u deadline =>
    intro hkeep
    rw [hpc] at hcall
    cases hcall
    refine ⟨?_,hborn',fun _ => hkeep rfl⟩
    rw [hnext] at hidle ⊢
    rw [hpc] at hidle ⊢
    simp only [connectAnswered,hpc,Bool.or_eq_true,beq_iff_eq,Bool.not_eq_true',
      decide_eq_true_eq] at hG
    simp only [procSection] at hidle ⊢
    split
    · rename_i hest
      rw [if_pos hest] at hidle
      exact absurd rfl hidle
    · rename_i hest
      rw [if_neg hest] at hidle
      split
      · rename_i hgone
        rw [if_pos hgone] at hidle
        exact absurd rfl hidle
      · rename_i hgone
        split
        · rename_i hlate
          simp only [not_or] at hgone
          rcases hG with ((h | h) | h) | h
          · exact absurd h hest
          · exact absurd h hgone.1
          · exact absurd h hgone.2
          · exact absurd h (UInt64.not_lt.mpr hlate)
        · rfl
  | connFree u =>
    rw [hnext,hpc] at hidle
    exact absurd rfl hidle
  | _ =>
    rw [hpc] at hcall
    cases hcall

theorem Connecting.step (h : Connecting p t k) {e : Ev} (hG : connectAnswered k e = true)
    (hidle : (k.step e).1.pc (.proc p) ≠ ProcPc.idle) : Connecting p t (k.step e).1 := by
  by_cases he : e.thread = some (.proc p)
  · cases e with
    | run τ ok =>
      cases he
      exact h.run hG hidle
    | sys q c =>
      cases he
      -- a process in a call enters no other
      have hstay : (k.step (.sys p c)).1 = k := by
        have hpc : k.pc (.proc p) ≠ ProcPc.idle := by
          intro hpc
          have hcall := h.call
          rw [hpc] at hcall
          cases hcall
        simp only [Kernel.step,Ev.effect]
        rw [if_neg hpc]
        rfl
      rw [hstay]
      exact h
    | _ => cases he
  · have hpc := Kernel.step_pc_of_ne (k := k) he
    refine ⟨by rw [hpc]; exact h.call,Nat.le_trans h.born (k.gen_step e t.slot),?_⟩
    rw [hpc]
    intro hs hl hst
    obtain ⟨hleft,hcl⟩ := hl.before h.born
    exact h.alive hs hleft (hcl hst)

theorem Connecting.exec {es : List Ev} (h : Connecting p t k)
    (hm : Meets Kernel.step (fun k e => connectAnswered k e = true) k es)
    (hidle : ∀ es', es' <+: es → (exec Kernel.step k es').pc (.proc p) ≠ ProcPc.idle) :
    Connecting p t (exec Kernel.step k es) := by
  induction es generalizing k with
  | nil => exact h
  | cons e es ih =>
    refine ih (h.step hm.1 (hidle [e] ?_)) hm.2 fun es' hes => hidle (e :: es') ?_
    · exact ⟨es,rfl⟩
    · obtain ⟨rest,rfl⟩ := hes
      exact ⟨rest,rfl⟩

/-- The section that returns the error leaves nothing. -/
theorem Connecting.fails (h : Connecting p t k) {ok : Bool} {rax : UInt64}
    (hret : .returned p rax ∈ (k.step (.run (.proc p) ok)).2) (hrax : rax ≠ 0) :
    ¬(k.step (.run (.proc p) ok)).1.Left t := by
  obtain ⟨hcall,hborn,halive⟩ := h
  replace hret : .returned p rax ∈ (procSection k.shared ok p (k.pc (.proc p))).obs := hret
  intro hl
  obtain ⟨hleft,_⟩ := hl.before hborn
  cases hpc : k.pc (.proc p) with
  | connInit | connRollback | connRestore =>
    rw [hpc] at hret
    cases hret
  | connSend s u timeout orig =>
    rw [hpc] at hret
    simp [procSection,sentObs] at hret
  | connPoll s u deadline =>
    rw [hpc] at hcall hret
    cases hcall
    simp only [procSection] at hret
    split at hret
    · -- an established connection is a success
      simp at hret
      exact hrax hret
    · split at hret
      · rename_i hgone
        rcases hgone with hcl | hin
        · exact halive (by rw [hpc]; rfl) hleft hcl
        · rw [hleft.1] at hin
          cases hin
      · split at hret <;> cases hret
  | connFree u =>
    rw [hpc] at hcall
    cases hcall
    have hop : (threadSection k.shared ok (.proc p) (k.pc (.proc p))).op = some (t.slot,.free) := by
      rw [hpc]
      rfl
    have hact := hl.1
    change ((k.shared.apply (threadSection k.shared ok (.proc p) (k.pc (.proc p)))).tcb t.slot).active
      = true at hact
    rw [apply_tcb_of_op hop] at hact
    cases hact
  | _ =>
    rw [hpc] at hcall
    cases hcall

end Step

/-- In every run in which no `sys_connect` reaches its deadline with the attempt still open, a
failed one leaves nothing behind. -/
theorem failed_connect_leaves_nothing (es : List Ev)
    (h : Meets Kernel.step (fun k e => connectAnswered k e = true) .boot es) :
    ConnectLeavesNothing es := by
  intro es₀ es₁ es₂ p ok ok' s lp dstIP dstPort timeout i rax hes k k₁ hpc hi hidle hret hrax
  subst hes
  rw [List.append_assoc,Trace.meets_append] at h
  have hm := (Trace.meets_append.mp h.2.2).1
  have hstart : Connecting p (k.shared.newRef i) (k.step (.run (.proc p) ok)).1 := by
    have hnext : (k.step (.run (.proc p) ok)).1.pc (.proc p) =
        (procSection k.shared ok p (k.pc (.proc p))).next := Conf.move_pc_self ..
    rw [hpc] at hnext
    simp only [procSection,hi] at hnext
    have hop : (threadSection k.shared ok (.proc p) (k.pc (.proc p))).op =
        some (i,.alloc k.shared.ourIP lp dstIP dstPort) := by
      rw [hpc]
      simp only [threadSection,procSection,hi]
    refine ⟨by rw [hnext]; rfl,?_,fun hs => ?_⟩
    · show k.shared.gen i+1 ≤ (k.shared.apply (threadSection k.shared ok (.proc p)
        (k.pc (.proc p)))).gen i
      rw [gen_apply_alloc hop rfl]
    · rw [hnext] at hs
      cases hs
  have hcall := hstart.exec hm hidle
  exact Kernel.not_left_exec es₂ (Nat.le_trans hcall.born (Kernel.gen_step ..))
    (hcall.fails hret hrax)

/-- A client connects, and the peer answers the SYN with a RST. -/
def refusedConnect : List Ev :=
  [.sys 0 .socket,.sys 0 (.connect 3 peerIP 80 0)]++runs (.proc 0) 6++
  [fromPeer 0 1 (tcpFlagRST ||| tcpFlagACK) []]++runs .rx 4++runs (.proc 0) 1

theorem failed_connect_refused :
    Meets Kernel.step (fun k e => connectAnswered k e = true) .boot refusedConnect ∧
    ConnectLeavesNothing refusedConnect :=
  ⟨by decide +kernel,failed_connect_leaves_nothing _ (by decide +kernel)⟩

/-- A client connects with a deadline of one tick to a peer that does not answer: up to the
claim of the slot, from there to the deadline, and what the peer sends after the call. -/
def lateClaim : List Ev :=
  [.sys 0 .socket,.sys 0 (.connect 3 peerIP 80 1),.run (.proc 0) true]

def lateWait : List Ev := runs (.proc 0) 4++[.tick,.run (.proc 0) true]

def lateAnswer : List Ev := fromPeer 1000 1 (tcpFlagSYN ||| tcpFlagACK) [] :: runs .rx 4

def lateConnect : List Ev :=
  lateClaim++.run (.proc 0) true :: lateWait++.run (.proc 0) true :: lateAnswer

/-- After the error the TCB becomes ESTABLISHED, and no descriptor refers to it. -/
theorem late_connect_left : ¬ConnectLeavesNothing lateConnect := by
  intro h
  have hidle : ∀ es' ∈ lateWait.inits, (exec Kernel.step (exec Kernel.step .boot lateClaim)
      (.run (.proc 0) true :: es')).pc (.proc 0) ≠ ProcPc.idle := by
    decide +kernel
  have hgone := h lateClaim lateWait lateAnswer 0 true true 0 tcpEphemeralBase peerIP 80 1 0 sysFailBad
    rfl (by decide +kernel) (by decide +kernel)
    (fun es' hes => hidle es' ((List.mem_inits es' lateWait).mpr hes)) (by decide +kernel)
    (by decide)
  revert hgone
  decide +kernel

example : ((exec Kernel.step .boot lateConnect).shared.tcb 0).state = .established := by
  decide +kernel

end Gooos
