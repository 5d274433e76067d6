import Mathlib
import Gooos.Tcp.Frames
import Gooos.Tcp.Kernel

/-!
# History of one connection

What happened to the connection in one table slot since it was opened, kept beside
the kernel: a run of the stack with the history of slot `i` is a run of `Sys.step i`.
-/

namespace Gooos

open Interleave Function
open Trace (Meets exec)

/-- The life of the connection in a slot, from the open that initialised it. -/
structure Hist where
  /-- bytes `sys_tcp_send` took -/
  accepted : List UInt8
  /-- segments transmitted -/
  sent : List Segment
  /-- the peer's SYN was consumed -/
  synced : Bool
  /-- payload bytes put into `rxBuf` -/
  stored : List UInt8
  /-- the peer's FIN was consumed -/
  finIn : Bool
  /-- bytes `sys_tcp_recv` returned -/
  delivered : List UInt8
  /-- `tcpClose` changed the state -/
  closeMarked : Bool
  /-- headers of the segments dispatched to the TCB -/
  arrived : List TCPHeader

/-- The bytes a handler stores when the segment is in order. -/
def storedBytes (x : TCB) (h : TCPHeader) (payload : List UInt8) : List UInt8 :=
  if h.seq = x.rcvNxt then payload.take (x.rxBuf.rbWrite payload).2 else []

/-- `tcpHandleEstablished` consumes the FIN of an in-order segment. -/
def estFinIn (x : TCB) (h : TCPHeader) : Bool :=
  h.seq == x.rcvNxt && hasFlag h.flags tcpFlagFIN

/-- The FIN_WAIT handlers consume the FIN that follows the last byte stored. -/
def fwFinIn (x : TCB) (h : TCPHeader) (payload : List UInt8) : Bool :=
  peerFinInOrder h payload (if h.seq = x.rcvNxt then acceptPayload payload x else x)

variable {op : TcbOp} {α ι : Type} {k : Kernel}

namespace Hist

def empty : Hist := ⟨[],[],false,[],false,[],false,[]⟩

/-- The history after an operation on the TCB `x`. -/
def after (H : Hist) (x : TCB) : TcbOp → Hist
  | .passiveInit _ _ => { empty with synced := true }
  | .activeInit => empty
  | .synSentAck _ => { H with synced := true }
  | .dispatch h => { H with arrived := H.arrived++[h] }
  | .established h payload =>
    { H with stored := H.stored++storedBytes x h payload, finIn := H.finIn || estFinIn x h }
  | .finWait1 h payload | .finWait2 h payload =>
    { H with stored := H.stored++storedBytes x h payload, finIn := H.finIn || fwFinIn x h payload }
  | .send ourIP ok flags options payload =>
    { H with sent := H.sent++(tcpSendSegment ourIP ok x flags options payload).2.toList }
  | .closeMark => { H with closeMarked := true }
  | .enqueue buf =>
    { H with accepted := H.accepted++buf.take (((sendEnqueue buf x).map Prod.snd).getD 0) }
  | .recvTake bufMax => { H with delivered := H.delivered++(recvTake bufMax x).2 }
  | _ => H

/-- A connection's history only grows. -/
theorem after_mono (H : Hist) (x : TCB) (op : TcbOp) (ho : op.opens = false) :
    H.sent ⊆ (H.after x op).sent ∧ H.arrived ⊆ (H.after x op).arrived ∧
      (op ≠ .closeMark → (H.after x op).closeMarked = H.closeMarked) := by
  cases op with
  | passiveInit | activeInit => cases ho
  | send => exact ⟨List.subset_append_left _ _,fun _ h => h,fun _ => rfl⟩
  | dispatch => exact ⟨fun _ h => h,List.subset_append_left _ _,fun _ => rfl⟩
  | closeMark => exact ⟨fun _ h => h,fun _ h => h,fun h => absurd rfl h⟩
  | _ => exact ⟨fun _ h => h,fun _ h => h,fun _ => rfl⟩

theorem finIn_after {H : Hist} (x : TCB) (ho : op.opens = false)
    (h : H.finIn = true) : (H.after x op).finIn = true := by
  cases op with
  | passiveInit | activeInit => cases ho
  | established | finWait1 | finWait2 => simp [after,h]
  | _ => exact h

end Hist

/-- The kernel with the history of one slot. -/
abbrev Sys := Kernel × Hist

namespace Sys

/-- The TCB in a slot. -/
def tcb (σ : Sys) (i : Slot) : TCB := σ.1.shared.tcb i

/-- The operation an event performs on slot `i`. -/
def opOn (i : Slot) (σ : Sys) (e : Ev) : Option TcbOp :=
  match (e.effect σ.1).bind (·.2.op) with
  | some (j,op) => if j = i then some op else none
  | none => none

/-- A step of the kernel, tracking the operations on slot `i`. -/
def step (i : Slot) (σ : Sys) (e : Ev) : Sys × List Obs :=
  let r := σ.1.step e
  ((r.1,match σ.opOn i e with
    | some op => σ.2.after (σ.tcb i) op
    | none => σ.2),r.2)

def boot : Sys := (.boot,.empty)

theorem opOn_eq {i : Slot} {σ : Sys} {e : Ev} {τ : Tid} {f : Effect (PcOf τ)}
    (he : e.effect σ.1 = some ⟨τ,f⟩) (hop : f.op = some (i,op)) : σ.opOn i e = some op := by
  simp [opOn,he,hop]

theorem opOn_quiet {i : Slot} {σ : Sys} {e : Ev} {τ : Tid} {f : Effect (PcOf τ)}
    (he : e.effect σ.1 = some ⟨τ,f⟩) (hq : ∀ op, f.op ≠ some (i,op)) : σ.opOn i e = none := by
  cases hop : f.op with
  | none => simp [opOn,he,hop]
  | some w =>
    obtain ⟨j,op⟩ := w
    have hji : j ≠ i := by
      rintro rfl
      exact hq op hop
    simp [opOn,he,hop,hji]

/-- The segment an event transmits on slot `i`. -/
def sends (i : Slot) (σ : Sys) (e : Ev) : Option Segment :=
  match σ.opOn i e with
  | some (.send ourIP ok flags options payload) =>
    (tcpSendSegment ourIP ok (σ.tcb i) flags options payload).2
  | _ => none

/-- The event opens no new connection in slot `i`. -/
def continues (i : Slot) (σ : Sys) (e : Ev) : Bool := !(σ.opOn i e).any TcbOp.opens

/-- A transmission on slot `i` is an operation of `tcpSendSegment`. -/
theorem sends_op {i : Slot} {σ : Sys} {e : Ev} {seg : Segment} (h : σ.sends i e = some seg) :
    ∃ ourIP ok flags options payload, σ.opOn i e = some (.send ourIP ok flags options payload) ∧
      (tcpSendSegment ourIP ok (σ.tcb i) flags options payload).2 = some seg := by
  rw [Sys.sends] at h
  split at h
  · exact ⟨_,_,_,_,_,‹_›,h⟩
  · cases h

/-- The event of an operation on slot `i`. -/
theorem step_of_opOn {i : Slot} {σ : Sys} {e : Ev} (h : σ.opOn i e = some op) :
    ∃ τ f, e.effect σ.1 = some ⟨τ,f⟩ ∧ f.op = some (i,op) := by
  rw [Sys.opOn] at h
  split at h
  · rename_i j op' hbind
    split at h
    · rename_i hji
      cases h
      subst hji
      obtain ⟨⟨τ,f⟩,he,hop⟩ := Option.bind_eq_some_iff.mp hbind
      exact ⟨τ,f,he,hop⟩
    · cases h
  · cases h

end Sys

/-! ## Table updates -/

@[simp] theorem put_none [DecidableEq ι] (f : ι → α) : put f none = f := rfl

@[simp] theorem put_same [DecidableEq ι] (f : ι → α) (i : ι) (x : α) :
    put f (some (i,x)) i = x := by
  simp [put]

theorem put_of_ne [DecidableEq ι] (f : ι → α) {i j : ι} (x : α) (h : j ≠ i) :
    put f (some (i,x)) j = f j := by
  simp [put,h]

section Apply

variable {π : Type} {s : Shared} {f : Effect π} {i : Slot}

theorem apply_tcb_of_op (h : f.op = some (i,op)) :
    (s.apply f).tcb i = op.run s.pitTicks (s.tcb i) := by
  simp [Shared.apply,h]

/-- An effect without an operation on slot `i` leaves its TCB alone. -/
theorem apply_tcb_of_quiet (h : ∀ op, f.op ≠ some (i,op)) : (s.apply f).tcb i = s.tcb i := by
  cases hop : f.op with
  | none => simp [Shared.apply,hop]
  | some w =>
    obtain ⟨j,op⟩ := w
    have hij : i ≠ j := by
      rintro rfl
      exact h op hop
    simp only [Shared.apply,hop,Option.map_some]
    exact put_of_ne _ _ hij

end Apply

/-! ## Outlines along runs -/

/-- How an event moves a thread: it sets an idle one going, or runs its next section. -/
inductive Moved (k : Kernel) : Ev → (τ : Tid) → Effect (PcOf τ) → Prop where
  | segment (hdr h payload) (hidle : k.pc .rx = RxPc.idle) :
    Moved k (.segment hdr h payload) .rx { next := RxPc.lookup hdr h payload }
  | scan (hidle : (k.pc .scan).isIdle = true) : Moved k .scan .scan { next := ScanPc.select }
  | echo (hidle : k.pc .echo = EchoPc.idle) : Moved k .echo .echo { next := EchoPc.check 0 }
  | sys (p c) (hidle : k.pc (.proc p) = ProcPc.idle) :
    Moved k (.sys p c) (.proc p) (sysEntry k.shared p c)
  | run (τ ok) : Moved k (.run τ ok) τ (threadSection k.shared ok τ (k.pc τ))

theorem Ev.moved {e : Ev} {τ : Tid} {f : Effect (PcOf τ)}
    (h : e.effect k = some ⟨τ,f⟩) : Moved k e τ f := by
  cases e with
  | tick | setIP => cases h
  | run τ ok => cases h; exact .run ..
  | segment hdr hd payload =>
    simp only [Ev.effect] at h
    split at h <;> cases h
    exact .segment _ _ _ ‹_›
  | scan =>
    simp only [Ev.effect] at h
    split at h <;> cases h
    exact .scan ‹_›
  | echo =>
    simp only [Ev.effect] at h
    split at h <;> cases h
    exact .echo ‹_›
  | sys p c =>
    simp only [Ev.effect] at h
    split at h <;> cases h
    exact .sys _ _ ‹_›

/-- The thread an event moves. -/
def Ev.thread : Ev → Option Tid
  | .tick => none
  | .setIP _ => none
  | .segment .. => some .rx
  | .scan => some .scan
  | .echo => some .echo
  | .sys p _ => some (.proc p)
  | .run τ _ => some τ

theorem Ev.thread_of_effect {e : Ev} {τ : Tid} {f : Effect (PcOf τ)}
    (h : e.effect k = some ⟨τ,f⟩) : e.thread = some τ := by
  cases Ev.moved h <;> rfl

/-- Other events leave a thread where it is. -/
theorem Kernel.step_pc_of_ne {e : Ev} {τ : Tid} (h : e.thread ≠ some τ) :
    (k.step e).1.pc τ = k.pc τ := by
  rw [Kernel.step]
  split
  · rfl
  · rename_i τ' f he
    have hne : τ ≠ τ' := by
      rintro rfl
      exact h (Ev.thread_of_effect he)
    exact k.move_pc_of_ne _ _ _ hne

namespace Sys

variable {i : Slot} {σ : Sys} {e : Ev} {τ : Tid} {f : Effect (PcOf τ)}

/-- A step with an operation on slot `i`. -/
theorem step_op (he : e.effect σ.1 = some ⟨τ,f⟩) (hop : f.op = some (i,op)) :
    (step i σ e).1.tcb i = op.run σ.1.shared.pitTicks (σ.tcb i) ∧
    (step i σ e).1.2 = σ.2.after (σ.tcb i) op ∧
    (step i σ e).1.1.pc = update σ.1.pc τ f.next := by
  have hon := opOn_eq he hop
  refine ⟨?_,?_,?_⟩
  · simp only [step,tcb,Kernel.step,he,Conf.move,apply_tcb_of_op hop]
  · simp only [step,hon]
  · simp only [step,Kernel.step,he,Conf.move]

/-- A step of a thread without an operation on slot `i`. -/
theorem step_quiet (he : e.effect σ.1 = some ⟨τ,f⟩) (hq : ∀ op, f.op ≠ some (i,op)) :
    (step i σ e).1.tcb i = σ.tcb i ∧ (step i σ e).1.2 = σ.2 ∧
    (step i σ e).1.1.pc = update σ.1.pc τ f.next := by
  have hon := opOn_quiet he hq
  refine ⟨?_,?_,?_⟩
  · simp only [step,tcb,Kernel.step,he,Conf.move,apply_tcb_of_quiet hq]
  · simp only [step,hon]
  · simp only [step,Kernel.step,he,Conf.move]

/-- A step of the environment. -/
theorem step_env (he : e.effect σ.1 = none) :
    (step i σ e).1.tcb i = σ.tcb i ∧ (step i σ e).1.2 = σ.2 ∧ (step i σ e).1.1.pc = σ.1.pc := by
  have htcb : (Ev.env σ.1.shared e).tcb i = σ.1.shared.tcb i := by
    cases e <;> rfl
  refine ⟨?_,?_,?_⟩
  · simp only [step,tcb,Kernel.step,he,htcb]
  · simp only [step,opOn,he,Option.bind_none]
  · simp only [step,Kernel.step,he]

end Sys

/-- Invariant rule for a slot: a property of its TCB, its history and the control points.
Guarded effects that operate on the slot have to keep it, and so have the others, which
only move a thread. -/
theorem slotInv_run {J : TCB → Hist → ((τ : Tid) → PcOf τ) → Prop} {i : Slot}
    {G : Sys → Ev → Bool}
    (hop : ∀ (σ : Sys) e τ f op, J (σ.tcb i) σ.2 σ.1.pc → G σ e = true →
      e.effect σ.1 = some ⟨τ,f⟩ → f.op = some (i,op) →
      J (op.run σ.1.shared.pitTicks (σ.tcb i)) (σ.2.after (σ.tcb i) op)
        (update σ.1.pc τ f.next))
    (hquiet : ∀ (σ : Sys) e τ f, J (σ.tcb i) σ.2 σ.1.pc → G σ e = true →
      e.effect σ.1 = some ⟨τ,f⟩ → (∀ op, f.op ≠ some (i,op)) →
      J (σ.tcb i) σ.2 (update σ.1.pc τ f.next))
    {σ : Sys} {es : List Ev} (h0 : J (σ.tcb i) σ.2 σ.1.pc)
    (hm : Meets (Sys.step i) (fun σ e => G σ e = true) σ es) :
    J ((exec (Sys.step i) σ es).tcb i) (exec (Sys.step i) σ es).2
      (exec (Sys.step i) σ es).1.pc := by
  refine Meets.inv (I := fun σ => J (σ.tcb i) σ.2 σ.1.pc) ?_ h0 hm
  intro σ e hk hG
  cases he : e.effect σ.1 with
  | none =>
    obtain ⟨htcb,hH,hpc⟩ := Sys.step_env (i := i) he
    rw [htcb,hH,hpc]
    exact hk
  | some w =>
    obtain ⟨τ,f⟩ := w
    by_cases hi : ∃ op, f.op = some (i,op)
    · obtain ⟨op,hfop⟩ := hi
      obtain ⟨htcb,hH,hpc⟩ := Sys.step_op he hfop
      rw [htcb,hH,hpc]
      exact hop σ e τ f op hk hG he hfop
    · have hq : ∀ op, f.op ≠ some (i,op) := fun op h => hi ⟨op,h⟩
      obtain ⟨htcb,hH,hpc⟩ := Sys.step_quiet he hq
      rw [htcb,hH,hpc]
      exact hquiet σ e τ f hk hG he hq

/-- The kernel runs as it does without the history. -/
theorem Sys.exec_fst (i : Slot) (σ : Sys) (es : List Ev) :
    (exec (Sys.step i) σ es).1 = exec Kernel.step σ.1 es := by
  induction es generalizing σ with
  | nil => rfl
  | cons e es ih => exact ih _

/-- Invariant rule without a guard: a property of the TCB in slot `i` that every operation
some thread can perform on it keeps. -/
theorem tcbInv_run {I : TCB → Prop} {i : Slot}
    (hop : ∀ (k : Kernel) (e : Ev) (τ : Tid) (f : Effect (PcOf τ)) (op : TcbOp),
      I (k.shared.tcb i) → e.effect k = some ⟨τ,f⟩ → f.op = some (i,op) →
      I (op.run k.shared.pitTicks (k.shared.tcb i)))
    (h0 : I .zero) (es : List Ev) : I ((exec Kernel.step .boot es).shared.tcb i) := by
  have hm : Meets (Sys.step i) (fun _ _ => true = true) .boot es :=
    Trace.meets_of_forall (fun _ _ => rfl) _ _
  have hrun := slotInv_run (J := fun x _ _ => I x) (G := fun _ _ => true) (σ := .boot)
    (fun σ e τ f op h _ he hfop => hop σ.1 e τ f op h he hfop) (fun _ _ _ _ h _ _ _ => h) h0 hm
  rw [Sys.tcb,Sys.exec_fst] at hrun
  exact hrun

/-- A proof outline about one slot: its assertions read the TCB and the history. -/
abbrev SlotOutline := Outline (TCB × Hist) PcOf

/-- The outline holds of slot `i`. -/
def SlotOutline.At (A : SlotOutline) (i : Slot) (σ : Sys) : Prop :=
  A.Holds (σ.tcb i,σ.2) σ.1.pc

/-- Outline rule for a slot. Guarded effects that operate on the slot have to keep the
outline; for the others it is enough that the moving thread reaches its next assertion. -/
theorem SlotOutline.run {A : SlotOutline} {i : Slot} {G : Sys → Ev → Bool}
    (hop : ∀ (σ : Sys) e τ f op, A.At i σ → G σ e = true → e.effect σ.1 = some ⟨τ,f⟩ →
      f.op = some (i,op) →
      A.glob (op.run σ.1.shared.pitTicks (σ.tcb i),σ.2.after (σ.tcb i) op) ∧
      A.loc τ f.next (op.run σ.1.shared.pitTicks (σ.tcb i),σ.2.after (σ.tcb i) op) ∧
      ∀ τ', τ' ≠ τ → A.loc τ' (σ.1.pc τ') (σ.tcb i,σ.2) →
        A.loc τ' (σ.1.pc τ') (op.run σ.1.shared.pitTicks (σ.tcb i),σ.2.after (σ.tcb i) op))
    (hquiet : ∀ (σ : Sys) e τ f, A.At i σ → G σ e = true → e.effect σ.1 = some ⟨τ,f⟩ →
      (∀ op, f.op ≠ some (i,op)) → A.loc τ f.next (σ.tcb i,σ.2))
    {σ : Sys} {es : List Ev} (h0 : A.At i σ)
    (hm : Meets (Sys.step i) (fun σ e => G σ e = true) σ es) :
    A.At i (exec (Sys.step i) σ es) := by
  refine slotInv_run (J := fun x H pc => A.Holds (x,H) pc) ?_ ?_ h0 hm
  · intro σ e τ f op hk hG he hfop
    obtain ⟨hglob,hnext,hstable⟩ := hop σ e τ f op hk hG he hfop
    exact Outline.Holds.move hk hglob hnext hstable
  · intro σ e τ f hk hG he hq
    exact Outline.Holds.move hk hk.1 (hquiet σ e τ f hk hG he hq) fun _ _ h => h

/-! ## A client connection

Events of a process that connects to `10.0.2.2:80` from the first ephemeral port right
after boot, in slot 0 with `iss = 0`. -/

/-- `n` sections of a thread, each transmission succeeding. -/
def runs (τ : Tid) (n : ℕ) : List Ev := List.replicate n (.run τ true)

def peerIP : UInt32 := 0x0A000202

def ourAddr : UInt32 := 0x0A00020F

/-- A segment of the peer of the client connection. -/
def fromPeer (seq ack : UInt32) (flags : UInt8) (payload : List UInt8) : Ev :=
  .segment ⟨peerIP,ourAddr⟩ ⟨80,tcpEphemeralBase,seq,ack,flags,8192,[]⟩ payload

/-- `sys_socket`, `sys_connect` and the three-way handshake; the peer's `irs` is 1000. -/
def clientHandshake : List Ev :=
  [.sys 0 .socket,.sys 0 (.connect 3 peerIP 80 0)]++runs (.proc 0) 6++
  [fromPeer 1000 1 (tcpFlagSYN ||| tcpFlagACK) []]++runs .rx 4++runs (.proc 0) 1

/-- `sys_tcp_send` of a few bytes, drained in one segment. -/
def clientSend (bytes : List UInt8) : List Ev :=
  .sys 0 (.send 3 userAddrMin bytes) :: runs (.proc 0) 5

/-- A segment of a peer of the listener on port 8080. -/
def toEcho (seq ack : UInt32) (flags : UInt8) (payload : List UInt8) : Ev :=
  .segment ⟨peerIP,ourAddr⟩ ⟨5000,tcpEchoListenPort,seq,ack,flags,8192,[]⟩ payload

/-- A peer connects to the echo server; the TCB is in slot 0 with `iss = 0`. -/
def echoHandshake : List Ev :=
  toEcho 1000 0 tcpFlagSYN [] :: runs .rx 8++toEcho 1001 1 tcpFlagACK [] :: runs .rx 4

end Gooos
