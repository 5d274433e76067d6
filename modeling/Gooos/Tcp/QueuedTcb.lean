import Mathlib
import Gooos.Tcp.Pointers

/-!
# Queued TCBs

The pending and accept queues of the listeners against the TCBs they point to: the
invariant, and its step lemma for the sections that operate on a TCB.
-/

namespace Gooos

open Interleave Function

/-- ESTABLISHED or a later state. -/
def TcbState.opened : TcbState → Bool
  | .established | .closeWait | .finWait1 | .finWait2 | .closing | .lastAck | .timeWait => true
  | .closed | .listen | .synSent | .synReceived => false

/-- The slots a listener's queues point to. -/
def TcpListener.slots (l : TcpListener) : List Slot := l.refs.map (·.slot)

namespace Shared

/-- Some listener's queue points to slot `i`. -/
def Queued (s : Shared) (i : Slot) : Prop := ∃ l, i ∈ (s.listener l).slots

/-- Some listener's pending queue points to slot `i`. -/
def Pending (s : Shared) (i : Slot) : Prop := ∃ l, ∃ r ∈ (s.listener l).pending, r.slot = i

end Shared

/-- The connection whose third ACK the receive loop has accepted but not yet promoted. -/
def RxPc.promoting : RxPc → Option (Fin 4 × Slot)
  | .promote l t _ _ => some (l,t.slot)
  | _ => none

/-- The slot `tcpTryPassiveOpen` claimed and has not yet put on the pending queue. -/
def RxPc.initialising : RxPc → Option Slot
  | .openInit _ t _ | .openPush _ t => some t.slot
  | _ => none

/-- The slot `tcpActiveConnect` claimed and has not yet initialised. -/
def ProcPc.initialising : ProcPc → Option Slot
  | .connInit _ t _ => some t.slot
  | _ => none

/-- An entry of the pending queue of listener `l`. -/
structure PendingEntry (s : Shared) (prom : Option (Fin 4 × Slot)) (l : Fin 4) (i : Slot) :
    Prop where
  active : (s.tcb i).active = true
  listener : (s.tcb i).listener = some l
  port : (s.tcb i).localPort = (s.listener l).port
  state : (s.tcb i).state = .synReceived ∨ prom = some (l,i) ∧ (s.tcb i).state.opened = true

/-- An entry of the accept queue of listener `l`. -/
structure AcceptEntry (s : Shared) (l : Fin 4) (i : Slot) : Prop where
  active : (s.tcb i).active = true
  port : (s.tcb i).localPort = (s.listener l).port
  state : (s.tcb i).state.opened = true

/-- The queues of all listeners; `prom` is the entry being promoted. -/
structure Queues (s : Shared) (prom : Option (Fin 4 × Slot)) : Prop where
  pending : ∀ l, ∀ r ∈ (s.listener l).pending, PendingEntry s prom l r.slot
  accept : ∀ l, ∀ r ∈ (s.listener l).accept, AcceptEntry s l r.slot
  nodup : ∀ l, (s.listener l).slots.Nodup
  disjoint : ∀ l l' i, i ∈ (s.listener l).slots → i ∈ (s.listener l').slots → l = l'

/-- What the receive loop knows at each section. -/
def RxOk (s : Shared) : RxPc → Prop
  | .openAlloc l _ h _ => (s.listener l).active = true ∧ (s.listener l).port = h.dstPort
  | .openInit l t _ => (s.listener l).active = true ∧ ¬s.Queued t.slot ∧
    (s.tcb t.slot).active = true ∧ (s.tcb t.slot).localPort = (s.listener l).port
  | .openPush l t => (s.listener l).active = true ∧ ¬s.Queued t.slot ∧
    (s.tcb t.slot).active = true ∧ (s.tcb t.slot).localPort = (s.listener l).port ∧
    (s.tcb t.slot).listener = some l ∧ (s.tcb t.slot).state = .synReceived
  | .promote l t _ _ => ∀ l', ∀ r ∈ (s.listener l').pending, r.slot = t.slot →
    l' = l ∧ (s.tcb t.slot).state.opened = true
  | .synSent t _ _ | .established t _ _ | .finWait1 t _ _ | .finWait2 t _ _ | .closing t _
  | .timeWait t | .sendAck t _ => ¬s.Pending t.slot
  | _ => True

/-- What a process knows while it connects. -/
def ProcOk (s : Shared) : ProcPc → Prop
  | .connInit _ t _ => (s.tcb t.slot).active = true ∧ ¬s.Queued t.slot
  | _ => True

/-- What a thread knows at each section. -/
def PcOk (s : Shared) : (τ : Tid) → PcOf τ → Prop
  | .rx, l => RxOk s l
  | .proc _, l => ProcOk s l
  | .scan, _ => True
  | .echo, _ => True

/-- The queue invariant of the stack. -/
structure QueueInv (k : Kernel) : Prop where
  queues : Queues k.shared (RxPc.promoting (k.pc .rx))
  pc : ∀ τ, PcOk k.shared τ (k.pc τ)
  apart : ∀ p i, ProcPc.initialising (k.pc (.proc p)) = some i →
    RxPc.initialising (k.pc .rx) ≠ some i

theorem Shared.Pending.queued {s : Shared} {i : Slot} (h : s.Pending i) : s.Queued i := by
  obtain ⟨l,r,hr,rfl⟩ := h
  exact ⟨l,List.mem_map_of_mem (List.mem_append_left _ hr)⟩

theorem mem_slots {l : TcpListener} {i : Slot} : i ∈ l.slots ↔
    (∃ r ∈ l.pending, r.slot = i) ∨ ∃ r ∈ l.accept, r.slot = i := by
  simp [TcpListener.slots,TcpListener.refs]

variable {prom : Option (Fin 4 × Slot)} {x : TCB} {c : ProcPc}

theorem Queues.active {s : Shared} (hq : Queues s prom) {i : Slot}
    (h : s.Queued i) : (s.tcb i).active = true := by
  obtain ⟨l,h⟩ := h
  rcases mem_slots.mp h with ⟨r,hr,rfl⟩ | ⟨r,hr,rfl⟩
  · exact (hq.pending l r hr).active
  · exact (hq.accept l r hr).active

/-! ## Operations on queued TCBs -/

/-- The operation makes the slot another connection, or takes it from its listener. -/
def TcbOp.unseats : TcbOp → Bool
  | .alloc .. | .free | .passiveInit .. | .activeInit | .clearListener => true
  | _ => false

theorem unseats_keeps {op : TcbOp} (h : op.unseats = false) (now : UInt64) (x : TCB) :
    (op.run now x).active = x.active ∧ (op.run now x).localPort = x.localPort ∧
    (op.run now x).listener = x.listener := by
  have hf := op.run_frame now x
  have hb : op.binds = false := by cases op <;> first | rfl | cases h
  have he : op.enlists = false := by cases op <;> first | rfl | cases h
  exact ⟨(hf.addr hb).1,(hf.addr hb).2.2.1,hf.listener he⟩

/-- No operation but a new open leads back from ESTABLISHED or later. -/
theorem opened_run {op : TcbOp} (h : op.unseats = false) (now : UInt64)
    (hx : x.state.opened = true) : (op.run now x).state.opened = true := by
  rcases op.run_state now x with hst | hst
  · rw [hst,hx]
  · revert hst
    generalize (op.run now x).state = st'
    intro hst
    cases op with
    | closeMark =>
      rcases TcbOp.leads_closeMark.mp hst with ⟨-,rfl⟩ | ⟨-,rfl⟩ <;> rfl
    | finWait1 hd payload =>
      cases st' <;> first | rfl | cases hst
    | alloc | free | passiveInit | activeInit => cases h
    | _ => cases st' <;> first | rfl | cases hst

/-- The operations that take a TCB out of SYN_RECEIVED. -/
def TcbOp.leavesSynReceived : TcbOp → Bool
  | .synSentAck _ | .synReceivedAck _ | .established .. | .finWait1 .. | .finWait2 ..
  | .closing _ | .echoFinCommit => true
  | _ => false

theorem synReceived_run {op : TcbOp} (h : op.unseats = false)
    (hl : op.leavesSynReceived = false) (now : UInt64) (hx : x.state = .synReceived) :
    (op.run now x).state = .synReceived := by
  rcases op.run_state now x with hst | hst
  · rw [hst,hx]
  · rw [hx] at hst
    revert hst
    generalize (op.run now x).state = st'
    intro hst
    cases op with
    | closeMark => rcases TcbOp.leads_closeMark.mp hst with ⟨h,-⟩ | ⟨h,-⟩ <;> cases h
    | alloc | free | passiveInit | activeInit => cases h
    | _ => first | cases hst | cases hl

/-! ## Which operations reach a queued TCB -/

theorem tcbAllocFind_inactive {tcb : Slot → TCB} {i : Slot} (h : tcbAllocFind tcb = some i) :
    (tcb i).active = false := by
  simpa using List.find?_some h

/-- The conditions under which an operation leaves the queues alone. -/
structure SafeOp (s : Shared) (busy : Prop) (i : Slot) (op : TcbOp) : Prop where
  release : op = .free ∨ op = .clearListener → ¬s.Queued i ∧ ¬busy
  finCommit : op = .echoFinCommit → (s.tcb i).state ≠ .synReceived

section Reach

variable {s : Shared} {ok : Bool} {τ : Tid} {l : PcOf τ} {i : Slot} {op : TcbOp} {busy : Prop}

/-- Nobody turns a queued slot into another connection. -/
theorem Does.unseats_of_queued (hd : Does s ok τ l i op)
    (hl : PcOk s τ l) (hq : Queues s prom) (hsafe : SafeOp s busy i op) (h : s.Queued i) :
    op.unseats = false := by
  cases hd with
  | openAlloc _ _ _ _ _ hi | connAlloc _ _ _ _ _ _ _ hi =>
    exact absurd (hq.active h) (by simp [tcbAllocFind_inactive hi])
  | openInit => exact absurd h hl.2.1
  | connInit => exact absurd h hl.2
  | rxFree | rtoFree | scanFree | connFree | listenerFree =>
    exact absurd h (hsafe.release (.inl rfl)).1
  | listenerClear => exact absurd h (hsafe.release (.inr rfl)).1
  | _ => rfl

/-- Only the third ACK takes a pending TCB out of SYN_RECEIVED. -/
theorem Does.leaves_of_pending (hd : Does s ok τ l i op) (hl : PcOk s τ l)
    (hsafe : SafeOp s busy i op) (h : s.Pending i) (hst : (s.tcb i).state = .synReceived)
    (hleave : op.leavesSynReceived = true) :
    τ = .rx ∧ ∃ hdr, op = .synReceivedAck hdr := by
  cases hd with
  | synReceived => exact ⟨rfl,_,rfl⟩
  | synSent | established | finWait1 | finWait2 | closing => exact absurd h hl
  | echoFinCommit => exact absurd hst (hsafe.finCommit rfl)
  | _ => cases hleave

end Reach

/-! ## Steps on a TCB -/

/-- The queues after an operation on slot `i`: what happens to a pending TCB there is left
to `hkeep`. -/
theorem Queues.run {s s' : Shared} {prom prom' : Option (Fin 4 × Slot)} {i : Slot} {op : TcbOp}
    {now : UInt64} (hq : Queues s prom) (hlis : s'.listener = s.listener)
    (htcb : s'.tcb = update s.tcb i (op.run now (s.tcb i)))
    (hseat : s.Queued i → op.unseats = false) (hprom : prom = none ∨ prom' = prom)
    (hkeep : ∀ l, ∀ r ∈ (s.listener l).pending, r.slot = i → (s.tcb i).state = .synReceived →
      (op.run now (s.tcb i)).state = .synReceived ∨
      prom' = some (l,i) ∧ (op.run now (s.tcb i)).state.opened = true) : Queues s' prom' where
  pending l r hr := by
    rw [hlis] at hr
    have he := hq.pending l r hr
    by_cases hi : r.slot = i
    · have hu := hseat ⟨l,List.mem_map.mpr ⟨r,List.mem_append_left _ hr,hi⟩⟩
      obtain ⟨hact,hport,hls⟩ := unseats_keeps hu now (s.tcb i)
      rw [hi] at he ⊢
      refine ⟨?_,?_,?_,?_⟩ <;> rw [htcb,update_self]
      · rw [hact,he.active]
      · rw [hls,he.listener]
      · rw [hport,he.port,hlis]
      · rcases he.state with hst | ⟨hp,hst⟩
        · exact hkeep l r hr hi hst
        · refine .inr ⟨?_,opened_run hu now hst⟩
          rcases hprom with h | h
          · rw [h] at hp; cases hp
          · rw [h,hp]
    · refine ⟨?_,?_,?_,?_⟩ <;> rw [htcb,update_of_ne hi]
      · exact he.active
      · exact he.listener
      · rw [he.port,hlis]
      · rcases he.state with hst | ⟨hp,hst⟩
        · exact .inl hst
        · refine .inr ⟨?_,hst⟩
          rcases hprom with h | h
          · rw [h] at hp; cases hp
          · rw [h,hp]
  accept l r hr := by
    rw [hlis] at hr
    have he := hq.accept l r hr
    by_cases hi : r.slot = i
    · have hu := hseat ⟨l,List.mem_map.mpr ⟨r,List.mem_append_right _ hr,hi⟩⟩
      obtain ⟨hact,hport,-⟩ := unseats_keeps hu now (s.tcb i)
      rw [hi] at he ⊢
      refine ⟨?_,?_,?_⟩ <;> rw [htcb,update_self]
      · rw [hact,he.active]
      · rw [hport,he.port,hlis]
      · exact opened_run hu now he.state
    · refine ⟨?_,?_,?_⟩ <;> rw [htcb,update_of_ne hi]
      · exact he.active
      · rw [he.port,hlis]
      · exact he.state
  nodup := by rw [hlis]; exact hq.nodup
  disjoint := by rw [hlis]; exact hq.disjoint

theorem afterClose_listener (s : Shared) (p : ProcSlot) (t : TcbRef) (c : AfterClose) :
    (afterClose s p t c).listener = none := by
  cases c with
  | shutdown how =>
    simp only [afterClose]
    split <;> rfl
  | _ => rfl

/-- A section that operates on a TCB writes no queue. -/
theorem listener_of_op {s : Shared} {ok : Bool} {τ : Tid} {l : PcOf τ} {w : Slot × TcbOp}
    (h : (threadSection s ok τ l).op = some w) : (threadSection s ok τ l).listener = none := by
  cases τ with
  | scan => exact (scanSection_quiet s ok l).2.2
  | echo => exact (echoSection_quiet s ok l).2.2
  | rx =>
    obtain ⟨i,op⟩ := w
    have hd := rx_does h
    cases hd with
    | openAlloc _ _ _ _ _ hi => simp only [threadSection,rxSection,hi]
    | _ => rfl
  | proc p =>
    obtain ⟨i,op⟩ := w
    have hd := proc_does h
    cases hd with
    | connAlloc _ _ _ _ _ _ _ hi => simp only [threadSection,procSection,hi]
    | enqueue _ _ _ _ hr => simp only [threadSection,procSection,hr]
    | recv _ _ _ _ _ hact =>
      simp only [threadSection,procSection]
      repeat' (first | rfl | split)
    | closeMark _ _ _ _ hx => simp only [threadSection,procSection,hx]
    | closeSend _ _ c =>
      simp only [threadSection,procSection]
      split
      · rfl
      · exact afterClose_listener ..
    | closeCommit => exact afterClose_listener ..
    | _ => rfl

section SameQueues

variable {s s' : Shared} (h : s'.listener = s.listener)
include h

theorem pending_congr (i : Slot) : s'.Pending i ↔ s.Pending i := by simp only [Shared.Pending,h]

theorem queued_congr (i : Slot) : s'.Queued i ↔ s.Queued i := by simp only [Shared.Queued,h]

end SameQueues

/-- `tcpDispatchToTCB` sends a pending TCB to the SYN_RECEIVED handler only. -/
theorem dispatch_ok {s : Shared} {t : TcbRef} {h : TCPHeader} {payload : List UInt8}
    (hp : s.Pending t.slot → x.state = .synReceived) :
    RxOk s (tcpDispatchToTCB x t h payload) := by
  have hnp {st : TcbState} (hx : x.state = st) (hst : st ≠ .synReceived) : ¬s.Pending t.slot :=
    fun hpd => hst (hx.symm.trans (hp hpd))
  have hdis := tcpDispatchToTCB_dispatched x t h payload
  generalize tcpDispatchToTCB x t h payload = l at hdis
  cases hdis with
  | synSent hst | established hst | reack hst | finWait1 hst | finWait2 hst | closing hst
  | timeWait hst => exact hnp hst (by decide)
  | _ => trivial

theorem afterPromote_ok {s : Shared} {t : TcbRef} {h : TCPHeader} {payload : List UInt8}
    (hp : ¬s.Pending t.slot) : RxOk s (afterPromote t h payload) := by
  rw [afterPromote]
  split
  · exact hp
  · trivial

/-- The receive loop after a section that operates on a TCB. -/
theorem rx_next_ok {s : Shared} {ok : Bool} {l : RxPc} {i : Slot} {op : TcbOp} (hl : RxOk s l)
    (hq : Queues s l.promoting) (hop : (rxSection s ok l).op = some (i,op)) :
    RxOk (s.apply (rxSection s ok l)) (rxSection s ok l).next := by
  have hlis : (s.apply (rxSection s ok l)).listener = s.listener := by
    have hnone : (threadSection s ok .rx l).listener = none := listener_of_op hop
    simp only [threadSection] at hnone
    simp only [Shared.apply,hnone,put_none]
  have hpend := pending_congr hlis
  have hqueue := queued_congr hlis
  have hkind {prom : Option (Fin 4 × Slot)} (hprom : prom = none) (hq : Queues s prom) {i : Slot}
      (hpd : s.Pending i) : (s.tcb i).state = .synReceived := by
    obtain ⟨m,r,hr,rfl⟩ := hpd
    rcases (hq.pending m r hr).state with hst | ⟨h,-⟩
    · exact hst
    · rw [hprom] at h; cases h
  cases rx_does hop with
  | dispatch t h payload =>
    refine dispatch_ok fun hpd => hkind rfl hq ((hpend _).mp hpd)
  | synSent | established | finWait1 | finWait2 | timeWait =>
    exact fun hpd => hl ((hpend _).mp hpd)
  | synReceived t h payload =>
    simp only [rxSection]
    cases hls : (s.tcb t.slot).listener with
    | none =>
      refine afterPromote_ok fun hpd => ?_
      obtain ⟨m,r,hr,hrt⟩ := (hpend _).mp hpd
      have := (hq.pending m r hr).listener
      rw [hrt,hls] at this
      cases this
    | some m =>
      intro m' r hr hrt
      have hm := (hq.pending m' r hr).listener
      rw [hrt,hls] at hm
      cases hm
      refine ⟨rfl,?_⟩
      rw [apply_tcb_of_op rfl]
      obtain ⟨f,hf⟩ := synReceivedAck_shape s.pitTicks h (s.tcb t.slot)
      rw [TcbOp.run,hf]
      rfl
  | sendAck t again =>
    cases again with
    | none => trivial
    | some w => exact fun hpd => hl ((hpend _).mp hpd)
  | openAlloc m hdr h payload i hi =>
    have hin : ¬s.Queued i := fun hqd => by
      have := hq.active hqd
      rw [tcbAllocFind_inactive hi] at this
      cases this
    simp only [rxSection,hi] at hlis hqueue ⊢
    refine ⟨?_,fun hqd => hin ((hqueue i).mp hqd),?_,?_⟩
    · exact hl.1
    · rw [apply_tcb_of_op rfl]
      rfl
    · rw [apply_tcb_of_op rfl]
      exact hl.2.symm
  | openInit m t h =>
    obtain ⟨hact,hnq,hx,hport⟩ := hl
    refine ⟨?_,fun hqd => hnq ((hqueue _).mp hqd),?_,?_,?_,?_⟩
    · exact hact
    · rw [apply_tcb_of_op rfl]; exact hx
    · rw [apply_tcb_of_op rfl]; exact hport
    · rw [apply_tcb_of_op rfl]; rfl
    · rw [apply_tcb_of_op rfl]; rfl
  | openRestore m t orig sent => cases sent <;> trivial
  | _ => trivial

/-- A process initialises the slot that `tcbAlloc` just gave it. -/
theorem proc_next_initialising {s : Shared} {ok : Bool} {p : ProcSlot} {l : ProcPc} {i : Slot}
    (h : (procSection s ok p l).next.initialising = some i) :
    tcbAllocFind s.tcb = some i ∧ (procSection s ok p l).listener = none ∧
      ∃ lip lp rip rp, (procSection s ok p l).op = some (i,.alloc lip lp rip rp) := by
  have hgo := proc_goes s ok p l
  generalize (procSection s ok p l).next = l' at h hgo
  cases hgo with
  | connAlloc c lp dstIP dstPort timeout j hj =>
    cases h
    simp only [procSection,hj]
    exact ⟨rfl,trivial,_,_,_,_,rfl⟩
  | closeSkip _ _ _ _ hl | closeFail _ _ _ hl | closeCommit _ _ _ hl => cases hl <;> cases h
  | _ => cases h

/-- The receive loop initialises the slot that `tcbAlloc` just gave it, or goes on with it. -/
theorem rx_next_initialising {s : Shared} {ok : Bool} {l : RxPc} {i : Slot}
    (h : (rxSection s ok l).next.initialising = some i) :
    tcbAllocFind s.tcb = some i ∨ l.initialising = some i := by
  have hgo := rx_goes s ok l
  generalize (rxSection s ok l).next = l' at h hgo
  cases hgo with
  | openAlloc m hdr hd payload j hj =>
    cases h
    exact .inl hj
  | openInit m t hd => exact .inr h
  | dispatch t hd payload _ hdis => cases hdis <;> cases h
  | _ => cases h

theorem RxOk.initialising_active {s : Shared} {l : RxPc} (hl : RxOk s l) {i : Slot}
    (h : l.initialising = some i) : (s.tcb i).active = true := by
  cases l with
  | openInit | openPush => cases h; exact hl.2.2.1
  | _ => cases h

section Stable

variable {s s' : Shared} {ok : Bool} {τ : Tid} {l : PcOf τ} {i : Slot} {op : TcbOp} {busy : Prop}
  {now : UInt64} {rx : RxPc}

/-- Nobody else turns the slot of a passive open into another connection. -/
theorem Does.unseats_of_rx (hd : Does s ok τ l i op) (hτ : τ ≠ .rx) (hrx : RxOk s rx)
    (hi : rx.initialising = some i) (hsafe : SafeOp s busy i op) (hbusy : busy)
    (hapart : op ≠ .activeInit) : op.unseats = false := by
  have hact := hrx.initialising_active hi
  cases hd with
  | connAlloc _ _ _ _ _ _ _ hj => rw [tcbAllocFind_inactive hj] at hact; cases hact
  | connInit => exact absurd rfl hapart
  | rtoFree | scanFree | connFree | listenerFree => exact absurd hbusy (hsafe.release (.inl rfl)).2
  | listenerClear => exact absurd hbusy (hsafe.release (.inr rfl)).2
  | openAlloc | openInit | rxFree => exact absurd rfl hτ
  | _ => rfl

/-- Outside the receive loop only the echo server moves a half-open connection. -/
theorem Does.leaves_of_ne_rx (hd : Does s ok τ l i op) (hτ : τ ≠ .rx)
    (hsafe : SafeOp s busy i op) (hst : (s.tcb i).state = .synReceived) :
    op.leavesSynReceived = false := by
  cases hd with
  | echoFinCommit => exact absurd hst (hsafe.finCommit rfl)
  | synReceived | synSent | established | finWait1 | finWait2 | closing => exact absurd rfl hτ
  | _ => rfl

/-- What the receive loop knows survives the operations of the other threads. -/
theorem RxOk.stable (hrx : RxOk s rx) (hq : Queues s rx.promoting) (hlis : s'.listener = s.listener)
    (htcb : s'.tcb = update s.tcb i (op.run now (s.tcb i)))
    (hd : Does s ok τ l i op) (hl : PcOk s τ l) (hτ : τ ≠ .rx) (hsafe : SafeOp s busy i op)
    (hbusy : rx.initialising = some i → busy ∧ op ≠ .activeInit) : RxOk s' rx := by
  have hpend := pending_congr hlis
  have hqueue := queued_congr hlis
  have hother {j : Slot} (hj : j ≠ i) : s'.tcb j = s.tcb j := by
    rw [htcb,update_of_ne hj]
  have hself : s'.tcb i = op.run now (s.tcb i) := by rw [htcb,update_self]
  cases rx with
  | openAlloc m hdr h payload => rw [RxOk,hlis]; exact hrx
  | openInit m t h =>
    have ⟨hact,hnq,hx,hport⟩ := hrx
    refine ⟨by rw [hlis]; exact hact,fun hqd => hnq ((hqueue _).mp hqd),?_⟩
    by_cases hi : t.slot = i
    · obtain ⟨hb,ha⟩ := hbusy (congrArg some hi)
      have hu := hd.unseats_of_rx hτ hrx (congrArg some hi) hsafe hb ha
      obtain ⟨h1,h2,-⟩ := unseats_keeps hu now (s.tcb i)
      rw [hi] at hx hport ⊢
      rw [hself,h1,h2,hlis]
      exact ⟨hx,hport⟩
    · rw [hother hi,hlis]
      exact ⟨hx,hport⟩
  | openPush m t =>
    have ⟨hact,hnq,hx,hport,hls,hst⟩ := hrx
    refine ⟨by rw [hlis]; exact hact,fun hqd => hnq ((hqueue _).mp hqd),?_⟩
    by_cases hi : t.slot = i
    · obtain ⟨hb,ha⟩ := hbusy (congrArg some hi)
      have hu := hd.unseats_of_rx hτ hrx (congrArg some hi) hsafe hb ha
      obtain ⟨h1,h2,h3⟩ := unseats_keeps hu now (s.tcb i)
      rw [hi] at hx hport hls hst ⊢
      have hst' := synReceived_run hu (hd.leaves_of_ne_rx hτ hsafe hst) now hst
      rw [hself,h1,h2,h3,hlis]
      exact ⟨hx,hport,hls,hst'⟩
    · rw [hother hi,hlis]
      exact ⟨hx,hport,hls,hst⟩
  | promote m t h payload =>
    intro m' r hr hrt
    rw [hlis] at hr
    obtain ⟨hm,hst⟩ := hrx m' r hr hrt
    refine ⟨hm,?_⟩
    by_cases hi : t.slot = i
    · have hqd : s.Queued i := ⟨m',List.mem_map.mpr ⟨r,List.mem_append_left _ hr,hrt.trans hi⟩⟩
      rw [hi] at hst ⊢
      rw [hself]
      exact opened_run (hd.unseats_of_queued hl hq hsafe hqd) now hst
    · rw [hother hi,hst]
  | synSent | established | finWait1 | finWait2 | closing | timeWait | sendAck =>
    exact fun hpd => hrx ((hpend _).mp hpd)
  | _ => trivial

/-- A slot that a process is initialising stays active and unqueued. -/
theorem ProcOk.stable (hc : ProcOk s c) (hlis : s'.listener = s.listener)
    (htcb : s'.tcb = update s.tcb i (op.run now (s.tcb i)))
    (hsafe : SafeOp s busy i op) (hbusy : c.initialising = some i → busy) : ProcOk s' c := by
  cases c with
  | connInit j t timeout =>
    refine ⟨?_,fun hqd => hc.2 ((queued_congr hlis _).mp hqd)⟩
    by_cases hi : t.slot = i
    · have hx : (s.tcb i).active = true := hi ▸ hc.1
      rw [hi,htcb,update_self]
      cases hb : op.binds with
      | false => rw [((op.run_frame now _).addr hb).1,hx]
      | true =>
        cases op with
        | alloc => rfl
        | free => exact absurd (hbusy (congrArg some hi)) (hsafe.release (.inl rfl)).2
        | _ => cases hb
    · rw [htcb,update_of_ne hi]
      exact hc.1
  | _ => trivial

end Stable

/-- An open is initialising slot `i`. -/
def Kernel.Busy (k : Kernel) (i : Slot) : Prop :=
  RxPc.initialising (k.pc .rx) = some i ∨ ∃ p, ProcPc.initialising (k.pc (.proc p)) = some i

theorem Does.promoting_none {s : Shared} {ok : Bool} {l : RxPc} {i : Slot} {op : TcbOp}
    (hd : Does s ok .rx l i op) : l.promoting = none := by
  cases hd <;> rfl

/-- The third ACK of a connection of listener `m` leads to its promotion. -/
theorem rx_next_promoting {s : Shared} {ok : Bool} {l : RxPc} {i : Slot} {hdr : TCPHeader}
    {m : Fin 4} (hd : Does s ok .rx l i (.synReceivedAck hdr))
    (hls : (s.tcb i).listener = some m) : (rxSection s ok l).next.promoting = some (m,i) := by
  cases hd with
  | synReceived t hdr payload =>
    simp only [rxSection,hls]
    rfl

theorem ProcOk.of_initialising {s : Shared}
    (h : ∀ i, c.initialising = some i → (s.tcb i).active = true ∧ ¬s.Queued i) : ProcOk s c := by
  cases c with
  | connInit j t timeout => exact h _ rfl
  | _ => trivial

theorem ProcOk.initialising_active {s : Shared} (hc : ProcOk s c) {i : Slot}
    (h : c.initialising = some i) : (s.tcb i).active = true := by
  cases c with
  | connInit j t timeout => cases h; exact hc.1
  | _ => cases h

namespace QueueInv

variable {k : Kernel} {e : Ev} {τ : Tid} {f : Effect (PcOf τ)} {i : Slot} {op : TcbOp}

/-- The queues after an operation of any thread. -/
theorem queues_run (hk : QueueInv k) (he : e.effect k = some ⟨τ,f⟩) (hop : f.op = some (i,op))
    (hlis : (k.shared.apply f).listener = k.shared.listener)
    (htcb : (k.shared.apply f).tcb =
      update k.shared.tcb i (op.run k.shared.pitTicks (k.shared.tcb i)))
    (hsafe : SafeOp k.shared (k.Busy i) i op) :
    Queues (k.shared.apply f) (RxPc.promoting ((k.move τ (k.shared.apply f) f.next).pc .rx)) := by
  obtain ⟨ok,-,rfl,hd⟩ := does_of_op he hop
  have hseat : k.shared.Queued i → op.unseats = false :=
    hd.unseats_of_queued (hk.pc τ) hk.queues hsafe
  refine hk.queues.run hlis htcb hseat ?_ ?_
  · by_cases hτ : τ = .rx
    · subst hτ
      exact .inl hd.promoting_none
    · exact .inr (by rw [Conf.move_pc_of_ne _ _ _ _ (Ne.symm hτ)])
  · intro m r hr hri hst
    have hpend : k.shared.Pending i := ⟨m,r,hr,hri⟩
    have hu := hseat hpend.queued
    cases hleave : op.leavesSynReceived with
    | false => exact .inl (synReceived_run hu hleave _ hst)
    | true =>
      obtain ⟨rfl,hdr,rfl⟩ := hd.leaves_of_pending (hk.pc τ) hsafe hpend hst hleave
      have hls : (k.shared.tcb i).listener = some m := hri ▸ (hk.queues.pending m r hr).listener
      refine .inr ⟨?_,?_⟩
      · exact rx_next_promoting hd hls
      · obtain ⟨g,hg⟩ := synReceivedAck_shape k.shared.pitTicks hdr (k.shared.tcb i)
        rw [TcbOp.run,hg]
        rfl

/-- Step lemma for sections that operate on a TCB. -/
theorem operate (hk : QueueInv k) (he : e.effect k = some ⟨τ,f⟩) (hop : f.op = some (i,op))
    (hsafe : SafeOp k.shared (k.Busy i) i op) :
    QueueInv (k.move τ (k.shared.apply f) f.next) := by
  obtain ⟨ok,-,hf,hd⟩ := does_of_op he hop
  have hnone : f.listener = none := by
    rw [hf] at hop ⊢
    exact listener_of_op hop
  have hlis : (k.shared.apply f).listener = k.shared.listener := by
    simp only [Shared.apply,hnone,put_none]
  have htcb : (k.shared.apply f).tcb =
      update k.shared.tcb i (op.run k.shared.pitTicks (k.shared.tcb i)) := by
    simp only [Shared.apply,hop,Option.map_some,put]
  have hproc (p : ProcSlot) : ProcOk (k.shared.apply f) (k.pc (.proc p)) :=
    ProcOk.stable (hk.pc (.proc p)) hlis htcb hsafe fun h => .inr ⟨p,h⟩
  refine ⟨hk.queues_run he hop hlis htcb hsafe,?_,?_⟩
  · -- the mover reaches its next assertion, the others keep theirs
    intro τ'
    by_cases hτ : τ' = τ
    · subst hτ
      rw [Conf.move_pc_self,Conf.move_shared]
      subst hf
      cases τ' with
      | rx => exact rx_next_ok (hk.pc .rx) hk.queues hop
      | scan | echo => trivial
      | proc p =>
        refine ProcOk.of_initialising fun j hj => ?_
        obtain ⟨hfind,-,lip,lp,rip,rp,hal⟩ := proc_next_initialising hj
        rw [threadSection,hal] at hop
        cases hop
        refine ⟨?_,fun hqd => ?_⟩
        · rw [htcb,update_self]
          rfl
        · have := hk.queues.active ((queued_congr hlis i).mp hqd)
          rw [tcbAllocFind_inactive hfind] at this
          cases this
    · rw [Conf.move_pc_of_ne _ _ _ _ hτ]
      cases τ' with
      | rx =>
        refine RxOk.stable (hk.pc .rx) hk.queues hlis htcb hd (hk.pc τ) (Ne.symm hτ) hsafe
          fun h => ⟨.inl h,?_⟩
        rintro rfl
        revert hd
        generalize hl : k.pc τ = l
        intro hd
        cases hd with
        | connInit p c t timeout =>
          exact hk.apart p t.slot (by rw [hl]; rfl) h
      | scan | echo => trivial
      | proc p => exact hproc p
  · -- a slot just claimed was inactive, a slot being initialised is not
    intro p j hj
    subst hf
    cases τ with
    | rx =>
      intro hrx
      rcases rx_next_initialising hrx with hfind | hold
      · have := ProcOk.initialising_active (hk.pc (.proc p)) hj
        rw [tcbAllocFind_inactive hfind] at this
        cases this
      · exact hk.apart p j hj hold
    | proc q =>
      intro hrx
      by_cases hpq : p = q
      · subst hpq
        rw [Conf.move_pc_self] at hj
        obtain ⟨hfind,-⟩ := proc_next_initialising hj
        have := RxOk.initialising_active (hk.pc .rx) hrx
        rw [tcbAllocFind_inactive hfind] at this
        cases this
      · rw [Conf.move_pc_of_ne _ _ _ _ (fun h => hpq (Tid.proc.inj h))] at hj
        exact hk.apart p j hj hrx
    | scan | echo => exact hk.apart p j hj

end QueueInv

end Gooos
