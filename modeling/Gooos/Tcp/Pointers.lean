import Mathlib
import Gooos.Tcp.Inversion

/-!
# Pointers into the TCB table

A socket, a listener queue and a running section all name a connection by a bare
pointer into `tcbTable`. Here such pointers are followed through a step: where they
come from, and what has to hold when `tcbAlloc` claims a slot for them to stay with
the connection they were taken for.
-/

namespace Gooos

open Interleave
open List (mem_append mem_singleton)

/-! ## Pointers in use -/

def RxPc.refs : RxPc → List TcbRef
  | .dispatch t _ _ | .synSent t _ _ | .synReceived t _ _ | .promote _ t _ _
  | .established t _ _ | .finWait1 t _ _ | .finWait2 t _ _ | .closing t _ | .timeWait t
  | .sendAck t _ | .free t | .openInit _ t _ | .openPush _ t | .openRollback _ t
  | .openSend _ t _ | .openRestore _ t _ _ | .openRemove _ t => [t]
  | .reset _ andFree => andFree.toList
  | .idle | .lookup _ _ _ | .openLookup _ _ _ | .openAlloc _ _ _ _ => []

def AfterClose.refs : AfterClose → List TcbRef
  | .closeListener ts _ => ts
  | _ => []

def ProcPc.refs : ProcPc → List TcbRef
  | .acceptFd t _ | .connInit _ t _ | .connRollback _ t _ | .connSend _ t _ _
  | .connRestore _ t _ _ _ | .connFree t | .connPoll _ t _ | .sendEnqueue t _ | .drain t _
  | .drainSend t _ _ | .drainCommit t _ _ | .recv t _ _ _ | .shutdownReset t => [t]
  | .closeMark t c | .closeSend t c | .closeCommit t c => t :: c.refs
  | .listenerClear ts _ => ts
  | .listenerCheck t ts _ | .listenerFree t ts _ => t :: ts
  | .idle | .listen _ | .accept _ _ _ _ | .connPort _ _ _ _ | .connAlloc _ _ _ _ _
  | .listenerDrain _ _ => []

/-- The TCBs a thread points to; the scanner and the echo server go by slot number. -/
def pcRefs : (τ : Tid) → PcOf τ → List TcbRef
  | .rx, l => RxPc.refs l
  | .scan, _ => []
  | .echo, _ => []
  | .proc _, l => ProcPc.refs l

def TcpListener.refs (l : TcpListener) : List TcbRef := l.pending++l.accept

variable {r t : TcbRef} {l : TcpListener} {τ : Tid} {p : ProcSlot} {k : Kernel}

namespace Shared

/-- A socket or a listener queue holds the pointer. -/
def Stores (s : Shared) (t : TcbRef) : Prop :=
  (∃ c, (s.sock c).tcpTCB = some t) ∨ ∃ l, t ∈ (s.listener l).refs

/-- The slot still belongs to the connection the pointer was taken for. -/
def Current (s : Shared) (t : TcbRef) : Prop := t.gen = s.gen t.slot

theorem current_iff_ref {s : Shared} : s.Current t ↔ s.ref t.slot = t := by
  obtain ⟨i,g⟩ := t
  simp [Current,ref,eq_comm]

end Shared

/-- The pointers an effect leaves in the next section, a queue or a socket. -/
def Leaves (τ : Tid) (f : Effect (PcOf τ)) (t : TcbRef) : Prop :=
  t ∈ pcRefs τ f.next ∨ (∃ l x, f.listener = some (l,x) ∧ t ∈ x.refs) ∨
    ∃ c x, f.sock = some (c,x) ∧ x.tcpTCB = some t

/-- Where a pointer comes from: the thread or a table had it, the table lookup took it,
or `tcbAlloc` returned it. -/
inductive Origin (s : Shared) (τ : Tid) (l : PcOf τ) (f : Effect (PcOf τ)) (t : TcbRef) :
    Prop where
  | kept (h : t ∈ pcRefs τ l)
  | loaded (h : s.Stores t)
  | found (hop : f.op = none) (h : s.Current t)
  | allocated (op : TcbOp) (hop : f.op = some (t.slot,op)) (ha : op.isAlloc = true)
    (h : t = s.newRef t.slot)

/-! ## Queue operations move pointers -/

theorem mem_shiftOut {q : List TcbRef} (h : r ∈ shiftOut q t) : r ∈ q :=
  List.mem_of_mem_eraseP h

theorem promote_refs (h : r ∈ (tcpListenerPromote l t).1.refs) : r ∈ l.refs ∨ r = t := by
  unfold tcpListenerPromote at h
  split at h
  · split at h
    · rcases mem_append.mp h with hp | ha
      · exact .inl (List.mem_append_left _ (mem_shiftOut hp))
      · exact .inl (List.mem_append_right _ ha)
    · rcases mem_append.mp h with hp | ha
      · exact .inl (List.mem_append_left _ (mem_shiftOut hp))
      · rcases mem_append.mp ha with ha | ha
        · exact .inl (List.mem_append_right _ ha)
        · exact .inr (mem_singleton.mp ha)
  · exact .inl h

theorem pushPending_refs {l l' : TcpListener}
    (hl : tcpListenerPushPending l t = some l') (h : r ∈ l'.refs) : r ∈ l.refs ∨ r = t := by
  unfold tcpListenerPushPending at hl
  split at hl
  · cases hl
    simp only [TcpListener.refs,mem_append,mem_singleton] at h ⊢
    tauto
  · cases hl

theorem remove_refs (h : r ∈ (tcpListenerRemove l t).refs) : r ∈ l.refs := by
  unfold tcpListenerRemove at h
  split at h
  · rcases mem_append.mp h with hp | ha
    · exact List.mem_append_left _ (mem_shiftOut hp)
    · exact List.mem_append_right _ ha
  · rcases mem_append.mp h with hp | ha
    · exact List.mem_append_left _ hp
    · exact List.mem_append_right _ (mem_shiftOut ha)

theorem acceptPop_refs {l l' : TcpListener} (hl : acceptPop l = some (t,l'))
    (h : r = t ∨ r ∈ l'.refs) : r ∈ l.refs := by
  unfold acceptPop at hl
  split at hl
  · cases hl
  · rename_i t' ts hacc
    cases hl
    simp only [TcpListener.refs,mem_append,hacc,List.mem_cons] at h ⊢
    tauto

theorem listenerAlloc_refs {ls : Fin 4 → TcpListener} {port : UInt16} {owner : Int} {l : Fin 4}
    {x : TcpListener} (h : tcpListenerAllocLocked ls port owner = some (l,x)) : x.refs = [] := by
  unfold tcpListenerAllocLocked at h
  split at h
  · cases h
  · obtain ⟨i,-,hi⟩ := Option.map_eq_some_iff.mp h
    cases hi
    rfl

/-! ## Where pointers come from -/

/-- An effect that writes no queue and no socket leaves pointers in its next section only. -/
theorem Leaves.next {f : Effect (PcOf τ)} (h : Leaves τ f t)
    (hl : f.listener = none) (hs : f.sock = none) : t ∈ pcRefs τ f.next := by
  rcases h with h | ⟨l,x,h,-⟩ | ⟨c,x,h,-⟩
  · exact h
  · rw [hl] at h; cases h
  · rw [hs] at h; cases h

section Services

variable (s : Shared) (ok : Bool)

theorem rxSection_quiet (l : RxPc) :
    (rxSection s ok l).sock = none ∧ (rxSection s ok l).fd = none := by
  constructor <;> cases l <;> simp only [rxSection] <;> repeat' (first | rfl | split)

theorem scanSection_quiet (l : ScanPc) : (scanSection s ok l).sock = none ∧
    (scanSection s ok l).fd = none ∧ (scanSection s ok l).listener = none := by
  refine ⟨?_,?_,?_⟩ <;> cases l <;> simp only [scanSection] <;> repeat' (first | rfl | split)

theorem echoSection_quiet (l : EchoPc) : (echoSection s ok l).sock = none ∧
    (echoSection s ok l).fd = none ∧ (echoSection s ok l).listener = none := by
  refine ⟨?_,?_,?_⟩ <;> cases l <;> (simp only [echoSection]; repeat' (first | rfl | split))

end Services

/-- The unlocked tests go on with the pointer they were given. -/
theorem dispatched_refs {x : TCB} {h : TCPHeader} {payload : List UInt8} {l : RxPc}
    (hd : Dispatched x t h payload l) (hr : r ∈ l.refs) : r ∈ [t] := by
  cases hd <;> first | exact hr | cases hr

/-- The section puts a pointer into a queue that was in it or is its own. -/
theorem rx_queues {s : Shared} {ok : Bool} {l : RxPc} {ls : Fin 4} {x : TcpListener}
    (hx : (rxSection s ok l).listener = some (ls,x)) (h : t ∈ x.refs) :
    s.Stores t ∨ t ∈ l.refs := by
  cases l with
  | promote ls r hd payload =>
    cases hx
    rcases promote_refs h with h | h
    · exact .inl (.inr ⟨_,h⟩)
    · exact .inr (mem_singleton.mpr h)
  | openPush ls r =>
    simp only [rxSection] at hx
    split at hx
    · cases hx
    · rename_i hp
      cases hx
      rcases pushPending_refs hp h with h | h
      · exact .inl (.inr ⟨_,h⟩)
      · exact .inr (mem_singleton.mpr h)
  | openRemove ls r =>
    cases hx
    exact .inl (.inr ⟨_,remove_refs h⟩)
  | _ =>
    simp only [rxSection] at hx
    repeat' split at hx
    all_goals cases hx

theorem rx_origin {s : Shared} {ok : Bool} {l : RxPc} (h : Leaves .rx (rxSection s ok l) t) :
    Origin s .rx l (rxSection s ok l) t := by
  rcases h with h | ⟨ls,x,hx,h⟩ | ⟨c,x,hx,h⟩
  · have hgo := rx_goes s ok l
    generalize hn : (rxSection s ok l).next = l' at h hgo
    cases hgo with
    | found hdr hd payload i hi =>
      cases mem_singleton.mp h
      exact .found (by simp only [rxSection,hi]) rfl
    | dispatch r hd payload l hl => exact .kept (dispatched_refs hl h)
    | openAlloc l hdr hd payload i hi =>
      cases mem_singleton.mp h
      exact .allocated _ (by simp only [rxSection,hi]; rfl) rfl rfl
    | idle | refuse | unknown | openLookup => cases h
    | _ => exact .kept h
  · exact (rx_queues hx h).elim .loaded fun h => .kept h
  · rw [(rxSection_quiet s ok l).1] at hx
    cases hx

/-- A syscall takes its pointer from the socket. -/
theorem enters_refs {s : Shared} {l : ProcPc} (h : Enters s l) (ht : t ∈ l.refs) :
    s.Stores t := by
  cases h with
  | sendEnqueue c r buf hc | recv c r bufMax timeout deadline hc | shutdown c r how hc
  | closeConn c r hc => cases mem_singleton.mp ht; exact .inl ⟨c,hc⟩
  | _ => cases ht

theorem sysEntry_listener (s : Shared) (p : ProcSlot) (c : Syscall) :
    (sysEntry s p c).listener = none := by
  cases c <;> simp only [sysEntry,sysReturn] <;> repeat' (first | rfl | split)

/-- The entry of a syscall writes a socket only to create or to bind it. -/
theorem sysEntry_sock {s : Shared} {c : Syscall} {j : ℕ} {x : SocketFd}
    (h : (sysEntry s p c).sock = some (j,x)) :
    (j = s.nSock ∧ x = ⟨.tcpIdle,0,false,none,none⟩) ∨
    ((s.sock j).kind = .tcpIdle ∧ x.kind = .tcpIdle ∧ x.tcpTCB = (s.sock j).tcpTCB) := by
  cases c with
  | socket =>
    simp only [sysEntry] at h
    split at h
    · cases h
    · cases h; exact .inl ⟨rfl,rfl⟩
  | bind fd port =>
    simp only [sysEntry] at h
    split at h
    · cases h
    · rename_i hreq
      split at h
      · cases h
      · cases h
        have hk : (s.sock j).kind = .tcpIdle := by
          simpa using (Option.filter_eq_some_iff.mp hreq).2
        exact .inr ⟨hk,hk,rfl⟩
  | _ =>
    simp only [sysEntry,sysReturn] at h
    repeat' split at h
    all_goals cases h

theorem sysEntry_origin {s : Shared} {c : Syscall} {l : ProcPc}
    (h : Leaves (.proc p) (sysEntry s p c) t) :
    Origin s (.proc p) l (sysEntry s p c) t := by
  rcases h with h | ⟨ls,x,hx,h⟩ | ⟨j,x,hx,h⟩
  · exact .loaded (enters_refs (sysEntry_next s p c) h)
  · rw [sysEntry_listener] at hx; cases hx
  · rcases sysEntry_sock hx with ⟨-,rfl⟩ | ⟨-,-,htcb⟩
    · cases h
    · exact .loaded (.inl ⟨j,htcb ▸ h⟩)

/-- A section of a syscall puts no new pointer into a queue. -/
theorem proc_queues {s : Shared} {ok : Bool} {l : ProcPc} {ls : Fin 4} {x : TcpListener}
    (hx : (procSection s ok p l).listener = some (ls,x)) (h : t ∈ x.refs) : s.Stores t := by
  cases l with
  | listen c =>
    simp only [procSection] at hx
    split at hx
    · cases hx
    · rename_i hnew
      cases hx
      rw [listenerAlloc_refs hnew] at h
      cases h
  | accept ls info timeout deadline =>
    simp only [procSection] at hx
    split at hx
    · rename_i hpop
      cases hx
      exact .inr ⟨_,acceptPop_refs hpop (.inr h)⟩
    · split at hx <;> cases hx
  | listenerDrain c ls =>
    cases hx
    cases h
  | listenerClear ts c => cases ts <;> cases hx
  | _ =>
    simp only [procSection,afterClose,sysReturn] at hx
    repeat' split at hx
    all_goals cases hx

/-- Into a socket it puts its own pointer. -/
theorem proc_socks {s : Shared} {ok : Bool} {l : ProcPc} {c : ℕ} {x : SocketFd}
    (hx : (procSection s ok p l).sock = some (c,x)) (h : x.tcpTCB = some t) :
    s.Stores t ∨ t ∈ l.refs := by
  cases l with
  | listen c =>
    simp only [procSection,sysReturn] at hx
    split at hx <;> cases hx
    exact .inl (.inl ⟨_,h⟩)
  | listenerClear ts c =>
    cases ts <;> cases hx
    exact .inl (.inl ⟨_,h⟩)
  | acceptFd r info | connPoll c r deadline =>
    simp only [procSection,sysReturn] at hx
    repeat' split at hx
    all_goals cases hx
    all_goals
      cases h
      exact .inr (mem_singleton.mpr rfl)
  | _ =>
    simp only [procSection,afterClose,sysReturn] at hx
    repeat' split at hx
    all_goals cases hx
    all_goals cases h

theorem Resumes.refs_mem {c : AfterClose} {l : ProcPc} (hl : Resumes r c l) (h : t ∈ l.refs) :
    t ∈ r :: c.refs := by
  cases hl with
  | idle => cases h
  | shutdownReset | listenerCheck => exact h

theorem proc_origin {s : Shared} {ok : Bool} {l : ProcPc}
    (h : Leaves (.proc p) (procSection s ok p l) t) :
    Origin s (.proc p) l (procSection s ok p l) t := by
  rcases h with h | ⟨ls,x,hx,h⟩ | ⟨c,x,hx,h⟩
  · have hgo := proc_goes s ok p l
    generalize hn : (procSection s ok p l).next = l' at h hgo
    cases hgo with
    | acceptPop ls info timeout deadline r x hpop =>
      exact .loaded (.inr ⟨ls,acceptPop_refs hpop (.inl (mem_singleton.mp h))⟩)
    | connAlloc c lp dstIP dstPort timeout i hi =>
      cases mem_singleton.mp h
      exact .allocated _ (by simp only [procSection,hi]; rfl) rfl rfl
    | closeSkip _ _ _ _ hl | closeFail _ _ _ hl | closeCommit _ _ _ hl =>
      exact .kept (hl.refs_mem h)
    | listenerDrain c ls => exact .loaded (.inr ⟨ls,h⟩)
    | listenerSkip | listenerFree => exact .kept (List.mem_cons_of_mem _ h)
    | idle | accept | connPort => cases h
    | _ => exact .kept h
  · exact .loaded (proc_queues hx h)
  · exact (proc_socks hx h).elim .loaded fun h => .kept h

theorem scan_leaves {s : Shared} {ok : Bool} {l : ScanPc} :
    ¬Leaves .scan (scanSection s ok l) t := by
  intro h
  obtain ⟨hs,-,hl⟩ := scanSection_quiet s ok l
  cases h.next hl hs

theorem echo_leaves {s : Shared} {ok : Bool} {l : EchoPc} :
    ¬Leaves .echo (echoSection s ok l) t := by
  intro h
  obtain ⟨hs,-,hl⟩ := echoSection_quiet s ok l
  cases h.next hl hs

theorem effect_origin {e : Ev} {f : Effect (PcOf τ)}
    (he : e.effect k = some ⟨τ,f⟩) (h : Leaves τ f t) : Origin k.shared τ (k.pc τ) f t := by
  cases Ev.moved he with
  | sys p c => exact sysEntry_origin h
  | run τ ok =>
    cases τ with
    | rx => exact rx_origin h
    | scan => exact absurd h scan_leaves
    | echo => exact absurd h echo_leaves
    | proc p => exact proc_origin h
  | _ => cases h.next rfl rfl

/-! ## Current pointers -/

namespace Kernel

/-- A thread, a socket or a listener queue holds the pointer. -/
def Holds (k : Kernel) (t : TcbRef) : Prop := k.shared.Stores t ∨ ∃ τ, t ∈ pcRefs τ (k.pc τ)

/-- Every pointer in use is still good. -/
def Sound (k : Kernel) : Prop := ∀ t, k.Holds t → k.shared.Current t

end Kernel

theorem stores_apply {s : Shared} {f : Effect (PcOf τ)}
    (h : (s.apply f).Stores t) : s.Stores t ∨ Leaves τ f t := by
  rcases h with ⟨c,h⟩ | ⟨l,h⟩
  · cases hs : f.sock with
    | none =>
      simp only [Shared.apply,hs,put_none] at h
      exact .inl (.inl ⟨c,h⟩)
    | some w =>
      obtain ⟨j,x⟩ := w
      simp only [Shared.apply,hs] at h
      by_cases hc : c = j
      · subst hc
        rw [put_same] at h
        exact .inr (.inr (.inr ⟨c,x,hs,h⟩))
      · rw [put_of_ne _ _ hc] at h
        exact .inl (.inl ⟨c,h⟩)
  · cases hl : f.listener with
    | none =>
      simp only [Shared.apply,hl,put_none] at h
      exact .inl (.inr ⟨l,h⟩)
    | some w =>
      obtain ⟨j,x⟩ := w
      simp only [Shared.apply,hl] at h
      by_cases hc : l = j
      · subst hc
        rw [put_same] at h
        exact .inr (.inr (.inl ⟨l,x,hl,h⟩))
      · rw [put_of_ne _ _ hc] at h
        exact .inl (.inr ⟨l,h⟩)

/-- A step adds no pointer that the effect does not leave. -/
theorem holds_move {f : Effect (PcOf τ)}
    (h : Kernel.Holds (k.move τ (k.shared.apply f) f.next) t) : k.Holds t ∨ Leaves τ f t := by
  rcases h with h | ⟨τ',h⟩
  · rcases stores_apply h with h | h
    · exact .inl (.inl h)
    · exact .inr h
  · by_cases hτ : τ' = τ
    · subst hτ
      simp only [Conf.move,Function.update_self] at h
      exact .inr (.inl h)
    · simp only [Conf.move,Function.update_of_ne hτ] at h
      exact .inl (.inr ⟨τ',h⟩)

theorem gen_apply {s : Shared} {π : Type} {f : Effect π} {i : Slot}
    (h : ∀ op, f.op = some (i,op) → op.isAlloc = false) : (s.apply f).gen i = s.gen i := by
  cases hop : f.op with
  | none => simp [Shared.apply,hop]
  | some w =>
    obtain ⟨j,op⟩ := w
    simp only [Shared.apply,hop,Option.map_some]
    by_cases hj : i = j
    · subst hj
      simp [h op hop]
    · exact put_of_ne _ _ hj

theorem gen_apply_alloc {s : Shared} {π : Type} {f : Effect π} {i : Slot} {op : TcbOp}
    (hop : f.op = some (i,op)) (ha : op.isAlloc = true) : (s.apply f).gen i = s.gen i+1 := by
  simp [Shared.apply,hop,ha]

/-- Step lemma: pointers stay good if `tcbAlloc` claims only slots nothing points to. -/
theorem Kernel.Sound.effect {e : Ev} {f : Effect (PcOf τ)}
    (hk : k.Sound) (he : e.effect k = some ⟨τ,f⟩)
    (hfree : ∀ i op, f.op = some (i,op) → op.isAlloc = true → ∀ t, k.Holds t → t.slot ≠ i) :
    Kernel.Sound (k.move τ (k.shared.apply f) f.next) := by
  intro t ht
  have hold : k.Holds t → (k.shared.apply f).Current t := by
    intro h
    have hgen : (k.shared.apply f).gen t.slot = k.shared.gen t.slot := by
      refine gen_apply fun op hop => ?_
      by_contra ha
      exact hfree _ op hop (by simpa using ha) t h rfl
    exact (hk t h).trans hgen.symm
  rcases holds_move ht with h | h
  · exact hold h
  · cases effect_origin he h with
    | kept h => exact hold (.inr ⟨τ,h⟩)
    | loaded h => exact hold (.inl h)
    | found hop h =>
      exact h.trans (gen_apply fun op ho => by rw [hop] at ho; cases ho).symm
    | allocated op hop ha h =>
      have hgen := gen_apply_alloc (s := k.shared) hop ha
      have : t.gen = k.shared.gen t.slot+1 := congrArg TcbRef.gen h
      exact this.trans hgen.symm

end Gooos
