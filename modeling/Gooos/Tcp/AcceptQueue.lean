import Mathlib
import Gooos.Tcp.QueuedTcb

/-!
# Listener queues

The queue invariant over all interleavings. The receive loop is the only thread that
fills a queue; the processes take entries out.
-/

namespace Gooos

open Interleave Function
open List (mem_append mem_map mem_singleton nil_sublist)

/-! ## Steps on a queue -/

/-- The queues after listener `m` was written: its entries are shown good, and each is an
old entry of the listener or was in no queue. -/
theorem Queues.write {s s' : Shared} {prom prom' : Option (Fin 4 × Slot)} {m : Fin 4}
    {x : TcpListener} (hq : Queues s prom) (htcb : s'.tcb = s.tcb)
    (hlis : s'.listener = update s.listener m x)
    (hprom : ∀ l i, l ≠ m → prom = some (l,i) → prom' = some (l,i))
    (hpend : ∀ r ∈ x.pending, PendingEntry s' prom' m r.slot)
    (hacc : ∀ r ∈ x.accept, AcceptEntry s' m r.slot) (hnodup : x.slots.Nodup)
    (hslots : ∀ i ∈ x.slots, i ∈ (s.listener m).slots ∨ ¬s.Queued i) : Queues s' prom' := by
  have hself : s'.listener m = x := by rw [hlis,update_self]
  have hother {l : Fin 4} (hl : l ≠ m) : s'.listener l = s.listener l := by
    rw [hlis,update_of_ne hl]
  have hfresh {l : Fin 4} {i : Slot} (hl : l ≠ m) (hi : i ∈ (s.listener l).slots) :
      i ∉ x.slots := by
    intro hx
    rcases hslots i hx with h | h
    · exact hl (hq.disjoint l m i hi h)
    · exact h ⟨l,hi⟩
  refine ⟨fun l r hr => ?_,fun l r hr => ?_,fun l => ?_,fun l l' i hi hi' => ?_⟩
  · by_cases hl : l = m
    · subst hl
      exact hpend r (hself ▸ hr)
    · rw [hother hl] at hr
      have he := hq.pending l r hr
      refine ⟨?_,?_,?_,?_⟩ <;> rw [htcb]
      · exact he.active
      · exact he.listener
      · rw [hother hl,he.port]
      · rcases he.state with h | ⟨hp,h⟩
        · exact .inl h
        · exact .inr ⟨hprom l _ hl hp,h⟩
  · by_cases hl : l = m
    · subst hl
      exact hacc r (hself ▸ hr)
    · rw [hother hl] at hr
      have he := hq.accept l r hr
      refine ⟨?_,?_,?_⟩ <;> rw [htcb]
      · exact he.active
      · rw [hother hl,he.port]
      · exact he.state
  · by_cases hl : l = m
    · subst hl
      rw [hself]
      exact hnodup
    · rw [hother hl]
      exact hq.nodup l
  · by_cases hl : l = m
    · by_cases hl' : l' = m
      · rw [hl,hl']
      · rw [hl,hself] at hi
        rw [hother hl'] at hi'
        exact absurd hi (hfresh hl' hi')
    · rw [hother hl] at hi
      by_cases hl' : l' = m
      · rw [hl',hself] at hi'
        exact absurd hi' (hfresh hl hi)
      · rw [hother hl'] at hi'
        exact hq.disjoint l l' i hi hi'

/-- A process only takes entries out of the queues, or starts a listener anew. -/
structure Shrinks (old x : TcpListener) (drained : Prop) : Prop where
  pending : x.pending.Sublist old.pending
  accept : x.accept.Sublist old.accept
  port : x.port = old.port ∧ (x.active = old.active ∨ drained) ∨
    old.active = false ∧ x.pending = [] ∧ x.accept = []

theorem acceptPop_shrinks {l l' : TcpListener} {t : TcbRef} (h : acceptPop l = some (t,l')) :
    Shrinks l l' False := by
  unfold acceptPop at h
  split at h
  · cases h
  · rename_i r ts hacc
    cases h
    refine ⟨.refl _,?_,.inl ⟨rfl,.inl rfl⟩⟩
    have hsub := List.sublist_cons_self t ts
    rwa [← hacc] at hsub

theorem listenerAlloc_shrinks {ls : Fin 4 → TcpListener} {port : UInt16} {owner : Int} {m : Fin 4}
    {x : TcpListener} (h : tcpListenerAllocLocked ls port owner = some (m,x)) :
    Shrinks (ls m) x False := by
  unfold tcpListenerAllocLocked at h
  split at h
  · cases h
  · obtain ⟨i,hi,he⟩ := Option.map_eq_some_iff.mp h
    cases he
    have hin : (ls m).active = false := by simpa using List.find?_some hi
    exact ⟨nil_sublist _,nil_sublist _,.inr ⟨hin,rfl,rfl⟩⟩

variable {ok : Bool} {p : ProcSlot} {prom : Option (Fin 4 × Slot)} {i : Slot} {l : Fin 4}

theorem proc_shrinks {s : Shared} {l : ProcPc} {m : Fin 4}
    {x : TcpListener} (h : (procSection s ok p l).listener = some (m,x)) :
    Shrinks (s.listener m) x (∃ c, l = .listenerDrain c m) := by
  have hweak {old x : TcpListener} {d : Prop} (h : Shrinks old x False) : Shrinks old x d :=
    ⟨h.pending,h.accept,h.port.imp_left fun hp => ⟨hp.1,.inl (hp.2.resolve_right id)⟩⟩
  cases l with
  | listen c =>
    simp only [procSection] at h
    split at h
    · cases h
    · rename_i hx
      cases h
      exact hweak (listenerAlloc_shrinks hx)
  | accept ls info timeout deadline =>
    simp only [procSection] at h
    split at h
    · rename_i hx
      cases h
      exact hweak (acceptPop_shrinks hx)
    · split at h <;> cases h
  | listenerDrain c ls =>
    cases h
    exact ⟨nil_sublist _,nil_sublist _,.inl ⟨rfl,.inr ⟨c,rfl⟩⟩⟩
  | closeMark t c =>
    simp only [procSection] at h
    split at h
    · rw [afterClose_listener] at h
      cases h
    · cases h
  | closeSend t c =>
    simp only [procSection] at h
    split at h
    · cases h
    · rw [afterClose_listener] at h
      cases h
  | closeCommit t c =>
    simp only [procSection] at h
    rw [afterClose_listener] at h
    cases h
  | listenerClear ts c => cases ts <;> cases h
  | _ =>
    simp only [procSection] at h
    (repeat' split at h) <;> cases h

theorem Shrinks.slots {old x : TcpListener} {d : Prop} (h : Shrinks old x d) :
    x.slots.Sublist old.slots :=
  (h.pending.append h.accept).map _

section Shrink

variable {s s' : Shared} {m : Fin 4} {x : TcpListener} {d : Prop}

/-- The queues after a process wrote listener `m`. -/
theorem Queues.shrink (hq : Queues s prom) (htcb : s'.tcb = s.tcb)
    (hlis : s'.listener = update s.listener m x) (h : Shrinks (s.listener m) x d) :
    Queues s' prom := by
  have hself : s'.listener m = x := by rw [hlis,update_self]
  have hport {r : TcbRef} (hr : r ∈ x.pending ∨ r ∈ x.accept) :
      x.port = (s.listener m).port := by
    rcases h.port with ⟨hp,-⟩ | ⟨-,hp,ha⟩
    · exact hp
    · rw [hp,ha] at hr
      rcases hr with hr | hr <;> cases hr
  refine hq.write htcb hlis (fun _ _ _ hp => hp) (fun r hr => ?_) (fun r hr => ?_)
    ((hq.nodup m).sublist h.slots) fun i hi => .inl (h.slots.subset hi)
  · have he := hq.pending m r (h.pending.subset hr)
    refine ⟨?_,?_,?_,?_⟩ <;> rw [htcb]
    · exact he.active
    · exact he.listener
    · rw [hself,hport (.inl hr),he.port]
    · exact he.state
  · have he := hq.accept m r (h.accept.subset hr)
    refine ⟨?_,?_,?_⟩ <;> rw [htcb]
    · exact he.active
    · rw [hself,hport (.inr hr),he.port]
    · exact he.state

section

variable (hlis : s'.listener = update s.listener m x) (h : Shrinks (s.listener m) x d)
include hlis h

theorem queued_shrink (hi : s'.Queued i) : s.Queued i := by
  obtain ⟨l,hi⟩ := hi
  rw [hlis] at hi
  by_cases hl : l = m
  · subst hl
    rw [update_self] at hi
    exact ⟨l,h.slots.subset hi⟩
  · rw [update_of_ne hl] at hi
    exact ⟨l,hi⟩

theorem pending_shrink {r : TcbRef}
    (hr : r ∈ (s'.listener l).pending) : r ∈ (s.listener l).pending := by
  rw [hlis] at hr
  by_cases hl : l = m
  · subst hl
    rw [update_self] at hr
    exact h.pending.subset hr
  · rwa [update_of_ne hl] at hr

/-- The listener a passive open was told, unless it is drained meanwhile. -/
theorem listening_shrink (hd : l = m → ¬d) (hl : (s.listener l).active = true) :
    (s'.listener l).active = true ∧ (s'.listener l).port = (s.listener l).port := by
  rw [hlis]
  by_cases hm : l = m
  · subst hm
    rw [update_self]
    rcases h.port with ⟨hp,ha⟩ | ⟨hin,-⟩
    · rcases ha with ha | ha
      · exact ⟨ha.trans hl,hp⟩
      · exact absurd ha (hd rfl)
    · rw [hin] at hl
      cases hl
  · rw [update_of_ne hm]
    exact ⟨hl,rfl⟩

end

end Shrink

/-! ## The queue writes of the receive loop -/

theorem shiftOut_sublist (q : List TcbRef) (t : TcbRef) : (shiftOut q t).Sublist q :=
  List.eraseP_sublist

/-- A queue without repeated slots loses the slot that is shifted out. -/
theorem slot_ne_of_mem_shiftOut {q : List TcbRef} {t r : TcbRef} (hn : (q.map (·.slot)).Nodup)
    (hr : r ∈ shiftOut q t) : r.slot ≠ t.slot := by
  induction q with
  | nil => cases hr
  | cons a q ih =>
    obtain ⟨ha,hn⟩ := List.nodup_cons.mp hn
    by_cases hat : a.slot = t.slot
    · have hq : shiftOut (a :: q) t = q := by simp [shiftOut,hat]
      rw [hq] at hr
      intro heq
      exact ha (mem_map.mpr ⟨r,hr,heq.trans hat.symm⟩)
    · have hq : shiftOut (a :: q) t = a :: shiftOut q t := by simp [shiftOut,hat]
      rw [hq] at hr
      rcases List.mem_cons.mp hr with rfl | hr
      · exact hat
      · exact ih hn hr

theorem holds_iff {q : List TcbRef} {t : TcbRef} :
    holds q t = true ↔ ∃ r ∈ q, r.slot = t.slot := by
  simp [holds]

/-- The listener after a promotion: unchanged, or the entry has moved to the accept queue. -/
theorem promote_cases (l : TcpListener) (t : TcbRef) :
    (holds l.pending t = false ∧ (tcpListenerPromote l t).1 = l) ∨
    (holds l.pending t = true ∧
      (tcpListenerPromote l t).1.pending = shiftOut l.pending t ∧
      (tcpListenerPromote l t).1.accept = l.accept++[t] ∧
      (tcpListenerPromote l t).1.port = l.port ∧
      (tcpListenerPromote l t).1.active = l.active) := by
  unfold tcpListenerPromote
  split
  · rename_i h
    split
    · -- a pending entry keeps the accept queue below the cap
      obtain ⟨r,hr,-⟩ := holds_iff.mp h
      have := List.length_pos_of_mem hr
      have := l.depth_le
      omega
    · exact .inr ⟨h,rfl,rfl,rfl,rfl⟩
  · rename_i h
    exact .inl ⟨by simpa using h,rfl⟩

/-- Promotion moves a slot and adds none. -/
theorem promote_slots {l : TcpListener} {t : TcbRef} (hn : l.slots.Nodup) :
    (tcpListenerPromote l t).1.slots.Nodup ∧
      ∀ i ∈ (tcpListenerPromote l t).1.slots, i ∈ l.slots := by
  rcases promote_cases l t with ⟨-,h⟩ | ⟨hh,hp,ha,-,-⟩
  · rw [h]
    exact ⟨hn,fun _ hi => hi⟩
  · obtain ⟨r,hr,hrt⟩ := holds_iff.mp hh
    have hsplit : l.slots = l.pending.map (·.slot)++l.accept.map (·.slot) := by
      simp [TcpListener.slots,TcpListener.refs]
    rw [hsplit,List.nodup_append] at hn
    obtain ⟨hnp,hna,hdis⟩ := hn
    have hsub := (shiftOut_sublist l.pending t).map (·.slot)
    have hslots : (tcpListenerPromote l t).1.slots =
        (shiftOut l.pending t).map (·.slot)++(l.accept.map (·.slot)++[t.slot]) := by
      simp [TcpListener.slots,TcpListener.refs,hp,ha]
    have htp : t.slot ∈ l.pending.map (·.slot) := mem_map.mpr ⟨r,hr,hrt⟩
    rw [hslots]
    refine ⟨?_,fun i hi => ?_⟩
    · rw [List.nodup_append,List.nodup_append]
      refine ⟨hnp.sublist hsub,⟨hna,List.nodup_singleton _,?_⟩,?_⟩
      · intro a haa b hb
        rw [mem_singleton.mp hb]
        exact fun h => hdis _ htp a haa h.symm
      · intro a haa b hb
        rcases mem_append.mp hb with hb | hb
        · exact hdis a (hsub.subset haa) b hb
        · obtain ⟨q,hq,rfl⟩ := mem_map.mp haa
          rw [mem_singleton.mp hb]
          exact slot_ne_of_mem_shiftOut hnp hq
    · rw [hsplit]
      rcases mem_append.mp hi with hi | hi
      · exact List.mem_append_left _ (hsub.subset hi)
      · rcases mem_append.mp hi with hi | hi
        · exact List.mem_append_right _ hi
        · rw [mem_singleton.mp hi]
          exact List.mem_append_left _ htp

section RxWrites

variable {s s' : Shared} {m : Fin 4} {t : TcbRef}

/-- `tcpListenerPromote` by the receive loop. -/
theorem Queues.promote {h : TCPHeader} {payload : List UInt8}
    (hq : Queues s (some (m,t.slot))) (hok : RxOk s (.promote m t h payload))
    (htcb : s'.tcb = s.tcb)
    (hlis : s'.listener =
      update s.listener m (tcpListenerPromote (s.listener m) t).1) :
    Queues s' none ∧ ¬s'.Pending t.slot := by
  have hself : s'.listener m = (tcpListenerPromote (s.listener m) t).1 := by
    rw [hlis,update_self]
  have hport : (s'.listener m).port = (s.listener m).port := by
    rw [hself]
    rcases promote_cases (s.listener m) t with ⟨-,hx⟩ | ⟨-,-,-,hx,-⟩
    · rw [hx]
    · exact hx
  have hnp : ((s.listener m).pending.map (·.slot)).Nodup := by
    have := hq.nodup m
    rw [TcpListener.slots,TcpListener.refs,List.map_append] at this
    exact (List.nodup_append.mp this).1
  -- no entry of the written pending queue has the promoted slot
  have hgone : ∀ r ∈ (tcpListenerPromote (s.listener m) t).1.pending,
      r ∈ (s.listener m).pending ∧ r.slot ≠ t.slot := by
    intro r hr
    rcases promote_cases (s.listener m) t with ⟨hno,hx⟩ | ⟨-,hx,-,-,-⟩
    · rw [hx] at hr
      refine ⟨hr,fun heq => ?_⟩
      rw [holds_iff.mpr ⟨r,hr,heq⟩] at hno
      cases hno
    · rw [hx] at hr
      exact ⟨(shiftOut_sublist _ _).subset hr,slot_ne_of_mem_shiftOut hnp hr⟩
  obtain ⟨hnodup,hslots⟩ := promote_slots (t := t) (hq.nodup m)
  refine ⟨hq.write htcb hlis ?_ ?_ ?_ hnodup fun i hi => .inl (hslots i hi),?_⟩
  · intro l i hl hp
    cases hp
    exact absurd rfl hl
  · intro r hr
    obtain ⟨hold,hne⟩ := hgone r hr
    have he := hq.pending m r hold
    refine ⟨?_,?_,?_,?_⟩ <;> rw [htcb]
    · exact he.active
    · exact he.listener
    · rw [hport,he.port]
    · rcases he.state with hst | ⟨hp,-⟩
      · exact .inl hst
      · exact absurd (congrArg Prod.snd (Option.some.inj hp)).symm hne
  · intro r hr
    have hcase : r ∈ (s.listener m).accept ∨
        r = t ∧ ∃ q ∈ (s.listener m).pending, q.slot = t.slot := by
      rcases promote_cases (s.listener m) t with ⟨-,hx⟩ | ⟨hh,-,hx,-,-⟩
      · rw [hx] at hr
        exact .inl hr
      · rw [hx] at hr
        rcases mem_append.mp hr with hr | hr
        · exact .inl hr
        · exact .inr ⟨mem_singleton.mp hr,holds_iff.mp hh⟩
    rcases hcase with hr | ⟨rfl,q,hqm,hqt⟩
    · have he := hq.accept m r hr
      refine ⟨?_,?_,?_⟩ <;> rw [htcb]
      · exact he.active
      · rw [hport,he.port]
      · exact he.state
    · have he := hq.pending m q hqm
      rw [hqt] at he
      refine ⟨?_,?_,?_⟩ <;> rw [htcb]
      · exact he.active
      · rw [hport,he.port]
      · exact (hok m q hqm hqt).2
  · rintro ⟨l,r,hr,hrt⟩
    by_cases hl : l = m
    · subst hl
      rw [hself] at hr
      exact (hgone r hr).2 hrt
    · rw [hlis,update_of_ne hl] at hr
      exact hl (hok l r hr hrt).1

/-- `tcpListenerPushPending` by the receive loop. -/
theorem Queues.push {x : TcpListener} (hq : Queues s none) (hok : RxOk s (.openPush m t))
    (hx : tcpListenerPushPending (s.listener m) t = some x) (htcb : s'.tcb = s.tcb)
    (hlis : s'.listener = update s.listener m x) : Queues s' none := by
  obtain ⟨-,hnq,hact,hport,hls,hst⟩ := hok
  have hself : s'.listener m = x := by rw [hlis,update_self]
  have hshape : x.pending = (s.listener m).pending++[t] ∧ x.accept = (s.listener m).accept ∧
      x.port = (s.listener m).port := by
    unfold tcpListenerPushPending at hx
    split at hx
    · cases hx; exact ⟨rfl,rfl,rfl⟩
    · cases hx
  obtain ⟨hxp,hxa,hxport⟩ := hshape
  have hslots : x.slots.Perm (t.slot :: (s.listener m).slots) := by
    simp only [TcpListener.slots,TcpListener.refs,hxp,hxa,List.map_append,List.map_cons,
      List.append_assoc,List.singleton_append]
    exact List.perm_middle
  refine hq.write htcb hlis (fun _ _ _ hp => by cases hp) ?_ ?_ ?_ ?_
  · intro r hr
    rw [hxp] at hr
    rcases mem_append.mp hr with hr | hr
    · have he := hq.pending m r hr
      refine ⟨?_,?_,?_,?_⟩ <;> rw [htcb]
      · exact he.active
      · exact he.listener
      · rw [hself,hxport,he.port]
      · exact he.state
    · rw [mem_singleton.mp hr]
      refine ⟨?_,?_,?_,?_⟩ <;> rw [htcb]
      · exact hact
      · exact hls
      · rw [hself,hxport,hport]
      · exact .inl hst
  · intro r hr
    rw [hxa] at hr
    have he := hq.accept m r hr
    refine ⟨?_,?_,?_⟩ <;> rw [htcb]
    · exact he.active
    · rw [hself,hxport,he.port]
    · exact he.state
  · rw [hslots.nodup_iff]
    exact List.nodup_cons.mpr ⟨fun h => hnq ⟨m,h⟩,hq.nodup m⟩
  · intro i hi
    rcases List.mem_cons.mp (hslots.mem_iff.mp hi) with rfl | hi
    · exact .inr hnq
    · exact .inl hi

end RxWrites

theorem remove_shrinks (l : TcpListener) (t : TcbRef) :
    Shrinks l (tcpListenerRemove l t) False := by
  unfold tcpListenerRemove
  split
  · exact ⟨shiftOut_sublist _ _,.refl _,.inl ⟨rfl,.inl rfl⟩⟩
  · exact ⟨.refl _,shiftOut_sublist _ _,.inl ⟨rfl,.inl rfl⟩⟩

/-! ## Steps that leave the TCBs alone -/

/-- The listener `tcpTryPassiveOpen` looked up and still has to push onto. -/
def RxPc.openingFor : RxPc → Option (Fin 4)
  | .openAlloc l _ _ _ | .openInit l _ _ | .openPush l _ => some l
  | _ => none

theorem Queues.of_none {s : Shared} (hq : Queues s none) (prom : Option (Fin 4 × Slot)) :
    Queues s prom where
  pending l r hr := by
    have he := hq.pending l r hr
    refine ⟨he.active,he.listener,he.port,.inl ?_⟩
    rcases he.state with h | ⟨h,-⟩
    · exact h
    · cases h
  accept := hq.accept
  nodup := hq.nodup
  disjoint := hq.disjoint

theorem Queues.congr {s s' : Shared} (hq : Queues s prom)
    (htcb : s'.tcb = s.tcb) (hlis : s'.listener = s.listener) : Queues s' prom where
  pending l r hr := by
    rw [hlis] at hr
    have he := hq.pending l r hr
    exact ⟨by rw [htcb,he.active],by rw [htcb,he.listener],by rw [htcb,hlis,he.port],
      by rw [htcb]; exact he.state⟩
  accept l r hr := by
    rw [hlis] at hr
    have he := hq.accept l r hr
    exact ⟨by rw [htcb,he.active],by rw [htcb,hlis,he.port],by rw [htcb,he.state]⟩
  nodup := by rw [hlis]; exact hq.nodup
  disjoint := by rw [hlis]; exact hq.disjoint

theorem RxOk.congr {s s' : Shared} {l : RxPc} (h : RxOk s l) (htcb : s'.tcb = s.tcb)
    (hlis : s'.listener = s.listener) : RxOk s' l := by
  cases l <;> simp only [RxOk,Shared.Queued,Shared.Pending,htcb,hlis] at h ⊢ <;> exact h

theorem ProcOk.congr {s s' : Shared} {l : ProcPc} (h : ProcOk s l) (htcb : s'.tcb = s.tcb)
    (hqueue : ∀ i, l.initialising = some i → s'.Queued i → s.Queued i) : ProcOk s' l := by
  cases l with
  | connInit c t timeout => exact ⟨by rw [htcb]; exact h.1,fun hq => h.2 (hqueue _ rfl hq)⟩
  | _ => trivial

/-- What the receive loop knows survives the queue writes of the processes. -/
theorem RxOk.shrink {s s' : Shared} {m : Fin 4} {x : TcpListener} {d : Prop} {rx : RxPc}
    (hrx : RxOk s rx) (htcb : s'.tcb = s.tcb)
    (hlis : s'.listener = update s.listener m x) (h : Shrinks (s.listener m) x d)
    (hd : rx.openingFor = some m → ¬d) : RxOk s' rx := by
  have hpend {i : Slot} (hi : s'.Pending i) : s.Pending i := by
    obtain ⟨l,r,hr,hri⟩ := hi
    exact ⟨l,r,pending_shrink hlis h hr,hri⟩
  cases rx with
  | openAlloc l hdr hd' payload =>
    obtain ⟨ha,hp⟩ := listening_shrink hlis h (fun hl => hd (congrArg some hl)) hrx.1
    exact ⟨ha,hp.trans hrx.2⟩
  | openInit l t | openPush l t =>
    obtain ⟨hact,hnq,hrest⟩ := hrx
    obtain ⟨ha,hp⟩ := listening_shrink hlis h (fun hl => hd (congrArg some hl)) hact
    refine ⟨ha,fun hq => hnq (queued_shrink hlis h hq),?_⟩
    rw [htcb,hp]
    exact hrest
  | promote l t hd' payload =>
    intro l' r hr hrt
    rw [htcb]
    exact hrx l' r (pending_shrink hlis h hr) hrt
  | synSent | established | finWait1 | finWait2 | closing | timeWait | sendAck =>
    exact fun hi => hrx (hpend hi)
  | _ => trivial

namespace QueueInv

variable {k : Kernel}

/-- A step that writes neither a TCB nor a queue. -/
theorem quiet (hk : QueueInv k) {k' : Kernel} (htcb : k'.shared.tcb = k.shared.tcb)
    (hlis : k'.shared.listener = k.shared.listener)
    (hrx : k'.pc .rx = k.pc .rx ∨ RxPc.promoting (k.pc .rx) = none ∧
      RxOk k.shared (k'.pc .rx) ∧ RxPc.initialising (k'.pc .rx) = none)
    (hproc : ∀ p, k'.pc (.proc p) = k.pc (.proc p) ∨
      ProcPc.initialising (k'.pc (.proc p)) = none) : QueueInv k' where
  queues := by
    rcases hrx with h | ⟨h,-,-⟩
    · rw [h]
      exact hk.queues.congr htcb hlis
    · have hq := hk.queues
      rw [h] at hq
      exact (hq.congr htcb hlis).of_none _
  pc τ := by
    cases τ with
    | rx =>
      rcases hrx with h | ⟨-,h,-⟩
      · rw [h]
        exact RxOk.congr (hk.pc .rx) htcb hlis
      · exact RxOk.congr h htcb hlis
    | scan | echo => trivial
    | proc p =>
      rcases hproc p with h | h
      · rw [h]
        exact ProcOk.congr (hk.pc (.proc p)) htcb fun i _ hq => (queued_congr hlis i).mp hq
      · exact ProcOk.of_initialising fun i hi => by rw [h] at hi; cases hi
  apart p i hi := by
    rcases hproc p with h | h
    · rcases hrx with hr | ⟨-,-,hr⟩
      · rw [hr]
        exact hk.apart p i (h ▸ hi)
      · rw [hr]
        nofun
    · rw [h] at hi
      cases hi

end QueueInv

theorem listenerLookup_spec {ls : Fin 4 → TcpListener} {port : UInt16}
    (h : tcpListenerLookupLocked ls port = some l) : (ls l).active = true ∧ (ls l).port = port := by
  simpa using List.find?_some h

/-- The receive loop after a section that writes nothing. -/
theorem rx_next_quiet {s : Shared} {l : RxPc} (hop : (rxSection s ok l).op = none)
    (hls : (rxSection s ok l).listener = none) :
    l.promoting = none ∧ RxOk s (rxSection s ok l).next ∧
      (rxSection s ok l).next.initialising = none := by
  cases l with
  | idle => exact ⟨rfl,trivial,rfl⟩
  | lookup hdr h payload =>
    refine ⟨rfl,?_⟩
    simp only [rxSection]
    repeat' split
    all_goals exact ⟨trivial,rfl⟩
  | promote | openRemove => cases hls
  | reset seg andFree => cases andFree <;> exact ⟨rfl,trivial,rfl⟩
  | openLookup hdr h payload =>
    refine ⟨rfl,?_⟩
    simp only [rxSection]
    split
    · exact ⟨trivial,rfl⟩
    · rename_i m hm
      split
      · exact ⟨trivial,rfl⟩
      · exact ⟨listenerLookup_spec hm,rfl⟩
  | openAlloc m hdr h payload =>
    cases hi : tcbAllocFind s.tcb with
    | none =>
      simp only [rxSection,hi]
      exact ⟨rfl,trivial,rfl⟩
    | some i =>
      simp only [rxSection,hi] at hop
      cases hop
  | openPush m t =>
    cases hp : tcpListenerPushPending (s.listener m) t with
    | none =>
      simp only [rxSection,hp]
      exact ⟨rfl,trivial,rfl⟩
    | some x =>
      simp only [rxSection,hp] at hls
      cases hls
  | _ => cases hop

theorem apply_listener_of_write {s : Shared} {π : Type} {f : Effect π} {m : Fin 4}
    {x : TcpListener} (h : f.listener = some (m,x)) :
    (s.apply f).listener = update s.listener m x := by
  simp only [Shared.apply,h,put]

theorem apply_tcb_of_none {s : Shared} {π : Type} {f : Effect π} (h : f.op = none) :
    (s.apply f).tcb = s.tcb := by
  simp only [Shared.apply,h,Option.map_none,put_none]

/-- The receive loop after a section that writes a queue. -/
structure RxWrite (s s' : Shared) (l next : RxPc) : Prop where
  tcb : s'.tcb = s.tcb
  queues : Queues s' none
  ok : RxOk s' next
  initialising : next.initialising = none
  queued : ∀ i, s'.Queued i → s.Queued i ∨ l.initialising = some i

theorem rx_write {s : Shared} {l : RxPc} {m : Fin 4} {x : TcpListener}
    (hq : Queues s l.promoting) (hl : RxOk s l)
    (hls : (rxSection s ok l).listener = some (m,x)) :
    RxWrite s (s.apply (rxSection s ok l)) l (rxSection s ok l).next := by
  have hlis := apply_listener_of_write (s := s) hls
  cases l with
  | promote m' t h payload =>
    have htcb : (s.apply (rxSection s ok (.promote m' t h payload))).tcb = s.tcb :=
      apply_tcb_of_none rfl
    cases hls
    obtain ⟨hqs,hgone⟩ := hq.promote hl htcb hlis
    refine ⟨htcb,hqs,afterPromote_ok hgone,?_,fun i hi => .inl ?_⟩
    · simp only [rxSection,afterPromote]
      split <;> rfl
    · obtain ⟨l,hi⟩ := hi
      rw [hlis] at hi
      by_cases hm : l = m
      · subst hm
        rw [update_self] at hi
        exact ⟨l,(promote_slots (hq.nodup l)).2 i hi⟩
      · rw [update_of_ne hm] at hi
        exact ⟨l,hi⟩
  | openPush m' t =>
    cases hp : tcpListenerPushPending (s.listener m') t with
    | none =>
      simp only [rxSection,hp] at hls
      cases hls
    | some y =>
      simp only [rxSection,hp] at hls hlis ⊢
      cases hls
      refine ⟨apply_tcb_of_none rfl,hq.push hl hp (apply_tcb_of_none rfl) hlis,trivial,rfl,
        fun i hi => ?_⟩
      obtain ⟨l,hi⟩ := hi
      rw [hlis] at hi
      by_cases hm : l = m
      · subst hm
        rw [update_self] at hi
        obtain ⟨r,hr,rfl⟩ := mem_map.mp hi
        rcases pushPending_refs hp hr with hr | rfl
        · exact .inl ⟨l,List.mem_map_of_mem hr⟩
        · exact .inr rfl
      · rw [update_of_ne hm] at hi
        exact .inl ⟨l,hi⟩
  | openRemove m' t =>
    have htcb : (s.apply (rxSection s ok (.openRemove m' t))).tcb = s.tcb := apply_tcb_of_none rfl
    cases hls
    have hsh := remove_shrinks (s.listener m) t
    exact ⟨htcb,hq.shrink htcb hlis hsh,trivial,rfl,fun i hi => .inl (queued_shrink hlis hsh hi)⟩
  | lookup | openLookup =>
    simp only [rxSection] at hls
    (repeat' split at hls) <;> cases hls
  | openAlloc m' hdr h payload =>
    simp only [rxSection] at hls
    split at hls <;> cases hls
  | _ => cases hls

namespace QueueInv

variable {k : Kernel}

/-- Step lemma for the queue writes of the receive loop. -/
theorem rxWrite (hk : QueueInv k) {m : Fin 4} {x : TcpListener}
    (hls : (rxSection k.shared ok (k.pc .rx)).listener = some (m,x)) :
    QueueInv (k.move .rx (k.shared.apply (rxSection k.shared ok (k.pc .rx)))
      (rxSection k.shared ok (k.pc .rx)).next) := by
  have hw := rx_write hk.queues (hk.pc .rx) hls
  refine ⟨hw.queues.of_none _,fun τ => ?_,fun p i _ => ?_⟩
  · cases τ with
    | rx =>
      exact hw.ok
    | scan | echo => trivial
    | proc p =>
      refine ProcOk.congr (hk.pc (.proc p)) hw.tcb fun i hi hq => ?_
      exact (hw.queued i hq).resolve_right (hk.apart p i hi)
  · rw [Conf.move_pc_self,hw.initialising]
    nofun

/-- Step lemma for the queue writes of a process. -/
theorem procWrite (hk : QueueInv k) {m : Fin 4} {x : TcpListener}
    (hop : (procSection k.shared ok p (k.pc (.proc p))).op = none)
    (hls : (procSection k.shared ok p (k.pc (.proc p))).listener = some (m,x))
    (hdrain : RxPc.openingFor (k.pc .rx) = some m →
      ¬∃ c, k.pc (.proc p) = ProcPc.listenerDrain c m) :
    QueueInv (k.move (.proc p) (k.shared.apply (procSection k.shared ok p (k.pc (.proc p))))
      (procSection k.shared ok p (k.pc (.proc p))).next) := by
  have hsh := proc_shrinks hls
  have hlis := apply_listener_of_write (s := k.shared) hls
  have htcb := apply_tcb_of_none (s := k.shared) hop
  have hnext : (procSection k.shared ok p (k.pc (.proc p))).next.initialising = none := by
    cases hi : (procSection k.shared ok p (k.pc (.proc p))).next.initialising with
    | none => rfl
    | some i =>
      obtain ⟨-,hnone,-⟩ := proc_next_initialising hi
      rw [hnone] at hls
      cases hls
  refine ⟨?_,fun τ => ?_,fun q i hi => ?_⟩
  · exact hk.queues.shrink htcb hlis hsh
  · by_cases hτ : τ = .proc p
    · subst hτ
      rw [Conf.move_pc_self]
      exact ProcOk.of_initialising fun i hi => by rw [hnext] at hi; cases hi
    · rw [Conf.move_pc_of_ne _ _ _ _ hτ]
      cases τ with
      | rx => exact RxOk.shrink (hk.pc .rx) htcb hlis hsh hdrain
      | scan | echo => trivial
      | proc q =>
        exact ProcOk.congr (hk.pc (.proc q)) htcb fun i _ hq => queued_shrink hlis hsh hq
  · by_cases hq : q = p
    · subst hq
      rw [Conf.move_pc_self,hnext] at hi
      cases hi
    · rw [Conf.move_pc_of_ne _ _ _ _ fun h => hq (Tid.proc.inj h)] at hi
      exact hk.apart q i hi

/-- Step lemmas for threads that write neither a TCB nor a queue. -/
theorem quietRx (hk : QueueInv k) {f : Effect RxPc} (hop : f.op = none) (hls : f.listener = none)
    (hnext : RxPc.promoting (k.pc .rx) = none ∧ RxOk k.shared f.next ∧
      f.next.initialising = none) : QueueInv (k.move .rx (k.shared.apply f) f.next) := by
  refine hk.quiet (apply_tcb_of_none hop) ?_ (.inr ?_) fun p =>
    .inl (Conf.move_pc_of_ne _ _ _ _ (by simp))
  · simp only [Conf.move,Shared.apply,hls,put_none]
  · exact hnext

theorem quietProc (hk : QueueInv k) {f : Effect ProcPc} (hop : f.op = none)
    (hls : f.listener = none) (hnext : f.next.initialising = none) :
    QueueInv (k.move (.proc p) (k.shared.apply f) f.next) := by
  refine hk.quiet (apply_tcb_of_none hop) ?_ (.inl (Conf.move_pc_of_ne _ _ _ _ (by simp)))
    fun q => ?_
  · simp only [Conf.move,Shared.apply,hls,put_none]
  · by_cases hq : q = p
    · subst hq
      rw [Conf.move_pc_self]
      exact .inr hnext
    · exact .inl (Conf.move_pc_of_ne _ _ _ _ fun h => hq (Tid.proc.inj h))

theorem quietService (hk : QueueInv k) {τ : Tid} {f : Effect (PcOf τ)} (hrx : τ ≠ .rx)
    (hproc : ∀ p, τ ≠ .proc p) (hop : f.op = none) (hls : f.listener = none) :
    QueueInv (k.move τ (k.shared.apply f) f.next) := by
  refine hk.quiet (apply_tcb_of_none hop) ?_ (.inl (Conf.move_pc_of_ne _ _ _ _ (Ne.symm hrx)))
    fun p => .inl (Conf.move_pc_of_ne _ _ _ _ (Ne.symm (hproc p)))
  simp only [Conf.move,Shared.apply,hls,put_none]

end QueueInv

/-! ## The invariant along runs -/

namespace Kernel

/-- Some listener queue points to slot `i`. -/
def queued (k : Kernel) (i : Slot) : Bool :=
  (List.finRange 4).any fun l => (k.shared.listener l).slots.contains i

/-- An open is initialising slot `i`. -/
def busy (k : Kernel) (i : Slot) : Bool :=
  RxPc.initialising (k.pc .rx) == some i ||
    (List.finRange 32).any fun p => ProcPc.initialising (k.pc (.proc p)) == some i

/-- The event does not take a TCB away under a listener: a TCB that is queued or being
initialised is neither freed nor cut off from its listener, the echo server does not
finish a half-open connection, and a listener is not closed while `tcpTryPassiveOpen`
is about to push onto it. -/
def queuesKept (k : Kernel) (e : Ev) : Bool :=
  (match (e.effect k).bind (·.2.op) with
    | some (i,.free) | some (i,.clearListener) => !k.queued i && !k.busy i
    | some (i,.echoFinCommit) => (k.shared.tcb i).state != .synReceived
    | _ => true) &&
  match e with
  | .run (.proc p) _ =>
    match (k.pc (.proc p) : ProcPc) with
    | .listenerDrain _ l => RxPc.openingFor (k.pc .rx) != some l
    | _ => true
  | _ => true

theorem queued_iff {k : Kernel} : k.queued i = true ↔ k.shared.Queued i := by
  simp [queued,Shared.Queued]

theorem busy_iff {k : Kernel} : k.busy i = true ↔ k.Busy i := by
  simp [busy,Busy]

end Kernel

theorem safeOp_of_kept {k : Kernel} {e : Ev} {τ : Tid} {f : Effect (PcOf τ)}
    {op : TcbOp} (he : e.effect k = some ⟨τ,f⟩) (hop : f.op = some (i,op))
    (hG : k.queuesKept e = true) : SafeOp k.shared (k.Busy i) i op := by
  have hG := (Bool.and_eq_true_iff.mp hG).1
  simp only [he,Option.bind_some,hop] at hG
  have hfree (h : (!k.queued i && !k.busy i) = true) : ¬k.shared.Queued i ∧ ¬k.Busy i := by
    rw [Bool.and_eq_true] at h
    constructor
    · intro hq
      rw [Kernel.queued_iff.mpr hq] at h
      cases h.1
    · intro hb
      rw [Kernel.busy_iff.mpr hb] at h
      cases h.2
  constructor
  · rintro (rfl | rfl)
    · exact hfree hG
    · exact hfree hG
  · rintro rfl
    simpa using hG

theorem queueInv_boot : QueueInv .boot where
  queues := by
    have hempty : ∀ l, (Kernel.boot.shared.listener l).refs = [] := by decide
    refine ⟨fun l r hr => ?_,fun l r hr => ?_,fun l => ?_,fun l l' i hi => ?_⟩
    · have : r ∈ (Kernel.boot.shared.listener l).refs := List.mem_append_left _ hr
      rw [hempty] at this
      cases this
    · have : r ∈ (Kernel.boot.shared.listener l).refs := List.mem_append_right _ hr
      rw [hempty] at this
      cases this
    · rw [TcpListener.slots,hempty]
      exact List.nodup_nil
    · rw [TcpListener.slots,hempty] at hi
      cases hi
  pc τ := by cases τ <;> trivial
  apart p i hi := by cases hi

theorem sysEntry_initialising (s : Shared) (p : ProcSlot) (c : Syscall) :
    (sysEntry s p c).next.initialising = none := by
  have h := sysEntry_next s p c
  revert h
  generalize (sysEntry s p c).next = l
  intro h
  cases h <;> rfl

/-- Step lemma of the queue invariant. -/
theorem queueInv_step {k : Kernel} {e : Ev} (hk : QueueInv k) (hG : k.queuesKept e = true) :
    QueueInv (k.step e).1 := by
  cases he : e.effect k with
  | none =>
    simp only [Kernel.step,he]
    refine hk.quiet ?_ ?_ (.inl rfl) fun p => .inl rfl
    · cases e <;> rfl
    · cases e <;> rfl
  | some w =>
    obtain ⟨τ,f⟩ := w
    simp only [Kernel.step,he]
    cases hop : f.op with
    | some w =>
      obtain ⟨i,op⟩ := w
      exact hk.operate he hop (safeOp_of_kept he hop hG)
    | none =>
      cases Ev.moved he with
      | segment hdr h payload hidle => exact hk.quietRx rfl rfl ⟨by rw [hidle]; rfl,trivial,rfl⟩
      | scan | echo => exact hk.quietService (by simp) (by simp) rfl rfl
      | sys p c => exact hk.quietProc hop (sysEntry_listener ..) (sysEntry_initialising ..)
      | run τ ok =>
        cases τ with
        | scan => exact hk.quietService (by simp) (by simp) hop (scanSection_quiet ..).2.2
        | echo => exact hk.quietService (by simp) (by simp) hop (echoSection_quiet ..).2.2
        | rx =>
          cases hls : (threadSection k.shared ok .rx (k.pc .rx)).listener with
          | none => exact hk.quietRx hop hls (rx_next_quiet hop hls)
          | some w =>
            obtain ⟨m,x⟩ := w
            exact hk.rxWrite hls
        | proc p =>
          cases hls : (threadSection k.shared ok (.proc p) (k.pc (.proc p))).listener with
          | none =>
            refine hk.quietProc hop hls ?_
            cases hi : (procSection k.shared ok p (k.pc (.proc p))).next.initialising with
            | none => exact hi
            | some i =>
              obtain ⟨-,-,_,_,_,_,hal⟩ := proc_next_initialising hi
              rw [threadSection,hal] at hop
              cases hop
          | some w =>
            obtain ⟨m,x⟩ := w
            refine hk.procWrite hop hls fun hopen hdrain => ?_
            obtain ⟨c,hc⟩ := hdrain
            have hG := (Bool.and_eq_true_iff.mp hG).2
            simp [hc,hopen] at hG

/-- The live connections behind a listener's queues. -/
theorem Queues.alive {s : Shared} (hq : Queues s prom) (l : Fin 4) :
    ∃ S : Finset Slot, S.card = (s.listener l).refs.length ∧
      ∀ i ∈ S, (s.tcb i).active = true ∧ (s.tcb i).localPort = (s.listener l).port := by
  refine ⟨(s.listener l).slots.toFinset,?_,fun i hi => ?_⟩
  · rw [List.toFinset_card_of_nodup (hq.nodup l),TcpListener.slots,List.length_map]
  · rcases mem_slots.mp (List.mem_toFinset.mp hi) with ⟨r,hr,rfl⟩ | ⟨r,hr,rfl⟩
    · exact ⟨(hq.pending l r hr).active,(hq.pending l r hr).port⟩
    · exact ⟨(hq.accept l r hr).active,(hq.accept l r hr).port⟩

/-- In every run that takes no TCB away under a listener: pending entries are half-open
connections of their listener, but for the one being promoted, accept entries are open
connections on its port, no slot is queued twice, and full queues mean that many live
connections. -/
theorem listener_queues_kept (es : List Ev)
    (hm : Trace.Meets Kernel.step (fun k e => k.queuesKept e = true) .boot es) :
    let k := Trace.exec Kernel.step .boot es
    Queues k.shared (RxPc.promoting (k.pc .rx)) ∧
    ∀ l, (k.shared.listener l).pending.length+(k.shared.listener l).accept.length ≤
        tcpAcceptQueueDepth ∧
      (tcpAcceptQueueDepth ≤
          (k.shared.listener l).pending.length+(k.shared.listener l).accept.length →
        ∃ S : Finset Slot, S.card = tcpAcceptQueueDepth ∧ ∀ i ∈ S,
          (k.shared.tcb i).active = true ∧
          (k.shared.tcb i).localPort = (k.shared.listener l).port) := by
  intro k
  have hinv : QueueInv k :=
    Trace.Meets.inv (I := QueueInv) (fun _ _ hk hG => queueInv_step hk hG) queueInv_boot hm
  refine ⟨hinv.queues,fun l => ⟨(k.shared.listener l).depth_le,fun hfull => ?_⟩⟩
  obtain ⟨S,hcard,hS⟩ := hinv.queues.alive l
  refine ⟨S,?_,hS⟩
  have hle := (k.shared.listener l).depth_le
  rw [hcard,TcpListener.refs,List.length_append]
  omega

/-- A peer's SYN and third ACK, up to the section that accepts the ACK. -/
def halfPromoted : List Ev :=
  toEcho 1000 0 tcpFlagSYN [] :: runs .rx 8++toEcho 1001 1 tcpFlagACK [] :: runs .rx 3

/-- A passive handshake to its end. -/
theorem listener_queues_kept_handshake :
    let k := Trace.exec Kernel.step .boot (halfPromoted++runs .rx 1)
    (k.shared.listener 0).accept = [⟨0,1⟩] ∧ Queues k.shared (RxPc.promoting (k.pc .rx)) :=
  ⟨by decide +kernel,
    (listener_queues_kept (halfPromoted++runs .rx 1) (by decide +kernel)).1⟩

/-- Between its two locks `tcpHandleSynReceived` leaves an established TCB pending. -/
theorem established_pending :
    let k := Trace.exec Kernel.step .boot halfPromoted
    (k.shared.listener 0).active = true ∧ (k.shared.listener 0).pending = [⟨0,1⟩] ∧
      (k.shared.tcb 0).state = .established := by
  decide +kernel

end Gooos
