import Mathlib
import Gooos.Tcp.Leftover
import Gooos.Tcp.ReceiveStream

/-!
# Reuse of a table slot

`tcbAlloc` claims a slot without clearing it. Two kernels whose tables differ in what an
earlier connection left in the slot are compared along equal runs.
-/

namespace Gooos

open TCB Function
open Trace (outs)

/-! ## What a step shows -/

/-- Which slots are in use, and in which state. -/
def Kernel.states (k : Kernel) : List (Bool × TcbState) :=
  (List.finRange 16).map fun j => ((k.shared.tcb j).active,(k.shared.tcb j).state)

/-- A step with all that can be seen of it: its observations and the states it leaves. -/
def Kernel.watch (k : Kernel) (e : Ev) : Kernel × List (List Obs × List (Bool × TcbState)) :=
  let r := k.step e
  (r.1,[(r.2,r.1.states)])

/-- The kernel with `x` in slot `i`. -/
def Kernel.withTcb (k : Kernel) (i : Slot) (x : TCB) : Kernel :=
  ⟨{ k.shared with tcb := update k.shared.tcb i x },k.pc⟩

/-- Thread `τ` is about to call `tcbAlloc` for an open, which claims slot `i`. -/
def Kernel.claims (k : Kernel) (τ : Tid) (i : Slot) : Bool :=
  match τ with
  | .rx => match k.pc .rx with
    | .openAlloc .. => tcbAllocFind k.shared.tcb == some i
    | _ => false
  | .proc p => match k.pc (.proc p) with
    | .connAlloc .. => tcbAllocFind k.shared.tcb == some i
    | _ => false
  | _ => false

/-- The leftovers agree on what a connection opened over them can read: the queued bytes
and descriptors, the RTO, RTT, persist and delayed-ACK fields and `lastAdvWin`. An active
open sends the old `rcvNxt` in its SYN, and a running persist timer reads `sndWnd`. -/
def SameLeft (passive : Bool) (x y : TCB) : Prop :=
  (y.txBuf.contents = x.txBuf.contents ∧ y.rxBuf.contents = x.rxBuf.contents ∧
    y.retxQ.contents = x.retxQ.contents) ∧
  (y.rtoTicks = x.rtoTicks ∧ y.rtoDeadline = x.rtoDeadline ∧
    y.xmitCountHead = x.xmitCountHead ∧ y.rtoFastRetx = x.rtoFastRetx) ∧
  (y.srttTicks = x.srttTicks ∧ y.rttvarTicks = x.rttvarTicks ∧
    y.rttInitialized = x.rttInitialized) ∧
  (y.lastAdvWin = x.lastAdvWin ∧ y.persistDeadline = x.persistDeadline ∧
    y.persistTicks = x.persistTicks ∧ y.delackDeadline = x.delackDeadline) ∧
  (passive = false → y.rcvNxt = x.rcvNxt ∧ (x.persistDeadline = 0 ∨ y.sndWnd = x.sndWnd))

instance (passive : Bool) (x y : TCB) : Decidable (SameLeft passive x y) :=
  inferInstanceAs (Decidable (_ ∧ _))

/-! ## Twins -/

/-- The states in which no segment reaches code that reads the handshake's fields. -/
def TcbState.ackless : TcbState → Bool
  | .established | .finWait1 | .finWait2 | .closing => false
  | _ => true

/-- TCBs in the same slot of two kernels; `lst` and `full` tell whether they agree on the
listener and on the handshake's fields. -/
structure Twin (lst full : Bool) (x y : TCB) : Prop where
  alike : Alike full x y
  listener : lst = true → y.listener = x.listener
  enlisted : x.state = .synReceived → lst = true
  idle : full = false →
    x.state.ackless = true ∧ (x.persistDeadline = 0 ∨ y.sndWnd = x.sndWnd)

theorem Twin.refl (x : TCB) : Twin true true x x :=
  ⟨.refl _ _,fun _ => rfl,fun _ => rfl,nofun⟩

section Run

variable {lst full : Bool} {x y : TCB}

theorem Twin.probeWindow (h : Twin lst full x y) :
    x.persistDeadline = 0 ∨ y.sndWnd = x.sndWnd := by
  cases full with
  | false => exact (h.idle rfl).2
  | true =>
    obtain ⟨s,rfl,_⟩ := alike_full.mp h.alike
    exact .inr rfl

/-- Without a handler at work the handshake's fields stay unread. -/
theorem Twin.run_idle (now : UInt64) (op : TcbOp) (h : Twin lst full x y) (hf : full = false)
    (hr : op.readsSend = false) (hs : op.setsSend = false) :
    (op.run now x).state.ackless = true ∧
      ((op.run now x).persistDeadline = 0 ∨ (op.run now y).sndWnd = (op.run now x).sndWnd) := by
  obtain ⟨hst,hw⟩ := h.idle hf
  have hacks : op.acks = false := by
    cases op <;> first | rfl | (cases hr; done) | cases hs
  constructor
  · rcases op.run_state now x with heq | hlead
    · rw [heq]; exact hst
    · generalize (op.run now x).state = st at hlead
      cases op with
      | closeMark =>
        rcases TcbOp.leads_closeMark.mp hlead with ⟨hest,_⟩ | ⟨_,hlast⟩
        · rw [hest] at hst
          cases hst
        · rw [hlast]
          rfl
      | _ =>
        first
        | (cases hr; done)
        | (cases hs; done)
        | (obtain rfl := eq_of_beq hlead; rfl)
        | cases hlead
  · have hx := op.run_frame now x
    have hy := op.run_frame now y
    by_cases ho : op.opens = true
    · cases op with
      | passiveInit l hd => exact .inr rfl
      | activeInit => exact hw
      | _ => cases ho
    · rw [Bool.not_eq_true] at ho
      rcases hw with hzero | hwnd
      · left
        by_cases hp : op.probes = true
        · cases op with
          | persistBegin => simp [TcbOp.run,tcpPersistFireBegin,hzero]
          | _ => cases hp
        · rw [hx.persist hacks (by simpa using hp)]
          exact hzero
      · right
        rw [hx.sndWnd ho hacks,hy.sndWnd ho hacks]
        exact hwnd

/-- Every operation keeps twins; the agreement only grows. -/
theorem Twin.run (now : UInt64) (op : TcbOp) (h : Twin lst full x y)
    (hr : op.readsSend = true → full = true) :
    Twin (lst || op.enlists) (full || op.setsSend) (op.run now x) (op.run now y) := by
  refine ⟨op.run_alike now h.alike hr fun _ => h.probeWindow,?_,?_,?_⟩
  · intro hl
    by_cases he : op.enlists = true
    · cases op with
      | passiveInit | clearListener => rfl
      | _ => cases he
    · rw [Bool.not_eq_true] at he
      rw [he,Bool.or_false] at hl
      rw [(op.run_frame now x).listener he,(op.run_frame now y).listener he]
      exact h.listener hl
  · intro hst
    rcases op.run_state now x with heq | hlead
    · rw [h.enlisted (heq ▸ hst),Bool.true_or]
    · rw [hst] at hlead
      cases op with
      | passiveInit l hd => exact Bool.or_true _
      | closeMark =>
        rcases TcbOp.leads_closeMark.mp hlead with ⟨_,h⟩ | ⟨_,h⟩ <;> cases h
      | _ => cases hlead
  · intro hf
    obtain ⟨hfull,hs⟩ := Bool.or_eq_false_iff.mp hf
    refine h.run_idle now op hfull ?_ hs
    by_contra hne
    rw [hr (by simpa using hne)] at hfull
    cases hfull

end Run

/-! ## Sections over twin tables -/

/-- Tables whose slots hold twins. -/
def TwinTables (lst full : Slot → Bool) (tcb tcb' : Slot → TCB) : Prop :=
  ∀ j, Twin (lst j) (full j) (tcb j) (tcb' j)

section Tables

variable {lst full : Slot → Bool} {s : Shared} {tcb' : Slot → TCB}

section

variable (h : TwinTables lst full s.tcb tcb')
include h

/-- The fields a section reads one by one. -/
theorem TwinTables.fields :
    (∀ j, (tcb' j).active = (s.tcb j).active) ∧ (∀ j, (tcb' j).state = (s.tcb j).state) ∧
    (∀ j, (tcb' j).localIP = (s.tcb j).localIP) ∧
    (∀ j, (tcb' j).localPort = (s.tcb j).localPort) ∧
    (∀ j, (tcb' j).remoteIP = (s.tcb j).remoteIP) ∧
    (∀ j, (tcb' j).remotePort = (s.tcb j).remotePort) ∧
    (∀ j, (tcb' j).sndNxt = (s.tcb j).sndNxt) ∧
    (∀ j, (tcb' j).mssLocal = (s.tcb j).mssLocal) := by
  have hcore (j : Slot) := (h j).alike
  refine ⟨fun j => ?_,fun j => ?_,fun j => ?_,fun j => ?_,fun j => ?_,fun j => ?_,fun j => ?_,
    fun j => ?_⟩ <;> obtain ⟨s,v,heq,_⟩ := hcore j <;> rw [heq] <;> rfl

theorem TwinTables.sent (ip : UInt32) (ok : Bool) (j : Slot)
    (flags : UInt8) (options payload : List UInt8) :
    (tcpSendSegment ip ok (tcb' j) flags options payload).2 =
      (tcpSendSegment ip ok (s.tcb j) flags options payload).2 :=
  (tcpSendSegment_alike ip ok flags options payload (h j).alike).1

theorem TwinTables.allocFind : tcbAllocFind tcb' = tcbAllocFind s.tcb := by
  obtain ⟨hact,_⟩ := h.fields
  simp only [tcbAllocFind,hact]

theorem TwinTables.lookup (lip : UInt32) (lp : UInt16) (rip : UInt32) (rp : UInt16) :
    tcbLookup tcb' lip lp rip rp = tcbLookup s.tcb lip lp rip rp := by
  obtain ⟨hact,_,hlip,hlp,hrip,hrp,_⟩ := h.fields
  simp only [tcbLookup,hact,hlip,hlp,hrip,hrp]

theorem TwinTables.dispatch (t : TcbRef) (hd : TCPHeader) (payload : List UInt8) :
    tcpDispatchToTCB (tcb' t.slot) t hd payload =
      tcpDispatchToTCB (s.tcb t.slot) t hd payload := by
  obtain ⟨sk,v,heq,_⟩ := (h t.slot).alike
  rw [heq]
  rfl

end

section

variable (h : TwinTables lst full s.tcb tcb')
include h

/-- The receive loop does the same on twin tables. Where it picks the listener of a passive
open, the listeners have to agree. -/
theorem rxSection_twin (ok : Bool) (l : RxPc)
    (hl : ∀ t hd payload, l = .synReceived t hd payload → lst t.slot = true) :
    rxSection { s with tcb := tcb' } ok l = rxSection s ok l := by
  obtain ⟨_,_,_,_,_,_,hnxt,hmss⟩ := h.fields
  cases l with
  | lookup hdr hd payload =>
    simp only [rxSection,h.lookup]
    rfl
  | dispatch t hd payload => simp only [rxSection,h.dispatch]
  | synReceived t hd payload =>
    simp only [rxSection,(h t.slot).listener (hl t hd payload rfl)]
  | sendAck t again => simp only [rxSection,h.sent]
  | openAlloc ls hdr hd payload =>
    simp only [rxSection,h.allocFind]
    rfl
  | openRollback ls t => simp only [rxSection,hnxt]
  | openSend ls t orig => simp only [rxSection,h.sent,hmss]
  | _ => rfl

theorem scanSelect_twin (now : UInt64) : scanSelect now tcb' = scanSelect now s.tcb := by
  have hall (j : Slot) : (tcb' j).active = (s.tcb j).active ∧
      (tcb' j).rtoDeadline = (s.tcb j).rtoDeadline ∧ (tcb' j).state = (s.tcb j).state ∧
      (tcb' j).persistDeadline = (s.tcb j).persistDeadline ∧
      (tcb' j).delackDeadline = (s.tcb j).delackDeadline := by
    obtain ⟨sk,v,heq,_⟩ := (h j).alike
    rw [heq]
    exact ⟨rfl,rfl,rfl,rfl,rfl⟩
  rw [scanSelect,scanSelect,FireSet.mk.injEq]
  refine ⟨?_,?_,?_,?_⟩
  · funext j
    rw [(hall j).1,(hall j).2.1]
  · funext j
    by_cases htw : (s.tcb j).state = .timeWait
    · obtain ⟨sk,v,heq,hfit,_⟩ := (h j).alike
      have hdl : (tcb' j).timeWaitDeadline = (s.tcb j).timeWaitDeadline := by
        rw [heq]
        exact hfit.2.2.2 htw
      rw [(hall j).1,(hall j).2.2.1,hdl]
    · have hne : ((s.tcb j).state == .timeWait) = false := by simpa using htw
      rw [(hall j).2.2.1,hne]
      simp
  · funext j
    rw [(hall j).1,(hall j).2.2.2.1]
  · funext j
    rw [(hall j).1,(hall j).2.2.2.2]

theorem scanSection_twin (ok : Bool) (l : ScanPc) :
    scanSection { s with tcb := tcb' } ok l = scanSection s ok l := by
  obtain ⟨_,hst,_,_,_,_,_,hmss⟩ := h.fields
  cases l with
  | select => simp only [scanSection,scanSelect_twin h]
  | rto j f =>
    have hfire := (tcpRTOFireBegin_alike s.pitTicks (h j).alike).1
    simp only [scanSection,hfire]
  | rtoSend j f retxFlags saved =>
    have hseg : rtoSegment retxFlags (tcb' j) = rtoSegment retxFlags (s.tcb j) := by
      simp only [rtoSegment,hst,hmss]
    simp only [scanSection,hseg,h.sent]
  | persist j f =>
    have hfire := (tcpPersistFireBegin_alike s.pitTicks (h j).alike (h j).probeWindow).1
    simp only [scanSection,hfire]
  | persistSend | delackSend => simp only [scanSection,h.sent]
  | delack j f =>
    have hfire := (tcpDelackFireBegin_alike s.pitTicks (h j).alike).1
    simp only [scanSection,hfire]
  | _ => rfl

theorem echoSection_twin (ok : Bool) (l : EchoPc) :
    echoSection { s with tcb := tcb' } ok l = echoSection s ok l := by
  obtain ⟨hact,hst,_,hlp,_⟩ := h.fields
  cases l with
  | check j =>
    simp only [echoSection,hact,hst,hlp,(h j).alike.rxLen,(echoTake_alike (h j).alike).1]
  | send | finSend => simp only [echoSection,h.sent]
  | _ => rfl

theorem procSection_twin (ok : Bool) (p : ProcSlot)
    (l : ProcPc) : procSection { s with tcb := tcb' } ok p l = procSection s ok p l := by
  obtain ⟨hact,hst,_,hlp,hrip,hrp,hnxt,hmss⟩ := h.fields
  cases l with
  | acceptFd t info =>
    simp only [procSection,hrip,hrp]
    rfl
  | connPort c dstIP dstPort timeout =>
    have hport : tcpAllocEphemeralPort tcb' = tcpAllocEphemeralPort s.tcb := by
      simp only [tcpAllocEphemeralPort,hact,hlp]
    simp only [procSection,hport]
  | connAlloc c lp dstIP dstPort timeout =>
    simp only [procSection,h.allocFind]
    rfl
  | connRollback c t timeout => simp only [procSection,hnxt]
  | connSend c t timeout orig => simp only [procSection,h.sent,hmss]
  | connPoll c t deadline => simp only [procSection,hst,hact]
  | sendEnqueue t buf =>
    have hn := (sendEnqueue_alike buf (h t.slot).alike).1
    simp only [procSection]
    cases hx : sendEnqueue buf (s.tcb t.slot) <;> cases hy : sendEnqueue buf (tcb' t.slot) <;>
      rw [hx] at hn <;> simp_all
  | drain t n =>
    have hpeek : drainPeek (tcb' t.slot) = drainPeek (s.tcb t.slot) := by
      refine drainPeek_alike (h t.slot).alike fun hf hest => ?_
      have := ((h t.slot).idle hf).1
      rw [hest] at this
      cases this
    simp only [procSection,hpeek]
  | drainSend t n d => simp only [procSection,h.sent]
  | recv t bufMax timeout deadline =>
    simp only [procSection,hact,hst,(h t.slot).alike.rxLen,
      (recvTake_alike bufMax.toNat (h t.slot).alike).1]
  | closeMark t c =>
    have hsome := (tcpCloseMark_alike (h t.slot).alike).1
    simp only [procSection]
    cases hx : tcpCloseMark (s.tcb t.slot) <;> cases hy : tcpCloseMark (tcb' t.slot) <;>
      rw [hx,hy] at hsome <;> first | rfl | cases hsome
  | closeSend t c =>
    simp only [procSection,h.sent]
    rfl
  | listenerClear ts c => cases ts <;> rfl
  | listenerCheck t ts c => simp only [procSection,hst]
  | _ => rfl

end

theorem sysEntry_twin (p : ProcSlot) (c : Syscall) :
    sysEntry { s with tcb := tcb' } p c = sysEntry s p c := by
  cases c <;> rfl

end Tables

/-! ## Where the receive loop goes -/

/-- The receive loop is on its way to code that reads the handshake's fields of slot `j`. -/
def RxPc.usesSend (j : Slot) : RxPc → Bool
  | .promote _ t _ _ | .established t _ _ | .finWait1 t _ _ | .finWait2 t _ _ | .closing t _
  | .sendAck t (some _) => t.slot == j
  | _ => false

variable {t : TcbRef} {h : TCPHeader} {payload : List UInt8} {j : Slot} {ok : Bool} {τ : Tid}
  {op : TcbOp} {e : Ev}

theorem rx_next_synReceived {s : Shared} {l : RxPc}
    (hn : (rxSection s ok l).next = .synReceived t h payload) :
    (s.tcb t.slot).state = .synReceived := by
  have hgo := rx_goes s ok l
  rw [hn] at hgo
  cases hgo with
  | dispatch t h payload _ hd =>
    cases hd
    assumption

/-- Code that reads the handshake's fields is reached from a state past the handshake, or
by completing it. -/
theorem rx_next_usesSend {s : Shared} {l : RxPc}
    (hn : (rxSection s ok l).next.usesSend j = true) :
    l.usesSend j = true ∨ (s.tcb j).state.ackless = false ∨
      ∃ op, (rxSection s ok l).op = some (j,op) ∧ op.setsSend = true := by
  have hgo := rx_goes s ok l
  generalize hnext : (rxSection s ok l).next = l' at hn hgo
  have hslot {t : TcbRef} (ht : (t.slot == j) = true) : t.slot = j := eq_of_beq ht
  cases hgo with
  | dispatch t hd payload _ hdis =>
    cases hdis with
    | established hst | finWait1 hst | finWait2 hst | closing hst =>
      rw [← hslot hn,hst]
      exact .inr (.inl rfl)
    | _ => cases hn
  | synSent t hd payload again =>
    cases again with
    | none => cases hn
    | some w => exact .inr (.inr ⟨_,by rw [← hslot hn]; rfl,rfl⟩)
  | promote | accepted => exact .inr (.inr ⟨_,by rw [← hslot hn]; rfl,rfl⟩)
  | promoted | again => exact .inl hn
  | _ => cases hn

/-! ## Kernels -/

/-- Two kernels that differ in dead fields of their TCBs only. -/
def Twins (k k' : Kernel) : Prop :=
  ∃ lst full, k'.pc = k.pc ∧ k'.shared = { k.shared with tcb := k'.shared.tcb } ∧
    TwinTables lst full k.shared.tcb k'.shared.tcb ∧
    (∀ t h payload, k.pc .rx = RxPc.synReceived t h payload → lst t.slot = true) ∧
    ∀ j, RxPc.usesSend j (k.pc .rx) = true → full j = true

theorem effect_twin {lst full : Slot → Bool} {s : Shared} {tcb' : Slot → TCB}
    {pc : (τ : Tid) → PcOf τ} (h : TwinTables lst full s.tcb tcb')
    (hl : ∀ t hd payload, pc .rx = RxPc.synReceived t hd payload → lst t.slot = true) (e : Ev) :
    e.effect ⟨{ s with tcb := tcb' },pc⟩ = e.effect ⟨s,pc⟩ := by
  cases e with
  | sys p c => simp only [Ev.effect,sysEntry_twin]
  | run τ ok =>
    cases τ with
    | rx => simp only [Ev.effect,threadSection,rxSection_twin h ok _ hl]
    | scan => simp only [Ev.effect,threadSection,scanSection_twin h]
    | echo => simp only [Ev.effect,threadSection,echoSection_twin h]
    | proc p => simp only [Ev.effect,threadSection,procSection_twin h]
  | _ => rfl

/-- Only a handler at work reads the handshake's fields. -/
theorem Does.usesSend {s : Shared} {pc : (τ : Tid) → PcOf τ}
    (hd : Does s ok τ (pc τ) j op) (hr : op.readsSend = true) :
    RxPc.usesSend j (pc .rx) = true := by
  generalize hl : pc τ = l at hd
  cases hd with
  | established | finWait1 | finWait2 | closing => rw [hl]; exact beq_self_eq_true _
  | _ => cases hr

/-- The operation of an effect on slot `j`, as a test. -/
def Effect.does {π : Type} (f : Effect π) (j : Slot) (c : TcbOp → Bool) : Bool :=
  match f.op with
  | some (i,op) => i == j && c op
  | none => false

/-- An effect on twin tables leaves twin tables. -/
theorem TwinTables.apply {lst full : Slot → Bool} {s : Shared} {tcb' : Slot → TCB} {π : Type}
    {f : Effect π} (h : TwinTables lst full s.tcb tcb')
    (hr : ∀ j op, f.op = some (j,op) → op.readsSend = true → full j = true) :
    TwinTables (fun j => lst j || f.does j TcbOp.enlists)
      (fun j => full j || f.does j TcbOp.setsSend) (s.apply f).tcb
      (({ s with tcb := tcb' } : Shared).apply f).tcb := by
  intro j
  by_cases hj : ∃ op, f.op = some (j,op)
  · obtain ⟨op,hop⟩ := hj
    have hdoes (c : TcbOp → Bool) : f.does j c = c op := by simp [Effect.does,hop]
    rw [apply_tcb_of_op hop,apply_tcb_of_op hop]
    simp only [hdoes]
    exact (h j).run s.pitTicks op (hr j op hop)
  · have hq : ∀ op, f.op ≠ some (j,op) := fun op hop => hj ⟨op,hop⟩
    have hdoes (c : TcbOp → Bool) : f.does j c = false := by
      cases hop : f.op with
      | none => simp [Effect.does,hop]
      | some w =>
        obtain ⟨i,op⟩ := w
        have hij : i ≠ j := by
          rintro rfl
          exact hq op hop
        simp [Effect.does,hop,hij]
    rw [apply_tcb_of_quiet hq,apply_tcb_of_quiet hq]
    simp only [hdoes,Bool.or_false]
    exact h j

theorem Twins.states {k k' : Kernel} (h : Twins k k') : k'.states = k.states := by
  obtain ⟨_,_,_,_,ht,_⟩ := h
  obtain ⟨hact,hst,_⟩ := ht.fields
  simp only [Kernel.states,hact,hst]

/-- What the receive loop needs after a step of its own. -/
theorem twins_rx_next {lst full : Slot → Bool} {k : Kernel} {tcb' : Slot → TCB}
    {f : Effect RxPc} (ht : TwinTables lst full k.shared.tcb tcb')
    (hs : ∀ j, RxPc.usesSend j (k.pc .rx) = true → full j = true)
    (he : e.effect k = some ⟨.rx,f⟩) :
    (∀ t h payload, f.next = .synReceived t h payload → lst t.slot = true) ∧
      ∀ j, RxPc.usesSend j f.next = true → (full j || f.does j TcbOp.setsSend) = true := by
  obtain ⟨hdr,hd,payload,-,-,rfl⟩ | ⟨ok,-,rfl⟩ := effect_rx he
  · exact ⟨nofun,nofun⟩
  · refine ⟨fun t h payload hn => (ht t.slot).enlisted (rx_next_synReceived hn),fun j hn => ?_⟩
    rcases rx_next_usesSend hn with huse | hst | ⟨op,hop,hset⟩
    · rw [hs j huse,Bool.true_or]
    · -- a state past the handshake is not idle
      have hfull : full j = true := by
        by_contra hne
        rw [((ht j).idle (by simpa using hne)).1] at hst
        cases hst
      rw [hfull,Bool.true_or]
    · simp [Effect.does,hop,hset]

/-- Twins take the same step and stay twins. -/
theorem Twins.step {k k' : Kernel} (h : Twins k k') (e : Ev) :
    (k'.step e).2 = (k.step e).2 ∧ Twins (k.step e).1 (k'.step e).1 := by
  obtain ⟨s,pc⟩ := k
  obtain ⟨s',pc'⟩ := k'
  obtain ⟨lst,full,hpc,hsh,ht,hl,hs⟩ := h
  dsimp only at hpc hsh ht hl hs
  subst hpc
  rw [hsh]
  generalize s'.tcb = tcb' at ht
  have heff := effect_twin ht hl e
  cases he : e.effect ⟨s,pc'⟩ with
  | none =>
    simp only [Kernel.step,heff,he]
    refine ⟨trivial,lst,full,rfl,?_,?_,hl,hs⟩
    · cases e <;> rfl
    · cases e <;> exact ht
  | some w =>
    obtain ⟨τ,f⟩ := w
    have hreads : ∀ j op, f.op = some (j,op) → op.readsSend = true → full j = true := by
      intro j op hop hr
      obtain ⟨ok,_,_,hd⟩ := does_of_op he hop
      exact hs j (hd.usesSend hr)
    simp only [Kernel.step,heff,he]
    refine ⟨trivial,_,_,rfl,rfl,ht.apply hreads,?_,?_⟩
    · intro t hd payload hn
      by_cases hτ : τ = .rx
      · subst hτ
        rw [(twins_rx_next ht hs he).1 t hd payload hn,Bool.true_or]
      · simp only [Interleave.Conf.move] at hn
        rw [update_of_ne (Ne.symm hτ)] at hn
        rw [hl t hd payload hn,Bool.true_or]
    · intro j hn
      by_cases hτ : τ = .rx
      · subst hτ
        exact (twins_rx_next ht hs he).2 j hn
      · simp only [Interleave.Conf.move] at hn
        rw [update_of_ne (Ne.symm hτ)] at hn
        rw [hs j hn,Bool.true_or]

/-- Twins look the same along every run. -/
theorem Twins.outs {k k' : Kernel} (h : Twins k k') (es : List Ev) :
    outs Kernel.watch k' es = outs Kernel.watch k es := by
  refine (Trace.outs_eq_of_bisim (R := fun a b => Twins b a) ?_ h es).1
  intro a b e hab
  obtain ⟨hobs,htw⟩ := hab.step e
  refine ⟨?_,htw⟩
  simp only [Kernel.watch,hobs,htw.states]

/-! ## Opening over leftovers -/

section Open

variable {k : Kernel} {i : Slot}

theorem withTcb_states {x y : TCB} (hact : y.active = x.active) (hst : y.state = x.state) :
    (k.withTcb i y).states = (k.withTcb i x).states := by
  simp only [Kernel.states,Kernel.withTcb]
  congr 1
  funext j
  by_cases hj : j = i
  · subst hj
    rw [update_self,update_self,hact,hst]
  · rw [update_of_ne hj,update_of_ne hj]

/-- A step that operates on slot `i` and is the same whatever the slot holds. -/
theorem step_withTcb {f : Effect (PcOf τ)} (x : TCB)
    (he : e.effect (k.withTcb i x) = some ⟨τ,f⟩) (hop : f.op = some (i,op)) :
    (k.withTcb i x).step e = (Kernel.withTcb (k.move τ (k.shared.apply f) f.next) i
      (op.run k.shared.pitTicks x),f.obs) := by
  rw [Kernel.step,he]
  simp only [Kernel.withTcb,Interleave.Conf.move,Shared.apply,hop,Option.map_some,put,
    update_self,update_idem]

/-- The operation initialises the TCB for a passive or an active open. -/
def TcbOp.opensAs (passive : Bool) : TcbOp → Prop
  | .passiveInit .. => passive = true
  | .activeInit => passive = false
  | _ => False

/-- Two leftovers become twins when a connection is opened over them. -/
theorem opened_alike {x y : TCB} {passive : Bool} (h : SameLeft passive x y)
    (hop : op.opensAs passive) (now now' : UInt64) (lip rip : UInt32) (lp rp : UInt16) :
    Twin passive false (op.run now' (TcbOp.run now x (.alloc lip lp rip rp)))
      (op.run now' (TcbOp.run now y (.alloc lip lp rip rp))) := by
  obtain ⟨hrings,⟨hrto,hdl,hxm,hfast⟩,⟨hsrtt,hvar,hinit⟩,⟨hadv,hpdl,hptk,hdel⟩,hact⟩ := h
  cases op with
  | passiveInit l hd =>
    refine ⟨⟨(passiveInit now' l hd (tcbAllocSlot lip lp rip rp y)).skin,
      (passiveInit now' l hd (tcbAllocSlot lip lp rip rp y)).send,?_,
      ⟨hrings.1,hrings.2.1,hrings.2.2,(by rintro ⟨⟩)⟩,(by rintro ⟨⟩)⟩,fun _ => rfl,fun _ => hop,
      fun _ => ⟨rfl,.inr rfl⟩⟩
    simp only [TcbOp.run,passiveInit,tcbAllocSlot,withSkin,withSend,skin,send,hrto,hdl,hxm,hfast,
      hsrtt,hvar,hinit,hadv,hpdl,hptk,hdel]
  | activeInit =>
    obtain ⟨hnxt,hwnd⟩ := hact hop
    refine ⟨⟨(activeInit now' (tcbAllocSlot lip lp rip rp y)).skin,
      (activeInit now' (tcbAllocSlot lip lp rip rp y)).send,?_,
      ⟨hrings.1,hrings.2.1,hrings.2.2,(by rintro ⟨⟩)⟩,(by rintro ⟨⟩)⟩,fun h => ?_,
      (by rintro ⟨⟩),fun _ => ⟨rfl,hwnd⟩⟩
    · simp only [TcbOp.run,activeInit,tcbAllocSlot,withSkin,withSend,skin,send,hrto,hdl,hxm,hfast,
        hsrtt,hvar,hinit,hadv,hpdl,hptk,hdel,hnxt]
    · rw [hop] at h
      cases h
  | _ => exact False.elim hop

theorem rxHandles_of_usesSend (h : RxPc.usesSend i (k.pc .rx) = true) :
    k.rxHandles i = true := by
  rw [Kernel.rxHandles]
  revert h
  cases k.pc .rx with
  | sendAck t again => cases again <;> exact id
  | _ => first | exact id | rintro ⟨⟩

/-- Kernels that differ in one slot only, where they hold twins. -/
theorem twins_withTcb {x y : TCB} {lst : Bool} (h : Twin lst false x y)
    (hrx : k.rxHandles i = false) : Twins (k.withTcb i x) (k.withTcb i y) := by
  refine ⟨fun j => lst || j != i,fun j => j != i,rfl,rfl,fun j => ?_,fun t hd payload hpc => ?_,
    fun j hj => ?_⟩
  · by_cases hj : j = i
    · subst hj
      simp only [Kernel.withTcb,update_self,bne_self_eq_false,Bool.or_false]
      exact h
    · have hne : (j != i) = true := by simpa using hj
      simp only [Kernel.withTcb,update_of_ne hj,hne,Bool.or_true]
      exact .refl _
  · have hne : t.slot ≠ i := by
      rintro rfl
      replace hpc : k.pc .rx = .synReceived t hd payload := hpc
      rw [Kernel.rxHandles,hpc] at hrx
      simp at hrx
    simp [hne]
  · have hne : j ≠ i := by
      rintro rfl
      replace hj : RxPc.usesSend j (k.pc .rx) = true := hj
      rw [rxHandles_of_usesSend hj] at hrx
      cases hrx
    simp [hne]

/-- Two steps over a slot, the same for both leftovers, and then a run of twins. -/
theorem outs_of_open {e e' : Ev} {f g : Effect (PcOf τ)} {lip rip : UInt32}
    {lp rp : UInt16} {passive : Bool} {x y : TCB} (h : SameLeft passive x y)
    (hef : ∀ z ∈ [x,y], e.effect (k.withTcb i z) = some ⟨τ,f⟩)
    (hopf : f.op = some (i,.alloc lip lp rip rp))
    (heg : ∀ z, e'.effect (Kernel.withTcb (k.move τ (k.shared.apply f) f.next) i z) =
      some ⟨τ,g⟩)
    (hopg : g.op = some (i,op))
    (hop : op.opensAs passive)
    (hrx : ∀ s, Kernel.rxHandles (Interleave.Conf.mk s
      (update (update k.pc τ f.next) τ g.next)) i = false)
    (es : List Ev) :
    outs Kernel.watch (k.withTcb i y) (e :: e' :: es) =
      outs Kernel.watch (k.withTcb i x) (e :: e' :: es) := by
  have hstepf (z : TCB) (hz : z ∈ [x,y]) := step_withTcb z (hef z hz) hopf
  have hstepg (z : TCB) := step_withTcb z (heg z) hopg
  have htwin := opened_alike h hop k.shared.pitTicks
    (k.move τ (k.shared.apply f) f.next).shared.pitTicks lip rip lp rp
  have htwins := twins_withTcb (k := Interleave.Conf.move (k.move τ (k.shared.apply f) f.next) τ
    ((k.move τ (k.shared.apply f) f.next).shared.apply g) g.next) (i := i) htwin (hrx _)
  simp only [outs,Kernel.watch,hstepf x (by simp),hstepf y (by simp),hstepg]
  rw [htwins.outs es,htwins.states,withTcb_states (y := TcbOp.run _ y _) (x := TcbOp.run _ x _)]
  · rfl
  · rfl

/-- `tcbAlloc` does not look at what the free slots hold. -/
theorem allocFind_withTcb {x y : TCB} (hx : x.active = false) (hy : y.active = false) :
    tcbAllocFind (update k.shared.tcb i y) =
      tcbAllocFind (update k.shared.tcb i x) := by
  have hact (j : Slot) : (update k.shared.tcb i y j).active =
      (update k.shared.tcb i x j).active := by
    by_cases hj : j = i
    · subst hj
      rw [update_self,update_self,hx,hy]
    · rw [update_of_ne hj,update_of_ne hj]
  simp only [tcbAllocFind,hact]

end Open

/-- A connection opened over either of two leftovers that agree on what it can read looks
the same in every run, provided the receive loop is not at work on the slot. -/
theorem slot_reuse_same (k : Kernel) (i : Slot) (τ : Tid) (x y : TCB) (hx : x.active = false)
    (hy : y.active = false) (hclaim : (k.withTcb i x).claims τ i = true)
    (hleft : SameLeft (τ == .rx) x y) (hrx : k.rxHandles i = false) (es : List Ev) :
    outs Kernel.watch (k.withTcb i y) (.run τ true :: .run τ true :: es) =
      outs Kernel.watch (k.withTcb i x) (.run τ true :: .run τ true :: es) := by
  have hfind (z : TCB) (hz : z ∈ [x,y])
      (h : tcbAllocFind (update k.shared.tcb i x) = some i) :
      tcbAllocFind (k.withTcb i z).shared.tcb = some i := by
    rcases List.mem_cons.mp hz with rfl | hz
    · exact h
    · obtain rfl := List.mem_singleton.mp hz
      exact (allocFind_withTcb hx hy).trans h
  cases τ with
  | rx =>
    simp only [Kernel.claims] at hclaim
    split at hclaim
    · rename_i l hdr hd payload hpc
      have halloc : ∀ z ∈ [x,y], (Ev.run .rx true).effect (k.withTcb i z) =
          some ⟨.rx,{ next := RxPc.openInit l (k.shared.newRef i) hd
                      op := some (i,.alloc hdr.dstIP hd.dstPort hdr.srcIP hd.srcPort) }⟩ := by
        intro z hz
        have hpcz : (k.withTcb i z).pc .rx = .openAlloc l hdr hd payload := hpc
        simp only [Ev.effect,threadSection,hpcz,rxSection,hfind z hz (eq_of_beq hclaim)]
        rfl
      refine outs_of_open (g := ({ next := RxPc.openPush l (k.shared.newRef i)
                                   op := some (i,.passiveInit l hd) } : Effect (PcOf .rx)))
        hleft halloc rfl (fun z => ?_) rfl rfl (fun s => ?_) es
      · simp [Ev.effect,threadSection,Kernel.withTcb,Interleave.Conf.move,rxSection,Shared.newRef]
      · simp [Kernel.rxHandles]
    · cases hclaim
  | proc p =>
    simp only [Kernel.claims] at hclaim
    split at hclaim
    · rename_i c lp dstIP dstPort timeout hpc
      have halloc : ∀ z ∈ [x,y], (Ev.run (.proc p) true).effect (k.withTcb i z) =
          some ⟨.proc p,{ next := ProcPc.connInit c (k.shared.newRef i) timeout
                          op := some (i,.alloc k.shared.ourIP lp dstIP dstPort) }⟩ := by
        intro z hz
        have hpcz : (k.withTcb i z).pc (.proc p) = .connAlloc c lp dstIP dstPort timeout := hpc
        simp only [Ev.effect,threadSection,hpcz,procSection,hfind z hz (eq_of_beq hclaim)]
        rfl
      refine outs_of_open (g := ({ next := ProcPc.connRollback c (k.shared.newRef i) timeout
                                   op := some (i,.activeInit) } : Effect (PcOf (.proc p))))
        hleft halloc rfl (fun z => ?_) rfl rfl (fun s => ?_) es
      · simp [Ev.effect,threadSection,Kernel.withTcb,Interleave.Conf.move,procSection,Shared.newRef]
      · simp only [Kernel.rxHandles] at hrx ⊢
        simpa using hrx
    · cases hclaim
  | scan | echo => cases hclaim

/-! ## A second connection in slot 0 -/

/-- The client connection is reset by the peer, and process 1 is about to claim the slot for
a connection to the same peer. `mid` is what happens to the first connection. -/
def reset (mid : List Ev) : Kernel :=
  Trace.exec Kernel.step .boot (clientHandshake++fromPeer 1001 1 tcpFlagACK [7] :: runs .rx 4++
    mid++fromPeer 1002 1 tcpFlagRST [] :: runs .rx 3++
    [.sys 1 .socket,.sys 1 (.connect 3 peerIP 80 0)]++runs (.proc 1) 1)

/-- The second connection: open, handshake, `sys_tcp_recv`. -/
def reopen : List Ev :=
  runs (.proc 1) 4++[fromPeer 1000 1 (tcpFlagSYN ||| tcpFlagACK) []]++runs .rx 4++runs (.proc 1) 1++
  .sys 1 (.recv 3 userAddrMin 10 0) :: runs (.proc 1) 1

/-- Process 0 read its byte; another leftover with other congestion and ring fields. -/
theorem slot_reuse_same_drained :
    let k := reset (.sys 0 (.recv 3 userAddrMin 10 0) :: runs (.proc 0) 1)
    let x := k.shared.tcb 0
    let y := { x with cwnd := 77, sndWl1 := 5, irs := 3, rxBuf := RingQueue.empty fun _ => 9 }
    (k.withTcb 0 x).claims (.proc 1) 0 = true ∧
    outs Kernel.watch (k.withTcb 0 y) (.run (.proc 1) true :: .run (.proc 1) true :: reopen) =
      outs Kernel.watch (k.withTcb 0 x)
        (.run (.proc 1) true :: .run (.proc 1) true :: reopen) :=
  ⟨by decide +kernel,slot_reuse_same _ 0 (.proc 1) _ _ (by decide +kernel) (by decide +kernel)
    (by decide +kernel) (by decide +kernel) (by decide +kernel) reopen⟩

/-- The byte that process 0 left unread is delivered to process 1. -/
theorem slot_reuse_leaks :
    let k := reset []
    (k.shared.tcb 0).active = false ∧ k.claims (.proc 1) 0 = true ∧
    outs Kernel.watch (k.withTcb 0 .zero)
        (.run (.proc 1) true :: .run (.proc 1) true :: reopen) ≠
      outs Kernel.watch k (.run (.proc 1) true :: .run (.proc 1) true :: reopen) := by
  decide +kernel

end Gooos
