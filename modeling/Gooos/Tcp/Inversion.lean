import Mathlib
import Gooos.Tcp.History

/-!
# Who does what

Inversion lemmas: which section performs an operation, and which section leads to a
control point.
-/

namespace Gooos

/-- A syscall enters without touching a TCB. -/
theorem sysEntry_op (s : Shared) (p : ProcSlot) (c : Syscall) : (sysEntry s p c).op = none := by
  cases c <;> simp only [sysEntry,sysReturn] <;> repeat' (first | rfl | split)

variable {k : Kernel} {e : Ev} {s : Shared} {ok : Bool} {op : TcbOp}

/-- Only a running section operates on a TCB. -/
theorem effect_of_op {τ : Tid} {f : Effect (PcOf τ)} {w : Slot × TcbOp}
    (he : e.effect k = some ⟨τ,f⟩) (hop : f.op = some w) :
    ∃ ok, e = .run τ ok ∧ f = threadSection k.shared ok τ (k.pc τ) := by
  cases Ev.moved he with
  | run τ ok => exact ⟨ok,rfl,rfl⟩
  | sys p c => rw [sysEntry_op] at hop; cases hop
  | _ => cases hop

/-- A process moves by entering a syscall or by running its next section. -/
theorem effect_proc {p : ProcSlot} {f : Effect (PcOf (.proc p))}
    (he : e.effect k = some ⟨.proc p,f⟩) :
    (∃ c, e = .sys p c ∧ k.pc (.proc p) = ProcPc.idle ∧ f = sysEntry k.shared p c) ∨
    ∃ ok, e = .run (.proc p) ok ∧ f = procSection k.shared ok p (k.pc (.proc p)) := by
  cases Ev.moved he with
  | sys _ c hidle => exact .inl ⟨c,rfl,hidle,rfl⟩
  | run _ ok => exact .inr ⟨ok,rfl,rfl⟩

/-- The receive loop moves by taking a segment or by running its next section. -/
theorem effect_rx {f : Effect (PcOf .rx)} (he : e.effect k = some ⟨.rx,f⟩) :
    (∃ hdr h payload, e = .segment hdr h payload ∧ k.pc .rx = RxPc.idle ∧
      f = { next := RxPc.lookup hdr h payload }) ∨
    ∃ ok, e = .run .rx ok ∧ f = rxSection k.shared ok (k.pc .rx) := by
  cases Ev.moved he with
  | segment hdr h payload hidle => exact .inl ⟨hdr,h,payload,rfl,hidle,rfl⟩
  | run _ ok => exact .inr ⟨ok,rfl,rfl⟩

/-- The scanner moves by starting a pass or by running its next section. -/
theorem effect_scan {f : Effect (PcOf .scan)} (he : e.effect k = some ⟨.scan,f⟩) :
    (e = .scan ∧ (k.pc .scan).isIdle = true ∧ f = { next := ScanPc.select }) ∨
    ∃ ok, e = .run .scan ok ∧ f = scanSection k.shared ok (k.pc .scan) := by
  cases Ev.moved he with
  | scan hidle => exact .inl ⟨rfl,hidle,rfl⟩
  | run _ ok => exact .inr ⟨ok,rfl,rfl⟩

/-- The echo server moves by starting a pass or by running its next section. -/
theorem effect_echo {f : Effect (PcOf .echo)} (he : e.effect k = some ⟨.echo,f⟩) :
    (e = .echo ∧ k.pc .echo = EchoPc.idle ∧ f = { next := EchoPc.check 0 }) ∨
    ∃ ok, e = .run .echo ok ∧ f = echoSection k.shared ok (k.pc .echo) := by
  cases Ev.moved he with
  | echo hidle => exact .inl ⟨rfl,hidle,rfl⟩
  | run _ ok => exact .inr ⟨ok,rfl,rfl⟩

/-- The operation a thread performs at a control point. Each constructor is one section
of the source that writes, or reads as a whole, the TCB in a slot. -/
inductive Does (s : Shared) (ok : Bool) : (τ : Tid) → PcOf τ → Slot → TcbOp → Prop where
  | dispatch (t h payload) : Does s ok .rx (RxPc.dispatch t h payload) t.slot (.dispatch h)
  | synSent (t h payload) : Does s ok .rx (RxPc.synSent t h payload) t.slot (.synSentAck h)
  | synReceived (t h payload) :
    Does s ok .rx (RxPc.synReceived t h payload) t.slot (.synReceivedAck h)
  | established (t h payload) :
    Does s ok .rx (RxPc.established t h payload) t.slot (.established h payload)
  | finWait1 (t h payload) : Does s ok .rx (RxPc.finWait1 t h payload) t.slot (.finWait1 h payload)
  | finWait2 (t h payload) : Does s ok .rx (RxPc.finWait2 t h payload) t.slot (.finWait2 h payload)
  | closing (t h) : Does s ok .rx (RxPc.closing t h) t.slot (.closing h)
  | timeWait (t) : Does s ok .rx (RxPc.timeWait t) t.slot .timeWait
  | sendAck (t again) :
    Does s ok .rx (RxPc.sendAck t again) t.slot (.send s.ourIP ok tcpFlagACK [] [])
  | rxFree (t) : Does s ok .rx (RxPc.free t) t.slot .free
  | openAlloc (l hdr h payload i) (hi : tcbAllocFind s.tcb = some i) :
    Does s ok .rx (RxPc.openAlloc l hdr h payload) i
      (.alloc hdr.dstIP h.dstPort hdr.srcIP h.srcPort)
  | openInit (l t h) : Does s ok .rx (RxPc.openInit l t h) t.slot (.passiveInit l h)
  | openRollback (l t) : Does s ok .rx (RxPc.openRollback l t) t.slot .synRollback
  | openSend (l t orig) : Does s ok .rx (RxPc.openSend l t orig) t.slot
      (.send s.ourIP ok (tcpFlagSYN ||| tcpFlagACK) (tcpBuildMSSOption (s.tcb t.slot).mssLocal) [])
  | openRestore (l t orig sent) : Does s ok .rx (RxPc.openRestore l t orig sent) t.slot
      (.synRestore orig (tcpFlagSYN ||| tcpFlagACK) sent)
  | rto (i f) (hf : f.rto i = true) : Does s ok .scan (ScanPc.rto i f) i .rtoBegin
  | rtoFree (i f) : Does s ok .scan (ScanPc.rtoFree i f) i .free
  | rtoSend (i f retxFlags saved flags options)
    (hseg : rtoSegment retxFlags (s.tcb i) = some (flags,options)) :
    Does s ok .scan (ScanPc.rtoSend i f retxFlags saved) i (.send s.ourIP ok flags options [])
  | rtoRestore (i f saved) : Does s ok .scan (ScanPc.rtoRestore i f saved) i (.rtoRestore saved)
  | persist (i f) (hf : f.persist i = true) : Does s ok .scan (ScanPc.persist i f) i .persistBegin
  | persistSend (i f probe) : Does s ok .scan (ScanPc.persistSend i f probe) i
      (.send s.ourIP ok (tcpFlagACK ||| tcpFlagPSH) [] probe)
  | delack (i f) (hf : f.delack i = true) : Does s ok .scan (ScanPc.delack i f) i .delackBegin
  | delackSend (i f) : Does s ok .scan (ScanPc.delackSend i f) i (.send s.ourIP ok tcpFlagACK [] [])
  | scanFree (i f) (hf : f.timeWait i = true) : Does s ok .scan (ScanPc.timeWait i f) i .free
  | echoTake (i) (hst : (s.tcb i).state = .established) (hact : (s.tcb i).active = true)
    (hport : (s.tcb i).localPort = tcpEchoListenPort) :
    Does s ok .echo (EchoPc.check i) i .echoTake
  | echoSend (i bytes) : Does s ok .echo (EchoPc.send i bytes) i
      (.send s.ourIP ok (tcpFlagACK ||| tcpFlagPSH) [] bytes)
  | echoCommit (i n) : Does s ok .echo (EchoPc.commit i n) i (.echoDataCommit n)
  | echoFinSend (i) : Does s ok .echo (EchoPc.finSend i) i
      (.send s.ourIP ok (tcpFlagFIN ||| tcpFlagACK) [] [])
  | echoFinCommit (i) : Does s ok .echo (EchoPc.finCommit i) i .echoFinCommit
  | connAlloc (p c lp dstIP dstPort timeout i) (hi : tcbAllocFind s.tcb = some i) :
    Does s ok (.proc p) (ProcPc.connAlloc c lp dstIP dstPort timeout) i
      (.alloc s.ourIP lp dstIP dstPort)
  | connInit (p c t timeout) : Does s ok (.proc p) (ProcPc.connInit c t timeout) t.slot .activeInit
  | connRollback (p c t timeout) :
    Does s ok (.proc p) (ProcPc.connRollback c t timeout) t.slot .synRollback
  | connSend (p c t timeout orig) : Does s ok (.proc p) (ProcPc.connSend c t timeout orig) t.slot
      (.send s.ourIP ok tcpFlagSYN (tcpBuildMSSOption (s.tcb t.slot).mssLocal) [])
  | connRestore (p c t timeout orig sent) :
    Does s ok (.proc p) (ProcPc.connRestore c t timeout orig sent) t.slot
      (.synRestore orig tcpFlagSYN sent)
  | connFree (p t) : Does s ok (.proc p) (ProcPc.connFree t) t.slot .free
  | enqueue (p t buf r) (hr : sendEnqueue buf (s.tcb t.slot) = some r) :
    Does s ok (.proc p) (ProcPc.sendEnqueue t buf) t.slot (.enqueue buf)
  | drainSend (p t n d) : Does s ok (.proc p) (ProcPc.drainSend t n d) t.slot
      (.send s.ourIP ok (tcpFlagACK ||| tcpFlagPSH) [] d.bytes)
  | drainCommit (p t n d) :
    Does s ok (.proc p) (ProcPc.drainCommit t n d) t.slot (.drainCommit d)
  | recv (p t bufMax timeout deadline) (hact : (s.tcb t.slot).active = true) :
    Does s ok (.proc p) (ProcPc.recv t bufMax timeout deadline) t.slot (.recvTake bufMax.toNat)
  | closeMark (p t c x) (hx : tcpCloseMark (s.tcb t.slot) = some x) :
    Does s ok (.proc p) (ProcPc.closeMark t c) t.slot .closeMark
  | closeSend (p t c) : Does s ok (.proc p) (ProcPc.closeSend t c) t.slot
      (.send s.ourIP ok (tcpFlagFIN ||| tcpFlagACK) [] [])
  | closeCommit (p t c) : Does s ok (.proc p) (ProcPc.closeCommit t c) t.slot .closeCommit
  | shutdownReset (p t) : Does s ok (.proc p) (ProcPc.shutdownReset t) t.slot .shutdownReset
  | listenerClear (p t ts c) :
    Does s ok (.proc p) (ProcPc.listenerClear (t :: ts) c) t.slot .clearListener
  | listenerFree (p t ts c) : Does s ok (.proc p) (ProcPc.listenerFree t ts c) t.slot .free

theorem rx_does {l : RxPc} {i : Slot}
    (h : (rxSection s ok l).op = some (i,op)) : Does s ok .rx l i op := by
  cases l with
  | dispatch | synSent | synReceived | established | finWait1 | finWait2 | closing
  | timeWait | sendAck | free | openInit | openRollback | openSend | openRestore =>
    cases h
    constructor
  | openAlloc ls hdr hd payload =>
    simp only [rxSection] at h
    split at h
    · cases h
    · rename_i j hj
      cases h
      exact .openAlloc _ _ _ _ _ hj
  | _ =>
    -- the control points that touch no TCB
    simp only [rxSection] at h
    (repeat' split at h) <;> cases h

theorem scan_does {l : ScanPc} {i : Slot}
    (h : (scanSection s ok l).op = some (i,op)) : Does s ok .scan l i op := by
  cases l with
  | idle | select => cases h
  | rtoFree | rtoRestore | persistSend | delackSend =>
    cases h
    constructor
  | rto | persist | delack | timeWait | rtoSend =>
    simp only [scanSection] at h
    split at h
    · cases h
      constructor
      assumption
    · cases h

theorem echo_does {l : EchoPc} {i : Slot}
    (h : (echoSection s ok l).op = some (i,op)) : Does s ok .echo l i op := by
  cases l with
  | idle => cases h
  | send | commit | finSend | finCommit =>
    cases h
    constructor
  | check j =>
    simp only [echoSection] at h
    split at h
    · cases h
    · rename_i hport
      split at h
      · rename_i hst
        split at h
        · cases h
        · cases h
          have hown : (s.tcb i).active = true ∧ (s.tcb i).localPort = tcpEchoListenPort := by
            simpa using hport
          exact .echoTake _ hst hown.1 hown.2
      · cases h
      · cases h

/-- What follows `tcpClose` in its caller touches no TCB at once. -/
theorem afterClose_op (s : Shared) (p : ProcSlot) (t : TcbRef) (c : AfterClose) :
    (afterClose s p t c).op = none := by
  cases c with
  | shutdown how =>
    simp only [afterClose]
    split <;> rfl
  | _ => rfl

theorem proc_does {p : ProcSlot} {l : ProcPc} {i : Slot}
    (h : (procSection s ok p l).op = some (i,op)) : Does s ok (.proc p) l i op := by
  cases l with
  | connInit | connRollback | connSend | connRestore | connFree | drainSend | drainCommit
  | closeCommit | shutdownReset | listenerFree =>
    cases h
    constructor
  | connAlloc c lp dstIP dstPort timeout =>
    simp only [procSection] at h
    split at h
    · cases h
    · rename_i j hj
      cases h
      exact .connAlloc _ _ _ _ _ _ _ hj
  | sendEnqueue t buf =>
    simp only [procSection] at h
    split at h
    · cases h
    · rename_i x n hx
      cases h
      exact .enqueue _ _ _ _ hx
  | recv t bufMax timeout deadline =>
    simp only [procSection] at h
    split at h
    · cases h
    · rename_i hact
      split at h
      · cases h
        exact .recv _ _ _ _ _ (by simpa using hact)
      · split at h
        · cases h
        · split at h <;> cases h
  | closeMark t c =>
    simp only [procSection] at h
    split at h
    · rw [afterClose_op] at h
      cases h
    · rename_i x hx
      cases h
      exact .closeMark _ _ _ _ hx
  | closeSend t c =>
    simp only [procSection] at h
    split at h
    · cases h; exact .closeSend ..
    · cases h; exact .closeSend ..
  | listenerClear ts c =>
    cases ts with
    | nil => cases h
    | cons t ts => cases h; exact .listenerClear ..
  | _ =>
    -- the control points that touch no TCB
    simp only [procSection] at h
    (repeat' split at h) <;> cases h

/-- Inversion of a step: what it does to the TCB in slot `i`, and who does it. -/
theorem does_of_op {τ : Tid} {f : Effect (PcOf τ)} {i : Slot}
    (he : e.effect k = some ⟨τ,f⟩) (hop : f.op = some (i,op)) :
    ∃ ok, e = .run τ ok ∧ f = threadSection k.shared ok τ (k.pc τ) ∧
      Does k.shared ok τ (k.pc τ) i op := by
  obtain ⟨ok,hrun,rfl⟩ := effect_of_op he hop
  refine ⟨ok,hrun,rfl,?_⟩
  cases τ with
  | rx => exact rx_does hop
  | scan => exact scan_does hop
  | echo => exact echo_does hop
  | proc p => exact proc_does hop

/-! ## Where threads go -/

/-- Where a syscall goes from its entry; a TCB comes out of the socket. -/
inductive Enters (s : Shared) : ProcPc → Prop where
  | idle : Enters s .idle
  | listen (c) : Enters s (.listen c)
  | accept (l info timeout deadline) : Enters s (.accept l info timeout deadline)
  | connPort (c dstIP dstPort timeout) : Enters s (.connPort c dstIP dstPort timeout)
  | sendEnqueue (c t buf) (hc : (s.sock c).tcpTCB = some t) : Enters s (.sendEnqueue t buf)
  | recv (c t bufMax timeout deadline) (hc : (s.sock c).tcpTCB = some t) :
    Enters s (.recv t bufMax timeout deadline)
  | shutdown (c t how) (hc : (s.sock c).tcpTCB = some t) :
    Enters s (.closeMark t (.shutdown how))
  | closeConn (c t) (hc : (s.sock c).tcpTCB = some t) : Enters s (.closeMark t (.closeConn c))
  | listenerDrain (c l) (hc : (s.sock c).tcpListener = some l) : Enters s (.listenerDrain c l)

theorem sysEntry_next (s : Shared) (p : ProcSlot) (c : Syscall) :
    Enters s (sysEntry s p c).next := by
  cases c with (simp only [sysEntry]; repeat' split)
  | socket | bind => exact .idle
  | listen fd => first | exact .idle | exact .listen _
  | accept fd info timeout => first | exact .idle | exact .accept ..
  | connect fd dstIP dstPort timeout => first | exact .idle | exact .connPort ..
  | send fd ptr buf => first | exact .idle | exact .sendEnqueue _ _ _ ‹_›
  | recv fd ptr bufMax timeout => first | exact .idle | exact .recv _ _ _ _ _ ‹_›
  | shutdown fd how => first | exact .idle | exact .shutdown _ _ _ ‹_›
  | close fd =>
    first | exact .idle | exact .listenerDrain _ _ ‹_› | exact .closeConn _ _ ‹_›

/-- Where the caller of `tcpClose` goes on. -/
inductive Resumes (t : TcbRef) : AfterClose → ProcPc → Prop where
  | idle (c) : Resumes t c .idle
  | shutdownReset (how) : Resumes t (.shutdown how) (.shutdownReset t)
  | listenerCheck (ts c) : Resumes t (.closeListener ts c) (.listenerCheck t ts c)

theorem afterClose_next (s : Shared) (p : ProcSlot) (t : TcbRef) (c : AfterClose) :
    Resumes t c (afterClose s p t c).next := by
  cases c with
  | ret | closeConn => exact .idle _
  | shutdown how =>
    simp only [afterClose]
    split
    · exact .shutdownReset _
    · exact .idle _
  | closeListener ts c => exact .listenerCheck ..

/-- The control flow of the socket syscalls, with the test that chose the way where it reads
a TCB. -/
inductive ProcGoes (s : Shared) : ProcPc → ProcPc → Prop where
  | idle (l) : ProcGoes s l .idle
  | accept (l info timeout deadline) :
    ProcGoes s (.accept l info timeout deadline) (.accept l info timeout deadline)
  | acceptPop (l info timeout deadline t x) (hpop : acceptPop (s.listener l) = some (t,x)) :
    ProcGoes s (.accept l info timeout deadline) (.acceptFd t info)
  | acceptFail (t info) : ProcGoes s (.acceptFd t info) (.closeMark t (.ret sysFailBad))
  | connPort (c dstIP dstPort timeout) (hlp : tcpAllocEphemeralPort s.tcb ≠ 0) :
    ProcGoes s (.connPort c dstIP dstPort timeout)
      (.connAlloc c (tcpAllocEphemeralPort s.tcb) dstIP dstPort timeout)
  | connAlloc (c lp dstIP dstPort timeout i) (hi : tcbAllocFind s.tcb = some i) :
    ProcGoes s (.connAlloc c lp dstIP dstPort timeout) (.connInit c (s.newRef i) timeout)
  | connInit (c t timeout) : ProcGoes s (.connInit c t timeout) (.connRollback c t timeout)
  | connRollback (c t timeout) : ProcGoes s (.connRollback c t timeout)
      (.connSend c t timeout (s.tcb t.slot).sndNxt)
  | connSend (c t timeout orig sent) :
    ProcGoes s (.connSend c t timeout orig) (.connRestore c t timeout orig sent)
  | connRestore (c t timeout orig deadline) :
    ProcGoes s (.connRestore c t timeout orig true) (.connPoll c t deadline)
  | connFail (c t timeout orig) : ProcGoes s (.connRestore c t timeout orig false) (.connFree t)
  | connPoll (c t deadline) : ProcGoes s (.connPoll c t deadline) (.connPoll c t deadline)
  | connTimeout (c t deadline) :
    ProcGoes s (.connPoll c t deadline) (.closeMark t (.ret sysFailBad))
  | sendEnqueue (t buf r) (hr : sendEnqueue buf (s.tcb t.slot) = some r) :
    ProcGoes s (.sendEnqueue t buf) (.drain t r.2)
  | drain (t n d) (hd : drainPeek (s.tcb t.slot) = some d) :
    ProcGoes s (.drain t n) (.drainSend t n d)
  | drainSend (t n d) : ProcGoes s (.drainSend t n d) (.drainCommit t n d)
  | drainCommit (t n d) : ProcGoes s (.drainCommit t n d) (.drain t n)
  | recv (t bufMax timeout deadline) :
    ProcGoes s (.recv t bufMax timeout deadline) (.recv t bufMax timeout deadline)
  | closeMark (t c x) (hx : tcpCloseMark (s.tcb t.slot) = some x) :
    ProcGoes s (.closeMark t c) (.closeSend t c)
  | closeSkip (t c l) (hx : tcpCloseMark (s.tcb t.slot) = none) (hl : Resumes t c l) :
    ProcGoes s (.closeMark t c) l
  | closeSend (t c) : ProcGoes s (.closeSend t c) (.closeCommit t c)
  | closeFail (t c l) (hl : Resumes t c l) : ProcGoes s (.closeSend t c) l
  | closeCommit (t c l) (hl : Resumes t c l) : ProcGoes s (.closeCommit t c) l
  | listenerDrain (c l) : ProcGoes s (.listenerDrain c l)
      (.listenerClear ((s.listener l).pending++(s.listener l).accept) c)
  | listenerClear (t ts c) :
    ProcGoes s (.listenerClear (t :: ts) c) (.closeMark t (.closeListener ts c))
  | listenerCheck (t ts c) (hst : (s.tcb t.slot).state = .synReceived) :
    ProcGoes s (.listenerCheck t ts c) (.listenerFree t ts c)
  | listenerSkip (t ts c) : ProcGoes s (.listenerCheck t ts c) (.listenerClear ts c)
  | listenerFree (t ts c) : ProcGoes s (.listenerFree t ts c) (.listenerClear ts c)

theorem proc_goes (s : Shared) (ok : Bool) (p : ProcSlot) (l : ProcPc) :
    ProcGoes s l (procSection s ok p l).next := by
  cases l with
  | connInit | connRollback | connSend | drainCommit | listenerDrain | listenerFree => constructor
  | accept l info timeout deadline =>
    simp only [procSection]
    split
    · exact .acceptPop _ _ _ _ _ _ ‹_›
    · split
      · exact .idle _
      · exact .accept ..
  | acceptFd t info =>
    simp only [procSection]
    split
    · exact .acceptFail ..
    · exact .idle _
  | connPort c dstIP dstPort timeout =>
    simp only [procSection]
    split
    · exact .idle _
    · exact .connPort _ _ _ _ ‹_›
  | connAlloc c lp dstIP dstPort timeout =>
    simp only [procSection]
    split
    · exact .idle _
    · exact .connAlloc _ _ _ _ _ _ ‹_›
  | connRestore c t timeout orig sent =>
    cases sent
    · exact .connFail ..
    · exact .connRestore ..
  | connPoll c t deadline =>
    simp only [procSection]
    repeat' split
    · exact .idle _
    · exact .idle _
    · exact .connTimeout ..
    · exact .connPoll ..
  | sendEnqueue t buf =>
    simp only [procSection]
    split
    · exact .idle _
    · rename_i x n hr
      exact .sendEnqueue t buf (x,n) hr
  | drain t n =>
    simp only [procSection]
    split
    · exact .idle _
    · exact .drain _ _ _ ‹_›
  | drainSend t n d =>
    simp only [procSection]
    split
    · exact .drainSend ..
    · exact .idle _
  | recv t bufMax timeout deadline =>
    simp only [procSection]
    repeat' split
    · exact .idle _
    · exact .idle _
    · exact .idle _
    · exact .idle _
    · exact .recv ..
  | closeMark t c =>
    simp only [procSection]
    split
    · exact .closeSkip _ _ _ ‹_› (afterClose_next s p t c)
    · exact .closeMark _ _ _ ‹_›
  | closeSend t c =>
    simp only [procSection]
    split
    · exact .closeSend ..
    · exact .closeFail _ _ _ (afterClose_next s p t c)
  | closeCommit t c => exact .closeCommit _ _ _ (afterClose_next s p t c)
  | listenerClear ts c =>
    cases ts
    · exact .idle _
    · exact .listenerClear ..
  | listenerCheck t ts c =>
    simp only [procSection]
    split
    · exact .listenerCheck _ _ _ ‹_›
    · exact .listenerSkip ..
  | listen c =>
    simp only [procSection]
    split <;> exact .idle _
  | idle | connFree | shutdownReset => exact .idle _

/-- A data segment is transmitted right after `tcpTCBDrainTX` cut it. -/
theorem proc_next_drainSend {p : ProcSlot} {l : ProcPc} {t : TcbRef}
    {n : ℕ} {d : Drain} (h : (procSection s ok p l).next = .drainSend t n d) :
    l = .drain t n ∧ drainPeek (s.tcb t.slot) = some d := by
  have hgo := proc_goes s ok p l
  rw [h] at hgo
  cases hgo with
  | drain _ _ _ hd => exact ⟨rfl,hd⟩
  | closeSkip _ _ _ _ hl | closeFail _ _ _ hl | closeCommit _ _ _ hl => cases hl

theorem scan_next_persistSend {l : ScanPc} {i : Slot} {f : FireSet}
    {probe : List UInt8} (h : (scanSection s ok l).next = .persistSend i f probe) :
    l = .persist i f ∧ f.persist i = true ∧
      (tcpPersistFireBegin s.pitTicks (s.tcb i)).2 = some probe := by
  cases l with
  | persist j g =>
    simp only [scanSection] at h
    split at h
    · rename_i hg
      split at h
      · rename_i q hq
        cases h
        exact ⟨rfl,hg,hq⟩
      · cases h
    · cases h
  | timeWait j g =>
    simp only [scanSection,scanNext] at h
    (repeat' split at h) <;> cases h
  | _ =>
    simp only [scanSection] at h
    (repeat' split at h) <;> cases h

/-! ## Dispatch -/

/-- The ACK test of `tcpHandleSynSent`. -/
def synAckOk (x : TCB) (h : TCPHeader) : Bool :=
  seqLE (x.sndUna+1) h.ack && seqLE h.ack x.sndNxt

/-- What `tcpDispatchToTCB` may choose, and why. -/
inductive Dispatched (x : TCB) (t : TcbRef) (h : TCPHeader) (payload : List UInt8) : RxPc → Prop where
  | drop : Dispatched x t h payload .idle
  | rst (hst : x.state ≠ .synSent) (hrst : hasFlag h.flags tcpFlagRST = true)
    (hwin : rstInWindow x h = true) : Dispatched x t h payload (.free t)
  | refuse (seg : Segment) : Dispatched x t h payload (.reset seg none)
  | synRst (hst : x.state = .synSent) (hrst : hasFlag h.flags tcpFlagRST = true)
    (hack : hasFlag h.flags tcpFlagACK = true → synAckOk x h = true) :
    Dispatched x t h payload (.free t)
  | simultaneous (seg : Segment) (hst : x.state = .synSent)
    (hsyn : hasFlag h.flags tcpFlagSYN = true) (hack : hasFlag h.flags tcpFlagACK = false) :
    Dispatched x t h payload (.reset seg (some t))
  | synSent (hst : x.state = .synSent) (hsyn : hasFlag h.flags tcpFlagSYN = true)
    (hack : hasFlag h.flags tcpFlagACK = true) (hok : synAckOk x h = true) :
    Dispatched x t h payload (.synSent t h payload)
  | synReceived (hst : x.state = .synReceived) (hack : hasFlag h.flags tcpFlagACK = true)
    (hnxt : h.ack = x.sndNxt) : Dispatched x t h payload (.synReceived t h payload)
  | established (hst : x.state = .established) : Dispatched x t h payload (.established t h payload)
  | reack (hst : x.state = .closeWait) : Dispatched x t h payload (.sendAck t none)
  | lastAck (hst : x.state = .lastAck) (hack : hasFlag h.flags tcpFlagACK = true)
    (hnxt : h.ack = x.sndNxt) : Dispatched x t h payload (.free t)
  | finWait1 (hst : x.state = .finWait1) : Dispatched x t h payload (.finWait1 t h payload)
  | finWait2 (hst : x.state = .finWait2) : Dispatched x t h payload (.finWait2 t h payload)
  | closing (hst : x.state = .closing) : Dispatched x t h payload (.closing t h)
  | timeWait (hst : x.state = .timeWait) : Dispatched x t h payload (.timeWait t)

theorem hasFlag_synAck {flags : UInt8}
    (h : flags &&& (tcpFlagSYN ||| tcpFlagACK) = tcpFlagSYN ||| tcpFlagACK) :
    hasFlag flags tcpFlagSYN = true ∧ hasFlag flags tcpFlagACK = true := by
  have hmask (bit : UInt8) (hb : (tcpFlagSYN ||| tcpFlagACK) &&& bit = bit) :
      flags &&& bit = bit := by
    rw [← hb,← UInt8.and_assoc,h]
  constructor
  · rw [hasFlag,hmask tcpFlagSYN (by decide)]
    decide
  · rw [hasFlag,hmask tcpFlagACK (by decide)]
    decide

theorem synSentCheck_dispatched {x : TCB} {h : TCPHeader} (hst : x.state = .synSent) (t : TcbRef)
    (payload : List UInt8) : Dispatched x t h payload (synSentCheck x t h payload) := by
  rw [synSentCheck,← synAckOk]
  split
  · split
    · exact .refuse _
    · exact .drop
  · rename_i hbad
    have hok : hasFlag h.flags tcpFlagACK = true → synAckOk x h = true := by
      simpa using hbad
    split
    · exact .synRst hst ‹_› hok
    · split
      · rename_i hsyn
        simp only [Bool.and_eq_true,Bool.not_eq_true'] at hsyn
        exact .simultaneous _ hst hsyn.1 hsyn.2
      · split
        · exact .drop
        · rename_i hboth
          obtain ⟨hsyn,hack⟩ := hasFlag_synAck (not_not.mp hboth)
          exact .synSent hst hsyn hack (hok hack)

theorem tcpDispatchToTCB_dispatched (x : TCB) (t : TcbRef) (h : TCPHeader)
    (payload : List UInt8) : Dispatched x t h payload (tcpDispatchToTCB x t h payload) := by
  rw [tcpDispatchToTCB]
  split
  · rename_i hrst
    simp only [Bool.and_eq_true,bne_iff_ne] at hrst
    split
    · exact .rst hrst.2 hrst.1 ‹_›
    · exact .drop
  · cases hst : x.state with
    | synSent => exact synSentCheck_dispatched hst t payload
    | synReceived =>
      dsimp only
      split
      · exact .drop
      · rename_i hack
        split
        · exact .drop
        · exact .synReceived hst (by simpa using hack) (not_not.mp ‹_›)
    | established => exact .established hst
    | closeWait =>
      dsimp only
      split
      · exact .reack hst
      · exact .drop
    | lastAck =>
      dsimp only
      split
      · rename_i hack
        simp only [Bool.and_eq_true,beq_iff_eq] at hack
        exact .lastAck hst hack.1 hack.2
      · exact .drop
    | finWait1 => exact .finWait1 hst
    | finWait2 => exact .finWait2 hst
    | closing => exact .closing hst
    | timeWait =>
      dsimp only
      split
      · exact .timeWait hst
      · exact .drop
    | closed | listen => exact .drop

/-- The control flow of the receive loop, with the test that chose the way where it reads
the table. -/
inductive RxGoes (s : Shared) : RxPc → RxPc → Prop where
  | idle (l) : RxGoes s l .idle
  | refuse (l seg) : RxGoes s l (.reset seg none)
  | found (hdr h payload i)
    (hi : tcbLookup s.tcb hdr.dstIP h.dstPort hdr.srcIP h.srcPort = some i) :
    RxGoes s (.lookup hdr h payload) (.dispatch (s.ref i) h payload)
  | unknown (hdr h payload)
    (hi : tcbLookup s.tcb hdr.dstIP h.dstPort hdr.srcIP h.srcPort = none) :
    RxGoes s (.lookup hdr h payload) (.openLookup hdr h payload)
  | dispatch (t h payload l) (hd : Dispatched (s.tcb t.slot) t h payload l) :
    RxGoes s (.dispatch t h payload) l
  | synSent (t h payload again) : RxGoes s (.synSent t h payload) (.sendAck t again)
  | promote (l t h payload) : RxGoes s (.synReceived t h payload) (.promote l t h payload)
  | accepted (t h payload) : RxGoes s (.synReceived t h payload) (.established t h payload)
  | promoted (l t h payload) : RxGoes s (.promote l t h payload) (.established t h payload)
  | established (t h payload) : RxGoes s (.established t h payload) (.sendAck t none)
  | finWait1 (t h payload) : RxGoes s (.finWait1 t h payload) (.sendAck t none)
  | finWait2 (t h payload) : RxGoes s (.finWait2 t h payload) (.sendAck t none)
  | timeWait (t) : RxGoes s (.timeWait t) (.sendAck t none)
  | again (t h payload) : RxGoes s (.sendAck t (some (h,payload))) (.established t h payload)
  | resetFree (seg t) : RxGoes s (.reset seg (some t)) (.free t)
  | openLookup (l hdr h payload) : RxGoes s (.openLookup hdr h payload) (.openAlloc l hdr h payload)
  | openAlloc (l hdr h payload i) (hi : tcbAllocFind s.tcb = some i) :
    RxGoes s (.openAlloc l hdr h payload) (.openInit l (s.newRef i) h)
  | openInit (l t h) : RxGoes s (.openInit l t h) (.openPush l t)
  | openPush (l t) : RxGoes s (.openPush l t) (.openRollback l t)
  | openFull (l t) : RxGoes s (.openPush l t) (.free t)
  | openRollback (l t) : RxGoes s (.openRollback l t) (.openSend l t (s.tcb t.slot).sndNxt)
  | openSend (l t orig sent) : RxGoes s (.openSend l t orig) (.openRestore l t orig sent)
  | openFail (l t orig) : RxGoes s (.openRestore l t orig false) (.openRemove l t)
  | openRemove (l t) : RxGoes s (.openRemove l t) (.free t)

theorem rx_goes (s : Shared) (ok : Bool) (l : RxPc) : RxGoes s l (rxSection s ok l).next := by
  cases l with
  | synSent | established | finWait1 | finWait2 | timeWait | openInit | openRollback
  | openSend | openRemove => constructor
  | lookup hdr h payload =>
    simp only [rxSection]
    split
    · exact .found _ _ _ _ ‹_›
    · split
      · exact .unknown _ _ _ ‹_›
      · split
        · exact .refuse ..
        · exact .idle _
  | dispatch t h payload => exact .dispatch _ _ _ _ (tcpDispatchToTCB_dispatched ..)
  | synReceived t h payload =>
    simp only [rxSection,afterPromote]
    repeat' split
    · exact .promote ..
    · exact .accepted ..
    · exact .idle _
  | promote l t h payload =>
    simp only [rxSection,afterPromote]
    split
    · exact .promoted ..
    · exact .idle _
  | sendAck t again =>
    cases again
    · exact .idle _
    · exact .again ..
  | reset seg andFree =>
    cases andFree
    · exact .idle _
    · exact .resetFree ..
  | openLookup hdr h payload =>
    simp only [rxSection]
    repeat' split
    · exact .refuse ..
    · exact .refuse ..
    · exact .openLookup ..
  | openAlloc l hdr h payload =>
    simp only [rxSection]
    split
    · exact .refuse ..
    · exact .openAlloc _ _ _ _ _ ‹_›
  | openPush l t =>
    simp only [rxSection]
    split
    · exact .openFull ..
    · exact .openPush ..
  | openRestore l t orig sent =>
    cases sent
    · exact .openFail ..
    · exact .idle _
  | idle | closing | free => exact .idle _

end Gooos
