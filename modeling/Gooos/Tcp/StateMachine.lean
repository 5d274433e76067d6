import Mathlib
import Gooos.Tcp.SegmentArrives

/-!
# The state machine

Single events in a reachable kernel: one segment through `tcpHandle`, one close, one pass of
the scanner, each run to its end with nothing in between. The state a TCB has before and
after is a row of the transition table, and the row's guard holds.
-/

namespace Gooos

open Interleave
open Trace (exec)

/-- The state of the connection in a slot; a slot that is not in use counts as CLOSED. -/
def TCB.phase (x : TCB) : TcbState := if x.active then x.state else .closed

theorem phase_congr {x y : TCB} (ha : y.active = x.active) (hs : y.state = x.state) :
    y.phase = x.phase := by
  rw [TCB.phase,TCB.phase,ha,hs]

theorem phase_active {x : TCB} (ha : x.active = true) : x.phase = x.state := by
  simp [TCB.phase,ha]

variable {op : TcbOp}

/-- An operation that neither moves the state nor claims the slot keeps the phase. -/
theorem phase_run (now : UInt64) (x : TCB) (hm : op.moves = false)
    (hb : op.binds = false) : (op.run now x).phase = x.phase :=
  phase_congr ((op.run_frame now x).addr hb).1 ((op.run_frame now x).state hm)

theorem active_run (now : UInt64) {x : TCB} (hb : op.binds = false)
    (ha : x.active = true) : (op.run now x).active = true :=
  ((op.run_frame now x).addr hb).1.trans ha

theorem phase_run_active (now : UInt64) {x : TCB} (hb : op.binds = false)
    (ha : x.active = true) : (op.run now x).phase = (op.run now x).state :=
  phase_active (active_run now hb ha)

/-! ## Threads that run alone -/

section Alone

variable {τ : Tid} {k : Kernel}

theorem exec_sections_succ (k : Kernel) (τ : Tid) (ok : ℕ → Bool) (n : ℕ) :
    exec Kernel.step k (sections τ ok (n+1)) =
      exec Kernel.step (k.step (.run τ (ok 0))).1 (sections τ (fun j => ok (j+1)) n) := rfl

/-- Invariant rule for a thread that runs alone. -/
theorem sections_inv {J : Shared → PcOf τ → Prop}
    (hstep : ∀ s b l, J s l → J (s.apply (threadSection s b τ l)) (threadSection s b τ l).next)
    (h : J k.shared (k.pc τ)) (ok : ℕ → Bool) (n : ℕ) :
    J (exec Kernel.step k (sections τ ok n)).shared
      ((exec Kernel.step k (sections τ ok n)).pc τ) := by
  induction n generalizing k ok with
  | zero => exact h
  | succ n ih =>
    refine ih (k := (k.step (.run τ (ok 0))).1) ?_ _
    change J (k.shared.apply _) ((k.move τ _ _).pc τ)
    rw [Conf.move_pc_self]
    exact hstep _ _ _ h

/-- A thread whose sections count down comes to its end. -/
theorem sections_rank {J : Shared → PcOf τ → Prop} (rank : PcOf τ → ℕ)
    (hstep : ∀ s b l, J s l → J (s.apply (threadSection s b τ l)) (threadSection s b τ l).next)
    (hrank : ∀ s b l, J s l → rank (threadSection s b τ l).next ≤ rank l-1)
    (h : J k.shared (k.pc τ)) (ok : ℕ → Bool) (n : ℕ) (hn : rank (k.pc τ) ≤ n) :
    rank ((exec Kernel.step k (sections τ ok n)).pc τ) = 0 := by
  induction n generalizing k ok with
  | zero => exact Nat.le_zero.mp hn
  | succ n ih =>
    have hpc : (k.step (.run τ (ok 0))).1.pc τ =
        (threadSection k.shared (ok 0) τ (k.pc τ)).next := k.move_pc_self τ _ _
    refine ih (k := (k.step (.run τ (ok 0))).1) ?_ _ ?_
    · rw [hpc]
      exact hstep _ _ _ h
    · rw [hpc]
      have := hrank k.shared (ok 0) (k.pc τ) h
      omega

end Alone

/-! ## One segment -/

/-- A segment and what it meets: the TCB and the listeners before it, and whether the peer's FIN
was consumed before. -/
structure Arrival where
  tcb : TCB
  finIn : Bool
  listener : Fin 4 → TcpListener
  h : TCPHeader
  payload : List UInt8

/-- The rows of the table whose event is a segment, with their guards. A reset in the window
closes any connection, and an ACK of the SYN|ACK that carries a FIN takes two rows at once. -/
inductive SegRow (w : Arrival) : TcbState → TcbState → Prop where
  | same (st : TcbState) : SegRow w st st
  | listenSyn (l : Fin 4) (hl : tcpListenerLookupLocked w.listener w.h.dstPort = some l)
    (hsyn : hasFlag w.h.flags tcpFlagSYN = true) (hack : hasFlag w.h.flags tcpFlagACK = false) :
    SegRow w .closed .synReceived
  | synAck (hsyn : hasFlag w.h.flags tcpFlagSYN = true) (hack : hasFlag w.h.flags tcpFlagACK = true)
    (hok : synAckOk w.tcb w.h = true) : SegRow w .synSent .established
  | synRst (hrst : hasFlag w.h.flags tcpFlagRST = true)
    (hack : hasFlag w.h.flags tcpFlagACK = true → synAckOk w.tcb w.h = true) :
    SegRow w .synSent .closed
  | simultaneous (hsyn : hasFlag w.h.flags tcpFlagSYN = true)
    (hack : hasFlag w.h.flags tcpFlagACK = false) : SegRow w .synSent .closed
  | rst (st : TcbState) (hst : st ≠ .synSent) (hrst : hasFlag w.h.flags tcpFlagRST = true)
    (hwin : rstInWindow w.tcb w.h = true) : SegRow w st .closed
  | handshake (hack : hasFlag w.h.flags tcpFlagACK = true) (hnxt : w.h.ack = w.tcb.sndNxt) :
    SegRow w .synReceived .established
  | handshakeFin (hack : hasFlag w.h.flags tcpFlagACK = true) (hnxt : w.h.ack = w.tcb.sndNxt)
    (hfin : estFinIn w.tcb w.h = true) : SegRow w .synReceived .closeWait
  | fin (hfin : estFinIn w.tcb w.h = true) : SegRow w .established .closeWait
  | finAcked (hack : hasFlag w.h.flags tcpFlagACK = true) (hnxt : w.h.ack = w.tcb.sndNxt) :
    SegRow w .finWait1 .finWait2
  | bothFins (hack : hasFlag w.h.flags tcpFlagACK = true) (hnxt : w.h.ack = w.tcb.sndNxt)
    (hfin : fwFinIn w.tcb w.h w.payload = true) : SegRow w .finWait1 .timeWait
  | finsCross (hfin : fwFinIn w.tcb w.h w.payload = true) : SegRow w .finWait1 .closing
  | finAfter (hfin : fwFinIn w.tcb w.h w.payload = true) : SegRow w .finWait2 .timeWait
  | closingAcked (hack : hasFlag w.h.flags tcpFlagACK = true) (hnxt : w.h.ack = w.tcb.sndNxt)
    (hfin : w.finIn = true) : SegRow w .closing .timeWait
  | lastAcked (hack : hasFlag w.h.flags tcpFlagACK = true) (hnxt : w.h.ack = w.tcb.sndNxt) :
    SegRow w .lastAck .closed

section Segment

variable (w : Arrival) (i : Slot)

/-- What holds of the TCB `y` in slot `i` and of the listeners `now` while the receive loop
works on the segment. -/
def SegAt (now : Fin 4 → TcpListener) : RxPc → TCB → Prop
  | .lookup _ h' p', y => y = w.tcb ∧ h' = w.h ∧ p' = w.payload ∧ now = w.listener
  | .dispatch t h' p', y => y = w.tcb ∧ h' = w.h ∧ p' = w.payload ∧ (t.slot = i → w.tcb.active = true)
  | .synSent t _ _, y => t.slot = i → y.active = true ∧ SegRow w w.tcb.phase .established
  | .synReceived t h' _, y => t.slot = i → y.active = true ∧
      SegRow w w.tcb.phase .established ∧
      (estFinIn y h' = true → SegRow w w.tcb.phase .closeWait)
  | .promote _ t h' _, y | .established t h' _, y => t.slot = i → y.active = true ∧
      (estFinIn y h' = true → SegRow w w.tcb.phase .closeWait)
  | .finWait1 t h' p', y => t.slot = i → y = w.tcb ∧ h' = w.h ∧ p' = w.payload ∧ w.tcb.active = true ∧
      w.tcb.state = .finWait1
  | .finWait2 t h' p', y => t.slot = i → y = w.tcb ∧ h' = w.h ∧ p' = w.payload ∧ w.tcb.active = true ∧
      w.tcb.state = .finWait2
  | .closing t h', y => t.slot = i → y = w.tcb ∧ h' = w.h ∧ w.tcb.active = true ∧
      w.tcb.state = .closing
  | .sendAck t (some (h',_)), y => t.slot = i → y.active = true ∧ h'.seq ≠ y.rcvNxt
  | .openLookup _ h' _, y => y = w.tcb ∧ h' = w.h ∧ now = w.listener ∧
      hasFlag w.h.flags tcpFlagSYN = true ∧ hasFlag w.h.flags tcpFlagACK = false
  | .openAlloc l _ h' _, y => y = w.tcb ∧ h' = w.h ∧
      tcpListenerLookupLocked w.listener w.h.dstPort = some l ∧
      hasFlag w.h.flags tcpFlagSYN = true ∧ hasFlag w.h.flags tcpFlagACK = false
  | .openInit _ t _, _ => t.slot = i → SegRow w w.tcb.phase .synReceived ∧
      SegRow w w.tcb.phase .closed
  | .free t, _ | .reset _ (some t), _ | .openPush _ t, _ | .openRollback _ t, _
  | .openSend _ t _, _ | .openRestore _ t _ _, _ | .openRemove _ t, _ =>
    t.slot = i → SegRow w w.tcb.phase .closed
  | _, _ => True

/-- The choice of `tcpDispatchToTCB` starts a row of the table. -/
theorem segAt_dispatch {now : Fin 4 → TcpListener} {t : TcbRef} {l : RxPc}
    (hx : t.slot = i → w.tcb.active = true) {y : TCB} (hy : t.slot = i → y = w.tcb)
    (hd : Dispatched y t w.h w.payload l) :
    SegAt w i now l w.tcb := by
  by_cases hi : t.slot = i
  · obtain rfl := hy hi
    have hact := hx hi
    have hph := phase_active hact
    cases hd with
    | rst hst hrst hwin => exact fun _ => hph ▸ .rst _ hst hrst hwin
    | synRst hst hrst hack => exact fun _ => (hph.trans hst) ▸ .synRst hrst hack
    | simultaneous seg hst hsyn hack => exact fun _ => (hph.trans hst) ▸ .simultaneous hsyn hack
    | synSent hst hsyn hack hok => exact fun _ => ⟨hact,(hph.trans hst) ▸ .synAck hsyn hack hok⟩
    | synReceived hst hack hnxt =>
      rw [SegAt,hph,hst]
      exact fun _ => ⟨hact,.handshake hack hnxt,.handshakeFin hack hnxt⟩
    | established hst => exact fun _ => ⟨hact,fun hfin => (hph.trans hst) ▸ .fin hfin⟩
    | lastAck hst hack hnxt => exact fun _ => (hph.trans hst) ▸ .lastAcked hack hnxt
    | finWait1 hst | finWait2 hst => exact fun _ => ⟨rfl,rfl,rfl,hact,hst⟩
    | closing hst => exact fun _ => ⟨rfl,rfl,hact,hst⟩
    | _ => trivial
  · -- the segment is for another slot
    cases hd <;> first | trivial | exact fun hc => absurd hc hi

theorem finWait1_row (now : UInt64) (hst : w.tcb.state = .finWait1) :
    SegRow w .finWait1 (tcpHandleFinWait1 now w.h w.payload w.tcb).state := by
  have hstate := (tcpHandleFinWait1_stores now w.h w.payload w.tcb).2
  have hacked (ha : (tcpHandleFinWait1 now w.h w.payload w.tcb).state.finAcked = true) :
      hasFlag w.h.flags tcpFlagACK = true ∧ w.h.ack = w.tcb.sndNxt :=
    (finWait1_acked ha).resolve_left (by simp [hst,TcbState.finAcked])
  split at hstate
  · rename_i hfin
    rcases hstate with hs | hs
    · obtain ⟨hack,hnxt⟩ := hacked (by rw [hs]; rfl)
      rw [hs]
      exact .bothFins hack hnxt hfin
    · rw [hs]
      exact .finsCross hfin
  · rcases hstate with hs | hs
    · rw [hs,hst]
      exact .same _
    · obtain ⟨hack,hnxt⟩ := hacked (by rw [hs]; rfl)
      rw [hs]
      exact .finAcked hack hnxt

theorem finWait2_row (now : UInt64) (hst : w.tcb.state = .finWait2) :
    SegRow w .finWait2 (tcpHandleFinWait2 now w.h w.payload w.tcb).state := by
  have hstate := (tcpHandleFinWait2_stores now w.h w.payload w.tcb).2
  split at hstate
  · rename_i hfin
    rw [hstate]
    exact .finAfter hfin
  · rw [hstate,hst]
    exact .same _

theorem closing_row (now : UInt64) (hst : w.tcb.state = .closing) (hfin : w.finIn = true) :
    SegRow w .closing (tcpHandleClosing now w.h w.tcb).state := by
  rcases tcpHandleClosing_state now w.h w.tcb with hs | hs
  · rw [hs,hst]
    exact .same _
  · obtain ⟨hack,hnxt⟩ := (closing_acked now (x := w.tcb) (h := w.h) (by rw [hs]; rfl)).resolve_left
      (by simp [hst,TcbState.finAcked])
    rw [hs]
    exact .closingAcked hack hnxt hfin

/-- While the receive loop works on the segment: slot `i` holds a TCB the table allows. -/
def SegInv (s : Shared) (l : RxPc) : Prop :=
  SegRow w w.tcb.phase (s.tcb i).phase ∧
    SegAt w i s.listener l (s.tcb i)

end Segment

section SegmentStep

variable {w : Arrival} {i : Slot} {s : Shared}

/-- A section that works on the TCB of another slot, or on none. -/
theorem SegInv.skip {f : Effect RxPc} {l : RxPc} (hI : SegInv w i s l)
    (hq : ∀ op, f.op ≠ some (i,op))
    (hat : SegAt w i (s.apply f).listener f.next (s.tcb i)) :
    SegInv w i (s.apply f) f.next := by
  rw [SegInv,apply_tcb_of_quiet hq]
  exact ⟨hI.1,hat⟩

/-- A section that works on slot `i`. -/
theorem segInv_op {f : Effect RxPc} (hop : f.op = some (i,op))
    (hrow : SegRow w w.tcb.phase (op.run s.pitTicks (s.tcb i)).phase)
    (hat : SegAt w i (s.apply f).listener f.next (op.run s.pitTicks (s.tcb i))) :
    SegInv w i (s.apply f) f.next := by
  rw [SegInv,apply_tcb_of_op hop]
  exact ⟨hrow,hat⟩

/-- The section after a passive open that may still be undone. -/
theorem SegInv.opening {f : Effect RxPc} {l : RxPc} {t : TcbRef}
    (hI : SegInv w i s l) (hop : f.op = some (t.slot,op)) (hm : op.moves = false)
    (hb : op.binds = false) (hat : ∀ y, SegAt w i (s.apply f).listener f.next y) :
    SegInv w i (s.apply f) f.next := by
  by_cases hi : t.slot = i
  · subst hi
    refine segInv_op hop ?_ (hat _)
    rw [phase_run _ _ hm hb]
    exact hI.1
  · exact hI.skip (by simp [hop,hi]) (hat _)

/-- The first sections: which TCB, or which listener, the segment is for. -/
theorem SegInv.lookup {hdr : IPv4Header} {h' : TCPHeader} {p' : List UInt8} (b : Bool)
    (hI : SegInv w i s (.lookup hdr h' p')) :
    SegInv w i (s.apply (rxSection s b (.lookup hdr h' p')))
      (rxSection s b (.lookup hdr h' p')).next := by
  obtain ⟨hy,rfl,rfl,hls⟩ := hI.2
  simp only [rxSection]
  split
  · rename_i j hj
    refine hI.skip (by rintro _ ⟨⟩) ⟨hy,rfl,rfl,?_⟩
    rintro rfl
    have hfound := List.find?_some hj
    simp only [Bool.and_eq_true] at hfound
    rw [← hy]
    exact hfound.1.1.1.1
  · split
    · rename_i hflags
      simp only [Bool.and_eq_true,Bool.not_eq_true'] at hflags
      exact hI.skip (by rintro _ ⟨⟩) ⟨hy,rfl,hls,hflags⟩
    · split
      · exact hI.skip (by rintro _ ⟨⟩) trivial
      · exact hI.skip (by rintro _ ⟨⟩) trivial

/-- The passive open up to its allocation; the slot it claims is not in use. -/
theorem SegInv.claim {l : Fin 4} {hdr : IPv4Header} {h' : TCPHeader} {p' : List UInt8} (b : Bool)
    (hI : SegInv w i s (.openAlloc l hdr h' p')) :
    SegInv w i (s.apply (rxSection s b (.openAlloc l hdr h' p')))
      (rxSection s b (.openAlloc l hdr h' p')).next := by
  obtain ⟨hy,rfl,hl,hsyn,hack⟩ := hI.2
  simp only [rxSection]
  split
  · exact hI.skip (by rintro _ ⟨⟩) trivial
  · rename_i j hj
    have hfree := List.find?_some hj
    by_cases hji : j = i
    · subst hji
      have hclosed : w.tcb.phase = .closed := by
        have hoff : (s.tcb j).active = false := by simpa using hfree
        rw [← hy,TCB.phase,hoff]
        rfl
      refine segInv_op rfl ?_ fun _ => ?_
      · rw [hclosed]
        exact .same _
      · rw [hclosed]
        exact ⟨.listenSyn l hl hsyn hack,.same _⟩
    · exact hI.skip (by simp [hji]) fun hc => absurd hc hji

/-- The two handshakes that complete, and the ACK in between. -/
theorem SegInv.handshake {l : RxPc} (b : Bool)
    (hl : (∃ t h' p', l = .synSent t h' p') ∨ ∃ t h' p', l = .synReceived t h' p')
    (hI : SegInv w i s l) :
    SegInv w i (s.apply (rxSection s b l)) (rxSection s b l).next := by
  obtain ⟨t,h',p',rfl⟩ | ⟨t,h',p',rfl⟩ := hl
  · have hat := hI.2
    by_cases hi : t.slot = i
    · subst hi
      obtain ⟨hact,hrow⟩ := hat rfl
      obtain ⟨f,hf⟩ := synSentAck_shape s.pitTicks h' (s.tcb t.slot)
      refine segInv_op rfl ?_ ?_
      · rw [phase_run_active _ rfl hact,TcbOp.run,hf]
        exact hrow
      · rw [TcbOp.run,hf]
        simp only [rxSection]
        split
        · refine fun _ => ⟨hact,?_⟩
          simp
        · trivial
    · refine hI.skip (by simp [rxSection,hi]) ?_
      simp only [rxSection]
      split
      · exact fun hc => absurd hc hi
      · trivial
  · have hat := hI.2
    have hmore {y : TCB} (hy : t.slot = i → y.active = true ∧
        (estFinIn y h' = true → SegRow w w.tcb.phase .closeWait)) :
        SegAt w i (s.apply (rxSection s b (.synReceived t h' p'))).listener
          (rxSection s b (.synReceived t h' p')).next y := by
      simp only [rxSection,afterPromote]
      split
      · exact hy
      · split
        · exact hy
        · trivial
    by_cases hi : t.slot = i
    · subst hi
      obtain ⟨hact,hrow,hfin⟩ := hat rfl
      obtain ⟨f,hf⟩ := synReceivedAck_shape s.pitTicks h' (s.tcb t.slot)
      refine segInv_op rfl ?_ (hmore fun _ => ?_)
      · rw [phase_run_active _ rfl hact,TcbOp.run,hf]
        exact hrow
      · rw [TcbOp.run,hf]
        exact ⟨hact,hfin⟩
    · exact hI.skip (by simp [rxSection,hi]) (hmore fun hc => absurd hc hi)

/-- A handler that works on slot `i` if its pointer says so. -/
theorem SegInv.handler {f : Effect RxPc} {l : RxPc} {t : TcbRef}
    (hI : SegInv w i s l) (hop : f.op = some (t.slot,op))
    (hat : ∀ y, SegAt w i (s.apply f).listener f.next y)
    (hrow : t.slot = i → SegRow w w.tcb.phase (op.run s.pitTicks (s.tcb i)).phase) :
    SegInv w i (s.apply f) f.next := by
  by_cases hi : t.slot = i
  · subst hi
    exact segInv_op hop (hrow rfl) (hat _)
  · exact hI.skip (by simp [hop,hi]) (hat _)

/-- One section of the receive loop. -/
theorem SegInv.step (hfin : w.tcb.state = .closing → w.finIn = true) {l : RxPc} (b : Bool)
    (hI : SegInv w i s l) :
    SegInv w i (s.apply (rxSection s b l)) (rxSection s b l).next := by
  have hat := hI.2
  cases l with
  | idle => exact hI.skip (by rintro _ ⟨⟩) trivial
  | lookup hdr h' p' => exact hI.lookup b
  | dispatch t h' p' =>
    obtain ⟨hy,rfl,rfl,hact⟩ := hat
    have hnext : SegAt w i s.listener (rxSection s b (.dispatch t w.h w.payload)).next w.tcb :=
      segAt_dispatch w i hact (fun hi => by rw [hi]; exact hy)
        (tcpDispatchToTCB_dispatched (s.tcb t.slot) t w.h w.payload)
    by_cases hi : t.slot = i
    · subst hi
      refine segInv_op rfl hI.1 ?_
      change SegAt _ _ _ _ (s.tcb t.slot)
      rw [hy]
      exact hnext
    · refine hI.skip (by simp [rxSection,hi]) ?_
      rw [hy]
      exact hnext
  | synSent t h' p' => exact hI.handshake b (.inl ⟨t,h',p',rfl⟩)
  | synReceived t h' p' => exact hI.handshake b (.inr ⟨t,h',p',rfl⟩)
  | promote ls t h' p' =>
    refine hI.skip (by rintro _ ⟨⟩) ?_
    simp only [rxSection,afterPromote]
    split
    · exact hat
    · trivial
  | established t h' p' =>
    refine hI.handler rfl (fun _ => trivial) fun hi => ?_
    obtain ⟨hact,hclose⟩ := hat hi
    have hst := tcpHandleEstablished_state s.pitTicks h' p' (s.tcb i)
    rw [phase_run_active _ rfl hact,TcbOp.run]
    split at hst
    · rw [hst]
      exact hclose ‹_›
    · rw [hst,← phase_active hact]
      exact hI.1
  | finWait1 t h' p' =>
    refine hI.handler rfl (fun _ => trivial) fun hi => ?_
    obtain ⟨hy,rfl,rfl,hact,hst⟩ := hat hi
    rw [hy,phase_run_active _ rfl hact,phase_active hact,hst]
    exact finWait1_row w _ hst
  | finWait2 t h' p' =>
    refine hI.handler rfl (fun _ => trivial) fun hi => ?_
    obtain ⟨hy,rfl,rfl,hact,hst⟩ := hat hi
    rw [hy,phase_run_active _ rfl hact,phase_active hact,hst]
    exact finWait2_row w _ hst
  | closing t h' =>
    refine hI.handler rfl (fun _ => trivial) fun hi => ?_
    obtain ⟨hy,rfl,hact,hst⟩ := hat hi
    rw [hy,phase_run_active _ rfl hact,phase_active hact,hst]
    exact closing_row w _ hst (hfin hst)
  | timeWait t => exact hI.opening rfl rfl rfl fun _ => trivial
  | sendAck t again =>
    cases again with
    | none => exact hI.opening rfl rfl rfl fun _ => trivial
    | some w =>
      obtain ⟨h',p'⟩ := w
      by_cases hi : t.slot = i
      · subst hi
        obtain ⟨hact,hseq⟩ := hat rfl
        obtain ⟨w,hw⟩ := tcpSendSegment_fst s.ourIP b (s.tcb t.slot) tcpFlagACK [] []
        refine segInv_op rfl ?_ fun _ => ⟨active_run _ rfl hact,fun hc => ?_⟩
        · rw [phase_run _ _ rfl rfl]
          exact hI.1
        · rw [TcbOp.run,hw] at hc
          simp [estFinIn,hseq] at hc
      · exact hI.skip (by simp [rxSection,hi]) fun hc => absurd hc hi
  | free t => exact hI.handler rfl (fun _ => trivial) hat
  | reset seg andFree =>
    refine hI.skip (by rintro _ ⟨⟩) ?_
    cases andFree with
    | none => trivial
    | some t => exact hat
  | openLookup hdr h' p' =>
    obtain ⟨hy,rfl,hls,hflags⟩ := hat
    simp only [rxSection]
    split
    · exact hI.skip (by rintro _ ⟨⟩) trivial
    · split
      · exact hI.skip (by rintro _ ⟨⟩) trivial
      · exact hI.skip (by rintro _ ⟨⟩) ⟨hy,rfl,hls ▸ ‹_›,hflags⟩
  | openAlloc ls hdr h' p' => exact hI.claim b
  | openInit ls t h' =>
    by_cases hi : t.slot = i
    · subst hi
      obtain ⟨hopen,hclosed⟩ := hat rfl
      refine segInv_op rfl ?_ fun _ => hclosed
      change SegRow _ _ (if (s.tcb t.slot).active then TcbState.synReceived else .closed)
      split
      · exact hopen
      · exact hclosed
    · exact hI.skip (by simp [rxSection,hi]) fun hc => absurd hc hi
  | openPush ls t =>
    simp only [rxSection]
    split <;> exact hI.skip (by rintro _ ⟨⟩) hat
  | openRollback | openSend => exact hI.opening rfl rfl rfl fun _ => hat
  | openRestore ls t orig sent =>
    refine hI.opening rfl rfl rfl fun _ => ?_
    cases sent with
    | false => exact hat
    | true => trivial
  | openRemove ls t => exact hI.skip (by rintro _ ⟨⟩) hat

end SegmentStep

/-- Sections left until the receive loop waits again, at most. -/
def RxPc.rank : RxPc → ℕ
  | .idle => 0
  | .free _ | .closing _ _ | .sendAck _ none => 1
  | .reset .. | .established .. | .finWait1 .. | .finWait2 .. | .timeWait _ | .openRemove .. => 2
  | .sendAck _ (some _) | .promote .. | .openRestore .. => 3
  | .synSent .. | .synReceived .. | .openSend .. => 4
  | .dispatch .. | .openRollback .. => 5
  | .openPush .. => 6
  | .openInit .. => 7
  | .openAlloc .. => 8
  | .openLookup .. => 9
  | .lookup .. => 10

theorem RxPc.eq_idle_of_rank {l : RxPc} (h : l.rank = 0) : l = .idle := by
  cases l with
  | idle => rfl
  | sendAck t again => cases again <;> cases h
  | _ => cases h

theorem rank_tcpDispatchToTCB (x : TCB) (t : TcbRef) (h : TCPHeader) (payload : List UInt8) :
    (tcpDispatchToTCB x t h payload).rank ≤ 4 := by
  have hd := tcpDispatchToTCB_dispatched x t h payload
  generalize tcpDispatchToTCB x t h payload = l at hd
  cases hd <;> simp [RxPc.rank]

theorem rank_rxSection (s : Shared) (b : Bool) (l : RxPc) :
    (rxSection s b l).next.rank ≤ l.rank-1 := by
  cases l with
  | dispatch t h payload => exact rank_tcpDispatchToTCB _ t h payload
  | sendAck t again =>
    cases again with
    | none | some => exact le_rfl
  | reset seg andFree => cases andFree <;> simp [rxSection,RxPc.rank]
  | _ =>
    simp only [rxSection,afterPromote]
    repeat' split
    all_goals
      simp only [RxPc.rank]
      omega

/-- A connection is in CLOSING only after the peer's FIN was consumed. -/
theorem closing_finIn (i : Slot) (es : List Ev) :
    let σ := exec (Sys.step i) .boot es
    (σ.tcb i).state = .closing → σ.2.finIn = true := by
  have hm : Trace.Meets (Sys.step i) (fun _ _ => true = true) .boot es :=
    Trace.meets_of_forall (fun _ _ => rfl) _ _
  refine slotInv_run (J := fun y H _ => y.state = .closing → H.finIn = true)
    (G := fun _ _ => true) ?_ (fun _ _ _ _ h _ _ _ => h) nofun hm
  intro σ e τ f op hk _ _ _ hst
  have hopen : op.opens = false := by
    cases op with
    | passiveInit | activeInit => cases hst
    | _ => rfl
  rcases op.run_state σ.1.shared.pitTicks (σ.tcb i) with hsame | hleads
  · exact Hist.finIn_after _ hopen (hk (hsame.symm.trans hst))
  · -- only `tcpHandleFinWait1` leads to CLOSING
    rw [hst] at hleads
    cases op with
    | finWait1 h payload =>
      have hstate := (tcpHandleFinWait1_stores σ.1.shared.pitTicks h payload (σ.tcb i)).2
      simp only [Hist.after,Bool.or_eq_true]
      split at hstate
      · exact .inr ‹_›
      · rcases hstate with hs | hs
        · exact .inl (hk (hs.symm.trans hst))
        · exact absurd (hs.symm.trans hst) (by decide)
    | closeMark => rcases TcbOp.leads_closeMark.mp hleads with h | h <;> cases h.2
    | _ => cases hleads

/-- One segment through `tcpHandle`. -/
theorem segment_row (i : Slot) (es : List Ev) (hdr : IPv4Header) (h : TCPHeader)
    (payload : List UInt8) (ok : ℕ → Bool) :
    let σ := exec (Sys.step i) .boot es
    let k' := exec Kernel.step σ.1 (.segment hdr h payload :: sections .rx ok 10)
    σ.1.pc .rx = RxPc.idle →
      k'.pc .rx = RxPc.idle ∧
      SegRow ⟨σ.tcb i,σ.2.finIn,σ.1.shared.listener,h,payload⟩ (σ.tcb i).phase
        (k'.shared.tcb i).phase := by
  intro σ k' hidle
  have hstep : (σ.1.step (.segment hdr h payload)).1 =
      σ.1.rxAt σ.1.shared (.lookup hdr h payload) := by
    simp only [Kernel.step,Ev.effect,hidle,if_true]
    rfl
  change (exec Kernel.step (σ.1.step _).1 _).pc .rx = _ ∧
    SegRow _ _ ((exec Kernel.step (σ.1.step _).1 _).shared.tcb i).phase
  rw [hstep]
  constructor
  · have hend := sections_rank (τ := .rx) (J := fun _ _ => True) RxPc.rank
      (k := σ.1.rxAt σ.1.shared (.lookup hdr h payload)) (fun _ _ _ _ => trivial)
      (fun s b l _ => rank_rxSection s b l) trivial ok 10 le_rfl
    exact RxPc.eq_idle_of_rank hend
  · refine (sections_inv (τ := .rx)
      (J := SegInv ⟨σ.tcb i,σ.2.finIn,σ.1.shared.listener,h,payload⟩ i) ?_ ?_ ok 10).1
    · intro s b l hI
      exact hI.step (closing_finIn i es) b
    · exact ⟨.same _,rfl,rfl,rfl,rfl⟩

/-! ## One close -/

/-- `tcpClose` in the table. -/
def closeRow : TcbState → TcbState
  | .established => .finWait1
  | .closeWait => .lastAck
  | st => st

/-- `Close` of a listener, for a TCB in one of its queues. -/
def listenerRow : TcbState → TcbState
  | .synReceived => .closed
  | st => closeRow st

theorem listenerRow_closeRow (st : TcbState) : listenerRow (closeRow st) = listenerRow st := by
  cases st <;> rfl

theorem phase_closeMark (now : UInt64) (y : TCB) :
    (TcbOp.closeMark.run now y).phase = closeRow y.phase := by
  have hact := ((TcbOp.closeMark.run_frame now y).addr rfl).1
  have hstate : (TcbOp.closeMark.run now y).state = closeRow y.state := by
    rw [TcbOp.run,tcpCloseMark]
    cases hs : y.state <;> first | rfl | exact hs
  rw [TCB.phase,TCB.phase,hact,hstate]
  split <;> rfl

theorem phase_of_not_closeMark {y : TCB} (h : tcpCloseMark y = none) :
    closeRow y.phase = y.phase := by
  rw [TCB.phase]
  split
  · rw [tcpCloseMark] at h
    cases hs : y.state <;> simp_all [closeRow]
  · rfl

/-- What a listener's close makes of the state in slot `i` once the TCBs `ts` are closed. -/
def drainedRow (ts : List TcbRef) (i : Slot) (st : TcbState) : TcbState :=
  if ts.any (·.slot == i) then listenerRow st else st

section Close

variable (i : Slot) (goal : TcbState)

/-- The close will leave slot `i` in the state `goal`: before `tcpClose` on `t`. -/
def BeforeMark (t : TcbRef) (y : TCB) : AfterClose → Prop
  | .closeListener ts _ => drainedRow (t :: ts) i y.phase = goal
  | _ => (if t.slot = i then closeRow y.phase else y.phase) = goal

/-- The same once `tcpClose` has changed the state, or found nothing to close. -/
def AfterMark (t : TcbRef) (y : TCB) : AfterClose → Prop
  | .closeListener ts _ => drainedRow (t :: ts) i y.phase = goal ∧
      (t.slot = i → closeRow y.phase = y.phase)
  | _ => y.phase = goal

/-- What holds of slot `i` while a process closes. -/
def CloseAt : ProcPc → TCB → Prop
  | .idle, y => y.phase = goal
  | .shutdownReset _, y => y.phase = goal
  | .closeMark t c, y => BeforeMark i goal t y c
  | .closeSend t c, y => AfterMark i goal t y c
  | .closeCommit t c, y => AfterMark i goal t y c
  | .listenerClear ts _, y => drainedRow ts i y.phase = goal
  | .listenerCheck t ts _, y => drainedRow (t :: ts) i y.phase = goal ∧
      (t.slot = i → closeRow y.phase = y.phase)
  | .listenerFree t ts _, y => drainedRow (t :: ts) i y.phase = goal ∧
      (t.slot = i → y.state = .synReceived)
  | _, _ => False

def CloseInv (s : Shared) (l : ProcPc) : Prop := CloseAt i goal l (s.tcb i)

end Close

section CloseStep

variable {i : Slot} {goal : TcbState} {t : TcbRef} {y : TCB} {c : AfterClose} {s : Shared}

theorem drainedRow_cons (t : TcbRef) (ts : List TcbRef) (i : Slot) (st : TcbState) :
    drainedRow (t :: ts) i st = if t.slot = i then listenerRow st else drainedRow ts i st := by
  by_cases hi : t.slot = i <;> simp [drainedRow,hi]

theorem BeforeMark.mark (hb : BeforeMark i goal t y c) (hi : t.slot = i) (now : UInt64) :
    AfterMark i goal t (TcbOp.closeMark.run now y) c := by
  have hfix (st : TcbState) : closeRow (closeRow st) = closeRow st := by cases st <;> rfl
  cases c with
  | closeListener ts n =>
    refine ⟨?_,fun _ => ?_⟩
    · change drainedRow (t :: ts) i y.phase = goal at hb
      rw [drainedRow_cons,if_pos hi] at hb ⊢
      rw [phase_closeMark,listenerRow_closeRow,hb]
    · rw [phase_closeMark,hfix]
  | _ =>
    change (TcbOp.closeMark.run now y).phase = goal
    rw [phase_closeMark,← hb,if_pos hi]

theorem BeforeMark.skip (hb : BeforeMark i goal t y c) (hi : t.slot = i → closeRow y.phase = y.phase) :
    AfterMark i goal t y c := by
  cases c with
  | closeListener ts n => exact ⟨hb,hi⟩
  | _ =>
    rw [← hb]
    split
    · exact (hi ‹_›).symm
    · rfl

theorem AfterMark.congr {y' : TCB} (ha : AfterMark i goal t y c) (hp : y'.phase = y.phase) :
    AfterMark i goal t y' c := by
  cases c with
  | closeListener ts n =>
    rw [AfterMark,hp]
    exact ha
  | _ => exact hp.trans ha

/-- The caller goes on. -/
theorem AfterMark.resume (ha : AfterMark i goal t y c) (s : Shared) (p : ProcSlot) :
    CloseAt i goal (afterClose s p t c).next y := by
  cases c with
  | ret | closeConn | closeListener => exact ha
  | shutdown how =>
    rw [afterClose]
    split <;> exact ha

/-- A listener's close is done with a TCB. -/
theorem drainedRow_done {ts : List TcbRef} (h : drainedRow (t :: ts) i y.phase = goal)
    (hi : t.slot = i → listenerRow y.phase = y.phase) : drainedRow ts i y.phase = goal := by
  rw [← h,drainedRow_cons]
  split
  · rename_i heq
    rw [drainedRow,hi heq,ite_self]
  · rfl

theorem closeInv_op {f : Effect ProcPc} (hop : f.op = some (i,op))
    (hat : CloseAt i goal f.next (op.run s.pitTicks (s.tcb i))) :
    CloseInv i goal (s.apply f) f.next := by
  rw [CloseInv,apply_tcb_of_op hop]
  exact hat

theorem closeInv_quiet {f : Effect ProcPc} (hq : ∀ op, f.op ≠ some (i,op))
    (hat : CloseAt i goal f.next (s.tcb i)) : CloseInv i goal (s.apply f) f.next := by
  rw [CloseInv,apply_tcb_of_quiet hq]
  exact hat

/-- A section on `t` that keeps the state. -/
theorem closeInv_keep {f : Effect ProcPc} (hop : f.op = some (t.slot,op))
    (hm : op.moves = false) (hb : op.binds = false)
    (hat : ∀ y, y.phase = (s.tcb i).phase → CloseAt i goal f.next y) :
    CloseInv i goal (s.apply f) f.next := by
  by_cases hi : t.slot = i
  · subst hi
    exact closeInv_op hop (hat _ (phase_run _ _ hm hb))
  · exact closeInv_quiet (by simp [hop,hi]) (hat _ rfl)

/-- One section of a close. -/
theorem CloseInv.step {l : ProcPc} (p : ProcSlot) (b : Bool) (hI : CloseInv i goal s l) :
    CloseInv i goal (s.apply (procSection s b p l)) (procSection s b p l).next := by
  have hat : CloseAt i goal l (s.tcb i) := hI
  cases l with
  | idle => exact closeInv_quiet (by rintro _ ⟨⟩) hat
  | shutdownReset t => exact closeInv_keep rfl rfl rfl fun y hy => hy.trans hat
  | closeMark t c =>
    simp only [procSection]
    split
    · rename_i hnone
      refine closeInv_quiet (by simp [afterClose_op]) (AfterMark.resume (BeforeMark.skip hat ?_) s p)
      rintro rfl
      exact phase_of_not_closeMark hnone
    · by_cases hi : t.slot = i
      · subst hi
        exact closeInv_op rfl (BeforeMark.mark hat rfl _)
      · exact closeInv_quiet (by simp [hi]) (BeforeMark.skip hat fun hc => absurd hc hi)
  | closeSend t c =>
    simp only [procSection]
    split
    · exact closeInv_keep rfl rfl rfl fun y hy => AfterMark.congr hat hy
    · exact closeInv_keep rfl rfl rfl fun y hy => (AfterMark.congr hat hy).resume s p
  | closeCommit t c => exact closeInv_keep rfl rfl rfl fun y hy => (AfterMark.congr hat hy).resume s p
  | listenerClear ts n =>
    cases ts with
    | nil => exact closeInv_quiet (by rintro _ ⟨⟩) hat
    | cons t ts =>
      refine closeInv_keep rfl rfl rfl fun y hy => ?_
      change drainedRow (t :: ts) i y.phase = goal
      rw [hy]
      exact hat
  | listenerCheck t ts n =>
    obtain ⟨hgoal,hmarked⟩ := hat
    refine closeInv_quiet (by rintro _ ⟨⟩) ?_
    simp only [procSection]
    split
    · rename_i hsyn
      refine ⟨hgoal,?_⟩
      rintro rfl
      exact hsyn
    · rename_i hsyn
      refine drainedRow_done hgoal ?_
      rintro rfl
      have hph : (s.tcb t.slot).phase ≠ .synReceived := by
        rw [TCB.phase]
        split
        · exact hsyn
        · decide
      have hfix := hmarked rfl
      cases hst : (s.tcb t.slot).phase <;> rw [hst] at hfix hph <;> simp_all [listenerRow,closeRow]
  | listenerFree t ts n =>
    obtain ⟨hgoal,hsyn⟩ := hat
    by_cases hi : t.slot = i
    · subst hi
      refine closeInv_op rfl ?_
      change drainedRow ts t.slot .closed = goal
      rw [drainedRow_cons,if_pos rfl] at hgoal
      have hclosed : listenerRow (s.tcb t.slot).phase = .closed := by
        rw [TCB.phase,hsyn rfl]
        split <;> rfl
      rw [← hgoal,hclosed,drainedRow]
      split <;> rfl
    · exact closeInv_quiet (by simp [procSection,hi]) (drainedRow_done hgoal fun hc => absurd hc hi)
  | _ => exact hat.elim

end CloseStep

/-- Sections left of a caller of `tcpClose`. -/
def AfterClose.rank : AfterClose → ℕ
  | .closeListener ts _ => 6*ts.length+3
  | .shutdown _ => 1
  | _ => 0

/-- Sections left of a close, at most. -/
def ProcPc.closeRank : ProcPc → ℕ
  | .shutdownReset _ => 1
  | .closeMark _ c => c.rank+3
  | .closeSend _ c => c.rank+2
  | .closeCommit _ c => c.rank+1
  | .listenerCheck _ ts _ => 6*ts.length+3
  | .listenerFree _ ts _ => 6*ts.length+2
  | .listenerClear ts _ => 6*ts.length+1
  | _ => 0

theorem closeRank_afterClose (s : Shared) (p : ProcSlot) (t : TcbRef) (c : AfterClose) :
    (afterClose s p t c).next.closeRank ≤ c.rank := by
  cases c with
  | shutdown how =>
    rw [afterClose]
    split <;> simp [ProcPc.closeRank,AfterClose.rank,sysReturn]
  | _ => exact le_rfl

theorem closeRank_procSection {i : Slot} {goal : TcbState} {s : Shared} {l : ProcPc} (p : ProcSlot)
    (b : Bool) (hI : CloseInv i goal s l) :
    (procSection s b p l).next.closeRank ≤ l.closeRank-1 := by
  cases l with
  | idle | shutdownReset | listenerFree => exact le_rfl
  | closeMark t c =>
    have hafter := closeRank_afterClose s p t c
    simp only [procSection]
    split
    · change _ ≤ c.rank+3-1
      omega
    · exact le_rfl
  | closeSend t c =>
    have hafter := closeRank_afterClose s p t c
    simp only [procSection]
    split
    · exact le_rfl
    · change (afterClose s p t c).next.closeRank ≤ c.rank+2-1
      omega
  | closeCommit t c => exact closeRank_afterClose s p t c
  | listenerClear ts n =>
    cases ts with
    | nil => exact le_rfl
    | cons t ts =>
      simp only [procSection,ProcPc.closeRank,AfterClose.rank,List.length_cons]
      omega
  | listenerCheck t ts n =>
    simp only [procSection]
    split <;> simp only [ProcPc.closeRank] <;> omega
  | _ => exact hI.elim

theorem CloseAt.of_rank {i : Slot} {goal : TcbState} {l : ProcPc} {y : TCB}
    (hat : CloseAt i goal l y) (hr : l.closeRank = 0) : l = .idle ∧ y.phase = goal := by
  cases l with
  | idle => exact ⟨rfl,hat⟩
  | shutdownReset | closeMark | closeSend | closeCommit | listenerClear | listenerCheck
  | listenerFree => cases hr
  | _ => exact hat.elim

/-- A close that is under way comes to its end and leaves the state it is to leave. -/
theorem close_ends {k : Kernel} {i : Slot} {goal : TcbState} {p : ProcSlot}
    (hI : CloseInv i goal k.shared (k.pc (.proc p))) (ok : ℕ → Bool) (n : ℕ)
    (hn : ProcPc.closeRank (k.pc (.proc p)) ≤ n) :
    (exec Kernel.step k (sections (.proc p) ok n)).pc (.proc p) = ProcPc.idle ∧
      ((exec Kernel.step k (sections (.proc p) ok n)).shared.tcb i).phase = goal := by
  have hstep (s : Shared) (b : Bool) (l : ProcPc) (h : CloseInv i goal s l) := h.step p b
  have hrank (s : Shared) (b : Bool) (l : ProcPc) (h : CloseInv i goal s l) :=
    closeRank_procSection p b h
  have hinv := sections_inv (τ := .proc p) (J := CloseInv i goal) hstep hI ok n
  have hend := sections_rank (τ := .proc p) (J := CloseInv i goal) ProcPc.closeRank
    hstep hrank hI ok n hn
  exact CloseAt.of_rank hinv hend

/-- The callers of `tcpClose` that return after it. -/
def AfterClose.returns : AfterClose → Bool
  | .closeListener _ _ => false
  | _ => true

/-- `Close` of a connection, `sys_shutdown`, or `tcpClose` after a failed `sys_accept` or
`sys_connect`. -/
theorem close_row (k : Kernel) (i : Slot) (p : ProcSlot) (t : TcbRef) (c : AfterClose)
    (ok : ℕ → Bool) (hpc : k.pc (.proc p) = ProcPc.closeMark t c) (hc : c.returns = true) :
    let k' := exec Kernel.step k (sections (.proc p) ok 4)
    k'.pc (.proc p) = ProcPc.idle ∧ (k'.shared.tcb i).phase =
      if t.slot = i then closeRow (k.shared.tcb i).phase else (k.shared.tcb i).phase := by
  refine close_ends ?_ ok 4 ?_
  · rw [hpc]
    cases c with
    | closeListener ts n => cases hc
    | _ => rfl
  · rw [hpc]
    cases c with
    | closeListener ts n => cases hc
    | _ => simp [ProcPc.closeRank,AfterClose.rank]

/-- `Close` of a listener. -/
theorem listener_close_row (k : Kernel) (i : Slot) (p : ProcSlot) (n : ℕ) (l : Fin 4)
    (ok : ℕ → Bool) (hpc : k.pc (.proc p) = ProcPc.listenerDrain n l) :
    let k' := exec Kernel.step k (sections (.proc p) ok 50)
    let queued := (k.shared.listener l).pending++(k.shared.listener l).accept
    k'.pc (.proc p) = ProcPc.idle ∧
      (k'.shared.tcb i).phase = drainedRow queued i (k.shared.tcb i).phase := by
  intro k' queued
  have hpc1 : (k.step (.run (.proc p) (ok 0))).1.pc (.proc p) = ProcPc.listenerClear queued n := by
    change (k.move (.proc p) _ (procSection k.shared (ok 0) p (k.pc (.proc p))).next).pc _ = _
    rw [Conf.move_pc_self,hpc]
    rfl
  have htcb : (k.step (.run (.proc p) (ok 0))).1.shared.tcb i = k.shared.tcb i := by
    change (k.shared.apply (procSection k.shared (ok 0) p (k.pc (.proc p)))).tcb i = _
    rw [hpc]
    exact apply_tcb_of_quiet nofun
  have hk' : k' = exec Kernel.step (k.step (.run (.proc p) (ok 0))).1
      (sections (.proc p) (fun j => ok (j+1)) 49) := exec_sections_succ k (.proc p) ok 49
  rw [hk',← htcb]
  refine close_ends ?_ _ 49 ?_
  · rw [hpc1]
    rfl
  · have hlen : queued.length ≤ 8 := by
      rw [List.length_append]
      exact (k.shared.listener l).depth_le
    rw [hpc1]
    simp only [ProcPc.closeRank]
    omega

/-! ## One pass of the scanner -/

/-- The rows whose event is a timer: TIME_WAIT runs out, or a retransmission is abandoned.
`x` is the TCB before the pass, at tick `now`. -/
inductive ScanRow (now : UInt64) (x : TCB) : TcbState → TcbState → Prop where
  | same (st : TcbState) : ScanRow now x st st
  | timeWait (hset : x.timeWaitDeadline ≠ 0) (hdue : x.timeWaitDeadline ≤ now) :
    ScanRow now x .timeWait .closed
  | abandon (st : TcbState) (hset : x.rtoDeadline ≠ 0) (hdue : ¬now < x.rtoDeadline)
    (hmax : tcpMaxRetransmits ≤ x.xmitCountHead) : ScanRow now x st .closed

section Scan

variable (now : UInt64) (x : TCB) (i : Slot)

/-- A TIME_WAIT expiry that was selected for slot `i` is one of `x`. -/
def FireOk (f : FireSet) : Prop := f.timeWait i = true → ScanRow now x x.phase .closed

/-- What holds of the TCB `y` in slot `i` during the pass. -/
def ScanAt : ScanPc → TCB → Prop
  | .idle, _ => True
  | .select, y => y = x
  | .rto j f, y => FireOk now x i f ∧ (j ≤ i → y = x)
  | .rtoFree j f, y => FireOk now x i f ∧ (j < i → y = x) ∧
      (j = i → ScanRow now x x.phase .closed)
  | .rtoSend j f _ _, y | .rtoRestore j f _, y | .persist j f, y | .persistSend j f _, y
  | .delack j f, y | .delackSend j f, y | .timeWait j f, y => FireOk now x i f ∧ (j < i → y = x)

def ScanInv (s : Shared) (l : ScanPc) : Prop :=
  s.pitTicks = now ∧ ScanRow now x x.phase (s.tcb i).phase ∧ ScanAt now x i l (s.tcb i)

end Scan

section ScanStep

variable {now : UInt64} {x : TCB} {i j : Slot} {s : Shared} {l : ScanPc} {f : Effect ScanPc}

theorem ScanInv.quiet (hI : ScanInv now x i s l) (hq : ∀ op, f.op ≠ some (i,op))
    (hat : ScanAt now x i f.next (s.tcb i)) : ScanInv now x i (s.apply f) f.next := by
  rw [ScanInv,apply_tcb_of_quiet hq]
  exact ⟨hI.1,hI.2.1,hat⟩

/-- A section that fires a timer of slot `j`: the others stay as they are. -/
theorem ScanInv.fire (hI : ScanInv now x i s l) (hop : f.op = some (j,op))
    (hrow : j = i → ScanRow now x x.phase (op.run s.pitTicks (s.tcb i)).phase)
    (hself : j = i → ∀ y, ScanAt now x i f.next y)
    (hother : j ≠ i → ScanAt now x i f.next (s.tcb i)) :
    ScanInv now x i (s.apply f) f.next := by
  by_cases hj : j = i
  · subst hj
    rw [ScanInv,apply_tcb_of_op hop]
    exact ⟨hI.1,hrow rfl,hself rfl _⟩
  · exact hI.quiet (by simp [hop,hj]) (hother hj)

/-- A section that fires a timer and keeps the state. -/
theorem ScanInv.keep (hI : ScanInv now x i s l) (hop : f.op = some (j,op))
    (hm : op.moves = false) (hb : op.binds = false)
    (hself : j = i → ∀ y, ScanAt now x i f.next y)
    (hother : j ≠ i → ScanAt now x i f.next (s.tcb i)) :
    ScanInv now x i (s.apply f) f.next := by
  refine hI.fire hop (fun hj => ?_) hself hother
  rw [phase_run _ _ hm hb]
  exact hI.2.1

theorem tcpRTOFireBegin_abandon {x : TCB} (h : (tcpRTOFireBegin now x).2 = .abandon) :
    x.rtoDeadline ≠ 0 ∧ ¬now < x.rtoDeadline ∧ tcpMaxRetransmits ≤ x.xmitCountHead := by
  rw [tcpRTOFireBegin] at h
  split at h
  · cases h
  · rename_i hset
    simp only [Bool.or_eq_true,Bool.not_eq_true',beq_iff_eq,not_or] at hset
    split at h
    · cases h
    · split at h
      · exact ⟨hset.2,‹_›,‹_›⟩
      · split at h <;> cases h

theorem fireOk_select (hx : s.tcb i = x) : FireOk s.pitTicks x i (scanSelect s.pitTicks s.tcb) := by
  intro hf
  simp only [scanSelect,hx,Bool.and_eq_true,beq_iff_eq,bne_iff_ne,decide_eq_true_eq] at hf
  obtain ⟨⟨⟨hact,hst⟩,hset⟩,hdue⟩ := hf
  rw [phase_active hact,hst]
  exact .timeWait hset hdue

theorem scanAt_next {f : FireSet} {y : TCB} (hf : FireOk now x i f) (hy : j < i → y = x) :
    ScanAt now x i (scanNext j f) y := by
  rw [scanNext,nextSlot]
  split
  · rename_i w hw
    split at hw
    · cases hw
      refine ⟨hf,fun hle => hy ?_⟩
      exact hle
    · cases hw
  · trivial

/-- One section of the scanner. -/
theorem ScanInv.step (b : Bool) (hI : ScanInv now x i s l) :
    ScanInv now x i (s.apply (scanSection s b l)) (scanSection s b l).next := by
  have hne {j : Slot} {y : TCB} (hj : j = i) : j < i → y = x := fun hlt => absurd hj hlt.ne
  have hat := hI.2.2
  cases l with
  | idle => exact hI.quiet (by rintro _ ⟨⟩) trivial
  | select =>
    refine hI.quiet (by rintro _ ⟨⟩) ⟨?_,fun _ => hat⟩
    rw [← hI.1]
    exact fireOk_select hat
  | rto j f =>
    obtain ⟨hf,hy⟩ := hat
    simp only [scanSection]
    split
    · refine hI.keep rfl rfl rfl (fun hj y => ?_) (fun hj => ?_)
      · subst hj
        dsimp only
        split
        · exact ⟨hf,hne rfl⟩
        · rename_i hab
          refine ⟨hf,hne rfl,fun _ => ?_⟩
          rw [hy le_rfl,hI.1] at hab
          obtain ⟨hset,hdue,hmax⟩ := tcpRTOFireBegin_abandon hab
          exact .abandon _ hset hdue hmax
        · exact ⟨hf,hne rfl⟩
      · dsimp only
        split
        · exact ⟨hf,fun hlt => hy hlt.le⟩
        · exact ⟨hf,fun hlt => hy hlt.le,fun hc => absurd hc hj⟩
        · exact ⟨hf,fun hlt => hy hlt.le⟩
    · exact hI.quiet (by rintro _ ⟨⟩) ⟨hf,fun hlt => hy hlt.le⟩
  | rtoFree j f =>
    obtain ⟨hf,hy,hclosed⟩ := hat
    exact hI.fire rfl hclosed (fun hj _ => ⟨hf,hne hj⟩) fun _ => ⟨hf,hy⟩
  | rtoSend j f flags saved =>
    obtain ⟨hf,hy⟩ := hat
    simp only [scanSection]
    have hnext {y : TCB} (hy : j < i → y = x) : ScanAt now x i
        (if hasFlag flags tcpFlagSYN then .rtoRestore j f saved else .persist j f) y := by
      split <;> exact ⟨hf,hy⟩
    split
    · exact hI.keep rfl rfl rfl (fun hj _ => hnext (hne hj)) fun _ => hnext hy
    · exact hI.quiet (by rintro _ ⟨⟩) (hnext hy)
  | rtoRestore | persistSend | delackSend =>
    exact hI.keep rfl rfl rfl (fun hj _ => ⟨hat.1,hne hj⟩) fun _ => hat
  | persist | delack =>
    simp only [scanSection]
    split
    · refine hI.keep rfl rfl rfl (fun hj y => ?_) (fun _ => ?_)
      · dsimp only
        split <;> exact ⟨hat.1,hne hj⟩
      · dsimp only
        split <;> exact hat
    · exact hI.quiet (by rintro _ ⟨⟩) hat
  | timeWait j f =>
    obtain ⟨hf,hy⟩ := hat
    simp only [scanSection]
    split
    · rename_i hfire
      refine hI.fire rfl (fun hj => ?_) (fun hj _ => scanAt_next hf (hne hj))
        fun _ => scanAt_next hf hy
      subst hj
      exact hf hfire
    · exact hI.quiet (by rintro _ ⟨⟩) (scanAt_next hf hy)

end ScanStep

/-- Sections left of the pass, at most. -/
def ScanPc.rank : ScanPc → ℕ
  | .idle => 0
  | .select => 129
  | .rto j _ => 8*(15-j.val)+8
  | .rtoFree j _ => 8*(15-j.val)+7
  | .rtoSend j _ _ _ => 8*(15-j.val)+7
  | .rtoRestore j _ _ => 8*(15-j.val)+6
  | .persist j _ => 8*(15-j.val)+5
  | .persistSend j _ _ => 8*(15-j.val)+4
  | .delack j _ => 8*(15-j.val)+3
  | .delackSend j _ => 8*(15-j.val)+2
  | .timeWait j _ => 8*(15-j.val)+1

theorem rank_scanNext (j : Slot) (f : FireSet) : (scanNext j f).rank ≤ 8*(15-j.val) := by
  rw [scanNext,nextSlot]
  split
  · rename_i w hw
    split at hw
    · cases hw
      simp only [ScanPc.rank]
      omega
    · cases hw
  · exact Nat.zero_le _

theorem rank_scanSection (s : Shared) (b : Bool) (l : ScanPc) :
    (scanSection s b l).next.rank ≤ l.rank-1 := by
  cases l with
  | timeWait j f =>
    simp only [scanSection]
    split <;> exact rank_scanNext j f
  | _ =>
    simp only [scanSection]
    repeat' split
    all_goals
      simp only [ScanPc.rank]
      omega

theorem ScanPc.isIdle_of_rank {l : ScanPc} (h : l.rank = 0) : l.isIdle = true := by
  cases l with
  | idle => rfl
  | _ => cases h

/-- One pass of `tcpRTOScanPass`; 129 sections are enough for it. -/
theorem scan_row (k : Kernel) (i : Slot) (ok : ℕ → Bool) (hidle : (k.pc .scan).isIdle = true)
    {n : ℕ} (hn : 129 ≤ n) :
    let k' := exec Kernel.step k (.scan :: sections .scan ok n)
    (k'.pc .scan).isIdle = true ∧
      ScanRow k.shared.pitTicks (k.shared.tcb i) (k.shared.tcb i).phase (k'.shared.tcb i).phase := by
  intro k'
  have hstep : (k.step .scan).1 = k.move .scan k.shared ScanPc.select := by
    simp only [Kernel.step,Ev.effect,hidle,if_true]
    rw [Shared.apply_silent ⟨rfl,rfl,rfl,rfl⟩]
  have hk' : k' = exec Kernel.step (k.move .scan k.shared ScanPc.select)
      (sections .scan ok n) := by
    rw [← hstep]
    rfl
  rw [hk']
  constructor
  · refine ScanPc.isIdle_of_rank (sections_rank (τ := .scan) (J := fun _ _ => True)
      ScanPc.rank (fun _ _ _ _ => trivial) (fun s b l _ => rank_scanSection s b l)
      trivial ok n ?_)
    exact hn
  · refine (sections_inv (τ := .scan) (J := ScanInv k.shared.pitTicks (k.shared.tcb i) i)
      (fun s b l hI => hI.step b) ?_ ok n).2.1
    exact ⟨rfl,.same _,rfl⟩

/-! ## Conformance -/

/-- Every single event in a reachable kernel comes to its end and takes each TCB along a row
of the table whose guard holds: a segment, a close of a connection, a close of a listener,
and a pass of the scanner. -/
theorem state_machine_conforms (i : Slot) (es : List Ev) (ok : ℕ → Bool) :
    let σ := exec (Sys.step i) .boot es
    (∀ hdr h payload, σ.1.pc .rx = RxPc.idle →
      let k' := exec Kernel.step σ.1 (.segment hdr h payload :: sections .rx ok 10)
      k'.pc .rx = RxPc.idle ∧
        SegRow ⟨σ.tcb i,σ.2.finIn,σ.1.shared.listener,h,payload⟩ (σ.tcb i).phase
          (k'.shared.tcb i).phase) ∧
    (∀ p t c, σ.1.pc (.proc p) = ProcPc.closeMark t c → c.returns = true →
      let k' := exec Kernel.step σ.1 (sections (.proc p) ok 4)
      k'.pc (.proc p) = ProcPc.idle ∧ (k'.shared.tcb i).phase =
        if t.slot = i then closeRow (σ.tcb i).phase else (σ.tcb i).phase) ∧
    (∀ p n l, σ.1.pc (.proc p) = ProcPc.listenerDrain n l →
      let k' := exec Kernel.step σ.1 (sections (.proc p) ok 50)
      let queued := (σ.1.shared.listener l).pending++(σ.1.shared.listener l).accept
      k'.pc (.proc p) = ProcPc.idle ∧
        (k'.shared.tcb i).phase = drainedRow queued i (σ.tcb i).phase) ∧
    ((σ.1.pc .scan).isIdle = true →
      let k' := exec Kernel.step σ.1 (.scan :: sections .scan ok 129)
      (k'.pc .scan).isIdle = true ∧
        ScanRow σ.1.shared.pitTicks (σ.tcb i) (σ.tcb i).phase (k'.shared.tcb i).phase) := by
  intro σ
  refine ⟨fun hdr h payload hidle => segment_row i es hdr h payload ok hidle,?_,?_,?_⟩
  · exact fun p t c hpc hc => close_row σ.1 i p t c ok hpc hc
  · exact fun p n l hpc => listener_close_row σ.1 i p n l ok hpc
  · exact fun hidle => scan_row σ.1 i ok hidle le_rfl

/-- The peer's FIN on an established connection: a row of the table. -/
theorem state_machine_conforms_fin :
    let σ := exec (Sys.step 0) .boot clientHandshake
    let k' := exec Kernel.step σ.1
      (fromPeer 1001 1 (tcpFlagFIN ||| tcpFlagACK) [] :: sections .rx (fun _ => true) 10)
    (k'.shared.tcb 0).phase = .closeWait ∧
      SegRow ⟨σ.tcb 0,σ.2.finIn,σ.1.shared.listener,
        ⟨80,tcpEphemeralBase,1001,1,tcpFlagFIN ||| tcpFlagACK,8192,[]⟩,[]⟩ (σ.tcb 0).phase
        (k'.shared.tcb 0).phase :=
  ⟨by decide +kernel,((state_machine_conforms 0 clientHandshake fun _ => true).1 ⟨peerIP,ourAddr⟩
    ⟨80,tcpEphemeralBase,1001,1,tcpFlagFIN ||| tcpFlagACK,8192,[]⟩ [] (by decide +kernel)).2⟩

/-- A reset takes an established connection to CLOSED, which no row of the table does. -/
theorem rst_closes_established :
    let k := exec Kernel.step .boot clientHandshake
    let k' := exec Kernel.step k
      (fromPeer 1001 0 tcpFlagRST [] :: sections .rx (fun _ => true) 10)
    (k.shared.tcb 0).phase = .established ∧ (k'.shared.tcb 0).phase = .closed := by
  decide +kernel

end Gooos
