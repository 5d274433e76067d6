import Mathlib
import Gooos.Tcp.SegmentArrives

/-!
# The receive window

`rcvWnd` is a counter beside `rxBuf`: the handlers take off what they store and the readers
give back what they take, so it is the free space of the ring. `sys_shutdown` and the opens
write one of the two without the other. The window a segment announces follows `rcvWnd`
through `lastAdvWin`, and its right edge never moves back once the peer's SYN is known.
-/

namespace Gooos

open Interleave Function
open TcpRingBuf (rbLen_eq rbRead_snd)
open Trace (Meets exec)
open UInt32 (lt_iff_toNat_lt toNat_add toNat_ofNat')

/-! ## Slots that were opened

A slot that was never opened has `mssLocal = 0`; both opens set it and nothing clears it. -/

/-- The receive loop is past `tcpDispatchToTCB` and will write the state of slot `i`. -/
def RxPc.worksOn (i : Slot) : RxPc → Bool
  | .synSent t _ _ | .synReceived t _ _ | .promote _ t _ _ | .established t _ _
  | .finWait1 t _ _ | .finWait2 t _ _ | .closing t _ => t.slot == i
  | .sendAck t again => again.isSome && t.slot == i
  | _ => false

/-- The echo server is closing slot `i`. -/
def EchoPc.closesOn (i : Slot) : EchoPc → Bool
  | .finSend j => j == i
  | .finCommit j => j == i
  | _ => false

variable {s : Shared} {ok : Bool} {u y : TCB}

/-- The receive loop turns to a slot because of its state. -/
theorem rx_worksOn {l : RxPc} {i : Slot} (h : (rxSection s ok l).next.worksOn i = true) :
    l.worksOn i = true ∨ (s.tcb i).state ≠ .closed := by
  have hgo := rx_goes s ok l
  generalize (rxSection s ok l).next = l' at h hgo
  cases hgo with
  | dispatch t hd payload _ hdis =>
    have hslot (st : TcbState) (hst : (s.tcb t.slot).state = st) (hne : st ≠ .closed)
        (ht : (t.slot == i) = true) : (s.tcb i).state ≠ .closed := by
      rw [beq_iff_eq] at ht
      rw [← ht,hst]
      exact hne
    cases hdis with
    | synSent hst | synReceived hst | established hst | finWait1 hst | finWait2 hst
    | closing hst => exact .inr (hslot _ hst nofun h)
    | _ => cases h
  | synSent t hd payload again =>
    rw [RxPc.worksOn,Bool.and_eq_true] at h
    exact .inl h.2
  | promote | accepted | promoted | again => exact .inl h
  | _ => cases h

theorem echo_closesOn {l : EchoPc} {i : Slot} (h : (echoSection s ok l).next.closesOn i = true) :
    l.closesOn i = true ∨ (s.tcb i).state ≠ .closed := by
  have hskip (j : Slot) : (echoNext j).closesOn i = false := by
    rw [echoNext]
    split <;> rfl
  cases l with
  | finSend j =>
    simp only [echoSection] at h
    split at h
    · exact .inl h
    · rw [hskip] at h
      cases h
  | check j =>
    simp only [echoSection] at h
    split at h
    · rw [hskip] at h
      cases h
    · split at h
      · split at h
        · rw [hskip] at h
          cases h
        · split at h
          · rw [hskip] at h
            cases h
          · cases h
      · rename_i hst
        split at h
        · rw [EchoPc.closesOn,beq_iff_eq] at h
          rw [← h,hst]
          exact .inr (by rintro ⟨⟩)
        · rw [hskip] at h
          cases h
      · rw [hskip] at h
        cases h
  | send j bytes =>
    simp only [echoSection] at h
    split at h
    · cases h
    · rw [hskip] at h
      cases h
  | idle => cases h
  | commit | finCommit => exact absurd h (by simp [echoSection,hskip])

/-- What is done to slot `i` as to a connection is done after an open. -/
structure Opened (i : Slot) (x : TCB) (pc : (τ : Tid) → PcOf τ) : Prop where
  state : x.state ≠ .closed → x.mssLocal ≠ 0
  rx : (show RxPc from pc .rx).worksOn i = true → x.mssLocal ≠ 0
  echo : (show EchoPc from pc .echo).closesOn i = true → x.mssLocal ≠ 0

section Opened

variable {i : Slot} {k : Kernel} {e : Ev} {τ : Tid} {f : Effect (PcOf τ)}

/-- A thread that moves turns to slot `i` only if it was opened. -/
theorem Opened.next (hO : Opened i (k.shared.tcb i) k.pc) (he : e.effect k = some ⟨τ,f⟩)
    (hy : y.mssLocal = (k.shared.tcb i).mssLocal)
    (hst : y.state ≠ .closed → y.mssLocal ≠ 0) :
    Opened i y (update k.pc τ f.next) := by
  refine ⟨hst,?_,?_⟩
  · intro h
    rw [hy]
    by_cases hτ : τ = .rx
    · subst hτ
      rcases effect_rx he with ⟨_,_,_,_,_,rfl⟩ | ⟨ok,_,rfl⟩
      · cases h
      · exact (rx_worksOn h).elim hO.rx hO.state
    · rw [update_of_ne (Ne.symm hτ)] at h
      exact hO.rx h
  · intro h
    rw [hy]
    by_cases hτ : τ = .echo
    · subst hτ
      rcases effect_echo he with ⟨_,_,rfl⟩ | ⟨ok,_,rfl⟩
      · cases h
      · exact (echo_closesOn h).elim hO.echo hO.state
    · rw [update_of_ne (Ne.symm hτ)] at h
      exact hO.echo h

/-- An operation that leaves the slot in some state finds it opened. -/
theorem Opened.of_op {op : TcbOp} (hO : Opened i (k.shared.tcb i) k.pc) (now : UInt64)
    (he : e.effect k = some ⟨τ,f⟩) (hop : f.op = some (i,op)) (ho : op.opens = false)
    (hst : (op.run now (k.shared.tcb i)).state ≠ .closed) : (k.shared.tcb i).mssLocal ≠ 0 := by
  rcases op.run_state now (k.shared.tcb i) with hsame | hleads
  · exact hO.state (hsame ▸ hst)
  · obtain ⟨ok,_,_,hd⟩ := does_of_op he hop
    generalize hl : k.pc τ = l at hd
    cases hd with
    | synSent | synReceived | established | finWait1 | finWait2 | closing =>
      exact hO.rx (by rw [hl]; simp [RxPc.worksOn])
    | echoFinCommit => exact hO.echo (by rw [hl]; simp [EchoPc.closesOn])
    | closeMark p t c x hx =>
      rw [TcbOp.leads_closeMark] at hleads
      refine hO.state ?_
      rcases hleads with ⟨hs,_⟩ | ⟨hs,_⟩
      · rw [hs]
        exact nofun
      · rw [hs]
        exact nofun
    | openAlloc | connAlloc | rxFree | rtoFree | scanFree | connFree | listenerFree =>
      exact absurd rfl hst
    | openInit | connInit => cases ho
    | _ => cases hleads

theorem Opened.op {op : TcbOp} (hO : Opened i (k.shared.tcb i) k.pc) (now : UInt64)
    (he : e.effect k = some ⟨τ,f⟩) (hop : f.op = some (i,op)) :
    Opened i (op.run now (k.shared.tcb i)) (update k.pc τ f.next) := by
  cases ho : op.opens with
  | false =>
    have hmss := (op.run_frame now (k.shared.tcb i)).mssLocal ho
    exact hO.next he hmss fun hst => by rw [hmss]; exact hO.of_op now he hop ho hst
  | true =>
    have hset : (op.run now (k.shared.tcb i)).mssLocal ≠ 0 := by
      cases op <;> first | cases ho; done | (change tcpDefaultMSS ≠ 0; decide)
    exact ⟨fun _ => hset,fun _ => hset,fun _ => hset⟩

end Opened

/-! ## The window and the ring -/

/-- The window is the free space of the ring. -/
def Accounted (x : TCB) : Prop := x.rcvWnd.toNat+x.rxBuf.rbLen = tcpRxBufSize

/-- The step writes `rxBuf` and `rcvWnd` together: an open and a shutdown with SHUT_RDWR
find the ring empty. -/
def ringKept (i : Slot) (σ : Sys) (e : Ev) : Bool :=
  match σ.opOn i e with
  | some (.passiveInit _ _) | some .activeInit | some .shutdownReset =>
    (σ.tcb i).rxBuf.rbLen == 0
  | _ => true

theorem length_storedBytes_le (x : TCB) (h : TCPHeader) (payload : List UInt8) :
    (storedBytes x h payload).length ≤ x.rxBuf.rbFree := by
  rw [storedBytes]
  split
  · rw [List.length_take,TcpRingBuf.rbWrite_snd]
    omega
  · exact Nat.zero_le _

/-- What a handler stores goes off the window. -/
theorem Accounted.stores {x u : TCB} {h : TCPHeader} {payload : List UInt8} {fin : Bool}
    (hA : Accounted x) (hs : Stores x u (storedBytes x h payload) fin) : Accounted u := by
  have hfit := length_storedBytes_le x h payload
  rw [Accounted] at hA ⊢
  rw [TcpRingBuf.rbFree_eq,← rbLen_eq] at hfit
  rw [hs.rcvWnd,rbLen_eq,hs.rxBuf,List.length_append,← rbLen_eq]
  omega

/-- Giving back no more than was buffered meets the cap at most. -/
theorem recoverWnd_toNat {w : UInt32} {n : ℕ} (h : w.toNat+n ≤ tcpRxBufSize) :
    (recoverWnd w n).toNat = w.toNat+n := by
  have hcap : (UInt32.ofNat tcpRxBufSize).toNat = tcpRxBufSize := by decide
  have hsize : tcpRxBufSize = 8192 := rfl
  have hn : (UInt32.ofNat n).toNat = n :=
    UInt32.toNat_ofNat_of_lt' (by simp only [UInt32.size]; omega)
  have hsum : (w+UInt32.ofNat n).toNat = w.toNat+n := by
    rw [toNat_add,hn,Nat.mod_eq_of_lt (by omega)]
  rw [recoverWnd]
  split
  · rename_i hlt
    rw [lt_iff_toNat_lt] at hlt
    omega
  · exact hsum

/-- A reader gives back to the window what it takes. -/
theorem Accounted.take {x : TCB} (hA : Accounted x) (n : ℕ) :
    Accounted { x with
      rxBuf := (x.rxBuf.rbRead n).1
      rcvWnd := recoverWnd x.rcvWnd (x.rxBuf.rbRead n).2.length } := by
  rw [Accounted] at hA ⊢
  rw [rbLen_eq] at hA ⊢
  have hgot : (x.rxBuf.rbRead n).2.length = min n x.rxBuf.contents.length := by
    rw [rbRead_snd,List.length_take]
  rw [recoverWnd_toNat (by omega)]
  simp only [TcpRingBuf.contents_rbRead,List.length_drop]
  omega

theorem Accounted.run {i : Slot} {σ : Sys} {e : Ev} {op : TcbOp} (now : UInt64)
    (hA : op.opens = false → Accounted (σ.tcb i)) (hG : ringKept i σ e = true)
    (hop : σ.opOn i e = some op) : Accounted (op.run now (σ.tcb i)) := by
  simp only [ringKept,hop] at hG
  have hempty (w : UInt32) (hw : w.toNat = tcpRxBufSize) (hlen : (σ.tcb i).rxBuf.rbLen = 0) :
      w.toNat+(σ.tcb i).rxBuf.rbLen = tcpRxBufSize := by rw [hw,hlen,Nat.add_zero]
  cases op with
  | passiveInit | activeInit => exact hempty _ rfl (beq_iff_eq.mp hG)
  | shutdownReset =>
    have hlen := hA rfl
    rw [Accounted,beq_iff_eq.mp hG] at hlen
    exact hlen
  | established h payload => exact (hA rfl).stores (tcpHandleEstablished_stores now h payload _)
  | finWait1 h payload => exact (hA rfl).stores (tcpHandleFinWait1_stores now h payload _).1
  | finWait2 h payload => exact (hA rfl).stores (tcpHandleFinWait2_stores now h payload _).1
  | recvTake | echoTake => exact (hA rfl).take _
  | synSentAck h =>
    obtain ⟨f,hf⟩ := synSentAck_shape now h (σ.tcb i)
    rw [TcbOp.run,hf]
    exact hA rfl
  | _ =>
    have hfr := TcbOp.run_frame now (σ.tcb i)
    rw [Accounted,(hfr _).rcvWnd rfl rfl rfl,(hfr _).rxBuf rfl rfl]
    exact hA rfl

/-! ## The announced window -/

/-- A segment of `x` announces the window `w`, and `y` remembers it. -/
structure Announces (x y : TCB) (w : UInt16) : Prop where
  le : w.toNat ≤ x.rcvWnd.toNat
  near : x.rcvWnd.toNat < w.toNat+tcpRxBufSize/2
  choice : w.toNat = x.lastAdvWin.toNat ∨ w.toNat = x.rcvWnd.toNat
  kept : y.lastAdvWin.toNat = w.toNat

/-- Below the threshold of the silly-window rule the old value is announced again. -/
theorem tcpAdvertiseWin_announces {x : TCB} (hle : x.rcvWnd.toNat ≤ tcpRxBufSize) :
    Announces x (tcpAdvertiseWin x).1 (tcpAdvertiseWin x).2 := by
  have hsize : tcpRxBufSize = 8192 := rfl
  have hmax : (0xFFFF : UInt32).toNat = 65535 := rfl
  have hfree : ¬(0xFFFF : UInt32) < x.rcvWnd := by
    rw [lt_iff_toNat_lt]
    omega
  have hhalf : (UInt32.ofNat (tcpRxBufSize/2)).toNat = 4096 := by decide
  have hlim : (if x.mssEff.toUInt32 ≠ 0 ∧ x.mssEff.toUInt32 < UInt32.ofNat (tcpRxBufSize/2)
      then x.mssEff.toUInt32 else UInt32.ofNat (tcpRxBufSize/2)).toNat ≤ 4096 := by
    split
    · rename_i hmss
      rw [lt_iff_toNat_lt] at hmss
      omega
    · exact hhalf.le
  rw [tcpAdvertiseWin]
  generalize (if x.mssEff.toUInt32 ≠ 0 ∧ x.mssEff.toUInt32 < UInt32.ofNat (tcpRxBufSize/2)
    then x.mssEff.toUInt32 else UInt32.ofNat (tcpRxBufSize/2)) = threshold at hlim ⊢
  split
  · rename_i hlast
    obtain ⟨hlt,hgrow⟩ := hlast
    have hsub := UInt32.toNat_sub_of_le _ _ (UInt32.le_of_lt hlt)
    rw [lt_iff_toNat_lt] at hlt hgrow
    have hcap : ¬(0xFFFF : UInt32) < x.lastAdvWin := by
      rw [lt_iff_toNat_lt]
      omega
    have hw : x.lastAdvWin.toUInt16.toNat = x.lastAdvWin.toNat := by
      rw [UInt32.toNat_toUInt16,Nat.mod_eq_of_lt (by omega)]
    rw [if_neg hcap]
    show Announces x x x.lastAdvWin.toUInt16
    exact ⟨by omega,by omega,.inl hw,hw.symm⟩
  · have hw : x.rcvWnd.toUInt16.toNat = x.rcvWnd.toNat := by
      rw [UInt32.toNat_toUInt16,Nat.mod_eq_of_lt (by omega)]
    show Announces x { x with lastAdvWin := x.rcvWnd } x.rcvWnd.toUInt16
    exact ⟨by omega,by omega,.inr hw,hw.symm⟩

/-- A transmission announces a window, or nothing is composed. -/
theorem tcpSendSegment_announces {x : TCB} (hle : x.rcvWnd.toNat ≤ tcpRxBufSize) (ourIP : UInt32)
    (ok : Bool) (flags : UInt8) (options payload : List UInt8) :
    tcpSendSegment ourIP ok x flags options payload = (x,none) ∨
    ∃ w, Announces x (tcpSendSegment ourIP ok x flags options payload).1 w ∧
      ∀ seg, (tcpSendSegment ourIP ok x flags options payload).2 = some seg → seg.window = w := by
  have hann := tcpAdvertiseWin_announces hle
  rw [tcpSendSegment]
  dsimp only
  split
  · exact .inl rfl
  · split
    · exact .inl rfl
    · refine .inr ⟨_,hann,fun seg hseg => ?_⟩
      split at hseg
      · cases hseg
        rfl
      · cases hseg

theorem tcpSendSegment_window {x : TCB} {ourIP : UInt32} {flags : UInt8}
    {options payload : List UInt8} {seg : Segment} (hle : x.rcvWnd.toNat ≤ tcpRxBufSize)
    (hseg : (tcpSendSegment ourIP ok x flags options payload).2 = some seg) :
    Announces x (tcpSendSegment ourIP ok x flags options payload).1 seg.window := by
  rcases tcpSendSegment_announces hle ourIP ok flags options payload with hnone | ⟨w,hann,hw⟩
  · rw [hnone] at hseg
    cases hseg
  · rw [hw seg hseg]
    exact hann

/-- The window of `x` is exact: it is the free space of the ring, a segment announces no more
than that and lags behind by less than half the ring, and neither the handlers nor the
readers reach their clamps. -/
structure WindowExact (x : TCB) : Prop where
  wnd : x.rcvWnd.toNat = tcpRxBufSize-x.rxBuf.rbLen
  announced : ∀ ourIP ok flags options payload seg,
    (tcpSendSegment ourIP ok x flags options payload).2 = some seg →
    seg.window.toNat ≤ x.rxBuf.rbFree ∧ x.rxBuf.rbFree < seg.window.toNat+tcpRxBufSize/2
  stored : ∀ payload, (x.rxBuf.rbWrite payload).2 ≤ x.rcvWnd.toNat
  taken : ∀ n, x.rcvWnd.toNat+(x.rxBuf.rbRead n).2.length ≤ tcpRxBufSize

theorem Accounted.exact {x : TCB} (hA : Accounted x) : WindowExact x := by
  have hfree : x.rxBuf.rbFree = x.rcvWnd.toNat := by
    rw [Accounted] at hA
    rw [TcpRingBuf.rbFree_eq,← rbLen_eq]
    omega
  rw [Accounted] at hA
  refine ⟨by omega,?_,?_,?_⟩
  · intro ourIP ok flags options payload seg hseg
    have hann := tcpSendSegment_window (by omega) hseg
    rw [hfree]
    exact ⟨hann.le,hann.near⟩
  · intro payload
    rw [TcpRingBuf.rbWrite_snd,hfree]
    exact Nat.min_le_right _ _
  · intro n
    rw [rbRead_snd,List.length_take,← rbLen_eq]
    omega

/-- In every run whose opens and SHUT_RDWR shutdowns of slot `i` find its ring empty, the
window of a connection past the peer's SYN is exact. -/
theorem recv_window_exact (i : Slot) (es : List Ev)
    (h : Meets (Sys.step i) (fun σ e => ringKept i σ e = true) .boot es) :
    let x := (exec (Sys.step i) .boot es).tcb i
    x.active = true → x.state.hasPeer = true → WindowExact x := by
  have hboot : Opened i (Sys.boot.tcb i) Sys.boot.1.pc ∧
      ((Sys.boot.tcb i).mssLocal ≠ 0 → Accounted (Sys.boot.tcb i)) :=
    ⟨⟨fun hst => absurd rfl hst,nofun,nofun⟩,fun hmss => absurd rfl hmss⟩
  refine (fun hrun => ?_) (slotInv_run (i := i)
    (J := fun x _ pc => Opened i x pc ∧ (x.mssLocal ≠ 0 → Accounted x))
    (G := fun σ e => ringKept i σ e) ?_ ?_ hboot h)
  · obtain ⟨hO,hA⟩ := hrun
    intro x _ hst
    refine (hA (hO.state ?_)).exact
    intro hc
    rw [hc] at hst
    cases hst
  · rintro σ e τ f op ⟨hO,hA⟩ hG he hop
    refine ⟨hO.op _ he hop,fun hmss => ?_⟩
    refine Accounted.run _ (fun ho => hA ?_) hG (Sys.opOn_eq he hop)
    rw [← (op.run_frame σ.1.shared.pitTicks (σ.tcb i)).mssLocal ho]
    exact hmss
  · rintro σ e τ f ⟨hO,hA⟩ _ he _
    exact ⟨hO.next he rfl hO.state,hA⟩

/-- Bytes arrive and are read. -/
def bytesRead : List Ev :=
  clientHandshake++fromPeer 1001 1 tcpFlagACK [1,2,3] :: runs .rx 4++
  .sys 0 (.recv 3 userAddrMin 2 0) :: runs (.proc 0) 1

theorem recv_window_exact_read :
    Meets (Sys.step 0) (fun σ e => ringKept 0 σ e = true) .boot bytesRead ∧
    ((exec (Sys.step 0) .boot bytesRead).tcb 0).rxBuf.rbLen = 1 ∧
    WindowExact ((exec (Sys.step 0) .boot bytesRead).tcb 0) :=
  ⟨by decide +kernel,by decide +kernel,
    recv_window_exact 0 bytesRead (by decide +kernel) (by decide +kernel) (by decide +kernel)⟩

/-- Bytes arrive and the process shuts the connection down in both directions. -/
def bytesDiscarded : List Ev :=
  clientHandshake++fromPeer 1001 1 tcpFlagACK [1,2,3] :: runs .rx 4++
  .sys 0 (.shutdown 3 2) :: runs (.proc 0) 4

/-- `sys_shutdown` empties the ring and leaves the window as it was. -/
theorem shutdown_leaves_window :
    let x := (exec (Sys.step 0) .boot bytesDiscarded).tcb 0
    x.active = true ∧ x.state = .finWait1 ∧ x.rxBuf.rbLen = 0 ∧
      x.rcvWnd.toNat ≠ tcpRxBufSize-x.rxBuf.rbLen := by
  decide +kernel

/-! ## The right edge -/

namespace Sys

/-- How many sequence numbers of the peer an event consumes on slot `i`. -/
def consumes (i : Slot) (σ : Sys) (e : Ev) : ℕ :=
  let x := σ.tcb i
  match σ.opOn i e with
  | some (.established h payload) => (storedBytes x h payload).length+(estFinIn x h).toNat
  | some (.finWait1 h payload) | some (.finWait2 h payload) =>
    (storedBytes x h payload).length+(fwFinIn x h payload).toNat
  | _ => 0

/-- The sequence numbers consumed on slot `i` in a run. -/
def consumed (i : Slot) : Sys → List Ev → ℕ
  | _, [] => 0
  | σ, e :: es => σ.consumes i e+consumed i (σ.step i e).1 es

end Sys

/-- Once the peer's SYN was consumed nothing waits for it any more. -/
structure SynDone (i : Slot) (x : TCB) (H : Hist) (pc : (τ : Tid) → PcOf τ) : Prop where
  state : H.synced = true → x.state ≠ .synSent
  rx : H.synced = true → ∀ t h payload, pc .rx = RxPc.synSent t h payload → t.slot ≠ i

/-- The receive loop takes up a SYN|ACK because of the state it found. -/
theorem rx_next_synSent {l : RxPc} {t : TcbRef} {h : TCPHeader}
    {payload : List UInt8} (hl : (rxSection s ok l).next = .synSent t h payload) :
    (s.tcb t.slot).state = .synSent := by
  have hgo := rx_goes s ok l
  rw [hl] at hgo
  cases hgo with
  | dispatch _ _ _ _ hdis =>
    cases hdis with
    | synSent hst => exact hst

section SynDone

variable {i : Slot} {σ : Sys} {e : Ev} {τ : Tid} {f : Effect (PcOf τ)}

theorem SynDone.next (hS : SynDone i (σ.tcb i) σ.2 σ.1.pc) (he : e.effect σ.1 = some ⟨τ,f⟩)
    {H : Hist} (hH : H.synced = σ.2.synced)
    (hst : H.synced = true → y.state ≠ .synSent) :
    SynDone i y H (update σ.1.pc τ f.next) := by
  refine ⟨hst,fun hsyn t h payload hl ht => ?_⟩
  rw [hH] at hsyn
  by_cases hτ : τ = .rx
  · subst hτ
    rcases effect_rx he with ⟨_,_,_,_,_,rfl⟩ | ⟨ok,_,rfl⟩
    · cases hl
    · have hs := rx_next_synSent hl
      rw [ht] at hs
      exact hS.state hsyn hs
  · rw [update_of_ne (Ne.symm hτ)] at hl
    exact hS.rx hsyn t h payload hl ht

theorem after_synced {op : TcbOp} (ho : op.opens = false) (hs : ∀ h, op ≠ .synSentAck h) (H : Hist)
    (x : TCB) : (H.after x op).synced = H.synced := by
  cases op with
  | passiveInit | activeInit => cases ho
  | synSentAck h => exact absurd rfl (hs h)
  | _ => rfl

/-- Only an active open leads to SYN_SENT. -/
theorem run_ne_synSent {op : TcbOp} {x : TCB} (now : UInt64) (ho : op.opens = false)
    (hx : x.state ≠ .synSent) : (op.run now x).state ≠ .synSent := by
  intro hst
  rcases op.run_state now x with hsame | hleads
  · exact hx (hsame.symm.trans hst)
  · rw [hst] at hleads
    cases op with
    | closeMark =>
      rw [TcbOp.leads_closeMark] at hleads
      simp at hleads
    | passiveInit | activeInit => cases ho
    | _ => cases hleads

theorem SynDone.op {op : TcbOp} (hS : SynDone i (σ.tcb i) σ.2 σ.1.pc) (now : UInt64)
    (he : e.effect σ.1 = some ⟨τ,f⟩) (hop : f.op = some (i,op)) :
    SynDone i (op.run now (σ.tcb i)) (σ.2.after (σ.tcb i) op)
      (update σ.1.pc τ f.next) := by
  obtain ⟨ok,_,rfl,hd⟩ := does_of_op he hop
  by_cases hsyn : ∃ h, op = .synSentAck h
  · obtain ⟨h,rfl⟩ := hsyn
    generalize hl : σ.1.pc τ = l at hd
    cases hd with
    | synSent t h payload =>
      obtain ⟨g,hg⟩ := synSentAck_shape now h (σ.tcb t.slot)
      refine ⟨fun _ => ?_,fun _ t' h' p' hnext => ?_⟩
      · rw [TcbOp.run,hg]
        rintro ⟨⟩
      · cases hnext
  · have hne (h : TCPHeader) : op ≠ .synSentAck h := fun heq => hsyn ⟨h,heq⟩
    cases ho : op.opens with
    | false =>
      have hH := after_synced ho hne σ.2 (σ.tcb i)
      refine hS.next he hH fun hs => ?_
      rw [hH] at hs
      exact run_ne_synSent now ho (hS.state hs)
    | true =>
      generalize hl : σ.1.pc τ = l at hd
      cases hd with
      | openInit l t h =>
        refine ⟨fun _ => (by rintro ⟨⟩),fun _ t' h' p' hnext => ?_⟩
        cases hnext
      | connInit p c t timeout => exact ⟨(by rintro ⟨⟩),(by rintro ⟨⟩)⟩
      | _ => cases ho

end SynDone

/-- Since a segment with ACK number `a` and window `w` was sent, `n` sequence numbers were
consumed: what may be announced now reaches at least as far. -/
structure EdgeKept (a : UInt32) (w n : ℕ) (x : TCB) : Prop where
  rcvNxt : x.rcvNxt = a+UInt32.ofNat n
  rcvWnd : w ≤ n+x.rcvWnd.toNat
  lastAdvWin : w ≤ n+x.lastAdvWin.toNat
  bound : x.rcvWnd.toNat ≤ tcpRxBufSize

section Edge

variable {a : UInt32} {w n : ℕ} {x : TCB}

theorem EdgeKept.stores {bytes : List UInt8} {fin : Bool} (hE : EdgeKept a w n x)
    (hs : Stores x u bytes fin) (hadv : u.lastAdvWin = x.lastAdvWin) :
    EdgeKept a w (n+(bytes.length+fin.toNat)) u := by
  have hwnd := hs.rcvWnd
  have hw := hE.rcvWnd
  have hl := hE.lastAdvWin
  have hb := hE.bound
  refine ⟨?_,by omega,by rw [hadv]; omega,by omega⟩
  have hfin : (if fin then 1 else 0 : UInt32) = UInt32.ofNat fin.toNat := by
    cases fin <;> rfl
  rw [hs.rcvNxt,hE.rcvNxt,UInt32.ofNat_add,UInt32.ofNat_add]
  grind

/-- A window that grows keeps the edge. -/
theorem EdgeKept.grow (hE : EdgeKept a w n x) (hnxt : u.rcvNxt = x.rcvNxt)
    (hwnd : x.rcvWnd.toNat ≤ u.rcvWnd.toNat) (hadv : u.lastAdvWin = x.lastAdvWin)
    (hb : u.rcvWnd.toNat ≤ tcpRxBufSize) : EdgeKept a w n u :=
  ⟨hnxt.trans hE.rcvNxt,hE.rcvWnd.trans (by omega),by rw [hadv]; exact hE.lastAdvWin,hb⟩

theorem le_recoverWnd (m : ℕ) (hx : x.rcvWnd.toNat ≤ tcpRxBufSize) (hm : m ≤ tcpRxBufSize) :
    x.rcvWnd.toNat ≤ (recoverWnd x.rcvWnd m).toNat := by
  have hsize : tcpRxBufSize = 8192 := rfl
  have hn : (UInt32.ofNat m).toNat = m :=
    UInt32.toNat_ofNat_of_lt' (by simp only [UInt32.size]; omega)
  rw [recoverWnd]
  split
  · exact hx
  · rw [toNat_add]
    omega

/-- A reader gives back at most the ring. -/
theorem EdgeKept.take (hE : EdgeKept a w n x) (m : ℕ) : EdgeKept a w n { x with
    rxBuf := (x.rxBuf.rbRead m).1
    rcvWnd := recoverWnd x.rcvWnd (x.rxBuf.rbRead m).2.length } := by
  refine hE.grow rfl (le_recoverWnd _ hE.bound ?_) rfl (recoverWnd_le _ _)
  have hlen := x.rxBuf.rbLen_le
  rw [rbLen_eq] at hlen
  rw [rbRead_snd,List.length_take]
  omega

/-- The window announced next is the old one or the whole of `rcvWnd`. -/
theorem EdgeKept.announces {v : UInt16} (hE : EdgeKept a w n x) (hv : Announces x y v) :
    w ≤ n+v.toNat := by
  rcases hv.choice with hold | hnew
  · rw [hold]
    exact hE.lastAdvWin
  · rw [hnew]
    exact hE.rcvWnd

theorem EdgeKept.send (hE : EdgeKept a w n x) (ourIP : UInt32) (ok : Bool) (flags : UInt8)
    (options payload : List UInt8) :
    EdgeKept a w n (tcpSendSegment ourIP ok x flags options payload).1 := by
  have hann := tcpSendSegment_announces hE.bound ourIP ok flags options payload
  obtain ⟨v,hv⟩ := tcpSendSegment_fst ourIP ok x flags options payload
  rcases hann with hnone | ⟨u,hu,_⟩
  · rw [hnone]
    exact hE
  · have hkept := hu.kept
    have hle := hE.announces hu
    rw [hv] at hkept ⊢
    refine ⟨hE.rcvNxt,hE.rcvWnd,?_,hE.bound⟩
    rw [hkept]
    exact hle

/-- One step of a connection whose peer is known. -/
theorem EdgeKept.run {i : Slot} {σ : Sys} {e : Ev} {op : TcbOp} (hE : EdgeKept a w n (σ.tcb i))
    (now : UInt64) (hop : σ.opOn i e = some op) (ho : op.opens = false)
    (hs : ∀ h, op ≠ .synSentAck h) :
    EdgeKept a w (n+σ.consumes i e) (op.run now (σ.tcb i)) := by
  have hfr := op.run_frame now (σ.tcb i)
  simp only [Sys.consumes,hop]
  cases op with
  | passiveInit | activeInit => cases ho
  | synSentAck h => exact absurd rfl (hs h)
  | established h payload =>
    exact hE.stores (tcpHandleEstablished_stores now h payload _) (hfr.lastAdvWin rfl)
  | finWait1 h payload =>
    exact hE.stores (tcpHandleFinWait1_stores now h payload _).1 (hfr.lastAdvWin rfl)
  | finWait2 h payload =>
    exact hE.stores (tcpHandleFinWait2_stores now h payload _).1 (hfr.lastAdvWin rfl)
  | recvTake | echoTake => exact hE.take _
  | shutdownReset => exact hE.grow rfl le_rfl rfl hE.bound
  | send ourIP ok flags options payload => exact hE.send ..
  | _ =>
    have hwnd := hfr.rcvWnd rfl rfl rfl
    refine hE.grow (hfr.rcvNxt rfl).1 ?_ (hfr.lastAdvWin rfl) ?_
    · rw [hwnd]
    · rw [hwnd]
      exact hE.bound

end Edge

/-- The peer of slot `i` is known and the edge of an earlier segment is kept. -/
structure EdgeAt (i : Slot) (a : UInt32) (w n : ℕ) (σ : Sys) : Prop where
  edge : EdgeKept a w n (σ.tcb i)
  syn : SynDone i (σ.tcb i) σ.2 σ.1.pc
  synced : σ.2.synced = true

theorem SynDone.not_synSentAck {i : Slot} {σ : Sys} {e : Ev} {τ : Tid} {f : Effect (PcOf τ)}
    {op : TcbOp} (hS : SynDone i (σ.tcb i) σ.2 σ.1.pc) (hsyn : σ.2.synced = true)
    (he : e.effect σ.1 = some ⟨τ,f⟩) (hop : f.op = some (i,op)) (h : TCPHeader) :
    op ≠ .synSentAck h := by
  rintro rfl
  obtain ⟨ok,_,_,hd⟩ := does_of_op he hop
  generalize hl : σ.1.pc τ = l at hd
  cases hd with
  | synSent t _ payload => exact hS.rx hsyn t h payload hl rfl

theorem EdgeAt.step {i : Slot} {a : UInt32} {w n : ℕ} {σ : Sys} {e : Ev} (hE : EdgeAt i a w n σ)
    (hc : σ.continues i e = true) : EdgeAt i a w (n+σ.consumes i e) (σ.step i e).1 := by
  have hidle (hon : σ.opOn i e = none) : σ.consumes i e = 0 := by
    simp only [Sys.consumes,hon]
  cases he : e.effect σ.1 with
  | none =>
    obtain ⟨htcb,hH,hpc⟩ := Sys.step_env (i := i) he
    rw [hidle (by simp only [Sys.opOn,he,Option.bind_none])]
    exact ⟨by rw [htcb]; exact hE.edge,by rw [htcb,hH,hpc]; exact hE.syn,by rw [hH]; exact hE.synced⟩
  | some v =>
    obtain ⟨τ,f⟩ := v
    by_cases hi : ∃ op, f.op = some (i,op)
    · obtain ⟨op,hop⟩ := hi
      have hon := Sys.opOn_eq he hop
      obtain ⟨htcb,hH,hpc⟩ := Sys.step_op he hop
      have ho : op.opens = false := by simpa [Sys.continues,hon] using hc
      have hs := hE.syn.not_synSentAck hE.synced he hop
      refine ⟨?_,?_,?_⟩
      · rw [htcb]
        exact hE.edge.run _ hon ho hs
      · rw [htcb,hH,hpc]
        exact hE.syn.op _ he hop
      · rw [hH,after_synced ho hs]
        exact hE.synced
    · have hq : ∀ op, f.op ≠ some (i,op) := fun op h => hi ⟨op,h⟩
      obtain ⟨htcb,hH,hpc⟩ := Sys.step_quiet he hq
      rw [hidle (Sys.opOn_quiet he hq)]
      refine ⟨by rw [htcb]; exact hE.edge,?_,by rw [hH]; exact hE.synced⟩
      rw [htcb,hH,hpc]
      exact hE.syn.next he rfl hE.syn.state

theorem EdgeAt.run {i : Slot} {a : UInt32} {w n : ℕ} {σ : Sys} {es : List Ev}
    (hE : EdgeAt i a w n σ)
    (hc : Meets (Sys.step i) (fun σ e => σ.continues i e = true) σ es) :
    EdgeAt i a w (n+σ.consumed i es) (exec (Sys.step i) σ es) := by
  induction es generalizing σ n with
  | nil => exact hE
  | cons e es ih =>
    have hrest := ih (hE.step hc.1) hc.2
    rw [Nat.add_assoc] at hrest
    exact hrest

theorem synDone_run (i : Slot) (es : List Ev) :
    let σ := exec (Sys.step i) .boot es
    SynDone i (σ.tcb i) σ.2 σ.1.pc :=
  slotInv_run (J := SynDone i) (G := fun _ _ => true)
    (fun _ _ _ _ _ hS _ he hop => hS.op _ he hop)
    (fun _ _ _ _ hS _ he _ => hS.next he rfl hS.state) ⟨nofun,nofun⟩
    (Trace.meets_of_forall (fun _ _ => rfl) _ _)

/-- Segment `t` comes after segment `s` and `n` consumed sequence numbers: its right edge is
not behind, counted from the same place and, up to half the circle, on the circle. -/
structure EdgeNotBehind (s t : Segment) (n : ℕ) : Prop where
  ack : t.ack = s.ack+UInt32.ofNat n
  edge : s.window.toNat ≤ n+t.window.toNat
  circle : n+t.window.toNat ≤ s.window.toNat+2^31 →
    seqLE (s.ack+s.window.toUInt32) (t.ack+t.window.toUInt32) = true

theorem edgeNotBehind_of {s t : Segment} {n : ℕ} (hack : t.ack = s.ack+UInt32.ofNat n)
    (hedge : s.window.toNat ≤ n+t.window.toNat) : EdgeNotBehind s t n := by
  refine ⟨hack,hedge,fun hnear => ?_⟩
  have hs : s.window.toUInt32.toNat = s.window.toNat := UInt16.toNat_toUInt32 _
  have ht : t.window.toUInt32.toNat = t.window.toNat := UInt16.toNat_toUInt32 _
  rw [seqLE_iff,Circle.dist,hack]
  have hdiff : s.ack+UInt32.ofNat n+t.window.toUInt32-(s.ack+s.window.toUInt32) =
      UInt32.ofNat (n+t.window.toNat-s.window.toNat) := by
    have hsum : UInt32.ofNat n+t.window.toUInt32 =
        UInt32.ofNat (n+t.window.toNat-s.window.toNat)+s.window.toUInt32 := by
      apply UInt32.toNat_inj.mp
      rw [toNat_add,toNat_add,toNat_ofNat',toNat_ofNat']
      omega
    grind
  rw [hdiff,toNat_ofNat']
  omega

/-- Right after a segment its window is the last one announced. -/
theorem edgeAt_sends {i : Slot} {σ : Sys} {e : Ev} {seg : Segment}
    (hsend : σ.sends i e = some seg) (hS : SynDone i (σ.tcb i) σ.2 σ.1.pc)
    (hsyn : σ.2.synced = true) (hb : (σ.tcb i).rcvWnd.toNat ≤ tcpRxBufSize) :
    EdgeAt i seg.ack seg.window.toNat (σ.consumes i e) (σ.step i e).1 := by
  obtain ⟨ip,ok,flags,options,payload,hon,hseg⟩ := Sys.sends_op hsend
  obtain ⟨τ,f,he,hop⟩ := Sys.step_of_opOn hon
  obtain ⟨htcb,hH,hpc⟩ := Sys.step_op he hop
  have hann := tcpSendSegment_window hb hseg
  have hzero : σ.consumes i e = 0 := by
    simp only [Sys.consumes,hon]
  rw [hzero]
  refine ⟨?_,?_,?_⟩
  · obtain ⟨v,hv⟩ := tcpSendSegment_fst ip ok (σ.tcb i) flags options payload
    have hkept := hann.kept
    rw [hv] at hkept
    rw [htcb,TcbOp.run,hv]
    refine ⟨by simp [(tcpSendSegment_snd hseg).2.1],?_,?_,hb⟩
    · simpa using hann.le
    · omega
  · rw [htcb,hH,hpc]
    exact hS.op _ he hop
  · rw [hH]
    exact hsyn

/-- Of two segments that a connection transmits, the first one after the peer's SYN was
consumed, the second does not move the announced right edge back, and neither announces more
than `rcvWnd`. -/
theorem advertised_edge_kept (i : Slot) (es es' : List Ev) (e e' : Ev) (seg seg' : Segment)
    (hsend : (exec (Sys.step i) .boot es).sends i e = some seg)
    (hsyn : (exec (Sys.step i) .boot es).2.synced = true)
    (hconn : Meets (Sys.step i) (fun σ e => σ.continues i e = true)
      (exec (Sys.step i) .boot es) (e :: es'))
    (hsend' : (exec (Sys.step i) .boot (es++e :: es')).sends i e' = some seg') :
    EdgeNotBehind seg seg' ((exec (Sys.step i) .boot es).consumed i (e :: es')) ∧
      seg.window.toNat ≤ ((exec (Sys.step i) .boot es).tcb i).rcvWnd.toNat ∧
      seg'.window.toNat ≤
        ((exec (Sys.step i) .boot (es++e :: es')).tcb i).rcvWnd.toNat := by
  have hbound (es : List Ev) :
      ((exec (Sys.step i) .boot es).tcb i).rcvWnd.toNat ≤ tcpRxBufSize := by
    have hle := rcvWnd_le es i
    rw [Sys.tcb,Sys.exec_fst]
    exact hle
  obtain ⟨_,_,_,_,_,_,hseg⟩ := Sys.sends_op hsend
  obtain ⟨_,_,_,_,_,_,hseg'⟩ := Sys.sends_op hsend'
  have hann := tcpSendSegment_window (hbound _) hseg
  have hann' := tcpSendSegment_window (hbound _) hseg'
  have hlast := (edgeAt_sends hsend (synDone_run i es) hsyn (hbound es)).run hconn.2
  have hexec : exec (Sys.step i) .boot (es++e :: es') =
      exec (Sys.step i) ((exec (Sys.step i) .boot es).step i e).1 es' :=
    Trace.exec_append _ _ _
  rw [← hexec] at hlast
  refine ⟨edgeNotBehind_of ?_ ?_,hann.le,hann'.le⟩
  · rw [(tcpSendSegment_snd hseg').2.1]
    exact hlast.edge.rcvNxt
  · exact hlast.edge.announces hann'

/-- A pure ACK of the client connection. -/
def clientAck (ack : UInt32) (window : UInt16) : Segment :=
  ⟨ourAddr,peerIP,tcpEphemeralBase,80,1,ack,tcpFlagACK,window,[],[]⟩

/-- Three bytes were stored and are about to be acknowledged. -/
def bytesStored : List Ev := clientHandshake++fromPeer 1001 1 tcpFlagACK [1,2,3] :: runs .rx 3

/-- Two of them are read and one more is stored. -/
def bytesExchanged : List Ev :=
  .sys 0 (.recv 3 userAddrMin 2 0) :: runs (.proc 0) 1++
  fromPeer 1004 1 tcpFlagACK [4] :: runs .rx 3

/-- The window grew by one since the first ACK, too little to be announced. -/
theorem advertised_edge_kept_read :
    (exec (Sys.step 0) .boot bytesStored).consumed 0 (.run .rx true :: bytesExchanged) = 1 ∧
    EdgeNotBehind (clientAck 1004 8189) (clientAck 1005 8189)
      ((exec (Sys.step 0) .boot bytesStored).consumed 0 (.run .rx true :: bytesExchanged)) :=
  ⟨by decide +kernel,
    (advertised_edge_kept 0 bytesStored bytesExchanged (.run .rx true) (.run .rx true) _ _
      (by decide +kernel) (by decide +kernel) (by decide +kernel) (by decide +kernel)).1⟩

/-- A connection with a byte to send and a closed window is reset, and its slot is used to
connect again: the persist timer of the old connection is about to send its probe. -/
def staleProbe : List Ev :=
  clientHandshake++clientSend [10]++
  .segment ⟨peerIP,ourAddr⟩ ⟨80,tcpEphemeralBase,1001,1,tcpFlagACK,0,[]⟩ [] :: runs .rx 4++
  fromPeer 1001 0 tcpFlagRST [] :: runs .rx 3++
  [.sys 0 .socket,.sys 0 (.connect 4 peerIP 80 0)]++runs (.proc 0) 6++
  List.replicate 100 .tick++.scan :: runs .scan 4

/-- The peer answers the new SYN with a lower initial sequence number. -/
def lowerIrs : List Ev := fromPeer 500 1 (tcpFlagSYN ||| tcpFlagACK) [] :: runs .rx 3

/-- In SYN_SENT the probe announces a window from the `rcvNxt` of the old connection, and the
ACK of the peer's SYN then moves the edge back. -/
theorem stale_probe_moves_edge_back :
    let σ := exec (Sys.step 0) .boot staleProbe
    let σ' := exec (Sys.step 0) .boot (staleProbe++.run .scan true :: lowerIrs)
    Meets (Sys.step 0) (fun σ e => σ.continues 0 e = true) σ (.run .scan true :: lowerIrs) ∧
    (σ.sends 0 (.run .scan true)).map (fun s => (s.flags,s.ack,s.window)) =
      some (tcpFlagACK ||| tcpFlagPSH,1001,8192) ∧
    (σ'.sends 0 (.run .rx true)).map (fun s => (s.flags,s.ack,s.window)) =
      some (tcpFlagACK,501,8192) ∧
    seqLE (1001+8192) (501+8192) = false := by
  decide +kernel

end Gooos
