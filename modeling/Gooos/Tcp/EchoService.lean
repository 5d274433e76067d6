import Mathlib
import Gooos.Tcp.SendWindow
import Gooos.Tcp.ReceiveStream

/-!
# The echo service

`tcpEchoPass` reads from `rxBuf`, transmits what it read, and moves `sndNxt`, in three
sections. What it has sent is the start of what the peer sent as long as its transmissions
succeed; and it comes to its own FIN as long as the peer's FIN finds `rxBuf` empty, since a
pass reads nothing in CLOSE_WAIT.
-/

namespace Gooos

open Interleave Function
open Bool (and_eq_true)
open List (append_nil)
open Trace (Meets exec)

/-! ## The property -/

/-- The payload bytes transmitted, in the order of transmission. -/
def Hist.echoed (H : Hist) : List UInt8 := H.sent.flatMap (·.payload)

/-- Payload bytes are sent on consecutive numbers from `iss+1`. -/
def InSequence (iss : UInt32) (sent : List Segment) : Prop :=
  ∀ older seg newer, sent = older++seg :: newer → seg.payload ≠ [] →
    seg.seq = iss+1+UInt32.ofNat (older.flatMap (·.payload)).length

/-- The TCB belongs to a connection to the echo port. -/
def TCB.serving (x : TCB) : Bool := x.localPort == tcpEchoListenPort && x.state.hasPeer

/-- What was sent back is the start of what was stored, and a pass goes on in CLOSE_WAIT. -/
structure EchoRight (i : Slot) (σ : Sys) : Prop where
  order : (σ.tcb i).serving = true →
    InSequence (σ.tcb i).iss σ.2.sent ∧ σ.2.echoed <+: σ.2.stored
  progress : (σ.tcb i).active = true → (σ.tcb i).serving = true → (σ.tcb i).state = .closeWait →
    (σ.tcb i).rxBuf.contents ≠ [] →
    (echoSection σ.1.shared true (.check i)).op ≠ none ∨
      (echoSection σ.1.shared true (.check i)).next ≠ echoNext i

/-- The echo service is right in every state of the run, and sends its FIN behind the last
byte stored. -/
def EchoServes (i : Slot) (es : List Ev) : Prop :=
  (∀ es₀, es₀ <+: es → EchoRight i (exec (Sys.step i) .boot es₀)) ∧
  ∀ es₀ ok seg, es₀++[.run .echo ok] <+: es →
    let σ := exec (Sys.step i) .boot es₀
    σ.1.pc .echo = EchoPc.finSend i → (σ.tcb i).serving = true →
    σ.sends i (.run .echo ok) = some seg →
    σ.2.echoed = σ.2.stored ∧ seg.seq = (σ.tcb i).iss+1+UInt32.ofNat σ.2.stored.length

/-! ## The condition on runs -/

/-- The echo server is at work on slot `i`. -/
def EchoPc.worksOn (i : Slot) : EchoPc → Bool
  | .send j _ => j == i
  | .commit j _ => j == i
  | .finSend j => j == i
  | .finCommit j => j == i
  | _ => false

def TcbOp.carries : TcbOp → Bool
  | .send _ _ _ _ payload => payload != []
  | _ => false

/-- What an operation on a TCB of the echo port has to find: an open finds an empty `rxBuf`
and the server not at work for an earlier connection; the handshake ends with `sndNxt` behind
the SYN; a FIN comes alone, with `rxBuf` empty; and the server's FIN is accounted for in
CLOSE_WAIT. -/
def echoFinds (x : TCB) (busy : Bool) : TcbOp → Bool
  | .passiveInit .. => x.rxBuf.contents == [] && !busy
  | .synReceivedAck _ => x.state == .synReceived && x.sndNxt == x.iss+1
  | .established h payload => x.state == .established &&
    (!estFinIn x h || (x.rxBuf.contents == [] && payload == []))
  | .echoFinCommit => x.state == .closeWait
  | .synSentAck _ => false
  | .finWait1 .. => false
  | .finWait2 .. => false
  | .closing _ => false
  | op => !op.rewinds x || x.state == .synReceived

/-- The step keeps to the echo service on slot `i`: its transmissions of data succeed, nobody
else sends data, and no process works on a TCB of the echo port. -/
def echoClean (i : Slot) (σ : Sys) (e : Ev) : Bool :=
  let x := σ.tcb i
  match σ.opOn i e with
  | none => true
  | some op => x.localPort != tcpEchoListenPort ||
    (echoFinds x (EchoPc.worksOn i (σ.1.pc .echo)) op &&
      match e with
      | .run .echo _ => match σ.1.pc .echo with
        | .send .. => (σ.sends i e).isSome
        | _ => true
      | .run (.proc _) _ => op.binds
      | _ => !op.carries)

/-! ## The invariant -/

/-- Bytes the echo server has read and not transmitted. -/
def EchoPc.held (i : Slot) : EchoPc → List UInt8
  | .send j bytes => if j = i then bytes else []
  | _ => []

/-- Bytes the echo server has transmitted and not added to `sndNxt`. -/
def EchoPc.owed (i : Slot) : EchoPc → ℕ
  | .commit j n => if j = i then n else 0
  | _ => 0

/-- The echo server is about to close slot `i`. -/
def EchoPc.closes (i : Slot) : EchoPc → Bool
  | .finSend j => j == i
  | .finCommit j => j == i
  | _ => false

structure EchoInv (i : Slot) (x : TCB) (H : Hist) (l : EchoPc) : Prop where
  order : InSequence x.iss H.sent
  split : H.stored = H.echoed++EchoPc.held i l++x.rxBuf.contents
  cursor : x.state = .established ∨ x.state = .closeWait →
    x.sndNxt+UInt32.ofNat (EchoPc.owed i l) = x.iss+1+UInt32.ofNat H.echoed.length
  fresh : x.state = .synReceived → H.stored = [] ∧ EchoPc.worksOn i l = false
  drained : x.state = .closeWait → x.rxBuf.contents = []
  busy : EchoPc.worksOn i l = true → x.state = .established ∨ x.state = .closeWait
  closes : EchoPc.closes i l = true → x.state = .closeWait

theorem InSequence.snoc {iss : UInt32} {sent : List Segment} {seg : Segment}
    (h : InSequence iss sent)
    (hseg : seg.payload ≠ [] → seg.seq = iss+1+UInt32.ofNat (sent.flatMap (·.payload)).length) :
    InSequence iss (sent++[seg]) := by
  intro older s newer heq hne
  rcases List.eq_nil_or_concat newer with rfl | ⟨newer',b,rfl⟩
  · obtain ⟨rfl,hs⟩ := List.append_inj' heq rfl
    cases hs
    exact hseg hne
  · rw [List.concat_eq_append,← List.cons_append,← List.append_assoc] at heq
    obtain ⟨hold,_⟩ := List.append_inj' heq rfl
    exact h older s newer' hold hne

theorem echoed_snoc (sent : List Segment) (seg : Segment) :
    (sent++[seg]).flatMap (·.payload) = sent.flatMap (·.payload)++seg.payload := by
  simp

variable {l : EchoPc} {x : TCB} {H : Hist} {ok : Bool}

/-- A step that only adds segments without payload to what was sent. -/
theorem EchoInv.keep {i : Slot} {x y : TCB} {H H' : Hist} (h : EchoInv i x H l)
    (hiss : y.iss = x.iss) (hrx : y.rxBuf = x.rxBuf) (hst : y.state = x.state)
    (hnxt : y.state = .established ∨ y.state = .closeWait → y.sndNxt = x.sndNxt)
    (hstored : H'.stored = H.stored)
    (hsent : H'.sent = H.sent ∨ ∃ seg, H'.sent = H.sent++[seg] ∧ seg.payload = []) :
    EchoInv i y H' l := by
  have hecho : H'.echoed = H.echoed := by
    rcases hsent with hs | ⟨seg,hs,hp⟩
    · rw [Hist.echoed,hs,Hist.echoed]
    · rw [Hist.echoed,hs,echoed_snoc,hp,append_nil,Hist.echoed]
  refine ⟨?_,?_,fun hs => ?_,fun hs => ?_,fun hs => ?_,fun hb => ?_,fun hb => ?_⟩
  · rw [hiss]
    rcases hsent with hs | ⟨seg,hs,hp⟩
    · rw [hs]
      exact h.order
    · rw [hs]
      exact h.order.snoc fun hne => absurd hp hne
  · rw [hstored,hecho,hrx]
    exact h.split
  · rw [hnxt hs,hiss,hecho]
    exact h.cursor (hst ▸ hs)
  · rw [hstored]
    exact h.fresh (hst ▸ hs)
  · rw [hrx]
    exact h.drained (hst ▸ hs)
  · rw [hst]
    exact h.busy hb
  · rw [hst]
    exact h.closes hb

/-! ## Other threads -/

theorem EchoPc.idle_on {i : Slot} (h : l.worksOn i = false) :
    l.held i = [] ∧ l.owed i = 0 ∧ l.closes i = false := by
  cases l with
  | send j bytes => exact ⟨if_neg (by simpa [worksOn] using h),rfl,rfl⟩
  | commit j n => exact ⟨rfl,if_neg (by simpa [worksOn] using h),rfl⟩
  | finSend | finCommit => exact ⟨rfl,rfl,h⟩
  | _ => exact ⟨rfl,rfl,rfl⟩

/-- The server goes from one slot to another. -/
theorem EchoInv.idle {i : Slot} {l l' : EchoPc} (h : EchoInv i x H l)
    (hl : l.worksOn i = false) (hl' : l'.worksOn i = false) : EchoInv i x H l' := by
  obtain ⟨hheld,howed,_⟩ := EchoPc.idle_on hl
  obtain ⟨hheld',howed',hcl'⟩ := EchoPc.idle_on hl'
  refine ⟨h.order,?_,fun hs => ?_,fun hs => ⟨(h.fresh hs).1,hl'⟩,h.drained,fun hb => ?_,fun hb => ?_⟩
  · rw [hheld',← hheld]
    exact h.split
  · rw [howed',← howed]
    exact h.cursor hs
  · rw [hl'] at hb
    cases hb
  · rw [hcl'] at hb
    cases hb

section Step

variable {i : Slot} {σ : Sys} {e : Ev} {τ : Tid} {f : Effect (PcOf τ)} {op : TcbOp}

/-- The receive loop and the scanner. -/
theorem service_op {s : Shared} {l : PcOf τ} (hd : Does s ok τ l i op)
    (he : τ ≠ .echo) (hp : ∀ p, τ ≠ .proc p) : op.drains = false ∧ op.advance = 0 ∧
      (op.moves = true → op.binds = true ∨ op.opens = true ∨ op.acks = true) := by
  cases hd <;> first
    | exact ⟨rfl,rfl,fun _ => .inl rfl⟩
    | exact ⟨rfl,rfl,fun _ => .inr (.inl rfl)⟩
    | exact ⟨rfl,rfl,fun _ => .inr (.inr rfl)⟩
    | exact absurd rfl he
    | exact absurd rfl (hp _)
    | (refine ⟨rfl,rfl,fun h => ?_⟩; cases h)

/-- An operation on a connection to the echo port meets the condition. -/
theorem echoClean_op (hG : echoClean i σ e = true) (he : e.effect σ.1 = some ⟨τ,f⟩)
    (hop : f.op = some (i,op)) (hport : (σ.tcb i).localPort = tcpEchoListenPort) :
    echoFinds (σ.tcb i) (EchoPc.worksOn i (σ.1.pc .echo)) op = true ∧
    (∀ p, τ = .proc p → op.binds = true) ∧
    (τ = .rx ∨ τ = .scan → op.carries = false) ∧
    (τ = .echo → ∀ j bytes, σ.1.pc .echo = EchoPc.send j bytes → (σ.sends i e).isSome = true) := by
  obtain ⟨ok,rfl,_,_⟩ := does_of_op he hop
  simp only [echoClean,Sys.opOn_eq he hop,hport,bne_self_eq_false,Bool.false_or,
    and_eq_true] at hG
  refine ⟨hG.1,?_,?_,?_⟩
  · rintro p rfl
    exact hG.2
  · rintro (rfl | rfl)
    · simpa using hG.2
    · simpa using hG.2
  · rintro rfl j bytes hpc
    simpa only [hpc] using hG.2

/-- A connection to the echo port was one before, unless it is opened. -/
theorem serving_before (ho : op.opens = false)
    (hfinds : (σ.tcb i).localPort = tcpEchoListenPort →
      echoFinds (σ.tcb i) (EchoPc.worksOn i (σ.1.pc .echo)) op = true)
    (hmark : op ≠ .closeMark)
    (h : (op.run σ.1.shared.pitTicks (σ.tcb i)).serving = true) : (σ.tcb i).serving = true := by
  simp only [TCB.serving,and_eq_true,beq_iff_eq] at h ⊢
  obtain ⟨hport,hpeer⟩ := h
  have hb : op.binds = false := by
    cases op with
    | alloc | free => cases hpeer
    | _ => rfl
  have hsame : (σ.tcb i).localPort = tcpEchoListenPort := by
    rw [← ((op.run_frame σ.1.shared.pitTicks (σ.tcb i)).addr hb).2.2.1]
    exact hport
  refine ⟨hsame,?_⟩
  have hf := hfinds hsame
  rcases op.run_state σ.1.shared.pitTicks (σ.tcb i) with hst | hleads
  · rw [← hst]
    exact hpeer
  · cases op with
    | synReceivedAck | established =>
      simp only [echoFinds,and_eq_true,beq_iff_eq] at hf
      rw [hf.1]
      rfl
    | echoFinCommit =>
      simp only [echoFinds,beq_iff_eq] at hf
      rw [hf]
      rfl
    | closeMark => exact absurd rfl hmark
    | alloc | free => cases hb
    | passiveInit | activeInit => cases ho
    | synSentAck | finWait1 | finWait2 | closing => cases hf
    | _ => cases hleads

theorem sent_after (ho : op.opens = false) (hc : op.carries = false) :
    (H.after x op).sent = H.sent ∨
      ∃ seg, (H.after x op).sent = H.sent++[seg] ∧ seg.payload = [] := by
  cases op with
  | send ip ok flags options payload =>
    have hnil : payload = [] := by simpa [TcbOp.carries] using hc
    cases hs : (tcpSendSegment ip ok x flags options payload).2 with
    | none => exact .inl (by simp only [Hist.after,hs,Option.toList_none,append_nil])
    | some seg =>
      refine .inr ⟨seg,by simp only [Hist.after,hs,Option.toList_some],?_⟩
      rw [(tcpSendSegment_snd hs).2.2.2.2,hnil]
  | passiveInit | activeInit => cases ho
  | _ => exact .inl rfl

/-- The ACK that ends the handshake. -/
theorem EchoInv.accepted {h : TCPHeader} (now : UInt64)
    (hinv : EchoInv i x H l) (hst : x.state = .synReceived) (hnxt : x.sndNxt = x.iss+1) :
    EchoInv i (synReceivedAck now h x) (H.after x (.synReceivedAck h)) l := by
  obtain ⟨fl,hshape⟩ := synReceivedAck_shape now h x
  obtain ⟨hempty,hidle⟩ := hinv.fresh hst
  obtain ⟨hheld,howed,hcl⟩ := EchoPc.idle_on hidle
  have hsplit := hinv.split
  rw [hempty,hheld,append_nil] at hsplit
  obtain ⟨hecho,_⟩ := List.append_eq_nil_iff.mp hsplit.symm
  rw [hshape]
  refine ⟨hinv.order,hinv.split,fun _ => ?_,nofun,nofun,fun hb => ?_,fun hb => ?_⟩
  · change x.sndNxt+UInt32.ofNat (l.owed i) = x.iss+1+UInt32.ofNat H.echoed.length
    rw [howed,hecho,hnxt]
    rfl
  · rw [hidle] at hb
    cases hb
  · rw [hcl] at hb
    cases hb

/-- A segment in ESTABLISHED. -/
theorem EchoInv.received {h : TCPHeader} {payload : List UInt8}
    (now : UInt64) (hinv : EchoInv i x H l) (hst : x.state = .established)
    (hfin : estFinIn x h = true → x.rxBuf.contents = [] ∧ payload = []) :
    EchoInv i (tcpHandleEstablished now h payload x) (H.after x (.established h payload)) l := by
  have hstores := tcpHandleEstablished_stores now h payload x
  have hstate := tcpHandleEstablished_state now h payload x
  have hfr := TcbOp.run_frame now x (.established h payload)
  have hopen : (tcpHandleEstablished now h payload x).state = .established ∨
      (tcpHandleEstablished now h payload x).state = .closeWait := by
    split at hstate
    · exact .inr hstate
    · exact .inl (hstate.trans hst)
  refine ⟨?_,?_,fun _ => ?_,fun hs => ?_,fun hs => ?_,fun _ => hopen,fun hb => ?_⟩
  · rw [show (tcpHandleEstablished now h payload x).iss = x.iss from hfr.iss rfl]
    exact hinv.order
  · show H.stored++storedBytes x h payload = _
    rw [hinv.split,hstores.rxBuf,← List.append_assoc]
    rfl
  · rw [show (tcpHandleEstablished now h payload x).iss = x.iss from hfr.iss rfl,
      show (tcpHandleEstablished now h payload x).sndNxt = x.sndNxt from hfr.sndNxt rfl rfl]
    exact hinv.cursor (.inl hst)
  · rcases hopen with h' | h' <;> rw [h'] at hs <;> cases hs
  · cases hf : estFinIn x h with
    | true =>
      obtain ⟨hrx,hpay⟩ := hfin hf
      rw [hstores.rxBuf,hrx,storedBytes,hpay]
      split <;> rfl
    | false =>
      rw [hf] at hstate
      rw [show (tcpHandleEstablished now h payload x).state = x.state from hstate,hst] at hs
      cases hs
  · rw [hinv.closes hb] at hst
    cases hst

theorem echoFinds_rewinds {b : Bool} (hf : echoFinds x b op = true)
    (hrew : op.rewinds x = true) : x.state = .synReceived := by
  cases op with
  | synRollback | synRestore | rtoRestore => exact beq_iff_eq.mp hf
  | rtoBegin =>
    change (!TcbOp.rtoBegin.rewinds x || x.state == .synReceived) = true at hf
    rw [hrew] at hf
    exact beq_iff_eq.mp hf
  | _ => cases hrew

/-- What the receive loop and the scanner do to a connection of the echo port. -/
theorem EchoInv.service {l : PcOf τ} {lp : EchoPc}
    (hinv : EchoInv i (σ.tcb i) σ.2 lp) (hd : Does σ.1.shared ok τ l i op)
    (he : τ ≠ .echo) (hp : ∀ p, τ ≠ .proc p) (ho : op.opens = false) (hc : op.carries = false)
    (hf : echoFinds (σ.tcb i) (EchoPc.worksOn i lp) op = true)
    (hserv : (op.run σ.1.shared.pitTicks (σ.tcb i)).serving = true) :
    EchoInv i (op.run σ.1.shared.pitTicks (σ.tcb i)) (σ.2.after (σ.tcb i) op) lp := by
  obtain ⟨hdr,hadv,hmoves⟩ := service_op hd he hp
  have hfr := op.run_frame σ.1.shared.pitTicks (σ.tcb i)
  cases hm : op.moves with
  | false =>
    have hr : op.receives = false := by cases op <;> first | rfl | cases hm
    refine hinv.keep (hfr.iss ho) (hfr.rxBuf hr hdr) (hfr.state hm) (fun hs => ?_)
      (after_recv ho hr σ.2 (σ.tcb i)).1 (sent_after ho hc)
    -- a SYN is transmitted again only before the end of the handshake
    have hrew : op.rewinds (σ.tcb i) = false := by
      by_contra hrew
      rw [Bool.not_eq_false] at hrew
      rw [hfr.state hm,echoFinds_rewinds hf hrew] at hs
      rcases hs with hs | hs <;> cases hs
    rw [op.run_sndNxt _ ho hrew,hadv]
    exact UInt32.add_zero _
  | true =>
    rcases hmoves hm with hb | ho' | hacks
    · cases op with
      | alloc =>
        simp [TCB.serving,TcbOp.run,tcbAllocSlot,TcbState.hasPeer,TcbState.synchronized] at hserv
      | free => simp [TCB.serving,TcbOp.run,tcbFree,TcbState.hasPeer,TcbState.synchronized] at hserv
      | _ => cases hb
    · rw [ho] at ho'
      cases ho'
    · cases op with
      | synReceivedAck h =>
        simp only [echoFinds,and_eq_true,beq_iff_eq] at hf
        exact hinv.accepted _ hf.1 hf.2
      | established h payload =>
        simp only [echoFinds,and_eq_true,Bool.or_eq_true,Bool.not_eq_true',beq_iff_eq] at hf
        refine hinv.received _ hf.1 fun hfin => ?_
        rcases hf.2 with hno | hok
        · rw [hfin] at hno
          cases hno
        · exact hok
      | synSentAck | finWait1 | finWait2 | closing => cases hf
      | _ => cases hacks

/-! ## The server -/

theorem echoNext_idle (i j : Slot) : (echoNext j).worksOn i = false := by
  rw [echoNext]
  split <;> rfl

/-- The server reads. -/
theorem EchoInv.take {j : Slot} (hinv : EchoInv i x H (.check j)) (hst : x.state = .established) :
    EchoInv i (echoTake x).1 (H.after x .echoTake)
      (if (echoTake x).2 = [] then echoNext i else .send i (echoTake x).2) := by
  have hparts : (echoTake x).2++(echoTake x).1.rxBuf.contents = x.rxBuf.contents := by
    simp only [echoTake,TcpRingBuf.rbRead_snd,TcpRingBuf.contents_rbRead]
    exact List.take_append_drop _ _
  have hsplit : H.stored = H.echoed++x.rxBuf.contents := by
    have hs := hinv.split
    rwa [show EchoPc.held i (.check j) = [] from rfl,append_nil] at hs
  have hsplit' : H.stored = H.echoed++(echoTake x).2++(echoTake x).1.rxBuf.contents := by
    rw [hsplit,List.append_assoc,hparts]
  have hstate : (echoTake x).1.state = .established := hst
  split
  · rename_i hnil
    have hidle := echoNext_idle i i
    obtain ⟨hheld,howed,hcl⟩ := EchoPc.idle_on hidle
    refine ⟨hinv.order,?_,fun _ => ?_,fun hs => ?_,fun hs => ?_,fun hb => ?_,fun hb => ?_⟩
    · rw [hheld,← hnil]
      exact hsplit'
    · rw [howed]
      exact hinv.cursor (.inl hst)
    · rw [hstate] at hs
      cases hs
    · rw [hstate] at hs
      cases hs
    · rw [hidle] at hb
      cases hb
    · rw [hcl] at hb
      cases hb
  · refine ⟨hinv.order,?_,fun _ => hinv.cursor (.inl hst),fun hs => ?_,fun hs => ?_,
      fun _ => .inl hstate,(by rintro ⟨⟩)⟩
    · rw [show EchoPc.held i (.send i (echoTake x).2) = (echoTake x).2 from if_pos rfl]
      exact hsplit'
    · rw [hstate] at hs
      cases hs
    · rw [hstate] at hs
      cases hs

/-- The server transmits what it read. -/
theorem EchoInv.sends {bytes : List UInt8} {ip : UInt32}
    {flags : UInt8} {options : List UInt8} {seg : Segment} (now : UInt64)
    (hinv : EchoInv i x H (.send i bytes))
    (hseg : (tcpSendSegment ip ok x flags options bytes).2 = some seg) :
    EchoInv i ((TcbOp.send ip ok flags options bytes).run now x)
      (H.after x (.send ip ok flags options bytes)) (.commit i bytes.length) := by
  obtain ⟨w,hw⟩ := tcpSendSegment_fst ip ok x flags options bytes
  obtain ⟨hseq,_,_,_,hpay⟩ := tcpSendSegment_snd hseg
  have hsent : (H.after x (.send ip ok flags options bytes)).sent = H.sent++[seg] := by
    simp only [Hist.after,hseg,Option.toList_some]
  have hecho : (H.after x (.send ip ok flags options bytes)).echoed = H.echoed++bytes := by
    rw [Hist.echoed,hsent,echoed_snoc,hpay,Hist.echoed]
  have hopen := hinv.busy (by simp [EchoPc.worksOn])
  have hcur := hinv.cursor hopen
  replace hcur : x.sndNxt = x.iss+1+UInt32.ofNat H.echoed.length :=
    (UInt32.add_zero _).symm.trans hcur
  have hsplit := hinv.split
  rw [show EchoPc.held i (.send i bytes) = bytes from if_pos rfl] at hsplit
  rw [TcbOp.run,hw]
  refine ⟨?_,?_,fun _ => ?_,fun hs => ?_,hinv.drained,fun _ => hopen,(by rintro ⟨⟩)⟩
  · rw [hsent]
    exact hinv.order.snoc fun _ => hseq.trans hcur
  · rw [hecho,show EchoPc.held i (.commit i bytes.length) = [] from rfl,append_nil]
    exact hsplit
  · rw [hecho,List.length_append,UInt32.ofNat_add,
      show EchoPc.owed i (.commit i bytes.length) = bytes.length from if_pos rfl]
    rw [hcur,UInt32.add_assoc]
  · replace hs : x.state = .synReceived := hs
    rcases hopen with h | h <;> rw [h] at hs <;> cases hs

/-- The server accounts for what it transmitted. -/
theorem EchoInv.commits {n : ℕ} (hinv : EchoInv i x H (.commit i n)) :
    EchoInv i (echoDataCommit n x) (H.after x (.echoDataCommit n)) (echoNext i) := by
  have hidle := echoNext_idle i i
  obtain ⟨hheld,howed,hcl⟩ := EchoPc.idle_on hidle
  have hopen := hinv.busy (by simp [EchoPc.worksOn])
  refine ⟨hinv.order,?_,fun _ => ?_,fun hs => ?_,hinv.drained,fun hb => ?_,fun hb => ?_⟩
  · rw [hheld]
    exact hinv.split
  · have hcur := hinv.cursor hopen
    rw [show EchoPc.owed i (.commit i n) = n from if_pos rfl] at hcur
    rw [howed]
    exact (UInt32.add_zero _).trans hcur
  · replace hs : x.state = .synReceived := hs
    rcases hopen with h | h <;> rw [h] at hs <;> cases hs
  · rw [hidle] at hb
    cases hb
  · rw [hcl] at hb
    cases hb

/-- The server accounts for its FIN. -/
theorem EchoInv.finCommits (hinv : EchoInv i x H (.finCommit i)) :
    EchoInv i (echoFinCommit x) (H.after x .echoFinCommit) (echoNext i) := by
  have hidle := echoNext_idle i i
  obtain ⟨hheld,howed,hcl⟩ := EchoPc.idle_on hidle
  refine ⟨hinv.order,?_,fun hs => ?_,nofun,nofun,fun hb => ?_,fun hb => ?_⟩
  · rw [hheld]
    exact hinv.split
  · rcases hs with hs | hs <;> cases hs
  · rw [hidle] at hb
    cases hb
  · rw [hcl] at hb
    cases hb

/-- From its FIN the server goes on to account for it, or to the next slot. -/
theorem EchoInv.finNext (hinv : EchoInv i x H (.finSend i))
    (hl : l = .finCommit i ∨ l = echoNext i) : EchoInv i x H l := by
  have hcw : x.state = .closeWait := hinv.closes (by simp [EchoPc.closes])
  have hheld : l.held i = [] := by
    rcases hl with rfl | rfl
    · rfl
    · exact (EchoPc.idle_on (echoNext_idle i i)).1
  have howed : l.owed i = 0 := by
    rcases hl with rfl | rfl
    · rfl
    · exact (EchoPc.idle_on (echoNext_idle i i)).2.1
  refine ⟨hinv.order,?_,fun hs => ?_,fun hs => ?_,hinv.drained,fun _ => .inr hcw,fun _ => hcw⟩
  · rw [hheld]
    exact hinv.split
  · rw [howed]
    exact hinv.cursor hs
  · rw [hcw] at hs
    cases hs

/-- What the server does to slot `i`. -/
theorem EchoInv.server (hinv : EchoInv i (σ.tcb i) σ.2 l)
    (hop : (echoSection σ.1.shared ok l).op = some (i,op))
    (hok : ∀ j bytes, l = .send j bytes → ∃ seg, (tcpSendSegment σ.1.shared.ourIP ok (σ.tcb i)
      (tcpFlagACK ||| tcpFlagPSH) [] bytes).2 = some seg) :
    EchoInv i (op.run σ.1.shared.pitTicks (σ.tcb i)) (σ.2.after (σ.tcb i) op)
      (echoSection σ.1.shared ok l).next := by
  cases echo_does hop with
  | echoTake j hst hact hport =>
    revert hop
    simp only [echoSection,hact,hport,hst,Bool.not_true,bne_self_eq_false,Bool.or_self,
      Bool.false_eq_true,if_false]
    split
    · rintro ⟨⟩
    · exact fun _ => hinv.take hst
  | echoSend j bytes =>
    obtain ⟨seg,hseg⟩ := hok _ _ rfl
    have hnext : (echoSection σ.1.shared ok (.send i bytes)).next = .commit i bytes.length := by
      simp only [echoSection]
      rw [Sys.tcb] at hseg
      rw [hseg]
      rfl
    rw [hnext]
    exact hinv.sends _ hseg
  | echoCommit j n => exact hinv.commits
  | echoFinSend j =>
    have hkeep : EchoInv i ((TcbOp.send σ.1.shared.ourIP ok (tcpFlagFIN ||| tcpFlagACK) [] []).run
        σ.1.shared.pitTicks (σ.tcb i)) (σ.2.after (σ.tcb i)
        (.send σ.1.shared.ourIP ok (tcpFlagFIN ||| tcpFlagACK) [] [])) (.finSend i) := by
      have hfr := TcbOp.run_frame σ.1.shared.pitTicks (σ.tcb i)
        (.send σ.1.shared.ourIP ok (tcpFlagFIN ||| tcpFlagACK) [] [])
      exact hinv.keep (hfr.iss rfl) (hfr.rxBuf rfl rfl) (hfr.state rfl) (fun _ => hfr.sndNxt rfl rfl)
        rfl (sent_after rfl rfl)
    refine hkeep.finNext ?_
    simp only [echoSection]
    split
    · exact .inl rfl
    · exact .inr rfl
  | echoFinCommit j => exact hinv.finCommits

/-- What the server does elsewhere leaves slot `i` alone, or finds it ready to be closed. -/
theorem echo_elsewhere {s : Shared}
    (hq : ∀ op, (echoSection s ok l).op ≠ some (i,op)) : l.worksOn i = false ∧
      ((echoSection s ok l).next.worksOn i = false ∨
        (echoSection s ok l).next = .finSend i ∧ (s.tcb i).state = .closeWait) := by
  have hne {j : Slot} {op : TcbOp} (hop : (echoSection s ok l).op = some (j,op)) :
      (j == i) = false := by
    rw [beq_eq_false_iff_ne]
    rintro rfl
    exact hq op hop
  cases l with
  | idle => exact ⟨rfl,.inl rfl⟩
  | check j =>
    refine ⟨rfl,?_⟩
    revert hne
    simp only [echoSection]
    split
    · exact fun _ => .inl (echoNext_idle i j)
    · split
      · split
        · exact fun _ => .inl (echoNext_idle i j)
        · intro hne
          split
          · exact .inl (echoNext_idle i j)
          · exact .inl (hne rfl)
      · rename_i hcw
        split
        · intro _
          by_cases hj : j = i
          · subst hj
            exact .inr ⟨rfl,hcw⟩
          · exact .inl (beq_eq_false_iff_ne.mpr hj)
        · exact fun _ => .inl (echoNext_idle i j)
      · exact fun _ => .inl (echoNext_idle i j)
  | send j | finSend j =>
    refine ⟨hne rfl,.inl ?_⟩
    simp only [echoSection]
    split
    · exact hne rfl
    · exact echoNext_idle i j
  | commit j | finCommit j => exact ⟨hne rfl,.inl (echoNext_idle i j)⟩

/-- The server turns to a connection it is going to close. -/
theorem EchoInv.closing (hinv : EchoInv i x H l)
    (hl : l.worksOn i = false) (hcw : x.state = .closeWait) : EchoInv i x H (.finSend i) := by
  obtain ⟨hheld,howed,_⟩ := EchoPc.idle_on hl
  refine ⟨hinv.order,?_,fun hs => ?_,fun hs => ?_,hinv.drained,fun _ => .inr hcw,fun _ => hcw⟩
  · rw [show EchoPc.held i (.finSend i) = [] from rfl,← hheld]
    exact hinv.split
  · rw [show EchoPc.owed i (.finSend i) = 0 from rfl,← howed]
    exact hinv.cursor hs
  · rw [hcw] at hs
    cases hs

theorem echo_quiet (hJ : (σ.tcb i).serving = true → EchoInv i (σ.tcb i) H (σ.1.pc .echo))
    (he : e.effect σ.1 = some ⟨τ,f⟩) (hq : ∀ op, f.op ≠ some (i,op)) :
    (σ.tcb i).serving = true →
      EchoInv i (σ.tcb i) H (update σ.1.pc τ f.next .echo) := by
  intro hserv
  have hinv := hJ hserv
  by_cases hτ : τ = .echo
  · subst hτ
    rcases effect_echo he with ⟨_,hidle,rfl⟩ | ⟨ok,_,rfl⟩
    · rw [hidle] at hinv
      exact hinv.idle rfl rfl
    · obtain ⟨hl,hnext | ⟨hnext,hcw⟩⟩ := echo_elsewhere hq
      · exact hinv.idle hl hnext
      · rw [hnext]
        exact hinv.closing hl hcw
  · rw [update_of_ne (Ne.symm hτ)]
    exact hinv

theorem echo_op (hJ : (σ.tcb i).serving = true → EchoInv i (σ.tcb i) σ.2 (σ.1.pc .echo))
    (hG : echoClean i σ e = true) (he : e.effect σ.1 = some ⟨τ,f⟩) (hop : f.op = some (i,op)) :
    (op.run σ.1.shared.pitTicks (σ.tcb i)).serving = true →
      EchoInv i (op.run σ.1.shared.pitTicks (σ.tcb i)) (σ.2.after (σ.tcb i) op)
        (update σ.1.pc τ f.next .echo) := by
  intro hserv
  have hb : op.binds = false := by
    cases op with
    | alloc => simp [TCB.serving,TcbOp.run,tcbAllocSlot,TcbState.hasPeer,TcbState.synchronized] at hserv
    | free => simp [TCB.serving,TcbOp.run,tcbFree,TcbState.hasPeer,TcbState.synchronized] at hserv
    | _ => rfl
  have hport : (σ.tcb i).localPort = tcpEchoListenPort := by
    rw [← ((op.run_frame σ.1.shared.pitTicks (σ.tcb i)).addr hb).2.2.1]
    simp only [TCB.serving,and_eq_true,beq_iff_eq] at hserv
    exact hserv.1
  obtain ⟨hfinds,hproc,hother,hecho⟩ := echoClean_op hG he hop hport
  obtain ⟨ok,rfl,rfl,hd⟩ := does_of_op he hop
  have hnp (p : ProcSlot) : τ ≠ .proc p := by
    intro hp
    rw [hproc p hp] at hb
    cases hb
  cases ho : op.opens with
  | true =>
    cases op with
    | passiveInit ls h =>
      -- a new connection, with the server elsewhere
      simp only [echoFinds,and_eq_true,beq_iff_eq,Bool.not_eq_true'] at hfinds
      have hτ : τ ≠ .echo := by
        rintro rfl
        generalize σ.1.pc .echo = l at hd
        cases hd
      rw [update_of_ne (Ne.symm hτ)]
      obtain ⟨hheld,howed,hcl⟩ := EchoPc.idle_on hfinds.2
      refine ⟨fun older seg newer heq => ?_,?_,fun hs => ?_,fun _ => ⟨rfl,hfinds.2⟩,(by rintro ⟨⟩),
        fun hb => ?_,fun hb => ?_⟩
      · cases older <;> cases heq
      · rw [hheld]
        exact hfinds.1.symm
      · rcases hs with hs | hs <;> cases hs
      · rw [hfinds.2] at hb
        cases hb
      · rw [hcl] at hb
        cases hb
    | activeInit =>
      generalize σ.1.pc τ = l at hd
      cases hd
      exact absurd rfl (hnp _)
    | _ => cases ho
  | false =>
    have hmark : op ≠ .closeMark := by
      rintro rfl
      generalize σ.1.pc τ = l at hd
      cases hd
      exact absurd rfl (hnp _)
    have hinv := hJ (serving_before ho (fun _ => hfinds) hmark hserv)
    by_cases hτ : τ = .echo
    · subst hτ
      refine hinv.server hop fun j bytes hpc => ?_
      have hsent := hecho rfl j bytes hpc
      have hop' := hop
      rw [hpc] at hop'
      cases hop'
      rw [Option.isSome_iff_exists,Sys.sends,Sys.opOn_eq he hop] at hsent
      exact hsent
    · rw [update_of_ne (Ne.symm hτ)]
      have hc : op.carries = false := by
        refine hother ?_
        cases τ with
        | rx => exact .inl rfl
        | scan => exact .inr rfl
        | echo => exact absurd rfl hτ
        | proc p => exact absurd rfl (hnp p)
      exact hinv.service hd hτ hnp ho hc hfinds hserv

end Step

theorem echoInv_run {i : Slot} {es : List Ev}
    (h : Meets (Sys.step i) (fun σ e => echoClean i σ e = true) .boot es) :
    ((exec (Sys.step i) .boot es).tcb i).serving = true →
      EchoInv i ((exec (Sys.step i) .boot es).tcb i) (exec (Sys.step i) .boot es).2
        ((exec (Sys.step i) .boot es).1.pc .echo) := by
  refine slotInv_run (J := fun x H pc => x.serving = true → EchoInv i x H (pc .echo)) ?_ ?_ ?_ h
  · intro σ e τ f op hJ hG he hop
    exact echo_op hJ hG he hop
  · intro σ e τ f hJ _ he hq
    exact echo_quiet hJ he hq
  · exact nofun

/-- In every run whose steps keep to the echo service on slot `i`, what it sends back is the
start of what was stored, it does not stand still in CLOSE_WAIT, and its FIN comes last. -/
theorem echo_serves (i : Slot) (es : List Ev)
    (h : Meets (Sys.step i) (fun σ e => echoClean i σ e = true) .boot es) :
    EchoServes i es := by
  have hpart (es₀ : List Ev) (hes : es₀ <+: es) :
      Meets (Sys.step i) (fun σ e => echoClean i σ e = true) .boot es₀ := by
    obtain ⟨rest,rfl⟩ := hes
    exact (Trace.meets_append.mp h).1
  constructor
  · intro es₀ hes
    have hinv := echoInv_run (hpart es₀ hes)
    refine ⟨fun hserv => ⟨(hinv hserv).order,?_⟩,fun _ hserv hcw hne => ?_⟩
    · rw [(hinv hserv).split,List.append_assoc]
      exact List.prefix_append _ _
    · exact absurd ((hinv hserv).drained hcw) hne
  · intro es₀ ok seg hes σ hpc hserv hseg
    have hinv : EchoInv i (σ.tcb i) σ.2 (σ.1.pc .echo) :=
      echoInv_run (hpart es₀ ((List.prefix_append _ _).trans hes)) hserv
    rw [hpc] at hinv
    have hcw : (σ.tcb i).state = .closeWait := hinv.closes (by simp [EchoPc.closes])
    have hall : σ.2.echoed = σ.2.stored := by
      have hsplit := hinv.split
      rw [hinv.drained hcw,show EchoPc.held i (.finSend i) = [] from rfl,append_nil,
        append_nil] at hsplit
      exact hsplit.symm
    refine ⟨hall,?_⟩
    obtain ⟨_,_,_,_,_,_,hsend⟩ := Sys.sends_op hseg
    have hcur := hinv.cursor (.inr hcw)
    rw [(tcpSendSegment_snd hsend).1,← hall,← hcur]
    exact (UInt32.add_zero _).symm

/-- A peer sends three bytes, gets them back, and closes. -/
def echoThree : List Ev :=
  echoHandshake++toEcho 1001 1 tcpFlagACK [1,2,3] :: runs .rx 4++.echo :: runs .echo 18++
  toEcho 1004 4 (tcpFlagFIN ||| tcpFlagACK) [] :: runs .rx 4++.echo :: runs .echo 3

theorem echo_serves_three :
    Meets (Sys.step 0) (fun σ e => echoClean 0 σ e = true) .boot echoThree ∧
    EchoServes 0 echoThree :=
  ⟨by decide +kernel,echo_serves 0 _ (by decide +kernel)⟩

/-- A peer sends three bytes together with its FIN. -/
def echoWithFin : List Ev :=
  echoHandshake++toEcho 1001 1 (tcpFlagFIN ||| tcpFlagACK) [1,2,3] :: runs .rx 4

/-- The connection is in CLOSE_WAIT with three bytes, and a pass does nothing. -/
theorem echo_stands_still : ¬EchoServes 0 echoWithFin := by
  intro h
  have hgoes := (h.1 echoWithFin (List.prefix_refl _)).progress (by decide +kernel)
    (by decide +kernel) (by decide +kernel) (by decide +kernel)
  revert hgoes
  decide +kernel

end Gooos
