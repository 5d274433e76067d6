import Mathlib
import Gooos.Tcp.QueuedTcb

/-!
# One TCB for a four-tuple

`tcpActiveConnect` picks a port in one section and claims a slot in the next, and `tcpHandle`
looks a segment up in one section and `tcpTryPassiveOpen` claims a slot two sections later.
Two active TCBs have different addresses as long as nobody else claims the same port and
peer in between.
-/

namespace Gooos

open Interleave
open Trace (Meets exec)

structure FourTuple where
  localIP : UInt32
  localPort : UInt16
  remoteIP : UInt32
  remotePort : UInt16
  deriving DecidableEq, Repr

def TCB.tuple (x : TCB) : FourTuple := ⟨x.localIP,x.localPort,x.remoteIP,x.remotePort⟩

/-- The port of ours and the peer. -/
def FourTuple.ends (a : FourTuple) : UInt16 × UInt32 × UInt16 := (a.localPort,a.remoteIP,a.remotePort)

/-- The addresses of a segment, seen from the receiver. -/
def segmentTuple (hdr : IPv4Header) (h : TCPHeader) : FourTuple :=
  ⟨hdr.dstIP,h.dstPort,hdr.srcIP,h.srcPort⟩

/-- Active TCBs differ in their addresses; what `tcbLookup` finds is the only match; and a
segment goes to the connection it was looked up for. -/
structure TupleUnique (k : Kernel) : Prop where
  unique : ∀ i j, (k.shared.tcb i).active = true → (k.shared.tcb j).active = true →
    (k.shared.tcb i).tuple = (k.shared.tcb j).tuple → i = j
  lookup : ∀ (a : FourTuple) i,
    tcbLookup k.shared.tcb a.localIP a.localPort a.remoteIP a.remotePort = some i →
    ∀ j, (k.shared.tcb j).active = true → (k.shared.tcb j).tuple = a → j = i
  deliver : ∀ t h payload, k.pc .rx = RxPc.dispatch t h payload → t = k.shared.ref t.slot

/-! ## The condition on runs -/

/-- The port and peer a thread has found free and is going to claim. -/
def Kernel.claim (k : Kernel) : Tid → Option (UInt16 × UInt32 × UInt16)
  | .rx => match k.pc .rx with
    | .openLookup hdr h _ => some (segmentTuple hdr h).ends
    | .openAlloc _ hdr h _ => some (segmentTuple hdr h).ends
    | _ => none
  | .proc p => match k.pc (.proc p) with
    | .connAlloc _ lp dstIP dstPort _ => some (lp,dstIP,dstPort)
    | _ => none
  | _ => none

/-- The slot the receive loop has looked up and not yet dispatched to. -/
def Kernel.lookedUp (k : Kernel) : Option Slot :=
  match k.pc .rx with
  | .dispatch t _ _ => some t.slot
  | _ => none

/-- When a slot is claimed, no other thread is going to claim the same port and peer, and the
receive loop has not just looked up the slot. -/
def claimsAlone (k : Kernel) (e : Ev) : Bool :=
  match e with
  | .run τ _ => match (e.effect k).bind (·.2.op) with
    | some (i,.alloc ..) => k.lookedUp != some i &&
      (τ == .rx || k.claim .rx != k.claim τ) &&
      (List.finRange 32).all fun p => τ == .proc p || k.claim (.proc p) != k.claim τ
    | _ => true
  | _ => true

/-! ## The outline -/

/-- What a thread has found and nobody may spoil before it acts. -/
def tupleLoc : (τ : Tid) → PcOf τ → Shared → Prop
  | .rx, RxPc.openLookup hdr h _, s | .rx, RxPc.openAlloc _ hdr h _, s =>
    ∀ i, (s.tcb i).active = true → (s.tcb i).tuple ≠ segmentTuple hdr h
  | .rx, RxPc.dispatch t _ _, s => t = s.ref t.slot
  | .proc _, ProcPc.connAlloc _ lp dstIP dstPort _, s =>
    ∀ i, (s.tcb i).active = true → (s.tcb i).tuple.ends ≠ (lp,dstIP,dstPort)
  | _, _, _ => True

def tupleOutline : Outline Shared PcOf where
  glob s := ∀ i j, (s.tcb i).active = true → (s.tcb j).active = true →
    (s.tcb i).tuple = (s.tcb j).tuple → i = j
  loc := tupleLoc

/-- No slot is claimed: active TCBs were active before, under the same addresses. -/
structure TableKept (s s' : Shared) : Prop where
  active : ∀ i, (s'.tcb i).active = true → (s.tcb i).active = true ∧ (s'.tcb i).tuple = (s.tcb i).tuple
  gen : s'.gen = s.gen

theorem TableKept.glob {s s' : Shared} (hk : TableKept s s') (h : tupleOutline.glob s) :
    tupleOutline.glob s' := by
  intro i j hi hj heq
  obtain ⟨hi,hti⟩ := hk.active i hi
  obtain ⟨hj,htj⟩ := hk.active j hj
  exact h i j hi hj (by rw [← hti,← htj,heq])

theorem TableKept.loc {s s' : Shared} (hk : TableKept s s') (τ : Tid) (l : PcOf τ)
    (h : tupleLoc τ l s) : tupleLoc τ l s' := by
  have hfree {P : FourTuple → Prop} (hP : ∀ i, (s.tcb i).active = true → P (s.tcb i).tuple) (i : Slot)
      (hi : (s'.tcb i).active = true) : P (s'.tcb i).tuple := by
    obtain ⟨hi,ht⟩ := hk.active i hi
    rw [ht]
    exact hP i hi
  cases τ with
  | rx =>
    cases l with
    | openLookup | openAlloc => exact hfree (P := fun a => a ≠ _) h
    | dispatch t hd payload =>
      change t = s'.ref t.slot
      rw [Shared.ref,hk.gen]
      exact h
    | _ => trivial
  | proc p =>
    cases l with
    | connAlloc c lp dstIP dstPort timeout => exact hfree (P := fun a => a.ends ≠ _) h
    | _ => trivial
  | _ => trivial

/-! ## One step -/

variable {s : Shared} {tcb : Slot → TCB} {a : FourTuple} {j : Slot}

section Step

variable {k : Kernel} {e : Ev} {τ : Tid} {f : Effect (PcOf τ)}

theorem apply_kept (h : ∀ i op, f.op = some (i,op) → op.isAlloc = false) :
    TableKept s (s.apply f) := by
  refine ⟨fun i hact => ?_,funext fun i => gen_apply (h i)⟩
  by_cases hi : ∃ op, f.op = some (i,op)
  · obtain ⟨op,hop⟩ := hi
    rw [apply_tcb_of_op hop] at hact ⊢
    cases hb : op.binds with
    | false =>
      obtain ⟨ha,hlip,hlp,hrip,hrp⟩ := (op.run_frame s.pitTicks (s.tcb i)).addr hb
      rw [ha] at hact
      exact ⟨hact,by rw [TCB.tuple,hlip,hlp,hrip,hrp,TCB.tuple]⟩
    | true =>
      cases op with
      | alloc => cases h i _ hop
      | free => cases hact
      | _ => cases hb
  · rw [apply_tcb_of_quiet fun op hop => hi ⟨op,hop⟩] at hact ⊢
    exact ⟨hact,rfl⟩

theorem tcbLookup_eq_some {i : Slot}
    (h : tcbLookup tcb a.localIP a.localPort a.remoteIP a.remotePort = some i) :
    (tcb i).active = true ∧ (tcb i).tuple = a := by
  have hi := List.find?_some h
  simp only [Bool.and_eq_true,beq_iff_eq] at hi
  obtain ⟨⟨⟨⟨hact,hlip⟩,hlp⟩,hrip⟩,hrp⟩ := hi
  exact ⟨hact,by rw [TCB.tuple,hlip,hlp,hrip,hrp]⟩

theorem tcbLookup_eq_none
    (h : tcbLookup tcb a.localIP a.localPort a.remoteIP a.remotePort = none) (i : Slot)
    (hact : (tcb i).active = true) : (tcb i).tuple ≠ a := by
  rintro rfl
  have hi := List.find?_eq_none.mp h i (List.mem_finRange i)
  simp [TCB.tuple,hact] at hi

/-- The port `tcpAllocEphemeralPort` returns is used by no active TCB. -/
theorem ephemeral_free (h : tcpAllocEphemeralPort tcb ≠ 0) (i : Slot)
    (hact : (tcb i).active = true) : (tcb i).localPort ≠ tcpAllocEphemeralPort tcb := by
  rw [tcpAllocEphemeralPort] at h ⊢
  cases hf : ((List.range 16).map fun j => tcpEphemeralBase+UInt16.ofNat j).find? fun p =>
      !(List.finRange 16).any fun i => (tcb i).active && (tcb i).localPort == p with
  | none =>
    rw [hf] at h
    exact absurd rfl h
  | some p =>
    have hp := List.find?_some hf
    simp only [Bool.not_eq_true',List.any_eq_false,List.mem_finRange,true_implies,
      Bool.and_eq_true,beq_iff_eq,not_and] at hp
    exact hp i hact

/-- A moving thread reaches its next assertion over the table it has seen. -/
theorem tuple_next (he : e.effect k = some ⟨τ,f⟩) (hloc : tupleLoc τ (k.pc τ) k.shared) :
    tupleLoc τ f.next k.shared := by
  cases τ with
  | scan | echo => trivial
  | rx =>
    rcases effect_rx he with ⟨hdr,h,payload,_,_,rfl⟩ | ⟨ok,_,rfl⟩
    · trivial
    · have hgo := rx_goes k.shared ok (k.pc .rx)
      generalize (rxSection k.shared ok (k.pc .rx)).next = l' at hgo
      generalize k.pc .rx = l at hgo hloc
      cases hgo with
      | found hdr h payload i hi => exact rfl
      | unknown hdr h payload hi => exact tcbLookup_eq_none (a := segmentTuple hdr h) hi
      | dispatch t h payload l hd => cases hd <;> trivial
      | openLookup l hdr h payload => exact hloc
      | _ => trivial
  | proc p =>
    rcases effect_proc he with ⟨c,_,_,rfl⟩ | ⟨ok,_,rfl⟩
    · have hent := sysEntry_next k.shared p c
      generalize (sysEntry k.shared p c).next = l' at hent
      cases hent <;> trivial
    · have hgo := proc_goes k.shared ok p (k.pc (.proc p))
      generalize (procSection k.shared ok p (k.pc (.proc p))).next = l' at hgo
      generalize k.pc (.proc p) = l at hgo hloc
      cases hgo with
      | connPort c dstIP dstPort timeout hlp =>
        intro i hact heq
        exact ephemeral_free hlp i hact (congrArg Prod.fst heq)
      | closeSkip t c l hx hl | closeFail t c l hl | closeCommit t c l hl => cases hl <;> trivial
      | _ => trivial

/-- A claim of a slot: by whom, and for which addresses. -/
structure Allocs (k : Kernel) (e : Ev) (τ : Tid) (f : Effect (PcOf τ)) (j : Slot)
    (a : FourTuple) : Prop where
  run : ∃ ok, e = .run τ ok
  vacant : (k.shared.tcb j).active = false
  claim : k.claim τ = some a.ends
  fresh : tupleLoc τ (k.pc τ) k.shared → ∀ i, (k.shared.tcb i).active = true →
    (k.shared.tcb i).tuple ≠ a
  next : ∀ s, tupleLoc τ f.next s

theorem allocs_of_op {op : TcbOp} (he : e.effect k = some ⟨τ,f⟩)
    (hop : f.op = some (j,op)) (ha : op.isAlloc = true) :
    ∃ a : FourTuple, op = .alloc a.localIP a.localPort a.remoteIP a.remotePort ∧
      Allocs k e τ f j a := by
  obtain ⟨ok,rfl,rfl,hd⟩ := does_of_op he hop
  generalize hpc : k.pc τ = l at hd
  cases hd with
  | openAlloc ls hdr h payload i hi =>
    refine ⟨segmentTuple hdr h,rfl,⟨ok,rfl⟩,tcbAllocFind_inactive hi,?_,?_,fun s => ?_⟩
    · simp only [Kernel.claim,hpc]
    · rw [hpc]
      exact fun hloc => hloc
    · simp only [threadSection,rxSection,hi]
      trivial
  | connAlloc p c lp dstIP dstPort timeout i hi =>
    refine ⟨⟨k.shared.ourIP,lp,dstIP,dstPort⟩,rfl,⟨ok,rfl⟩,tcbAllocFind_inactive hi,?_,?_,fun s => ?_⟩
    · simp only [Kernel.claim,hpc]
      rfl
    · rw [hpc]
      exact fun hloc i hact heq => hloc i hact (by rw [heq]; rfl)
    · simp only [threadSection,procSection,hi]
      trivial
  | _ => cases ha

section

variable (hop : f.op = some (j,.alloc a.localIP a.localPort a.remoteIP a.remotePort))
include hop

/-- The table after a claim. -/
theorem apply_alloc : ((s.apply f).tcb j).tuple = a ∧ (∀ i, i ≠ j → (s.apply f).tcb i = s.tcb i) ∧
      ∀ i, i ≠ j → (s.apply f).gen i = s.gen i := by
  have hother (i : Slot) (hi : i ≠ j) (op : TcbOp) : f.op ≠ some (i,op) := by
    rw [hop]
    rintro ⟨⟩
    exact hi rfl
  refine ⟨?_,fun i hi => apply_tcb_of_quiet (hother i hi),fun i hi => ?_⟩
  · rw [apply_tcb_of_op hop]
    rfl
  · exact gen_apply fun op h => absurd h (hother i hi op)

/-- New addresses beside old ones. -/
theorem glob_alloc
    (hfresh : ∀ i, (s.tcb i).active = true → (s.tcb i).tuple ≠ a) (h : tupleOutline.glob s) :
    tupleOutline.glob (s.apply f) := by
  obtain ⟨hj,hother,_⟩ := apply_alloc (s := s) hop
  intro i i' hi hi' heq
  by_cases hij : i = j
  · by_cases hij' : i' = j
    · rw [hij,hij']
    · rw [hother i' hij'] at hi' heq
      rw [hij,hj] at heq
      exact absurd heq.symm (hfresh i' hi')
  · rw [hother i hij] at hi heq
    by_cases hij' : i' = j
    · rw [hij',hj] at heq
      exact absurd heq (hfresh i hi)
    · rw [hother i' hij'] at hi' heq
      exact h i i' hi hi' heq

/-- The others keep what they have found. -/
theorem loc_alloc {τ' : Tid}
    (hclaim : k.claim τ' ≠ some a.ends) (hseen : k.lookedUp ≠ some j)
    (h : tupleLoc τ' (k.pc τ') s) : tupleLoc τ' (k.pc τ') (s.apply f) := by
  obtain ⟨hj,hother,hgen⟩ := apply_alloc (s := s) hop
  have hfree {P : FourTuple → Prop} (ha : P a)
      (hP : ∀ i, (s.tcb i).active = true → P (s.tcb i).tuple) (i : Slot)
      (hi : ((s.apply f).tcb i).active = true) : P ((s.apply f).tcb i).tuple := by
    by_cases hij : i = j
    · subst hij
      rw [hj]
      exact ha
    · rw [hother i hij] at hi ⊢
      exact hP i hi
  cases τ' with
  | scan | echo => trivial
  | rx =>
    simp only [Kernel.claim] at hclaim
    simp only [Kernel.lookedUp] at hseen
    generalize k.pc .rx = l at h hclaim hseen
    cases l with
    | openLookup hdr hd | openAlloc ls hdr hd =>
      refine hfree (P := fun b => b ≠ segmentTuple hdr hd) ?_ h
      rintro rfl
      exact hclaim rfl
    | dispatch t hd payload =>
      change t = (s.apply f).ref t.slot
      rw [Shared.ref,hgen t.slot fun ht => hseen (congrArg some ht)]
      exact h
    | _ => trivial
  | proc p =>
    simp only [Kernel.claim] at hclaim
    generalize k.pc (.proc p) = l at h hclaim
    cases l with
    | connAlloc c lp dstIP dstPort timeout =>
      refine hfree (P := fun b => b.ends ≠ (lp,dstIP,dstPort)) ?_ h
      intro heq
      exact hclaim (by rw [heq])
    | _ => trivial

end

theorem claimsAlone_alloc (hG : claimsAlone k e = true) (he : e.effect k = some ⟨τ,f⟩)
    (hop : f.op = some (j,.alloc a.localIP a.localPort a.remoteIP a.remotePort))
    (hal : Allocs k e τ f j a) : k.lookedUp ≠ some j ∧ ∀ τ', τ' ≠ τ → k.claim τ' ≠ some a.ends := by
  obtain ⟨ok,rfl⟩ := hal.run
  simp only [claimsAlone,he,Option.bind_some,hop,hal.claim,Bool.and_eq_true,bne_iff_ne,ne_eq,
    Bool.or_eq_true,beq_iff_eq,List.all_eq_true,List.mem_finRange,true_implies] at hG
  obtain ⟨⟨hseen,hrx⟩,hproc⟩ := hG
  refine ⟨hseen,fun τ' hne => ?_⟩
  cases τ' with
  | rx => exact hrx.resolve_left (Ne.symm hne)
  | proc p => exact (hproc p).resolve_left (Ne.symm hne)
  | scan | echo => exact nofun

theorem tuple_step (h : tupleOutline.Holds k.shared k.pc) (hG : claimsAlone k e = true) :
    tupleOutline.Holds (k.step e).1.shared (k.step e).1.pc := by
  rw [Kernel.step]
  split
  · have hkept : TableKept k.shared (e.env k.shared) := by
      cases e <;> exact ⟨fun _ h => ⟨h,rfl⟩,rfl⟩
    exact h.env hkept.glob hkept.loc
  · rename_i τ f he
    have hnext := tuple_next he (h.2 τ)
    by_cases ha : ∃ j op, f.op = some (j,op) ∧ op.isAlloc = true
    · obtain ⟨j,op,hop,ha⟩ := ha
      obtain ⟨a,rfl,hal⟩ := allocs_of_op he hop ha
      obtain ⟨hseen,hclaim⟩ := claimsAlone_alloc hG he hop hal
      exact h.move (glob_alloc hop (hal.fresh (h.2 τ)) h.1) (hal.next _)
        fun τ' hne hl => loc_alloc hop (hclaim τ' hne) hseen hl
    · have hkept : TableKept k.shared (k.shared.apply f) := by
        refine apply_kept fun i op hop => ?_
        by_contra hal
        exact ha ⟨i,op,hop,by simpa using hal⟩
      exact h.move (hkept.glob h.1) (hkept.loc τ _ hnext) fun τ' _ hl => hkept.loc τ' _ hl

end Step

/-- In every run in which slots are claimed alone, addresses are unique. -/
theorem four_tuple_unique (es : List Ev)
    (h : Meets Kernel.step (fun k e => claimsAlone k e = true) .boot es) :
    TupleUnique (exec Kernel.step .boot es) := by
  have hboot : tupleOutline.Holds Kernel.boot.shared Kernel.boot.pc := by
    refine ⟨nofun,fun τ => ?_⟩
    cases τ <;> trivial
  have hrun := Meets.inv (I := fun k => tupleOutline.Holds k.shared k.pc)
    (fun _ _ hk hG => tuple_step hk hG) hboot h
  refine ⟨hrun.1,fun a i hi j hj hja => ?_,fun t hd payload hpc => ?_⟩
  · obtain ⟨hact,hia⟩ := tcbLookup_eq_some hi
    exact hrun.1 j i hj hact (hja.trans hia.symm)
  · have hrx := hrun.2 .rx
    rw [hpc] at hrx
    exact hrx

/-- Two processes connect to one peer, one after the other. -/
def connectInTurn : List Ev :=
  clientHandshake++[.sys 1 .socket,.sys 1 (.connect 3 peerIP 80 0)]++runs (.proc 1) 6

theorem four_tuple_unique_in_turn :
    Meets Kernel.step (fun k e => claimsAlone k e = true) .boot connectInTurn ∧
    TupleUnique (exec Kernel.step .boot connectInTurn) :=
  ⟨by decide +kernel,four_tuple_unique _ (by decide +kernel)⟩

/-- Two processes connect to one peer, and both pick their port before either claims a slot. -/
def connectTogether : List Ev :=
  [.sys 0 .socket,.sys 0 (.connect 3 peerIP 80 0),.sys 1 .socket,.sys 1 (.connect 3 peerIP 80 0),
    .run (.proc 0) true,.run (.proc 1) true,.run (.proc 0) true,.run (.proc 1) true]

/-- Both TCBs are `10.0.2.15:49152` to `10.0.2.2:80`. -/
theorem connect_together_same_tuple :
    ¬TupleUnique (exec Kernel.step .boot connectTogether) := by
  intro h
  have hsame := h.unique 0 1 (by decide +kernel) (by decide +kernel) (by decide +kernel)
  cases hsame

end Gooos
