import Mathlib
import Gooos.Tcp.SendWindow

/-!
# The send sequence space

`sndUna` and `sndNxt` along a run. Both opens and `tcpRTOFire` put `sndNxt` on the number of
a SYN, release the lock for its transmission, and put `sndNxt` back afterwards. Apart from
that both cursors only advance. What keeps `sndNxt` less than half a circle ahead is the
window: segments that were cut and are not accounted for yet count as in flight.
-/

namespace Gooos

open Interleave Function
open Bool (and_eq_true_iff)
open Option (getD_none)
open Trace (Meets exec)

/-! ## Set aside for a SYN -/

/-- The value `tcpTryPassiveOpen` restores `sndNxt` of slot `i` to once its SYN is out. -/
def RxPc.savedNxt (i : Slot) : RxPc → Option UInt32
  | .openSend _ t orig | .openRestore _ t orig _ => if t.slot = i then some orig else none
  | _ => none

/-- The same for `tcpActiveConnect`. -/
def ProcPc.savedNxt (i : Slot) : ProcPc → Option UInt32
  | .connSend _ t _ orig | .connRestore _ t _ orig _ => if t.slot = i then some orig else none
  | _ => none

/-- The value a thread restores `sndNxt` of slot `i` to. -/
def savedNxt (i : Slot) : (τ : Tid) → PcOf τ → Option UInt32
  | .rx, l => RxPc.savedNxt i l
  | .scan, l => ScanPc.savedNxt i l
  | .echo, _ => none
  | .proc _, l => ProcPc.savedNxt i l

/-- The value that `sndNxt` of slot `i` will be restored to. -/
def setAside (i : Slot) (pc : (τ : Tid) → PcOf τ) : Option UInt32 :=
  (.rx :: .scan :: (List.finRange 32).map Tid.proc).findSome? fun τ => savedNxt i τ (pc τ)

/-- Where the numbers in flight end: `sndNxt`, or what it will be again. -/
def sendLimit (i : Slot) (x : TCB) (pc : (τ : Tid) → PcOf τ) : UInt32 :=
  (setAside i pc).getD x.sndNxt

/-- Some thread has `sndNxt` of slot `i` on the number of a SYN. -/
def Kernel.rolledBack (k : Kernel) (i : Slot) : Bool := (setAside i k.pc).isSome

/-- At most one thread has. -/
def SavedOnce (i : Slot) (pc : (τ : Tid) → PcOf τ) : Prop :=
  ∀ τ τ', (savedNxt i τ (pc τ)).isSome → (savedNxt i τ' (pc τ')).isSome → τ = τ'

section SetAside

variable {i : Slot} {pc : (τ : Tid) → PcOf τ} {τ : Tid} {l : PcOf τ} {v : UInt32}

theorem setAside_eq_none : setAside i pc = none ↔ ∀ τ, savedNxt i τ (pc τ) = none := by
  rw [setAside,List.findSome?_eq_none_iff]
  refine ⟨fun h τ => ?_,fun h τ _ => h τ⟩
  cases τ with
  | echo => rfl
  | rx | scan | proc p => exact h _ (by simp)

theorem SavedOnce.setAside_eq (h : SavedOnce i pc) (hv : savedNxt i τ (pc τ) = some v) :
    setAside i pc = some v := by
  cases hs : setAside i pc with
  | none =>
    rw [setAside_eq_none.mp hs τ] at hv
    cases hv
  | some w =>
    obtain ⟨τ',-,hw⟩ := List.exists_of_findSome?_eq_some hs
    cases h τ τ' (by rw [hv]; rfl) (by rw [hw]; rfl)
    exact hw.symm.trans hv

theorem savedNxt_update (hl : savedNxt i τ l = savedNxt i τ (pc τ)) (τ' : Tid) :
    savedNxt i τ' (update pc τ l τ') = savedNxt i τ' (pc τ') := by
  by_cases hτ : τ' = τ
  · subst hτ
    rw [update_self,hl]
  · rw [update_of_ne hτ]

theorem SavedOnce.keep (h : SavedOnce i pc) (hl : savedNxt i τ l = savedNxt i τ (pc τ)) :
    SavedOnce i (update pc τ l) ∧ setAside i (update pc τ l) = setAside i pc := by
  refine ⟨fun τ₁ τ₂ => ?_,?_⟩
  · rw [savedNxt_update hl,savedNxt_update hl]
    exact h τ₁ τ₂
  · simp only [setAside,savedNxt_update hl]

/-- A thread sets `sndNxt` aside where none has. -/
theorem savedOnce_begin (h : setAside i pc = none) (hl : savedNxt i τ l = some v) :
    SavedOnce i (update pc τ l) ∧ setAside i (update pc τ l) = some v := by
  have hone : SavedOnce i (update pc τ l) := by
    have hself (τ' : Tid) (hs : (savedNxt i τ' (update pc τ l τ')).isSome) : τ' = τ := by
      by_contra hτ
      rw [update_of_ne hτ,setAside_eq_none.mp h] at hs
      cases hs
    exact fun τ₁ τ₂ h₁ h₂ => (hself τ₁ h₁).trans (hself τ₂ h₂).symm
  exact ⟨hone,hone.setAside_eq (τ := τ) (by rw [update_self,hl])⟩

/-- The thread that has `sndNxt` set aside restores it. -/
theorem SavedOnce.finish (h : SavedOnce i pc) (hv : savedNxt i τ (pc τ) = some v)
    (hl : savedNxt i τ l = none) :
    SavedOnce i (update pc τ l) ∧ setAside i (update pc τ l) = none := by
  have hnone (τ' : Tid) : savedNxt i τ' (update pc τ l τ') = none := by
    by_cases hτ : τ' = τ
    · subst hτ
      rw [update_self,hl]
    · rw [update_of_ne hτ,← Option.not_isSome_iff_eq_none]
      exact fun hs => hτ (h τ' τ hs (by rw [hv]; rfl))
  refine ⟨fun τ₁ _ h₁ => ?_,setAside_eq_none.mpr hnone⟩
  rw [hnone τ₁] at h₁
  cases h₁

end SetAside

/-! ## Cut and not accounted for -/

/-- The bytes of slot `i` a process has cut and not accounted for. -/
def ProcPc.pending (i : Slot) : ProcPc → ℕ
  | .drainSend t _ d | .drainCommit t _ d => if t.slot = i then d.bytes.length else 0
  | _ => 0

/-- What all processes have cut of slot `i`. -/
def pending (i : Slot) (pc : (τ : Tid) → PcOf τ) : ℕ :=
  ∑ p : ProcSlot, ProcPc.pending i (pc (.proc p))

section Pending

variable {i : Slot} {pc : (τ : Tid) → PcOf τ} {p : ProcSlot} {s : Shared} {ok : Bool}

theorem pending_update (l : ProcPc) :
    pending i (update pc (.proc p) l)+ProcPc.pending i (pc (.proc p)) =
      pending i pc+ProcPc.pending i l := by
  have hup : (fun q : ProcSlot => ProcPc.pending i (update pc (.proc p) l (.proc q))) =
      update (fun q => ProcPc.pending i (pc (.proc q))) p (ProcPc.pending i l) := by
    funext q
    by_cases hq : q = p
    · subst hq
      rw [update_self,update_self]
    · rw [update_of_ne hq,update_of_ne (by rintro ⟨⟩; exact hq rfl)]
  rw [pending,hup,Finset.sum_update_of_mem (Finset.mem_univ p),pending,
    ← Finset.add_sum_erase _ _ (Finset.mem_univ p),Finset.sdiff_singleton_eq_erase]
  omega

theorem pending_update_of_ne {τ : Tid} (hτ : ∀ p, τ ≠ .proc p) (l : PcOf τ) :
    pending i (update pc τ l) = pending i pc := by
  simp only [pending]
  refine Finset.sum_congr rfl fun p _ => ?_
  rw [update_of_ne (Ne.symm (hτ p))]

theorem pending_le (h : ∀ p, ProcPc.pending i (pc (.proc p)) ≤ 1500) : pending i pc ≤ 48000 := by
  have hsum := Finset.sum_le_card_nsmul Finset.univ _ 1500 fun p _ => h p
  simpa [pending] using hsum

/-- A process cuts a segment, or what it has cut does not grow and is accounted for. -/
theorem proc_pending (s : Shared) (ok : Bool) (p : ProcSlot) (l : ProcPc) (i : Slot) :
    (∃ t n d, l = .drain t n ∧ t.slot = i ∧ drainPeek (s.tcb i) = some d ∧
      ProcPc.pending i (procSection s ok p l).next = d.bytes.length) ∨
    ProcPc.pending i (procSection s ok p l).next ≤ ProcPc.pending i l ∧
      ∀ d, (procSection s ok p l).op = some (i,.drainCommit d) →
        ProcPc.pending i (procSection s ok p l).next+d.bytes.length ≤ ProcPc.pending i l := by
  have hcom (d : Drain) (hop : (procSection s ok p l).op = some (i,.drainCommit d)) :
      ProcPc.pending i (procSection s ok p l).next+d.bytes.length ≤ ProcPc.pending i l := by
    cases proc_does hop with
    | drainCommit _ t n d => simp [procSection,ProcPc.pending]
  have hgo := proc_goes s ok p l
  generalize (procSection s ok p l).next = l' at hgo hcom ⊢
  cases hgo with
  | drain t n d hd =>
    by_cases ht : t.slot = i
    · exact .inl ⟨t,n,d,rfl,ht,ht ▸ hd,by simp [ProcPc.pending,ht]⟩
    · exact .inr ⟨by simp [ProcPc.pending,ht],hcom⟩
  | drainSend => exact .inr ⟨le_rfl,hcom⟩
  | closeSkip _ _ _ _ hl | closeFail _ _ _ hl | closeCommit _ _ _ hl =>
    cases hl <;> exact .inr ⟨Nat.zero_le _,hcom⟩
  | _ => exact .inr ⟨Nat.zero_le _,hcom⟩

end Pending

/-! ## The condition on runs -/

/-- Puts `sndNxt` on a SYN. -/
def TcbOp.rollsBack (x : TCB) : TcbOp → Bool
  | .synRollback => true
  | .rtoBegin => headSyn x
  | _ => false

/-- What is sent without a look at the window is accounted for while at most `2^30` numbers
are in flight. -/
def roomFor (x : TCB) (op : TcbOp) : Bool :=
  match op with
  | .closeCommit | .echoDataCommit _ | .echoFinCommit => decide (x.flightWith op.advance ≤ 2^30)
  | _ => true

/-- The event cuts a segment of slot `i`. -/
def Sys.cuts (i : Slot) (σ : Sys) : Ev → Bool
  | .run (.proc p) _ => match (σ.1.pc (.proc p) : ProcPc) with
    | .drain t _ => t.slot == i
    | _ => false
  | _ => false

/-- While `sndNxt` of slot `i` is on a SYN no connection is opened there, no ACK is processed,
nothing is cut or accounted for, and `sndNxt` is not put on a SYN once more. -/
def spaceOrdered (i : Slot) (σ : Sys) (e : Ev) : Bool :=
  (!σ.1.rolledBack i || !σ.cuts i e) && match σ.opOn i e with
  | some op => ackOrdered (σ.tcb i) op && roomFor (σ.tcb i) op && (!σ.1.rolledBack i ||
      !(op.opens || op.acks || decide (0 < op.advance) || op.rollsBack (σ.tcb i)))
  | none => true

/-- Before the handshake is complete only its own ACK is applied and nothing is accounted
for. -/
def synKept (i : Slot) (σ : Sys) (e : Ev) : Bool :=
  match σ.opOn i e with
  | some op => !(op.handles.isSome || decide (0 < op.advance)) || !(σ.tcb i).state.synPhase
  | none => true

section Step

variable {i : Slot} {σ : Sys} {e : Ev} {τ : Tid} {f : Effect (PcOf τ)} {op : TcbOp}

theorem Kernel.setAside_of_not_rolledBack {k : Kernel} (h : k.rolledBack i = false) :
    setAside i k.pc = none := by
  simpa [Kernel.rolledBack] using h

theorem spaceOrdered_op (hG : spaceOrdered i σ e = true) (he : e.effect σ.1 = some ⟨τ,f⟩)
    (hop : f.op = some (i,op)) : ackOrdered (σ.tcb i) op = true ∧ roomFor (σ.tcb i) op = true ∧
      (op.opens = true ∨ op.acks = true ∨ 0 < op.advance ∨ op.rollsBack (σ.tcb i) = true →
        setAside i σ.1.pc = none) := by
  have hord := (and_eq_true_iff.mp hG).2
  rw [Sys.opOn_eq he hop] at hord
  simp only [Bool.and_eq_true] at hord
  refine ⟨hord.1.1,hord.1.2,fun hc => Kernel.setAside_of_not_rolledBack ?_⟩
  by_contra hback
  have hrest := hord.2
  simp only [(Bool.not_eq_false _).mp hback,Bool.not_true,Bool.false_or,Bool.not_eq_true',
    Bool.or_eq_false_iff,decide_eq_false_iff_not] at hrest
  obtain ⟨⟨⟨h1,h2⟩,h3⟩,h4⟩ := hrest
  rcases hc with h | h | h | h <;> simp_all

/-! ## The limit of what is in flight along a step -/

/-- The operation sets `sndNxt` aside or restores it. -/
def TcbOp.rolls : TcbOp → Bool
  | .synRollback | .synRestore .. | .rtoBegin | .rtoRestore _ => true
  | _ => false

theorem rx_savedNxt {s : Shared} {ok : Bool} {l : RxPc}
    (h : ∀ op, (rxSection s ok l).op = some (i,op) → op.rolls = false) :
    RxPc.savedNxt i (rxSection s ok l).next = RxPc.savedNxt i l := by
  have hother {t : TcbRef} (op : TcbOp) (hop : (rxSection s ok l).op = some (t.slot,op))
      (hr : op.rolls = true) : t.slot ≠ i := by
    rintro rfl
    rw [h op hop] at hr
    cases hr
  have hgo := rx_goes s ok l
  generalize hn : (rxSection s ok l).next = l' at hgo
  cases hgo with
  | idle l | refuse l =>
    cases l with
    | openSend => cases hn
    | openRestore l t orig sent =>
      simp [RxPc.savedNxt,hother (.synRestore orig _ sent) rfl rfl]
    | _ => rfl
  | dispatch t hd payload _ hdis => cases hdis <;> rfl
  | openRollback l t => simp [RxPc.savedNxt,hother .synRollback rfl rfl]
  | openFail l t orig => simp [RxPc.savedNxt,hother (.synRestore orig _ false) rfl rfl]
  | _ => rfl

theorem proc_savedNxt {s : Shared} {ok : Bool} {p : ProcSlot} {l : ProcPc}
    (h : ∀ op, (procSection s ok p l).op = some (i,op) → op.rolls = false) :
    ProcPc.savedNxt i (procSection s ok p l).next = ProcPc.savedNxt i l := by
  have hother {t : TcbRef} (op : TcbOp) (hop : (procSection s ok p l).op = some (t.slot,op))
      (hr : op.rolls = true) : t.slot ≠ i := by
    rintro rfl
    rw [h op hop] at hr
    cases hr
  have hgo := proc_goes s ok p l
  generalize hn : (procSection s ok p l).next = l' at hgo
  cases hgo with
  | idle l =>
    cases l with
    | connSend => cases hn
    | connRestore c t timeout orig sent =>
      simp [ProcPc.savedNxt,hother (.synRestore orig _ sent) rfl rfl]
    | _ => rfl
  | connRollback c t => simp [ProcPc.savedNxt,hother .synRollback rfl rfl]
  | connRestore c t _ orig => simp [ProcPc.savedNxt,hother (.synRestore orig _ true) rfl rfl]
  | connFail c t _ orig => simp [ProcPc.savedNxt,hother (.synRestore orig _ false) rfl rfl]
  | closeSkip _ _ _ _ hl | closeFail _ _ _ hl | closeCommit _ _ _ hl => cases hl <;> rfl
  | _ => rfl

/-- Other operations leave alone what a thread has set aside. -/
theorem savedNxt_kept (he : e.effect σ.1 = some ⟨τ,f⟩)
    (h : ∀ op, f.op = some (i,op) → op.rolls = false) :
    savedNxt i τ f.next = savedNxt i τ (σ.1.pc τ) := by
  cases τ with
  | rx =>
    rcases effect_rx he with ⟨hdr,hd,payload,-,hidle,rfl⟩ | ⟨ok,-,rfl⟩
    · rw [hidle]
      rfl
    · exact rx_savedNxt h
  | scan =>
    have hsame := savedNxt_next (i := i) he (fun hb => by cases h _ hb) fun _ hr => by cases h _ hr
    rwa [update_self] at hsame
  | echo => rfl
  | proc p =>
    rcases effect_proc he with ⟨c,-,hidle,rfl⟩ | ⟨ok,-,rfl⟩
    · rw [hidle]
      have hent := sysEntry_next σ.1.shared p c
      generalize (sysEntry σ.1.shared p c).next = l at hent
      cases hent <;> rfl
    · exact proc_savedNxt h

/-- `tcpRTOFire` leaves `sndNxt` alone, or sets it aside for a SYN. -/
theorem tcpRTOFireBegin_cases (now : UInt64) (x : TCB) :
    ((tcpRTOFireBegin now x).1.sndNxt = x.sndNxt ∧ ∀ flags saved,
      (tcpRTOFireBegin now x).2 = .resend flags saved → hasFlag flags tcpFlagSYN = false) ∨
    headSyn x = true ∧ ∃ flags, hasFlag flags tcpFlagSYN = true ∧
      (tcpRTOFireBegin now x).2 = .resend flags x.sndNxt := by
  rw [tcpRTOFireBegin]
  split
  · exact .inl ⟨rfl,by rintro _ _ ⟨⟩⟩
  · split
    · exact .inl ⟨rfl,by rintro _ _ ⟨⟩⟩
    · split
      · exact .inl ⟨rfl,by rintro _ _ ⟨⟩⟩
      · split
        · exact .inl ⟨rfl,by rintro _ _ ⟨⟩⟩
        · rename_i head hhead
          obtain ⟨g,-,hg⟩ := rtoBackoff_shape now head x
          dsimp only
          rw [hg]
          cases hsyn : hasFlag head.flags tcpFlagSYN with
          | true => exact .inr ⟨by rw [headSyn,hhead]; exact hsyn,head.flags,hsyn,rfl⟩
          | false => exact .inl ⟨rfl,by rintro _ _ ⟨⟩; exact hsyn⟩

section Limit

variable (h : SavedOnce i σ.1.pc) (hG : spaceOrdered i σ e = true)
  (he : e.effect σ.1 = some ⟨τ,f⟩) (hop : f.op = some (i,op))
include h hG he hop

/-- The threads that set `sndNxt` aside and restore it, and where the numbers in flight end. -/
theorem SavedOnce.rolled (hr : op.rolls = true) :
    SavedOnce i (update σ.1.pc τ f.next) ∧
    sendLimit i (op.run σ.1.shared.pitTicks (σ.tcb i)) (update σ.1.pc τ f.next) =
      sendLimit i (σ.tcb i) σ.1.pc := by
  obtain ⟨-,-,hrest⟩ := spaceOrdered_op hG he hop
  cases op with
  | synRollback =>
    have hnone := hrest (.inr (.inr (.inr rfl)))
    have hsave : savedNxt i τ f.next = some (σ.tcb i).sndNxt := by
      obtain ⟨ok,-,rfl,hd⟩ := does_of_op he hop
      generalize hl : σ.1.pc τ = l at hd
      cases hd with
      | openRollback | connRollback =>
        simp [threadSection,rxSection,procSection,savedNxt,RxPc.savedNxt,ProcPc.savedNxt,Sys.tcb]
    obtain ⟨hone,hset⟩ := savedOnce_begin hnone hsave
    exact ⟨hone,by rw [sendLimit,sendLimit,hset,hnone]; rfl⟩
  | synRestore orig flags sent =>
    have hold : savedNxt i τ (σ.1.pc τ) = some orig ∧ savedNxt i τ f.next = none := by
      obtain ⟨ok,-,rfl,hd⟩ := does_of_op he hop
      generalize hl : σ.1.pc τ = l at hd
      cases hd with
      | openRestore | connRestore =>
        refine ⟨by simp [savedNxt,RxPc.savedNxt,ProcPc.savedNxt],?_⟩
        cases sent <;> rfl
    obtain ⟨hone,hset⟩ := h.finish hold.1 hold.2
    obtain ⟨g,-,hg⟩ := synRestore_shape σ.1.shared.pitTicks orig flags sent (σ.tcb i)
    exact ⟨hone,by rw [sendLimit,sendLimit,hset,h.setAside_eq hold.1,TcbOp.run,hg]; rfl⟩
  | rtoRestore saved =>
    have hold : savedNxt i τ (σ.1.pc τ) = some saved ∧ savedNxt i τ f.next = none := by
      obtain ⟨ok,-,rfl,hd⟩ := does_of_op he hop
      generalize hl : σ.1.pc τ = l at hd
      cases hd with
      | rtoRestore => exact ⟨by simp [savedNxt,ScanPc.savedNxt],rfl⟩
    obtain ⟨hone,hset⟩ := h.finish hold.1 hold.2
    exact ⟨hone,by rw [sendLimit,sendLimit,hset,h.setAside_eq hold.1]; rfl⟩
  | rtoBegin =>
    obtain ⟨hbefore,hafter⟩ := savedNxt_fire he hop
    have hτ : τ = .scan := by
      obtain ⟨ok,-,rfl,hd⟩ := does_of_op he hop
      generalize σ.1.pc τ = l at hd
      cases hd
      rfl
    subst hτ
    rw [update_self] at hafter
    rcases tcpRTOFireBegin_cases σ.1.shared.pitTicks (σ.tcb i) with
      ⟨hnxt,hflags⟩ | ⟨hhead,flags,hsyn,hres⟩
    · have hnone : savedNxt i .scan f.next = savedNxt i .scan (σ.1.pc .scan) := by
        rw [savedNxt,savedNxt,hbefore,hafter]
        split
        · rw [if_neg (by simp [hflags _ _ ‹_›])]
        · rfl
      obtain ⟨hone,hset⟩ := h.keep hnone
      exact ⟨hone,by rw [sendLimit,sendLimit,hset,TcbOp.run,hnxt]⟩
    · have hnone := hrest (.inr (.inr (.inr hhead)))
      obtain ⟨hone,hset⟩ := savedOnce_begin (τ := .scan) hnone
        (hafter.trans (by rw [hres]; exact if_pos hsyn))
      exact ⟨hone,by rw [sendLimit,sendLimit,hset,hnone]; rfl⟩
  | _ => cases hr

/-- What is in flight ends where it did, or behind what the operation accounts for. -/
theorem SavedOnce.operate (ho : op.opens = false) :
    SavedOnce i (update σ.1.pc τ f.next) ∧
    sendLimit i (op.run σ.1.shared.pitTicks (σ.tcb i)) (update σ.1.pc τ f.next) =
      sendLimit i (σ.tcb i) σ.1.pc+UInt32.ofNat op.advance := by
  by_cases hr : op.rolls = true
  · obtain ⟨hone,hlim⟩ := h.rolled hG he hop hr
    refine ⟨hone,?_⟩
    rw [hlim]
    cases op <;> first | cases hr; done | exact (UInt32.add_zero _).symm
  · obtain ⟨hone,hset⟩ := h.keep (savedNxt_kept (i := i) he fun op' hop' => by
      rw [hop] at hop'
      cases hop'
      simpa using hr)
    refine ⟨hone,?_⟩
    have hnxt := TcbOp.run_sndNxt (x := σ.tcb i) σ.1.shared.pitTicks ho
      (by cases op <;> first | rfl | exact absurd rfl hr)
    by_cases hadv : 0 < op.advance
    · obtain ⟨-,-,hrest⟩ := spaceOrdered_op hG he hop
      rw [sendLimit,sendLimit,hset,hrest (.inr (.inr (.inl hadv))),getD_none,
        getD_none,hnxt]
    · have hzero : op.advance = 0 := by omega
      rw [hzero] at hnxt ⊢
      rw [sendLimit,sendLimit,hset,hnxt,show UInt32.ofNat 0 = 0 from rfl,UInt32.add_zero,
        UInt32.add_zero]

end Limit

/-- A step cuts a segment, or what is cut does not grow and is accounted for. -/
theorem pending_step (he : e.effect σ.1 = some ⟨τ,f⟩) :
    (∃ d, drainPeek (σ.tcb i) = some d ∧ σ.cuts i e = true ∧ (∀ op, f.op ≠ some (i,op)) ∧
      pending i (update σ.1.pc τ f.next) ≤ pending i σ.1.pc+d.bytes.length) ∨
    pending i (update σ.1.pc τ f.next) ≤ pending i σ.1.pc ∧
      ∀ d, f.op = some (i,.drainCommit d) →
        pending i (update σ.1.pc τ f.next)+d.bytes.length ≤ pending i σ.1.pc := by
  by_cases hτ : ∃ p, τ = .proc p
  · obtain ⟨p,rfl⟩ := hτ
    have hsum := @pending_update i σ.1.pc p f.next
    rcases effect_proc he with ⟨c,-,hidle,rfl⟩ | ⟨ok,rfl,rfl⟩
    · have hnone : ProcPc.pending i (sysEntry σ.1.shared p c).next = 0 := by
        have hent := sysEntry_next σ.1.shared p c
        generalize (sysEntry σ.1.shared p c).next = l at hent
        cases hent <;> rfl
      refine .inr ⟨by omega,fun d hop => ?_⟩
      rw [sysEntry_op] at hop
      cases hop
    · rcases proc_pending σ.1.shared ok p (σ.1.pc (.proc p)) i with
        ⟨t,n,d,hl,ht,hd,hlen⟩ | ⟨hle,hcom⟩
      · refine .inl ⟨d,hd,by simp [Sys.cuts,hl,ht],fun op hop => ?_,by omega⟩
        have hdoes := proc_does hop
        rw [hl] at hdoes
        cases hdoes
      · refine .inr ⟨by omega,fun d hop => ?_⟩
        have hle' := hcom d hop
        omega
  · have hkeep : pending i (update σ.1.pc τ f.next) = pending i σ.1.pc :=
      pending_update_of_ne (fun p hp => hτ ⟨p,hp⟩) f.next
    refine .inr ⟨hkeep.le,fun d hop => ?_⟩
    obtain ⟨ok,-,rfl,hd⟩ := does_of_op he hop
    generalize σ.1.pc τ = l at hd
    cases hd with
    | drainCommit p => exact absurd ⟨p,rfl⟩ hτ

theorem pending_next_le (he : e.effect σ.1 = some ⟨τ,f⟩)
    (h : ∀ p, ProcPc.pending i (σ.1.pc (.proc p)) ≤ 1500) (p : ProcSlot) :
    ProcPc.pending i (update σ.1.pc τ f.next (.proc p)) ≤ 1500 := by
  by_cases hτ : τ = .proc p
  · subst hτ
    rw [update_self]
    rcases effect_proc he with ⟨c,-,hidle,rfl⟩ | ⟨ok,rfl,rfl⟩
    · have hent := sysEntry_next σ.1.shared p c
      generalize (sysEntry σ.1.shared p c).next = l at hent
      cases hent <;> exact Nat.zero_le _
    · rcases proc_pending σ.1.shared ok p (σ.1.pc (.proc p)) i with
        ⟨t,n,d,-,-,hd,hlen⟩ | ⟨hle,-⟩
      · exact hlen.trans_le (drainPeek_length hd).2
      · exact hle.trans (h p)
  · rw [update_of_ne (Ne.symm hτ)]
    exact h p

end Step

/-! ## Acknowledgements -/

section Ack

variable {x : TCB} {now : UInt64} {op : TcbOp}

theorem tcpAckUpdate_sndUna (now : UInt64) (x : TCB) (h : TCPHeader) :
    (tcpAckUpdate now x h).1.sndUna = x.sndUna ∨ (tcpAckUpdate now x h).1.sndUna = h.ack ∧
      seqLE x.sndUna h.ack = true ∧ seqLE h.ack x.sndNxt = true := by
  rw [tcpAckUpdate]
  split
  · exact .inl rfl
  · split
    · exact .inl rfl
    · rename_i hin
      simp only [Bool.or_eq_true,Bool.not_eq_true',not_or,Bool.not_eq_false] at hin
      rw [(windowUpdate_retx now _ h).1]
      split
      · obtain ⟨y,hy,hu,-⟩ := ackAdvance_shape now x h.ack
        rw [hy,(rearmRTO_kept now y).sndUna]
        exact .inr ⟨hu,hin⟩
      · exact .inl rfl

theorem dupAckSection_snd (x : TCB) :
    (dupAckSection x).sndUna = x.sndUna ∧ (dupAckSection x).sndWnd = x.sndWnd := by
  simp only [dupAckSection,tcpCCOnDupAck]
  split <;> exact ⟨rfl,rfl⟩

theorem synAcked_snd (now : UInt64) (x : TCB) (ack : UInt32) :
    (synAcked now x ack).sndUna = x.sndUna ∧ (synAcked now x ack).sndWnd = x.sndWnd := by
  obtain ⟨z,hz,hu,-,hw⟩ := synAcked_shape now x ack
  have hkept := rearmRTO_kept now z
  rw [hz]
  exact ⟨hkept.sndUna.trans hu,hkept.sndWnd.trans hw⟩

theorem ackAdvance_sndWnd (now : UInt64) (x : TCB) (ack : UInt32) :
    (ackAdvance now x ack).sndWnd = x.sndWnd := by
  obtain ⟨y,hy,-,-,hw,-⟩ := ackAdvance_shape now x ack
  rw [hy,(rearmRTO_kept now y).sndWnd,hw]

/-- The window is what a segment advertised. -/
theorem tcpAckUpdate_sndWnd (now : UInt64) (x : TCB) (h : TCPHeader) :
    (tcpAckUpdate now x h).1.sndWnd = x.sndWnd ∨
      (tcpAckUpdate now x h).1.sndWnd = h.window.toUInt32 := by
  have hadv : (if x.sndUna ≠ h.ack then ackAdvance now x h.ack else x).sndWnd = x.sndWnd := by
    split
    · exact ackAdvance_sndWnd now x h.ack
    · rfl
  rw [tcpAckUpdate]
  split
  · exact .inl rfl
  · split
    · exact .inl rfl
    · generalize (if x.sndUna ≠ h.ack then ackAdvance now x h.ack else x) = y at hadv ⊢
      simp only [windowUpdate,tcpMaybeArmPersist]
      split_ifs <;> first | exact .inr rfl | exact .inl hadv

/-- An ACK taken in order moves `sndUna` towards `sndNxt`. -/
theorem TcbOp.una_forward (ha : op.acks = true) (hord : ackOrdered x op = true) :
    Circle.dist x.sndUna (op.run now x).sndUna ≤ Circle.dist x.sndUna x.sndNxt := by
  rcases TcbOp.acks_cases ha with ⟨h,rfl | rfl⟩ | ⟨h,hh⟩
  · rw [TcbOp.run,Gooos.synSentAck,(synAcked_snd ..).1]
    exact of_decide_eq_true hord
  · rw [TcbOp.run,Gooos.synReceivedAck,(synAcked_snd ..).1]
    exact of_decide_eq_true hord
  · obtain ⟨y,z,hy,hstep,hz⟩ := handler_ack hh now x
    rw [hz.sndUna]
    have hkeep (hu : z.sndUna = y.sndUna) :
        Circle.dist x.sndUna z.sndUna ≤ Circle.dist x.sndUna x.sndNxt := by
      rw [hu,hy.sndUna,Circle.dist_self]
      exact Nat.zero_le _
    cases hstep with
    | skip => exact hkeep rfl
    | dup n hd => exact hkeep (dupAckSection_snd y).1
    | update =>
      rcases tcpAckUpdate_sndUna now y h with hu | ⟨hu,hle,hge⟩
      · exact hkeep hu
      · rw [hu]
        rw [hy.sndUna] at hle
        rw [hy.sndNxt] at hge
        exact ack_between hle hge (ackOrdered_handles hh hord)

/-- The window never exceeds what 16 bits can say. -/
theorem TcbOp.sndWnd_lt (op : TcbOp) (hx : x.sndWnd.toNat < 2^16) :
    (op.run now x).sndWnd.toNat < 2^16 := by
  have hwin (h : TCPHeader) : h.window.toUInt32.toNat < 2^16 := by
    rw [UInt16.toNat_toUInt32]
    exact h.window.toNat_lt
  by_cases ha : op.acks = true
  · rcases TcbOp.acks_cases ha with ⟨h,rfl | rfl⟩ | ⟨h,hh⟩
    · rw [TcbOp.run,Gooos.synSentAck,(synAcked_snd ..).2]
      exact hwin h
    · rw [TcbOp.run,Gooos.synReceivedAck,(synAcked_snd ..).2]
      exact hwin h
    · obtain ⟨y,z,hy,hstep,hz⟩ := handler_ack hh now x
      have hy' : y.sndWnd = x.sndWnd := congrArg FlowVars.sndWnd hy.flow
      have hz' : (op.run now x).sndWnd = z.sndWnd := congrArg FlowVars.sndWnd hz.flow
      rw [hz']
      cases hstep with
      | skip => rwa [hy']
      | dup n hd => rwa [(dupAckSection_snd y).2,hy']
      | update =>
        rcases tcpAckUpdate_sndWnd now y h with hw | hw
        · rwa [hw,hy']
        · rw [hw]
          exact hwin h
  · cases op with
    | passiveInit l h => exact hwin h
    | activeInit => exact hx
    | _ => rwa [(TcbOp.run_frame now x _).sndWnd rfl (by simpa using ha)]

end Ack

/-! ## The invariant -/

/-- The numbers of slot `i` that are in flight or cut stay far below half a circle. -/
structure SpaceInv (i : Slot) (x : TCB) (pc : (τ : Tid) → PcOf τ) : Prop where
  once : SavedOnce i pc
  wnd : x.sndWnd.toNat < 2^16
  cut : ∀ p, ProcPc.pending i (pc (.proc p)) ≤ 1500
  flight : Circle.dist x.sndUna (sendLimit i x pc)+pending i pc ≤ 2^30+48000

section Space

variable {i : Slot} {σ : Sys} {e : Ev} {τ : Tid} {f : Effect (PcOf τ)} {op : TcbOp}

theorem SpaceInv.quiet (h : SpaceInv i (σ.tcb i) σ.1.pc) (hG : spaceOrdered i σ e = true)
    (he : e.effect σ.1 = some ⟨τ,f⟩) (hq : ∀ op, f.op ≠ some (i,op)) :
    SpaceInv i (σ.tcb i) (update σ.1.pc τ f.next) ∧
      sendLimit i (σ.tcb i) (update σ.1.pc τ f.next) = sendLimit i (σ.tcb i) σ.1.pc := by
  obtain ⟨hone,hset⟩ := h.once.keep (savedNxt_kept he fun op hop => absurd hop (hq op))
  have hlim : sendLimit i (σ.tcb i) (update σ.1.pc τ f.next) = sendLimit i (σ.tcb i) σ.1.pc := by
    rw [sendLimit,sendLimit,hset]
  refine ⟨⟨hone,h.wnd,pending_next_le he h.cut,?_⟩,hlim⟩
  rw [hlim]
  have hflight := h.flight
  rcases pending_step (i := i) he with ⟨d,hd,hcut,-,hle⟩ | ⟨hle,-⟩
  · -- what is cut fits into the window
    have hback : σ.1.rolledBack i = false := by
      simpa [hcut] using (and_eq_true_iff.mp hG).1
    have hwin := drainPeek_window hd
    have hlast := pending_le h.cut
    have hwnd := h.wnd
    rw [sendLimit,Kernel.setAside_of_not_rolledBack hback,getD_none]
    rw [TCB.flightWith,TCB.sendWindow] at hwin
    omega
  · omega

/-- Along an operation that opens no connection `sndUna` moves forward, and not beyond what is
in flight. -/
theorem una_forward (hG : spaceOrdered i σ e = true) (he : e.effect σ.1 = some ⟨τ,f⟩)
    (hop : f.op = some (i,op)) (ho : op.opens = false) :
    Circle.dist (σ.tcb i).sndUna (op.run σ.1.shared.pitTicks (σ.tcb i)).sndUna ≤
      Circle.dist (σ.tcb i).sndUna (sendLimit i (σ.tcb i) σ.1.pc) := by
  by_cases ha : op.acks = true
  · obtain ⟨hack,-,hrest⟩ := spaceOrdered_op hG he hop
    rw [sendLimit,hrest (.inr (.inl ha)),getD_none]
    exact TcbOp.una_forward ha hack
  · rw [(op.run_frame _ _).sndUna ho (by simpa using ha),Circle.dist_self]
    exact Nat.zero_le _

section

variable (h : SpaceInv i (σ.tcb i) σ.1.pc) (hG : spaceOrdered i σ e = true)
  (he : e.effect σ.1 = some ⟨τ,f⟩) (hop : f.op = some (i,op))
include h hG he hop

theorem SpaceInv.flight_open (ho : op.opens = true) :
    SavedOnce i (update σ.1.pc τ f.next) ∧
    let y := op.run σ.1.shared.pitTicks (σ.tcb i)
    y.sndUna = y.iss ∧ sendLimit i y (update σ.1.pc τ f.next) = y.iss+1 := by
  obtain ⟨-,-,hrest⟩ := spaceOrdered_op hG he hop
  obtain ⟨hone,hset⟩ := h.once.keep (savedNxt_kept (i := i) he fun op' hop' => by
    rw [hop] at hop'
    cases hop'
    cases op <;> first | rfl | cases ho)
  have hlim (y : TCB) : sendLimit i y (update σ.1.pc τ f.next) = y.sndNxt := by
    rw [sendLimit,hset,hrest (.inl ho),getD_none]
  refine ⟨hone,?_⟩
  cases op with
  | passiveInit | activeInit => exact ⟨rfl,hlim _⟩
  | _ => cases ho

/-- What an operation accounts for was cut before, or there is room for it. -/
theorem SpaceInv.advance_le :
    Circle.dist (σ.tcb i).sndUna (sendLimit i (σ.tcb i) σ.1.pc)+op.advance+
      pending i (update σ.1.pc τ f.next) ≤ 2^30+48000 := by
  have hflight := h.flight
  obtain ⟨-,hroom,hrest⟩ := spaceOrdered_op hG he hop
  rcases pending_step (i := i) he with ⟨d,-,-,hq,-⟩ | ⟨hle,hcom⟩
  · exact absurd hop (hq op)
  · by_cases hadv : 0 < op.advance
    · have hlim : sendLimit i (σ.tcb i) σ.1.pc = (σ.tcb i).sndNxt := by
        rw [sendLimit,hrest (.inr (.inr (.inl hadv))),getD_none]
      have hlast := pending_le (pending_next_le (i := i) he h.cut)
      cases op with
      | drainCommit d =>
        have hpaid := hcom d hop
        change _+d.bytes.length+_ ≤ _
        omega
      | closeCommit | echoDataCommit | echoFinCommit =>
        have hfit := of_decide_eq_true hroom
        rw [TCB.flightWith,← hlim] at hfit
        omega
      | _ => cases hadv
    · omega

theorem SpaceInv.operate :
    SpaceInv i (op.run σ.1.shared.pitTicks (σ.tcb i)) (update σ.1.pc τ f.next) := by
  have hcut := pending_next_le (i := i) he h.cut
  have hwnd : (op.run σ.1.shared.pitTicks (σ.tcb i)).sndWnd.toNat < 2^16 := op.sndWnd_lt h.wnd
  by_cases ho : op.opens = true
  · obtain ⟨hone,hu,hlim⟩ := h.flight_open hG he hop ho
    refine ⟨hone,hwnd,hcut,?_⟩
    rw [hu,hlim,dist_succ]
    have hlast := pending_le hcut
    omega
  · have hof : op.opens = false := by simpa using ho
    obtain ⟨hone,hlim⟩ := h.once.operate hG he hop hof
    refine ⟨hone,hwnd,hcut,?_⟩
    rw [hlim]
    have hroom := h.advance_le hG he hop
    have huna := Circle.dist_split (una_forward hG he hop hof)
    have hadd := Circle.dist_add_le (op.run σ.1.shared.pitTicks (σ.tcb i)).sndUna
      (sendLimit i (σ.tcb i) σ.1.pc) op.advance
    omega

end

/-- Along a step that opens no connection in slot `i` both cursors move forward. -/
theorem SpaceInv.step_forward (h : SpaceInv i (σ.tcb i) σ.1.pc) (hG : spaceOrdered i σ e = true)
    (hopens : ∀ op, σ.opOn i e = some op → op.opens = false) :
    let σ' := (Sys.step i σ e).1
    Circle.dist (σ.tcb i).sndUna (σ'.tcb i).sndUna < 2^31 ∧
    Circle.dist (sendLimit i (σ.tcb i) σ.1.pc) (sendLimit i (σ'.tcb i) σ'.1.pc) < 2^31 := by
  intro σ'
  have hflight := h.flight
  cases he : e.effect σ.1 with
  | none =>
    obtain ⟨htcb,-,hpc⟩ := Sys.step_env (i := i) he
    rw [htcb,hpc,Circle.dist_self,Circle.dist_self]
    omega
  | some w =>
    obtain ⟨τ,f⟩ := w
    by_cases hi : ∃ op, f.op = some (i,op)
    · obtain ⟨op,hop⟩ := hi
      obtain ⟨htcb,-,hpc⟩ := Sys.step_op he hop
      have hof := hopens op (Sys.opOn_eq he hop)
      obtain ⟨-,hlim⟩ := h.once.operate hG he hop hof
      rw [htcb,hpc,hlim]
      have huna := una_forward hG he hop hof
      have hroom := h.advance_le hG he hop
      have hadd := Circle.dist_add_le (sendLimit i (σ.tcb i) σ.1.pc)
        (sendLimit i (σ.tcb i) σ.1.pc) op.advance
      rw [Circle.dist_self] at hadd
      omega
    · have hq : ∀ op, f.op ≠ some (i,op) := fun op hop => hi ⟨op,hop⟩
      obtain ⟨htcb,-,hpc⟩ := Sys.step_quiet he hq
      rw [htcb,hpc,(h.quiet hG he hq).2,Circle.dist_self,Circle.dist_self]
      omega

theorem spaceInv_run (i : Slot) {es : List Ev}
    (hm : Meets (Sys.step i) (fun σ e => spaceOrdered i σ e = true) .boot es) :
    SpaceInv i ((exec (Sys.step i) .boot es).tcb i) (exec (Sys.step i) .boot es).1.pc := by
  have hidle (τ : Tid) : savedNxt i τ (Sys.boot.1.pc τ) = none := by cases τ <;> rfl
  have h0 : SpaceInv i (Sys.boot.tcb i) Sys.boot.1.pc := by
    refine ⟨fun τ _ hs => ?_,by show TCB.zero.sndWnd.toNat < 2^16; decide,fun _ => Nat.zero_le _,?_⟩
    · rw [hidle τ] at hs
      cases hs
    · have hzero : pending i Sys.boot.1.pc = 0 := Finset.sum_eq_zero fun _ _ => rfl
      rw [sendLimit,setAside_eq_none.mpr hidle,hzero]
      show Circle.dist TCB.zero.sndUna TCB.zero.sndNxt+0 ≤ _
      decide
  refine slotInv_run (J := fun x _ pc => SpaceInv i x pc) ?_ ?_ h0 hm
  · intro σ e τ f op h hG he hop
    exact h.operate hG he hop
  · intro σ e τ f h hG he hq
    exact (h.quiet hG he hq).1

end Space

/-! ## The handshake -/

/-- The cursors before the handshake is complete. -/
structure SynInv (i : Slot) (x : TCB) (pc : (τ : Tid) → PcOf τ) : Prop where
  space : SpaceInv i x pc
  syn : x.state.synPhase = true → x.sndUna = x.iss ∧ sendLimit i x pc = x.iss+1

section Syn

variable {i : Slot} {σ : Sys} {e : Ev} {τ : Tid} {f : Effect (PcOf τ)} {op : TcbOp}

theorem SynInv.operate (h : SynInv i (σ.tcb i) σ.1.pc) (hG : spaceOrdered i σ e = true)
    (hK : synKept i σ e = true) (he : e.effect σ.1 = some ⟨τ,f⟩) (hop : f.op = some (i,op)) :
    SynInv i (op.run σ.1.shared.pitTicks (σ.tcb i)) (update σ.1.pc τ f.next) := by
  refine ⟨h.space.operate hG he hop,fun hst => ?_⟩
  by_cases ho : op.opens = true
  · exact (h.space.flight_open hG he hop ho).2
  have hof : op.opens = false := by simpa using ho
  have hphase : (σ.tcb i).state.synPhase = true := by
    rcases op.run_state σ.1.shared.pitTicks (σ.tcb i) with hsame | hl
    · rwa [← hsame]
    · exact absurd (leads_synPhase hl hst) ho
  have hkept : op.handles = none ∧ op.advance = 0 := by
    rw [synKept,Sys.opOn_eq he hop] at hK
    simpa [hphase] using hK
  have hacks : op.acks = false := by
    by_contra ha
    rcases TcbOp.acks_cases ((Bool.not_eq_false _).mp ha) with ⟨hd,rfl | rfl⟩ | ⟨hd,hh⟩
    · obtain ⟨g,hg⟩ := synSentAck_shape σ.1.shared.pitTicks hd (σ.tcb i)
      rw [TcbOp.run,hg] at hst
      cases hst
    · obtain ⟨g,hg⟩ := synReceivedAck_shape σ.1.shared.pitTicks hd (σ.tcb i)
      rw [TcbOp.run,hg] at hst
      cases hst
    · rw [hkept.1] at hh
      cases hh
  obtain ⟨hu,hlim⟩ := h.syn hphase
  have hframe := op.run_frame σ.1.shared.pitTicks (σ.tcb i)
  refine ⟨by rw [hframe.sndUna hof hacks,hframe.iss hof,hu],?_⟩
  rw [(h.space.once.operate hG he hop hof).2,hframe.iss hof,hlim,hkept.2]
  exact UInt32.add_zero _

theorem synInv_run (i : Slot) {es : List Ev}
    (hm : Meets (Sys.step i) (fun σ e => spaceOrdered i σ e = true) .boot es)
    (hk : Meets (Sys.step i) (fun σ e => synKept i σ e = true) .boot es) :
    SynInv i ((exec (Sys.step i) .boot es).tcb i) (exec (Sys.step i) .boot es).1.pc := by
  have h0 : SynInv i (Sys.boot.tcb i) Sys.boot.1.pc :=
    ⟨@spaceInv_run i [] trivial,fun hst => by cases hst⟩
  refine slotInv_run (J := fun x _ pc => SynInv i x pc)
    (G := fun σ e => spaceOrdered i σ e && synKept i σ e) ?_ ?_ h0
    ((hm.and hk).mono fun _ _ h => and_eq_true_iff.mpr h)
  · intro σ e τ f op h hG he hop
    obtain ⟨hG,hK⟩ := and_eq_true_iff.mp hG
    exact h.operate hG hK he hop
  · intro σ e τ f h hG he hq
    obtain ⟨hspace,hlim⟩ := h.space.quiet (and_eq_true_iff.mp hG).1 he hq
    exact ⟨hspace,by rw [hlim]; exact h.syn⟩

end Syn

/-- An ACK of our SYN that comes while no SYN of the connection is on its way is taken. -/
theorem SynInv.taken {i : Slot} {x : TCB} {pc : (τ : Tid) → PcOf τ} (h : SynInv i x pc)
    (hres : setAside i pc = none) (t : TcbRef) (hd : TCPHeader) (payload : List UInt8)
    (hrst : hasFlag hd.flags tcpFlagRST = false) (hack : hasFlag hd.flags tcpFlagACK = true)
    (hnum : hd.ack = x.iss+1) :
    (x.state = .synSent → hd.flags &&& (tcpFlagSYN ||| tcpFlagACK) = tcpFlagSYN ||| tcpFlagACK →
      tcpDispatchToTCB x t hd payload = .synSent t hd payload) ∧
    (x.state = .synReceived → tcpDispatchToTCB x t hd payload = .synReceived t hd payload) := by
  have hsyn (hst : x.state.synPhase = true) : x.sndUna = x.iss ∧ x.sndNxt = x.iss+1 := by
    obtain ⟨hu,hlim⟩ := h.syn hst
    rw [sendLimit,hres] at hlim
    exact ⟨hu,hlim⟩
  refine ⟨fun hst hflags => ?_,fun hst => ?_⟩
  · obtain ⟨hu,hn⟩ := hsyn (by rw [hst]; rfl)
    have hin : (seqLE (x.sndUna+1) hd.ack && seqLE hd.ack x.sndNxt) = true := by
      rw [hu,hn,hnum,seqLE_self]
      rfl
    simp [tcpDispatchToTCB,hrst,hst,synSentCheck,hack,hin,hflags]
  · obtain ⟨hu,hn⟩ := hsyn (by rw [hst]; rfl)
    simp [tcpDispatchToTCB,hrst,hst,hack,hnum,hn]

/-- In every run that leaves slot `i` alone while its `sndNxt` is on a SYN, and in which its
ACKs and what is sent without a look at the window come in order: `sndUna ≤ sndNxt` outside
such a time, and the value `sndNxt` is restored to is not behind `sndUna` during it; both
move forward until the next open. If only the handshake's own ACK is applied before the
handshake is complete, an ACK of `iss+1` is taken for the ACK of our SYN. -/
theorem send_space_ordered (i : Slot) (es : List Ev) (e : Ev)
    (hm : Meets (Sys.step i) (fun σ e => spaceOrdered i σ e = true) .boot (es++[e])) :
    let σ := exec (Sys.step i) .boot es
    let σ' := (Sys.step i σ e).1
    let x := σ'.tcb i
    Circle.dist x.sndUna (sendLimit i x σ'.1.pc) < 2^31 ∧
    (σ'.1.rolledBack i = false → sendLimit i x σ'.1.pc = x.sndNxt) ∧
    ((∀ op, σ.opOn i e = some op → op.opens = false) →
      Circle.dist (σ.tcb i).sndUna x.sndUna < 2^31 ∧
      Circle.dist (sendLimit i (σ.tcb i) σ.1.pc) (sendLimit i x σ'.1.pc) < 2^31) ∧
    (Meets (Sys.step i) (fun σ e => synKept i σ e = true) .boot (es++[e]) →
      σ'.1.rolledBack i = false →
      ∀ t h payload, hasFlag h.flags tcpFlagRST = false → hasFlag h.flags tcpFlagACK = true →
        h.ack = x.iss+1 →
        (x.state = .synSent →
          h.flags &&& (tcpFlagSYN ||| tcpFlagACK) = tcpFlagSYN ||| tcpFlagACK →
          tcpDispatchToTCB x t h payload = .synSent t h payload) ∧
        (x.state = .synReceived →
          tcpDispatchToTCB x t h payload = .synReceived t h payload)) := by
  intro σ σ' x
  obtain ⟨hes,hG,-⟩ := Trace.meets_append.mp hm
  have hend : exec (Sys.step i) .boot (es++[e]) = σ' := by
    rw [Trace.exec_append]
    rfl
  have hinv' : SpaceInv i x σ'.1.pc := by
    have hrun := spaceInv_run i hm
    rwa [hend] at hrun
  refine ⟨?_,fun hback => ?_,fun hopens => ?_,fun hk hback t h payload hrst hack hnum => ?_⟩
  · have hflight := hinv'.flight
    omega
  · rw [sendLimit,Kernel.setAside_of_not_rolledBack hback,getD_none]
  · exact (spaceInv_run i hes).step_forward hG hopens
  · have hrun := synInv_run i hm hk
    rw [hend] at hrun
    exact hrun.taken (Kernel.setAside_of_not_rolledBack hback) t h payload hrst hack hnum

/-- A client whose SYN is out, at the arrival of the answer. -/
def answerArrives : List Ev :=
  [.sys 0 .socket,.sys 0 (.connect 3 peerIP 80 0)]++runs (.proc 0) 6++
    [fromPeer 1000 1 (tcpFlagSYN ||| tcpFlagACK) []]

theorem send_space_ordered_client :
    let x := (Sys.step 0 (exec (Sys.step 0) .boot answerArrives) (.run .rx true)).1.tcb 0
    let h : TCPHeader := ⟨80,tcpEphemeralBase,1000,1,tcpFlagSYN ||| tcpFlagACK,8192,[]⟩
    x.state = .synSent ∧ tcpDispatchToTCB x ⟨0,1⟩ h [] = .synSent ⟨0,1⟩ h [] :=
  ⟨by decide +kernel,((send_space_ordered 0 answerArrives (.run .rx true)
    (by decide +kernel)).2.2.2 (by decide +kernel) (by decide +kernel) ⟨0,1⟩
    ⟨80,tcpEphemeralBase,1000,1,tcpFlagSYN ||| tcpFlagACK,8192,[]⟩ [] (by decide) (by decide)
    (by decide +kernel)).1 (by decide +kernel) (by decide)⟩

/-- An open before the transmission of its SYN. -/
def synRolledBack : List Ev :=
  [.sys 0 .socket,.sys 0 (.connect 3 peerIP 80 0)]++runs (.proc 0) 3

/-- The next section of the open moves `sndNxt` from `iss+1` back to `iss`. -/
theorem open_moves_sndNxt_back :
    let σ := exec (Sys.step 0) .boot synRolledBack
    let σ' := (Sys.step 0 σ (.run (.proc 0) true)).1
    (σ.tcb 0).state = .synSent ∧ (σ.tcb 0).sndNxt = 1 ∧ (σ'.tcb 0).sndNxt = 0 ∧
      (σ'.tcb 0).iss = 0 := by
  decide +kernel

end Gooos
