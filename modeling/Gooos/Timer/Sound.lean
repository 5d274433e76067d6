import Gooos.Timer.Service

/-!
# Timers fire once and on time

Every call goes through the same stages: it has its deadline, it is in one slot of the list, it is
on the ready list of the pass, it has fired. Deadlines and the counter are compared modulo `2^64`,
which is the order of the unbounded ticks as long as both belong to the same round of the counter.
-/

namespace Gooos.Timer

open Function
open Trace (exec outs)

inductive Stage where
  | begun
  | listed (i : Fin maxPendingTimers)
  | ready
  | fired
deriving DecidableEq

/-- Ticks of the rounds that the counter has completed. -/
def base (ticks : ℕ) : ℕ := 2^64*(ticks/2^64)

theorem State.pitTicks_add_base (s : State) : s.pitTicks.toNat+base s.ticks = s.ticks := by
  rw [pitTicks]
  exact Nat.mod_add_div ..

/-- What a pass has to do with the stages. -/
def PassInv (s : State) (stage : ℕ → Stage) : Pass → Prop
  | .idle => ∀ c, stage c ≠ .ready
  | .started now start n =>
    (∀ c, stage c ≠ .ready) ∧ now.toNat+base s.ticks = start ∧ start ≤ s.ticks ∧ n ≤ s.nCalls
  | .firing ready start n =>
    (ready.map Target.call).Nodup ∧ (∀ c, stage c = .ready ↔ c ∈ ready.map Target.call) ∧
      n ≤ s.nCalls ∧ ∀ c < n, (s.calls c).due ≤ start → stage c = .ready ∨ stage c = .fired

/-- The stage of every call, and what follows for it. -/
structure Inv (s : State) (stage : ℕ → Stage) : Prop where
  begun : ∀ c, stage c = .begun ↔ (s.calls c).inserted = false
  fresh : ∀ c, s.nCalls ≤ c → (s.calls c).inserted = false
  slot : ∀ i e, s.timerList i = some e →
    stage e.target.call = .listed i ∧ e.deadline = (s.calls e.target.call).deadline
  listed : ∀ c i, stage c = .listed i → ∃ e, s.timerList i = some e ∧ e.target.call = c
  fires : ∀ c, s.fires c = if stage c = .fired then 1 else 0
  late : ∀ c, stage c = .ready ∨ stage c = .fired → (s.calls c).due ≤ s.ticks
  round : ∀ c < s.nCalls, stage c ≠ .ready → stage c ≠ .fired →
    (s.calls c).deadline.toNat+base s.ticks = (s.calls c).due
  pass : PassInv s stage s.pass

namespace Inv

variable {s : State} {stage : ℕ → Stage}

theorem init : Inv .init fun _ => .begun :=
  ⟨fun _ => iff_of_true rfl rfl,fun _ _ => rfl,nofun,nofun,fun _ => rfl,
    fun _ h => h.elim nofun nofun,fun _ h => absurd h (Nat.not_lt_zero _),fun _ => nofun⟩

theorem lt_of_ne_begun (h : Inv s stage) {c : ℕ} (hc : stage c ≠ .begun) : c < s.nCalls := by
  by_contra hge
  exact hc ((h.begun c).mpr (h.fresh c (Nat.not_lt.mp hge)))

theorem clean (h : Inv s stage) : s.Clean := by
  intro c
  rw [h.fires c]
  refine ⟨by split <;> omega,fun hpos i e he hcall => ?_⟩
  have hfired : stage c = .fired := by
    by_contra hnot
    rw [if_neg hnot] at hpos
    exact Nat.lt_irrefl _ hpos
  have hslot := (h.slot i e he).1
  rw [hcall,hfired] at hslot
  cases hslot

theorem tick (h : Inv s stage) (hg : s.Timely .tick) :
    Inv { s with ticks := s.ticks+1 } stage := by
  -- without a wrap the round is the same; with one there is nothing that would remember it
  have hbase : (s.ticks+1)%2^64 ≠ 0 → base (s.ticks+1) = base s.ticks := by
    intro hne
    have hdiv : (s.ticks+1)/2^64 = s.ticks/2^64 := by omega
    rw [base,base,hdiv]
  refine ⟨h.begun,h.fresh,h.slot,h.listed,h.fires,fun c hc => ?_,fun c hc hready hfired => ?_,?_⟩
  · exact (h.late c hc).trans (Nat.le_succ _)
  · by_cases hwrap : (s.ticks+1)%2^64 = 0
    · obtain ⟨hempty,hnone,-⟩ := hg hwrap
      cases hstage : stage c with
      | begun => exact absurd ((h.begun c).mp hstage) (Bool.not_eq_false _ ▸ hnone c hc)
      | listed i =>
        obtain ⟨e,he,-⟩ := h.listed c i hstage
        rw [hempty i] at he
        cases he
      | ready => exact absurd hstage hready
      | fired => exact absurd hstage hfired
    · rw [hbase hwrap]
      exact h.round c hc hready hfired
  · have hpass := h.pass
    cases hp : s.pass with
    | idle | firing =>
      rw [hp] at hpass
      exact hpass
    | started now start n =>
      rw [hp] at hpass
      obtain ⟨hready,hnow,hle,hn⟩ := hpass
      by_cases hwrap : (s.ticks+1)%2^64 = 0
      · exact absurd hp ((hg hwrap).2.2 now start n)
      · refine ⟨hready,?_,hle.trans (Nat.le_succ _),hn⟩
        rw [hbase hwrap]
        exact hnow

theorem makeCall (h : Inv s stage) (client : Client) {d : Word}
    (hg : s.pitTicks.toNat+d.toNat < 2^64) : Inv (s.makeCall client d) stage := by
  have hfresh := h.fresh s.nCalls le_rfl
  have hbegun : stage s.nCalls = .begun := (h.begun _).mpr hfresh
  have hne : ∀ c, stage c ≠ .begun → c ≠ s.nCalls := fun c hc hcn => hc (hcn ▸ hbegun)
  have hcalls : ∀ c, c ≠ s.nCalls → (s.makeCall client d).calls c = s.calls c :=
    fun c hc => update_of_ne hc ..
  have hnew : (s.makeCall client d).calls s.nCalls = ⟨client,d,s.pitTicks+d,s.ticks,false⟩ :=
    update_self ..
  have hdue : ∀ c, stage c ≠ .begun →
      ((s.makeCall client d).calls c).due = (s.calls c).due := by
    intro c hc
    rw [hcalls c (hne c hc)]
  refine ⟨fun c => ?_,fun c hc => ?_,fun i e he => ?_,h.listed,h.fires,fun c hc => ?_,
    fun c hc hready hfired => ?_,?_⟩
  · by_cases hcn : c = s.nCalls
    · rw [hcn,hnew]
      exact iff_of_true hbegun rfl
    · rw [hcalls c hcn]
      exact h.begun c
  · have hcn : c ≠ s.nCalls := Nat.ne_of_gt hc
    rw [hcalls c hcn]
    exact h.fresh c (Nat.le_of_succ_le hc)
  · obtain ⟨hstage,hdeadline⟩ := h.slot i e he
    rw [hcalls _ (hne _ (by rw [hstage]; nofun))]
    exact ⟨hstage,hdeadline⟩
  · rw [hdue c (by rintro hb; rw [hb] at hc; exact hc.elim nofun nofun)]
    exact h.late c hc
  · by_cases hcn : c = s.nCalls
    · -- the sum does not wrap, and the counter is that of this round
      rw [hcn,hnew]
      change (s.pitTicks+d).toNat+base s.ticks = s.ticks+d.toNat
      have htick := s.pitTicks_add_base
      rw [BitVec.toNat_add]
      omega
    · rw [hcalls c hcn]
      refine h.round c ?_ hready hfired
      exact Nat.lt_of_le_of_ne (Nat.le_of_lt_succ hc) hcn
  · have hpass := h.pass
    change PassInv _ _ s.pass
    cases hp : s.pass with
    | idle =>
      rw [hp] at hpass
      exact hpass
    | started now start n =>
      rw [hp] at hpass
      obtain ⟨hready,hnow,hle,hn⟩ := hpass
      exact ⟨hready,hnow,hle,hn.trans (Nat.le_succ _)⟩
    | firing ready start n =>
      rw [hp] at hpass
      obtain ⟨hnodup,hready,hn,hpassed⟩ := hpass
      refine ⟨hnodup,hready,hn.trans (Nat.le_succ _),fun c hc hle => ?_⟩
      rw [hcalls c (Nat.ne_of_lt (hc.trans_le hn))] at hle
      exact hpassed c hc hle

/-- A call gets a free slot. -/
theorem insert (h : Inv s stage) {c : ℕ} (hc : c < s.nCalls)
    (hbegun : (s.calls c).inserted = false) {i : Fin maxPendingTimers} (hi : s.timerList i = none)
    (e : Entry) (he : e.target.call = c ∧ e.deadline = (s.calls c).deadline) :
    Inv ((s.markInserted c).setSlot i e) (update stage c (.listed i)) := by
  have hstage : stage c = .begun := (h.begun c).mpr hbegun
  have hcalls : ∀ c', c' ≠ c → (s.markInserted c).calls c' = s.calls c' :=
    fun c' hne => update_of_ne hne ..
  have hself : (s.markInserted c).calls c = { s.calls c with inserted := true } :=
    update_self ..
  have hdue : ∀ c', ((s.markInserted c).calls c').due = (s.calls c').due ∧
      ((s.markInserted c).calls c').deadline = (s.calls c').deadline := by
    intro c'
    by_cases hne : c' = c
    · rw [hne,hself]
      exact ⟨rfl,rfl⟩
    · rw [hcalls c' hne]
      exact ⟨rfl,rfl⟩
  -- the stages that matter for the pass are those of other calls
  have hother : ∀ c' x, x ≠ .begun → (∀ j, x ≠ .listed j) →
      (update stage c (.listed i) c' = x ↔ stage c' = x) := by
    intro c' x hx hlisted
    by_cases hne : c' = c
    · rw [hne,update_self,hstage]
      exact iff_of_false (fun hj => hlisted i hj.symm) (fun hb => hx hb.symm)
    · rw [update_of_ne hne]
  have hready := fun c' => hother c' .ready nofun nofun
  have hfired := fun c' => hother c' .fired nofun nofun
  refine ⟨fun c' => ?_,fun c' hc' => ?_,fun j e' hj => ?_,fun c' j hj => ?_,fun c' => ?_,
    fun c' hc' => ?_,fun c' hc' hnr hnf => ?_,?_⟩
  · by_cases hne : c' = c
    · rw [hne,update_self]
      refine iff_of_false nofun ?_
      change ((s.markInserted c).calls c).inserted ≠ false
      rw [hself]
      nofun
    · rw [update_of_ne hne]
      change _ ↔ ((s.markInserted c).calls c').inserted = false
      rw [hcalls c' hne]
      exact h.begun c'
  · have hne : c' ≠ c := Nat.ne_of_gt (hc.trans_le hc')
    change ((s.markInserted c).calls c').inserted = false
    rw [hcalls c' hne]
    exact h.fresh c' hc'
  · change update s.timerList i (some e) j = some e' at hj
    change _ ∧ _ = ((s.markInserted c).calls e'.target.call).deadline
    rw [(hdue _).2]
    by_cases hji : j = i
    · rw [hji,update_self] at hj
      cases hj
      rw [he.1,update_self,hji]
      exact ⟨rfl,he.2⟩
    · rw [update_of_ne hji] at hj
      obtain ⟨hl,hd⟩ := h.slot j e' hj
      have hne : e'.target.call ≠ c := by
        intro heq
        rw [heq,hstage] at hl
        cases hl
      rw [update_of_ne hne]
      exact ⟨hl,hd⟩
  · by_cases hne : c' = c
    · rw [hne,update_self] at hj
      cases hj
      exact ⟨e,update_self ..,he.1.trans hne.symm⟩
    · rw [update_of_ne hne] at hj
      obtain ⟨e',hj',hcall⟩ := h.listed c' j hj
      have hji : j ≠ i := by
        rintro rfl
        rw [hi] at hj'
        cases hj'
      exact ⟨e',(update_of_ne hji ..).trans hj',hcall⟩
  · rw [show ((s.markInserted c).setSlot i e).fires c' = s.fires c' from rfl,h.fires c']
    simp only [hfired]
  · change ((s.markInserted c).calls c').due ≤ s.ticks
    rw [(hdue c').1]
    rw [hready,hfired] at hc'
    exact h.late c' hc'
  · change ((s.markInserted c).calls c').deadline.toNat+_ = ((s.markInserted c).calls c').due
    rw [(hdue c').1,(hdue c').2]
    exact h.round c' hc' ((hready c').not.mp hnr) ((hfired c').not.mp hnf)
  · have hpass := h.pass
    change PassInv _ _ s.pass
    cases hp : s.pass with
    | idle =>
      rw [hp] at hpass
      exact fun c' => (hready c').not.mpr (hpass c')
    | started now start n =>
      rw [hp] at hpass
      exact ⟨fun c' => (hready c').not.mpr (hpass.1 c'),hpass.2⟩
    | firing ready start n =>
      rw [hp] at hpass
      obtain ⟨hnodup,hmem,hn,hpassed⟩ := hpass
      refine ⟨hnodup,fun c' => (hready c').trans (hmem c'),hn,fun c' hc' hle => ?_⟩
      change ((s.markInserted c).calls c').due ≤ start at hle
      rw [(hdue c').1] at hle
      rw [hready,hfired]
      exact hpassed c' hc' hle

theorem start (h : Inv s stage) (hp : s.pass = .idle) :
    Inv { s with pass := .started s.pitTicks s.ticks s.nCalls } stage := by
  have hpass := h.pass
  rw [hp] at hpass
  exact ⟨h.begun,h.fresh,h.slot,h.listed,h.fires,h.late,h.round,hpass,s.pitTicks_add_base,le_rfl,
    le_rfl⟩

/-! ### A pass -/

theorem isDue_iff {now : Word} {o : Option Entry} :
    State.isDue now o = true ↔ ∃ e, o = some e ∧ e.deadline ≤ now := by
  cases o with
  | none | some => simp [State.isDue]

/-- The calls of what a pass takes. -/
theorem mem_ready {now : Word} {c : ℕ} : c ∈ (s.ready now).map Target.call ↔
    ∃ i e, s.timerList i = some e ∧ e.deadline ≤ now ∧ e.target.call = c := by
  have hperm : (s.ready now).Perm (s.dueTargets now) := List.filter_append_perm ..
  rw [(hperm.map _).mem_iff,List.mem_map]
  constructor
  · rintro ⟨t,ht,rfl⟩
    obtain ⟨i,-,hi⟩ := List.mem_filterMap.mp ht
    split at hi
    next hdue =>
      obtain ⟨e,he,hle⟩ := isDue_iff.mp hdue
      rw [he] at hi
      cases hi
      exact ⟨i,e,he,hle,rfl⟩
    next => cases hi
  · rintro ⟨i,e,he,hle,rfl⟩
    refine ⟨e.target,List.mem_filterMap.mpr ⟨i,List.mem_finRange i,?_⟩,rfl⟩
    rw [if_pos (isDue_iff.mpr ⟨e,he,hle⟩),he]
    rfl

theorem nodup_ready (h : Inv s stage) (now : Word) : ((s.ready now).map Target.call).Nodup := by
  have hperm : (s.ready now).Perm (s.dueTargets now) := List.filter_append_perm ..
  rw [(hperm.map _).nodup_iff,State.dueTargets,List.map_filterMap]
  refine (List.nodup_finRange _).filterMap fun i j c hi hj => ?_
  -- two slots with the same call are one
  have hcall : ∀ k, c ∈ (if State.isDue now (s.timerList k) then
      (s.timerList k).map Entry.target else none).map Target.call → stage c = .listed k := by
    intro k hk
    split at hk
    next hdue =>
      obtain ⟨e,he,-⟩ := isDue_iff.mp hdue
      rw [he] at hk
      cases hk
      exact (h.slot k e he).1
    next => cases hk
  exact Stage.listed.inj ((hcall i hi).symm.trans (hcall j hj))

/-- The stages after a pass had the lock. -/
def scanned (s : State) (now : Word) (stage : ℕ → Stage) (c : ℕ) : Stage :=
  match stage c with
  | .listed i => if State.isDue now (s.timerList i) then .ready else .listed i
  | x => x

theorem scanned_of_not_listed {now : Word} {c : ℕ} (hc : ∀ i, stage c ≠ .listed i) :
    scanned s now stage c = stage c := by
  rw [scanned]
  split
  next i hi => exact absurd hi (hc i)
  next => rfl

theorem scanned_listed {now : Word} {c : ℕ} {i : Fin maxPendingTimers} (hc : stage c = .listed i) :
    scanned s now stage c = if State.isDue now (s.timerList i) then .ready else .listed i := by
  rw [scanned,hc]

theorem scan (h : Inv s stage) {now : Word} {start n : ℕ} (hp : s.pass = .started now start n)
    (hg : s.Timely .scan) : Inv { s.clearDue now with pass := .firing (s.ready now) start n }
      (scanned s now stage) := by
  have hpass := h.pass
  rw [hp] at hpass
  obtain ⟨hnone,hnow,hstart,hn⟩ := hpass
  -- in one round of the counter the order of words is that of ticks
  have hdue : ∀ {c i}, stage c = .listed i →
      (State.isDue now (s.timerList i) = true ↔ (s.calls c).due ≤ start) := by
    intro c i hc
    obtain ⟨e,he,rfl⟩ := h.listed c i hc
    have hround := h.round _ (h.lt_of_ne_begun (by rw [hc]; nofun)) (by rw [hc]; nofun)
      (by rw [hc]; nofun)
    rw [← (h.slot i e he).2] at hround
    rw [isDue_iff,he]
    constructor
    · rintro ⟨e',he',hle⟩
      cases he'
      have := BitVec.le_def.mp hle
      omega
    · intro hle
      exact ⟨e,rfl,BitVec.le_def.mpr (by omega)⟩
  have hready : ∀ c, scanned s now stage c = .ready ↔
      ∃ i, stage c = .listed i ∧ State.isDue now (s.timerList i) = true := by
    intro c
    constructor
    · intro hc
      rw [scanned] at hc
      split at hc
      next i hi =>
        split at hc
        next hd => exact ⟨i,hi,hd⟩
        next => cases hc
      next => exact absurd hc (hnone c)
    · rintro ⟨i,hi,hd⟩
      rw [scanned_listed hi,if_pos hd]
  have hsame : ∀ c x, x = .begun ∨ x = .fired → (scanned s now stage c = x ↔ stage c = x) := by
    intro c x hx
    by_cases hl : ∃ i, stage c = .listed i
    · obtain ⟨i,hi⟩ := hl
      rw [scanned_listed hi,hi]
      obtain rfl | rfl := hx
      · exact iff_of_false (by split <;> nofun) nofun
      · exact iff_of_false (by split <;> nofun) nofun
    · rw [scanned_of_not_listed fun i hi => hl ⟨i,hi⟩]
  refine ⟨fun c => (hsame c _ (.inl rfl)).trans (h.begun c),h.fresh,fun i e he => ?_,
    fun c i hc => ?_,fun c => ?_,fun c hc => ?_,fun c hc hnr hnf => ?_,h.nodup_ready now,
    fun c => ?_,hn,fun c hc hle => ?_⟩
  · change (if State.isDue now (s.timerList i) then none else s.timerList i) = some e at he
    split at he
    next => cases he
    next hnot =>
      obtain ⟨hl,hd⟩ := h.slot i e he
      exact ⟨(scanned_listed hl).trans (if_neg hnot),hd⟩
  · rw [scanned] at hc
    split at hc
    next j hj =>
      split at hc
      next => cases hc
      next hnot =>
        cases hc
        obtain ⟨e,he,hcall⟩ := h.listed c i hj
        exact ⟨e,(if_neg hnot).trans he,hcall⟩
    next hx => exact absurd hc (hx i)
  · rw [show ({ s.clearDue now with pass := .firing (s.ready now) start n } : State).fires c =
      s.fires c from rfl,h.fires c]
    simp only [hsame c .fired (.inr rfl)]
  · obtain hc | hc := hc
    · obtain ⟨i,hi,hd⟩ := (hready c).mp hc
      exact ((hdue hi).mp hd).trans hstart
    · exact h.late c (.inr ((hsame c _ (.inr rfl)).mp hc))
  · exact h.round c hc (hnone c) fun hf => hnf ((hsame c _ (.inr rfl)).mpr hf)
  · rw [hready,mem_ready]
    constructor
    · rintro ⟨i,hi,hd⟩
      obtain ⟨e,he,hcall⟩ := h.listed c i hi
      obtain ⟨e',he',hle⟩ := isDue_iff.mp hd
      rw [he] at he'
      cases he'
      exact ⟨i,e,he,hle,hcall⟩
    · rintro ⟨i,e,he,hle,rfl⟩
      exact ⟨i,(h.slot i e he).1,isDue_iff.mpr ⟨e,he,hle⟩⟩
  · cases hstage : stage c with
    | begun => exact absurd hle (Nat.not_le.mpr (hg now start n hp c hc ((h.begun c).mp hstage)))
    | listed i => exact .inl ((hready c).mpr ⟨i,hstage,(hdue hstage).mpr hle⟩)
    | ready => exact absurd hstage (hnone c)
    | fired => exact .inr ((hsame c _ (.inr rfl)).mpr hstage)

/-- The next target fires. -/
theorem fire (h : Inv s stage) {t : Target} {ts : List Target} {start n : ℕ}
    (hp : s.pass = .firing (t::ts) start n) : (s.calls t.call).due ≤ s.ticks ∧ s.fires t.call = 0 ∧
      Inv { s.addFire t.call with pass := .firing ts start n }
        (update stage t.call .fired) := by
  have hpass := h.pass
  rw [hp] at hpass
  obtain ⟨hnodup,hmem,hn,hpassed⟩ := hpass
  rw [List.map_cons,List.nodup_cons] at hnodup
  have hready : stage t.call = .ready := (hmem _).mpr (List.mem_cons_self ..)
  have hdue := h.late _ (.inl hready)
  have hzero : s.fires t.call = 0 := by
    rw [h.fires,hready]
    rfl
  refine ⟨hdue,hzero,?_⟩
  have hother : ∀ c x, x ≠ .ready → x ≠ .fired →
      (update stage t.call .fired c = x ↔ stage c = x) := by
    intro c x hx hf
    by_cases hc : c = t.call
    · rw [hc,update_self,hready]
      exact iff_of_false hf.symm hx.symm
    · rw [update_of_ne hc]
  have hlisted := fun c i => hother c (.listed i) nofun nofun
  refine ⟨fun c => (hother c .begun nofun nofun).trans (h.begun c),h.fresh,fun i e he => ?_,
    fun c i hc => h.listed c i ((hlisted c i).mp hc),fun c => ?_,fun c hc => ?_,
    fun c hc hnr hnf => ?_,hnodup.2,fun c => ?_,hn,fun c hc hle => ?_⟩
  · obtain ⟨hl,hd⟩ := h.slot i e he
    exact ⟨(hlisted _ i).mpr hl,hd⟩
  · change update s.fires t.call (s.fires t.call+1) c = _
    by_cases hc : c = t.call
    · rw [hc,update_self,update_self,hzero]
      rfl
    · rw [update_of_ne hc,update_of_ne hc]
      exact h.fires c
  · by_cases hct : c = t.call
    · rw [hct]
      exact hdue
    · rw [update_of_ne hct] at hc
      exact h.late c hc
  · have hct : c ≠ t.call := by
      rintro rfl
      exact hnf (update_self ..)
    rw [update_of_ne hct] at hnr hnf
    exact h.round c hc hnr hnf
  · by_cases hct : c = t.call
    · rw [hct,update_self]
      exact iff_of_false nofun hnodup.1
    · rw [update_of_ne hct,hmem c,List.map_cons,List.mem_cons]
      exact or_iff_right hct
  · by_cases hct : c = t.call
    · rw [hct,update_self]
      exact .inr rfl
    · rw [update_of_ne hct]
      exact hpassed c hc hle

theorem passEnd (h : Inv s stage) {start n : ℕ} (hp : s.pass = .firing [] start n) :
    (∀ c < n, (s.calls c).due ≤ start → s.fires c = 1) ∧ Inv { s with pass := .idle } stage := by
  have hpass := h.pass
  rw [hp] at hpass
  obtain ⟨-,hmem,-,hpassed⟩ := hpass
  have hnone : ∀ c, stage c ≠ .ready := fun c hc => List.not_mem_nil ((hmem c).mp hc)
  refine ⟨fun c hc hle => ?_,h.begun,h.fresh,h.slot,h.listed,h.fires,h.late,h.round,hnone⟩
  rw [h.fires,if_pos ((hpassed c hc hle).resolve_left (hnone c))]

/-! ### Any step -/

theorem freeSlot_some {i : Fin maxPendingTimers} (hi : s.freeSlot = some i) :
    s.timerList i = none := by
  have hnone := List.find?_some (p := fun i => (s.timerList i).isNone) hi
  exact Option.isNone_iff_eq_none.mp hnone

theorem target_call (client : Client) (c : ℕ) : (client.target c).call = c := by
  cases client <;> rfl

theorem step (h : Inv s stage) (e : Ev) (hg : s.Timely e) :
    (∃ stage', Inv (s.step e).1 stage') ∧ ∀ o ∈ (s.step e).2, o.Sound := by
  cases e with
  | tick => exact ⟨⟨stage,h.tick hg⟩,nofun⟩
  | call client d => exact ⟨⟨stage,h.makeCall client hg⟩,nofun⟩
  | sleep d =>
    rw [State.step]
    by_cases hd : d = 0
    · rw [if_pos hd]
      refine ⟨⟨stage,h⟩,fun o ho => ?_⟩
      rw [List.mem_singleton.mp ho]
      exact le_rfl
    · rw [if_neg hd]
      exact ⟨⟨stage,h.makeCall _ hg⟩,nofun⟩
  | insert c =>
    rw [State.step]
    split
    next hc =>
      cases hi : s.freeSlot with
      | none => exact absurd hi (hg hc.1 hc.2)
      | some i =>
        exact ⟨⟨_,h.insert hc.1 hc.2 (freeSlot_some hi) _ ⟨target_call _ c,rfl⟩⟩,nofun⟩
    next => exact ⟨⟨stage,h⟩,nofun⟩
  | start =>
    rw [State.step]
    split
    next hp => exact ⟨⟨stage,h.start hp⟩,nofun⟩
    next => exact ⟨⟨stage,h⟩,nofun⟩
  | scan =>
    rw [State.step]
    split
    next now start n hp => exact ⟨⟨_,h.scan hp hg⟩,nofun⟩
    next => exact ⟨⟨stage,h⟩,nofun⟩
  | fire =>
    rw [State.step]
    split
    next t ts start n hp =>
      obtain ⟨hdue,hzero,hinv⟩ := h.fire hp
      refine ⟨⟨_,hinv⟩,fun o ho => ?_⟩
      rw [List.mem_singleton.mp ho]
      exact ⟨hzero,hdue⟩
    next start n hp =>
      obtain ⟨hdone,hinv⟩ := h.passEnd hp
      refine ⟨⟨_,hinv⟩,fun o ho => ?_⟩
      rw [List.mem_singleton.mp ho]
      exact hdone
    next => exact ⟨⟨stage,h⟩,nofun⟩
  | wait c =>
    rw [State.step]
    split
    next hc =>
      refine ⟨⟨stage,h⟩,fun o ho => ?_⟩
      rw [List.mem_singleton.mp ho]
      refine h.late c (.inr ?_)
      by_contra hnot
      rw [h.fires,if_neg hnot] at hc
      exact Nat.lt_irrefl _ hc.2
    next => exact ⟨⟨stage,h⟩,nofun⟩

end Inv

/-- In every run whose steps are timely, timers fire once, not early, and by the end of the first
pass that starts when they are due; nobody goes on early; and the slot of a timer that has fired is
free. -/
theorem timers_fire_once_on_time (es : List Ev)
    (h : Trace.Meets State.step State.Timely .init es) :
    (exec State.step .init es).Clean ∧ ∀ o ∈ outs State.step .init es, o.Sound := by
  have hstep : ∀ s e, (∃ stage, Inv s stage) → s.Timely e →
      ∃ stage, Inv (s.step e).1 stage := fun s e hs hg => (hs.choose_spec.step e hg).1
  have hinit : ∃ stage, Inv .init stage := ⟨_,Inv.init⟩
  obtain ⟨stage,hinv⟩ := h.inv hstep hinit
  refine ⟨hinv.clean,h.all_outs hstep (fun s e hs hg => ?_) hinit⟩
  exact (hs.choose_spec.step e hg).2

/-- A sleep of two ticks. -/
theorem timers_fire_once_on_time_sleep :
    let es : List Ev := [.sleep 2,.insert 0,.tick,.tick,.start,.scan,.fire,.fire,.wait 0]
    (exec State.step .init es).Clean ∧ (exec State.step .init es).fires 0 = 1 := by
  intro es
  refine ⟨(timers_fire_once_on_time es ?_).1,by decide +kernel⟩
  refine ⟨(by decide : 0+2 < 2^64),fun _ _ => by decide +kernel,fun hwrap => absurd hwrap (by decide),
    fun hwrap => absurd hwrap (by decide),trivial,?_,trivial,trivial,trivial,trivial⟩
  intro now start n hp c hc hnot
  cases hp
  obtain rfl : c = 0 := Nat.lt_one_iff.mp hc
  cases hnot

/-- A return at tick 1 that was asked for tick `2^64`. -/
def Obs.tooEarly : Obs → Bool
  | .returned call ticks => ticks = 1 ∧ call.due = 2^64
  | _ => false

/-- A sleep of `2^64-1` ticks that starts at tick 1 ends at once: its deadline is 0. -/
theorem long_sleep_returns_early :
    let es : List Ev :=
      [.tick,.sleep (BitVec.ofNat 64 (2^64-1)),.insert 0,.start,.scan,.fire,.wait 0]
    ∃ call, .returned call 1 ∈ outs State.step .init es ∧ call.due = 2^64 := by
  intro es
  have hany : (outs State.step .init es).any Obs.tooEarly = true := by decide +kernel
  obtain ⟨o,ho,hearly⟩ := List.any_eq_true.mp hany
  cases o with
  | fired | passEnded => cases hearly
  | returned call ticks =>
    obtain ⟨rfl,hdue⟩ := of_decide_eq_true hearly
    exact ⟨call,ho,hdue⟩

end Gooos.Timer
