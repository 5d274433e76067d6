import Mathlib
import Gooos.Sched.Moves
import Gooos.Lib.Places

/-!
# One place for every thread

Where a thread can be linked or held, and the invariant that it is there once: on one
list, executed by one CPU, and not executed before the CPU it left has stored its
context. It is kept by every step that does not steal a thread still being switched out,
and does not preempt a thread that is about to be.
-/

namespace Gooos.Ksched

open Sched Places Function

/-- The threads a thread has taken off their wait list. -/
def Tpc.wakes : Tpc → List Tid
  | .waking ws => ws
  | .toSwitch p => p.wakes
  | .resuming p => p.wakes
  | .irq p => p.wakes
  | .knows _ _ p => p.wakes
  | _ => []

/-- The thread it has built. -/
def Tpc.makes : Tpc → List Tid
  | .spawning u _ _ => [u]
  | .toSwitch p => p.makes
  | .resuming p => p.makes
  | .irq p => p.makes
  | .knows _ _ p => p.makes
  | _ => []

/-- The thread is on a list already, with its switch still to come. -/
def Tpc.published : Tpc → Bool
  | .toSwitch _ => true
  | .irq p => p.published
  | .knows _ _ p => p.published
  | _ => false

/-- The thread is marked as exiting, with its last switch still to come. -/
def Tpc.ending : Tpc → Bool
  | .exitSwitch => true
  | .irq p => p.ending
  | .knows _ _ p => p.ending
  | _ => false

def Tpc.calm (p : Tpc) : Prop := p.published = false ∧ p.ending = false

/-- What follows a switch is neither on a list nor exiting. -/
def Tpc.Ok : Tpc → Prop
  | .toSwitch p => p.calm ∧ p.Ok
  | .resuming p => p.calm ∧ p.Ok
  | .irq p => p.Ok
  | .knows _ _ p => p.Ok
  | _ => True

inductive Place where
  | ready (k : Tier) (c : ℕ)
  | wait (w : WaitList)
  | waking (u : Tid)
  | made (u : Tid)
  | hand (c : ℕ)
  deriving DecidableEq

def members (σ : Sched) : Place → List Tid
  | .ready k c => σ.ready k c
  | .wait w => σ.waiters w
  | .waking u => (σ.th u).pc.wakes
  | .made u => (σ.th u).pc.makes
  | .hand c => (σ.cpu c).ctx.held

/-- The state a thread has while it is there. -/
def Place.state : Place → KState
  | .wait _ => .parked
  | .waking _ => .parked
  | _ => .runnable

/-- Only a thread with a stored context gets there. -/
def Place.held : Place → Bool
  | .made _ => true
  | .hand _ => true
  | _ => false

/-- The thread a CPU executes in state `σ`. -/
def Executes (σ : Sched) (c : ℕ) (t : Tid) : Prop := ∃ l, (σ.cpu c).ctx = .thread t l

structure Placed (m : Machine) (σ : Sched) : Prop where
  apart : Apart (members σ)
  used : ∀ p t, t ∈ members σ p → (σ.th t).used = true
  state : ∀ p t, t ∈ members σ p → (σ.th t).state = p.state
  owner : ∀ k c t, t ∈ σ.ready k c → (σ.th t).ownerCPU = c
  held : ∀ p t, p.held → t ∈ members σ p → (σ.th t).saved = true
  exec : ∀ c t, Executes σ c t →
    (σ.th t).used = true ∧ (σ.th t).saved = false ∧ (σ.th t).ownerCPU = c
  /-- A thread that is executed and not handed on is nowhere else. -/
  out : ∀ c t, Executes σ c t → (σ.th t).pc.published = false → (∀ p, t ∉ members σ p) ∧
    (σ.th t).state = if (σ.th t).pc.ending then .exiting else .running
  gone : ∀ t, (σ.th t).saved = false → Executes σ (σ.th t).ownerCPU t
  small : ∀ t, (σ.th t).ownerCPU < m.numCoresOnline
  calm : ∀ t, (σ.th t).saved = true → (σ.th t).pc.calm
  ok : ∀ t, (σ.th t).pc.Ok

/-- The thread a round of stealing takes. -/
def stolen (m : Machine) (σ : Sched) (c i : ℕ) : List Tid :=
  if i < m.numCoresOnline ∧ (c+i)%m.numCoresOnline ≠ 0
  then (σ.ready .ring3 ((c+i)%m.numCoresOnline)).take 1 else []

/-- No CPU steals a thread whose context is not stored yet, no preemption falls between
the section that hands a thread on and its `kschedSwitch`, and no thread goes on with what
it has read on another CPU. -/
def orderly (m : Machine) (σ : Sched) (e : ℕ × Act) : Bool :=
  fresh σ e &&
  match (σ.cpu e.1).ctx with
  | .boot (.stealing i) => decide (e.2 ≠ .go) || (stolen m σ e.1 i).all fun t => (σ.th t).saved
  | .boot _ => true
  | .thread t _ => !(decide (e.2 = .irq .preempt) && (σ.th t).pc.gap
      && (σ.enter e.1 t .preempt (.irq (σ.th t).pc)).preemptYields e.1)

variable {m : Machine} {σ σ' : Sched} {c : ℕ} {t : Tid} {l : Loop}

theorem fresh_of_orderly {e : ℕ × Act} (h : orderly m σ e = true) : fresh σ e = true :=
  (Bool.and_eq_true_iff.mp h).1

theorem gap_iff_of_unmasked {p : Tpc} (h : p.masked = false) :
    p.gap = false ↔ p.published = false ∧ p.ending = false := by
  induction p with
  | irq p => cases h
  | knows cpu u p ih => exact ih h
  | _ => simp [Tpc.gap,Tpc.published,Tpc.ending]

/-- What a step may do to a thread it does not move. -/
structure Unmoved (x y : KThread) : Prop where
  used : y.used = x.used
  state : y.state = x.state
  owner : y.ownerCPU = x.ownerCPU
  saved : y.saved = x.saved
  published : y.pc.published = x.pc.published
  ending : y.pc.ending = x.pc.ending

theorem Unmoved.refl (x : KThread) : Unmoved x x := ⟨rfl,rfl,rfl,rfl,rfl,rfl⟩

/-- How a thread is while it is at a place. -/
structure Suits (p : Place) (x : KThread) : Prop where
  used : x.used = true
  state : x.state = p.state
  owner : ∀ k c, p = .ready k c → x.ownerCPU = c
  held : p.held = true → x.saved = true

/-- What `Placed` says about one thread. -/
structure Sited (m : Machine) (σ : Sched) (t : Tid) : Prop where
  suits : ∀ p, t ∈ members σ p → Suits p (σ.th t)
  exec : ∀ c, Executes σ c t →
    (σ.th t).used = true ∧ (σ.th t).saved = false ∧ (σ.th t).ownerCPU = c
  out : ∀ c, Executes σ c t → (σ.th t).pc.published = false → (∀ p, t ∉ members σ p) ∧
    (σ.th t).state = if (σ.th t).pc.ending then .exiting else .running
  gone : (σ.th t).saved = false → Executes σ (σ.th t).ownerCPU t
  small : (σ.th t).ownerCPU < m.numCoresOnline
  calm : (σ.th t).saved = true → (σ.th t).pc.calm
  ok : (σ.th t).pc.Ok

theorem Placed.sited (h : Placed m σ) (t : Tid) : Sited m σ t where
  suits p ht := ⟨h.used p t ht,h.state p t ht,fun k c hp => h.owner k c t (by rwa [hp] at ht),
    fun hp => h.held p t hp ht⟩
  exec c := h.exec c t
  out c := h.out c t
  gone := h.gone t
  small := h.small t
  calm := h.calm t
  ok := h.ok t

theorem Placed.of_sited (hapart : Apart (members σ)) (h : ∀ t, Sited m σ t) : Placed m σ where
  apart := hapart
  used p t ht := ((h t).suits p ht).used
  state p t ht := ((h t).suits p ht).state
  owner k c t ht := ((h t).suits (.ready k c) ht).owner k c rfl
  held p t hp ht := ((h t).suits p ht).held hp
  exec c t := (h t).exec c
  out c t := (h t).out c
  gone t := (h t).gone
  small t := (h t).small
  calm t := (h t).calm
  ok t := (h t).ok

/-- A thread that a step does not move is where it was, or at a place that suits it as
well. -/
theorem Sited.kept (h : Sited m σ t) (hth : Unmoved (σ.th t) (σ'.th t))
    (hok : (σ'.th t).pc.Ok) (hexec : ∀ d, Executes σ' d t ↔ Executes σ d t)
    (hmem : ∀ p, t ∈ members σ' p →
      ∃ q, t ∈ members σ q ∧ (Suits q (σ.th t) → Suits p (σ.th t))) : Sited m σ' t := by
  constructor
  · intro p hp
    obtain ⟨q,hq,hqp⟩ := hmem p hp
    have hold := hqp (h.suits q hq)
    exact ⟨hth.used.trans hold.used,hth.state.trans hold.state,
      fun k c he => hth.owner.trans (hold.owner k c he),fun he => hth.saved.trans (hold.held he)⟩
  · intro d hd
    rw [hth.used,hth.saved,hth.owner]
    exact h.exec d ((hexec d).mp hd)
  · intro d hd hpub
    rw [hth.published] at hpub
    rw [hth.state,hth.ending]
    obtain ⟨hno,hstate⟩ := h.out d ((hexec d).mp hd) hpub
    refine ⟨fun p hp => ?_,hstate⟩
    obtain ⟨q,hq,-⟩ := hmem p hp
    exact hno q hq
  · intro hs
    rw [hth.saved] at hs
    rw [hth.owner,hexec]
    exact h.gone hs
  · rw [hth.owner]
    exact h.small
  · intro hs
    rw [hth.saved] at hs
    rw [Tpc.calm,hth.published,hth.ending]
    exact h.calm hs
  · exact hok

/-- A thread that a step does not touch. -/
theorem Sited.aside (h : Sited m σ t) (hth : σ'.th t = σ.th t)
    (hexec : ∀ d, Executes σ' d t ↔ Executes σ d t)
    (hmem : ∀ p, t ∈ members σ' p → t ∈ members σ p) : Sited m σ' t := by
  refine h.kept ?_ ?_ hexec fun p hp => ⟨p,hmem p hp,id⟩
  · rw [hth]
    exact .refl _
  · rw [hth]
    exact h.ok

/-- A thread that CPU `c` executes. -/
theorem Sited.executed (hexec : Executes σ c t) (honly : ∀ d, Executes σ d t → d = c)
    (hc : c < m.numCoresOnline)
    (hth : (σ.th t).used = true ∧ (σ.th t).saved = false ∧ (σ.th t).ownerCPU = c)
    (hsuits : ∀ p, t ∈ members σ p → Suits p (σ.th t))
    (hout : (σ.th t).pc.published = false → (∀ p, t ∉ members σ p) ∧
      (σ.th t).state = if (σ.th t).pc.ending then .exiting else .running)
    (hok : (σ.th t).pc.Ok) : Sited m σ t := by
  obtain ⟨hused,hsaved,howner⟩ := hth
  refine ⟨hsuits,fun d hd => ⟨hused,hsaved,howner.trans (honly d hd).symm⟩,fun _ _ => hout,?_,?_,?_,hok⟩
  · rw [howner]
    exact fun _ => hexec
  · rwa [howner]
  · rw [hsaved]
    nofun

/-- A thread whose context is stored, which nobody executes. -/
theorem Sited.stored (hidle : ∀ d, ¬Executes σ d t) (hsaved : (σ.th t).saved = true)
    (hsmall : (σ.th t).ownerCPU < m.numCoresOnline)
    (hsuits : ∀ p, t ∈ members σ p → Suits p (σ.th t)) (hcalm : (σ.th t).pc.calm)
    (hok : (σ.th t).pc.Ok) : Sited m σ t := by
  refine ⟨hsuits,fun d hd => absurd hd (hidle d),fun d hd => absurd hd (hidle d),?_,hsmall,
    fun _ => hcalm,hok⟩
  rw [hsaved]
  nofun

variable {q : Place} {x : KThread} {w : WaitList} {ts us : List Tid} {next : Tpc} {pc : Dpc}

/-- One thread is put in a place, taken from where it was; the others are not moved. -/
theorem Placed.put {w : Place → List Tid} (h : Placed m σ)
    (hw : ∀ r, (w r).Sublist (members σ r)) (hnew : ∀ r, t ∉ w r)
    (hq : (members σ' q).Perm (t::w q)) (hmem : ∀ r, r ≠ q → members σ' r = w r)
    (hexec : ∀ d u, Executes σ' d u ↔ Executes σ d u)
    (hstay : ∀ u, u ≠ t → Unmoved (σ.th u) (σ'.th u)) (hok : ∀ u, (σ'.th u).pc.Ok)
    (ht : (∀ r, t ∈ members σ' r → r = q) → Sited m σ' t) : Placed m σ' := by
  refine .of_sited ((h.apart.shrink hw).insert hnew hq hmem) fun u => ?_
  by_cases hu : u = t
  · subst hu
    refine ht fun r hr => ?_
    obtain ⟨hrq,-⟩ | ⟨hne,-⟩ := mem_of_insert hnew hq hmem hr
    · exact hrq
    · exact absurd rfl hne
  · refine (h.sited u).kept (hstay u hu) (hok u) (hexec · u) fun r hr => ⟨r,?_,id⟩
    obtain ⟨-,hut⟩ | ⟨-,hr⟩ := mem_of_insert hnew hq hmem hr
    · exact absurd hut hu
    · exact (hw r).subset hr

/-- Reading a thread's control point after one thread has changed. -/
theorem pc_update {α : Type} (f : Tpc → α) (hx : f x.pc = f (σ.th t).pc)
    (u : Tid) : f (update σ.th t x u).pc = f (σ.th u).pc := by
  by_cases hu : u = t
  · subst hu
    rwa [update_self]
  · rw [update_of_ne hu]

/-- A place keeps its members if what they are read from has not changed. -/
theorem members_eq (q : Place) (hready : ∀ k d, q = .ready k d → σ'.ready k d = σ.ready k d)
    (hwait : ∀ w, q = .wait w → σ'.waiters w = σ.waiters w)
    (hwakes : ∀ u, q = .waking u → (σ'.th u).pc.wakes = (σ.th u).pc.wakes)
    (hmakes : ∀ u, q = .made u → (σ'.th u).pc.makes = (σ.th u).pc.makes)
    (hheld : ∀ d, q = .hand d → (σ'.cpu d).ctx.held = (σ.cpu d).ctx.held) :
    members σ' q = members σ q := by
  cases q with
  | ready k d => exact hready k d rfl
  | wait w => exact hwait w rfl
  | waking u => exact hwakes u rfl
  | made u => exact hmakes u rfl
  | hand d => exact hheld d rfl

/-- One thread changes, keeping what it has in hand. -/
theorem members_thread (hth : σ'.th = update σ.th t x)
    (hready : σ'.ready = σ.ready) (hwait : σ'.waiters = σ.waiters)
    (hheld : ∀ d, (σ'.cpu d).ctx.held = (σ.cpu d).ctx.held)
    (hwakes : x.pc.wakes = (σ.th t).pc.wakes) (hmakes : x.pc.makes = (σ.th t).pc.makes)
    (q : Place) : members σ' q = members σ q := by
  refine members_eq q (fun k d _ => by rw [hready]) (fun w _ => by rw [hwait]) (fun u _ => ?_)
    (fun u _ => ?_) (fun d _ => hheld d)
  · rw [hth]
    exact pc_update Tpc.wakes hwakes u
  · rw [hth]
    exact pc_update Tpc.makes hmakes u

/-- Steps that move nobody. -/
theorem Placed.own (h : Placed m σ) (hmem : ∀ q, members σ' q = members σ q)
    (hexec : ∀ d u, Executes σ' d u ↔ Executes σ d u)
    (hth : ∀ u, Unmoved (σ.th u) (σ'.th u) ∧ (σ'.th u).pc.Ok) : Placed m σ' := by
  refine .of_sited (h.apart.congr hmem) fun u => ?_
  obtain ⟨hu,hok⟩ := hth u
  exact (h.sited u).kept hu hok (hexec · u) fun p hp => ⟨p,by rwa [hmem] at hp,id⟩

/-- The same for a step that changes one thread and no context. -/
theorem Placed.thread (h : Placed m σ) (hth : σ'.th = update σ.th t x)
    (hready : σ'.ready = σ.ready) (hwait : σ'.waiters = σ.waiters)
    (hctx : ∀ d, (σ'.cpu d).ctx = (σ.cpu d).ctx) (hx : Unmoved (σ.th t) x)
    (hpc : x.pc.wakes = (σ.th t).pc.wakes ∧ x.pc.makes = (σ.th t).pc.makes)
    (hok : x.pc.Ok) : Placed m σ' := by
  refine h.own (members_thread hth hready hwait (fun d => by rw [hctx]) hpc.1 hpc.2)
    (fun d u => by rw [Executes,Executes,hctx]) fun u => ?_
  rw [hth]
  by_cases hu : u = t
  · subst hu
    rw [update_self]
    exact ⟨hx,hok⟩
  · rw [update_of_ne hu]
    exact ⟨.refl _,h.ok u⟩

theorem setCpu_ctx {x : CPU} (hx : x.ctx = (σ.cpu c).ctx) (d : ℕ) :
    ((σ.setCpu c x).cpu d).ctx = (σ.cpu d).ctx := by
  show (update σ.cpu c x d).ctx = _
  by_cases hd : d = c
  · subst hd
    rwa [update_self]
  · rw [update_of_ne hd]

/-- Thread `u` gets to place `q`. -/
structure Enters (σ σ' : Sched) (u : Tid) (q : Place) : Prop where
  dest : (members σ' q).Perm (u::members σ q)
  rest : ∀ r, r ≠ q → members σ' r = members σ r

/-- A thread that is executed links itself into a list, its switch still to come. -/
theorem Placed.publish {p : Place} (h : Placed m σ) (hexec : Executes σ c t)
    (hcalm : (σ.th t).pc.published = false) (hth : σ'.th = update σ.th t x)
    (hctx : ∀ d, (σ'.cpu d).ctx = (σ.cpu d).ctx) (hp : Enters σ σ' t p)
    (hlist : ∀ k d, p = .ready k d → d = c)
    (hheld : p.held = false) (hx : x.used = true ∧ x.state = p.state ∧ x.ownerCPU = c ∧
      x.saved = false) (hpub : x.pc.published = true) (hok : x.pc.Ok) : Placed m σ' := by
  have hself : σ'.th t = x := by rw [hth,update_self]
  have hother {u : Tid} (hu : u ≠ t) : σ'.th u = σ.th u := by rw [hth,update_of_ne hu]
  have howner := (h.exec c t hexec).2.2
  have hexec' (d : ℕ) (u : Tid) : Executes σ' d u ↔ Executes σ d u := by
    rw [Executes,Executes,hctx]
  refine h.put (w := members σ) (fun _ => .refl _) (h.out c t hexec hcalm).1 hp.dest hp.rest hexec'
    (fun u hu => ?_) (fun u => ?_) fun honly => ?_
  · rw [hother hu]
    exact .refl _
  · by_cases hu : u = t
    · rwa [hu,hself]
    · rw [hother hu]
      exact h.ok u
  · obtain ⟨hused,hstate,hx,hsaved⟩ := hx
    refine .executed ((hexec' c t).mpr hexec) (fun d hd => ?_) (howner ▸ h.small t) ?_
      (fun r hr => ?_) ?_ ?_
    · exact (h.exec d t ((hexec' d t).mp hd)).2.2.symm.trans howner
    · rw [hself]
      exact ⟨hused,hsaved,hx⟩
    · rw [hself,honly r hr]
      refine ⟨hused,hstate,fun k d hkd => hx.trans (hlist k d hkd).symm,fun hr => ?_⟩
      rw [hheld] at hr
      cases hr
    · rw [hself,hpub]
      nofun
    · rwa [hself]

theorem Executes.intro (h : (σ.cpu c).ctx = .thread t l) : Executes σ c t := ⟨l,h⟩

/-- A thread that is somewhere is not the one that runs, unless that is handing itself on. -/
theorem Placed.ne_of_mem {u : Tid} {p : Place} (h : Placed m σ)
    (hctx : (σ.cpu c).ctx = .thread t l) (hpub : (σ.th t).pc.published = false)
    (hin : u ∈ members σ p) : u ≠ t := by
  rintro rfl
  exact (h.out c u (.intro hctx) hpub).1 p hin

theorem park_enters {o : Op} (hwakes : (σ.th t).pc.wakes = [])
    (hmakes : (σ.th t).pc.makes = []) : Enters σ (σ.park t w o) t (.wait w) := by
  constructor
  · show (update σ.waiters w _ w).Perm _
    rw [update_self]
    exact List.Perm.refl _
  · intro q hq
    refine members_eq q (fun _ _ _ => rfl) (fun w' hw => ?_) (fun u _ => ?_) (fun u _ => ?_)
      (fun _ _ => rfl)
    · exact update_of_ne (fun hww => hq (by rw [hw,hww])) ..
    · refine pc_update Tpc.wakes ?_ u
      exact hwakes.symm
    · refine pc_update Tpc.makes ?_ u
      exact hmakes.symm

/-- A thread at the start of an operation has nothing in hand. -/
theorem quiet_of_start {p : Tpc} (hp : p = .run ∨ ∃ o, p = .retry o) :
    p.wakes = [] ∧ p.makes = [] ∧ p.calm := by
  obtain rfl | ⟨o,rfl⟩ := hp
  · exact ⟨rfl,rfl,rfl,rfl⟩
  · exact ⟨rfl,rfl,rfl,rfl⟩

theorem Placed.park {o : Op} (h : Placed m σ) (hctx : (σ.cpu c).ctx = .thread t l)
    (hpc : (σ.th t).pc = .run ∨ ∃ o, (σ.th t).pc = .retry o) : Placed m (σ.park t w o) := by
  have hexec : Executes σ c t := .intro hctx
  obtain ⟨hused,hsaved,howner⟩ := h.exec c t hexec
  obtain ⟨hwakes,hmakes,hcalm⟩ := quiet_of_start hpc
  exact h.publish hexec hcalm.1 rfl (fun _ => rfl) (park_enters hwakes hmakes) (by nofun) rfl
    ⟨hused,rfl,howner,hsaved⟩ rfl ⟨⟨rfl,rfl⟩,trivial⟩

theorem setReady_self (k : Tier) (d : ℕ) (ts : List Tid) : (σ.setReady k d ts).ready k d = ts := by
  show update σ.ready k _ k d = _
  rw [update_self,update_self]

theorem setReady_of_ne {k k' : Tier} {d d' : ℕ} (h : ¬(k' = k ∧ d' = d)) :
    (σ.setReady k d ts).ready k' d' = σ.ready k' d' := by
  show update σ.ready k _ k' d' = _
  by_cases hk : k' = k
  · subst hk
    rw [update_self,update_of_ne fun hd => h ⟨rfl,hd⟩]
  · rw [update_of_ne hk]

/-- A push to a CPU that is online. -/
theorem kschedPush_eq {k : Tier} {u : Tid} {d : ℕ} (hd : d < m.numCoresOnline) :
    σ.kschedPush k u d =
      (σ.setTh u { σ.th u with state := .runnable, ownerCPU := d }).setReady k d
        (σ.ready k d++[u]) := by
  rw [kschedPush,if_neg (Nat.not_le.mpr (hd.trans_le m.le))]

theorem kschedYield_th (hc : c < m.numCoresOnline) :
    (σ.kschedYield c t t next).th = update σ.th t
      { σ.th t with state := .runnable, ownerCPU := c, pc := .toSwitch next } := by
  rw [kschedYield,kschedPush_eq hc]
  show update (update σ.th t _) t { update σ.th t _ t with pc := _ } = _
  rw [update_idem,update_self]

theorem kschedYield_ready (hc : c < m.numCoresOnline) :
    (σ.kschedYield c t t next).ready = (σ.setReady (tierOf (σ.th t)) c
      (σ.ready (tierOf (σ.th t)) c++[t])).ready := by
  rw [kschedYield,kschedPush_eq hc]
  rfl

theorem yield_enters (hc : c < m.numCoresOnline)
    (hwakes : next.wakes = (σ.th t).pc.wakes) (hmakes : next.makes = (σ.th t).pc.makes) :
    Enters σ (σ.kschedYield c t t next) t (.ready (tierOf (σ.th t)) c) := by
  have hth : (σ.kschedYield c t t next).th = _ := kschedYield_th hc
  have hready : (σ.kschedYield c t t next).ready = _ := kschedYield_ready hc
  constructor
  · show ((σ.kschedYield c t t next).ready _ c).Perm _
    rw [hready,setReady_self]
    exact List.perm_append_comm
  · intro q hq
    refine members_eq q (fun k' d hq' => ?_) (fun _ _ => rfl) (fun u _ => ?_) (fun u _ => ?_)
      (fun _ _ => rfl)
    · subst hq'
      rw [hready]
      exact setReady_of_ne fun hkd => hq (by rw [hkd.1,hkd.2])
    · rw [hth]
      exact pc_update Tpc.wakes hwakes u
    · rw [hth]
      exact pc_update Tpc.makes hmakes u

theorem Placed.yield (h : Placed m σ) (hctx : (σ.cpu c).ctx = .thread t l)
    (hcalm : (σ.th t).pc.published = false) (hwakes : next.wakes = (σ.th t).pc.wakes)
    (hmakes : next.makes = (σ.th t).pc.makes) (hnext : next.calm ∧ next.Ok) :
    Placed m (σ.kschedYield c t t next) := by
  have hexec : Executes σ c t := .intro hctx
  obtain ⟨hused,hsaved,howner⟩ := h.exec c t hexec
  have hc : c < m.numCoresOnline := howner ▸ h.small t
  refine h.publish hexec hcalm (kschedYield_th hc) (fun _ => rfl) (yield_enters hc hwakes hmakes)
    (fun k' d hkd => ?_) rfl ⟨hused,rfl,rfl,hsaved⟩ rfl hnext
  cases hkd
  rfl

/-- Thread `u` goes from place `p` to place `q`. -/
structure Goes (σ σ' : Sched) (u : Tid) (p q : Place) : Prop where
  ne : p ≠ q
  start : members σ p = u::members σ' p
  dest : (members σ' q).Perm (u::members σ q)
  rest : ∀ r, r ≠ p → r ≠ q → members σ' r = members σ r

/-- One thread goes from one place to another. -/
theorem Placed.move {u : Tid} {p q : Place} (h : Placed m σ) (hg : Goes σ σ' u p q)
    (hexec : ∀ d v, Executes σ' d v ↔ Executes σ d v)
    (hstay : ∀ v, v ≠ u → Unmoved (σ.th v) (σ'.th v)) (hok : ∀ v, (σ'.th v).pc.Ok)
    (hpc : (σ'.th u).pc = (σ.th u).pc) (hused : (σ'.th u).used = (σ.th u).used)
    (hsaved : (σ'.th u).saved = (σ.th u).saved) (hstate : (σ'.th u).state = q.state)
    (hsmall : (σ'.th u).ownerCPU < m.numCoresOnline)
    (howner : ∀ k d, q = .ready k d → (σ'.th u).ownerCPU = d)
    (hkeep : (σ.th u).saved = true ∨ (σ'.th u).ownerCPU = (σ.th u).ownerCPU)
    (hheld : q.held = true → (σ.th u).saved = true) : Placed m σ' := by
  have hup : u ∈ members σ p := by
    rw [hg.start]
    exact List.mem_cons_self
  have hnot : u ∉ members σ' p := by
    have := h.apart.nodup p
    rw [hg.start] at this
    exact (List.nodup_cons.mp this).1
  -- without `u` the places are as before, and then it is put in again
  refine h.put (w := fun r => if r = p then members σ' p else members σ r) (q := q) (fun r => ?_)
    (fun r => ?_) ?_ (fun r hr => ?_) hexec hstay hok fun honly => ?_
  · by_cases hr : r = p
    · rw [if_pos hr,hr,hg.start]
      exact List.sublist_cons_self u _
    · rw [if_neg hr]
  · by_cases hr : r = p
    · rwa [if_pos hr]
    · rw [if_neg hr]
      exact fun hu => hr (h.apart.one r p u hu hup)
  · rw [if_neg hg.ne.symm]
    exact hg.dest
  · by_cases hrp : r = p
    · rw [if_pos hrp,hrp]
    · rw [if_neg hrp]
      exact hg.rest r hrp hr
  constructor
  · intro r hr
    rw [honly r hr]
    exact ⟨hused.trans (h.used p u hup),hstate,howner,fun hr => hsaved.trans (hheld hr)⟩
  · intro d hd
    obtain ⟨hu,hs,ho⟩ := h.exec d u ((hexec d u).mp hd)
    rw [hused,hsaved]
    refine ⟨hu,hs,?_⟩
    obtain hs' | ho' := hkeep
    · rw [hs'] at hs
      cases hs
    · rwa [ho']
  · intro d hd hpub
    rw [hpc] at hpub
    exact absurd hup ((h.out d u ((hexec d u).mp hd) hpub).1 p)
  · intro hs
    rw [hsaved] at hs
    obtain hs' | ho := hkeep
    · rw [hs'] at hs
      cases hs
    · rw [ho,hexec]
      exact h.gone u hs
  · exact hsmall
  · intro hs
    rw [hsaved] at hs
    rw [hpc]
    exact h.calm u hs
  · exact hok u

theorem setCtx_self (x : Ctx) : ((σ.setCtx c x).cpu c).ctx = x := by
  show (update σ.cpu c _ c).ctx = x
  rw [update_self]

theorem setCtx_of_ne {x : Ctx} {d : ℕ} (h : d ≠ c) : (σ.setCtx c x).cpu d = σ.cpu d :=
  update_of_ne h ..

/-- A change of one CPU's context concerns the threads it executes before and after. -/
theorem executes_iff {u : Tid} (hcpu : ∀ d, d ≠ c → (σ'.cpu d).ctx = (σ.cpu d).ctx)
    (hold : ∀ l, (σ.cpu c).ctx ≠ .thread u l) (hnew : ∀ l, (σ'.cpu c).ctx ≠ .thread u l) (d : ℕ) :
    Executes σ' d u ↔ Executes σ d u := by
  by_cases hd : d = c
  · subst hd
    exact ⟨fun ⟨l,hl⟩ => absurd hl (hnew l),fun ⟨l,hl⟩ => absurd hl (hold l)⟩
  · rw [Executes,Executes,hcpu d hd]

theorem executes_setCtx_boot {pc pc' : Dpc} (hctx : (σ.cpu c).ctx = .boot pc) (d : ℕ) (u : Tid) :
    Executes (σ.setCtx c (.boot pc')) d u ↔ Executes σ d u :=
  executes_iff (fun e he => by rw [setCtx_of_ne he]) (by rw [hctx]; nofun)
    (by rw [setCtx_self]; nofun) d

theorem pop_goes {k : Tier} {d : ℕ} (hctx : (σ.cpu c).ctx = .boot pc)
    (hheld : pc.held = []) (hready : σ.ready k d = t::ts) :
    Goes σ ((σ.setReady k d ts).setCtx c (.boot (.popped t l))) t (.ready k d) (.hand c) := by
  refine ⟨by nofun,?_,?_,fun r hr hrc => ?_⟩
  · show σ.ready k d = t::(σ.setReady k d ts).ready k d
    rw [setReady_self,hready]
  · show (Ctx.held (((σ.setReady k d ts).setCtx c _).cpu c).ctx).Perm (t::(σ.cpu c).ctx.held)
    rw [setCtx_self,hctx]
    show [t].Perm (t::pc.held)
    rw [hheld]
  · refine members_eq r (fun k' d' hq => ?_) (fun _ _ => rfl) (fun _ _ => rfl) (fun _ _ => rfl)
      (fun e hq => ?_)
    · subst hq
      exact setReady_of_ne fun hkd => hr (by rw [hkd.1,hkd.2])
    · subst hq
      rw [setCtx_of_ne fun he => hrc (by rw [he])]
      rfl

/-- A dispatcher takes the first thread of a ready queue. -/
theorem Placed.pop {k : Tier} {d : ℕ} (h : Placed m σ)
    (hctx : (σ.cpu c).ctx = .boot pc) (hheld : pc.held = []) (hready : σ.ready k d = t::ts)
    (hsaved : (σ.th t).saved = true) :
    Placed m ((σ.setReady k d ts).setCtx c (.boot (.popped t l))) := by
  have hin : t ∈ members σ (.ready k d) := by
    show t ∈ σ.ready k d
    rw [hready]
    exact List.mem_cons_self
  exact h.move (pop_goes hctx hheld hready) (executes_setCtx_boot (σ := σ.setReady k d ts) hctx)
    (fun v _ => .refl _) h.ok rfl rfl rfl (h.state (.ready k d) t hin) (h.small t) (by nofun)
    (.inl hsaved) (fun _ => hsaved)

/-- A thread in hand is pushed to a ready queue; `t` is the thread that has it in hand, or
the pushed thread itself if a dispatcher has. -/
theorem Placed.arrive {u : Tid} {k : Tier} {d : ℕ} {p : Place} {y : KThread} (h : Placed m σ)
    (hg : Goes σ σ' u p (.ready k d)) (hexec : ∀ e v, Executes σ' e v ↔ Executes σ e v)
    (hu : σ'.th u = { σ.th u with state := .runnable, ownerCPU := d })
    (ht : t ≠ u → σ'.th t = y) (hrest : ∀ v, v ≠ u → v ≠ t → σ'.th v = σ.th v)
    (hy : t ≠ u → Unmoved (σ.th t) y ∧ y.pc.Ok) (hd : d < m.numCoresOnline)
    (hkeep : (σ.th u).saved = true ∨ d = (σ.th u).ownerCPU) : Placed m σ' := by
  refine h.move hg hexec ?_ ?_ (by rw [hu]) (by rw [hu]) (by rw [hu]) (by rw [hu]; rfl)
    (by rw [hu]; exact hd) ?_ ?_ (by nofun)
  · intro v hv
    by_cases hvt : v = t
    · subst hvt
      rw [ht hv]
      exact (hy hv).1
    · rw [hrest v hv hvt]
      exact .refl _
  · intro v
    by_cases hv : v = u
    · subst hv
      rw [hu]
      exact h.ok v
    · by_cases hvt : v = t
      · subst hvt
        rw [ht hv]
        exact (hy hv).2
      · rw [hrest v hv hvt]
        exact h.ok v
  · intro k' d' hkd
    cases hkd
    rw [hu]
  · rw [hu]
    exact hkeep

/-- What a push does to the places, with `p` where the thread was. -/
theorem goes_of_pushed {u : Tid} {k : Tier} {d : ℕ} {p : Place} (hplace : ∀ k d, p ≠ .ready k d)
    (hp : members σ p = u::members σ' p)
    (hready : σ'.ready = (σ.setReady k d (σ.ready k d++[u])).ready)
    (hrest : ∀ r, r ≠ p → (∀ k d, r ≠ .ready k d) → members σ' r = members σ r) :
    Goes σ σ' u p (.ready k d) := by
  refine ⟨hplace k d,hp,?_,fun r hr hrq => ?_⟩
  · show (σ'.ready k d).Perm _
    rw [hready,setReady_self]
    exact List.perm_append_comm
  · by_cases hrr : ∃ k' d', r = .ready k' d'
    · obtain ⟨k',d',rfl⟩ := hrr
      show σ'.ready k' d' = _
      rw [hready]
      exact setReady_of_ne fun hkd => hrq (by rw [hkd.1,hkd.2])
    · exact hrest r hr fun k' d' he => hrr ⟨k',d',he⟩

section Push

variable {u : Tid} {k : Tier} {d : ℕ} {p : Tpc}

/-- The thread that pushes goes on at `p`. -/
theorem push_th_self (hut : u ≠ t) :
    ((σ.kschedPush k u d).setPc t p).th t = { σ.th t with pc := p } := by
  show update (update σ.th u _) t { update σ.th u _ t with pc := p } t = _
  rw [update_self,update_of_ne hut.symm]

theorem push_th_pushed (hut : u ≠ t) (hd : d < m.numCoresOnline) :
    ((σ.kschedPush k u d).setPc t p).th u =
      { σ.th u with state := .runnable, ownerCPU := d } := by
  rw [kschedPush_eq hd]
  show update (update σ.th u _) t _ u = _
  rw [update_of_ne hut,update_self]

theorem push_th_of_ne {v : Tid} (hvu : v ≠ u) (hvt : v ≠ t) :
    ((σ.kschedPush k u d).setPc t p).th v = σ.th v := by
  show update (update σ.th u _) t _ v = _
  rw [update_of_ne hvt,update_of_ne hvu]

theorem push_goes (hut : u ≠ t) (hd : d < m.numCoresOnline)
    (hq : q = .waking t ∧ (σ.th t).pc.wakes = u::p.wakes ∧ p.makes = (σ.th t).pc.makes ∨
      q = .made t ∧ (σ.th t).pc.makes = u::p.makes ∧ p.wakes = (σ.th t).pc.wakes) :
    Goes σ ((σ.kschedPush k u d).setPc t p) u q (.ready k d) := by
  have hself := push_th_self (σ := σ) (k := k) (d := d) (p := p) hut
  have hpc {α : Type} (f : Tpc → α) (v : Tid) (hf : v = t → f p = f (σ.th t).pc) :
      f (((σ.kschedPush k u d).setPc t p).th v).pc = f (σ.th v).pc := by
    by_cases hvt : v = t
    · subst hvt
      rw [hself]
      exact hf rfl
    · by_cases hvu : v = u
      · subst hvu
        rw [push_th_pushed hut hd]
      · rw [push_th_of_ne hvu hvt]
  refine goes_of_pushed ?_ ?_ (by rw [kschedPush_eq hd]; rfl) fun r hr hrr => ?_
  · obtain ⟨rfl,-⟩ | ⟨rfl,-⟩ := hq
    · nofun
    · nofun
  · obtain ⟨rfl,hw,-⟩ | ⟨rfl,hm,-⟩ := hq
    · show (σ.th t).pc.wakes = u::(((σ.kschedPush k u d).setPc t p).th t).pc.wakes
      rw [hself,hw]
    · show (σ.th t).pc.makes = u::(((σ.kschedPush k u d).setPc t p).th t).pc.makes
      rw [hself,hm]
  · refine members_eq r (fun k' d' he => absurd he (hrr k' d')) (fun w _ => ?_) (fun v he => ?_)
      (fun v he => ?_) (fun e _ => ?_)
    · rfl
    · refine hpc Tpc.wakes v fun hvt => ?_
      obtain ⟨rfl,-⟩ | ⟨-,-,hw⟩ := hq
      · exact absurd (by rw [he,hvt]) hr
      · exact hw
    · refine hpc Tpc.makes v fun hvt => ?_
      obtain ⟨-,-,hm⟩ | ⟨rfl,-⟩ := hq
      · exact hm
      · exact absurd (by rw [he,hvt]) hr
    · rfl

/-- A running thread pushes one it has in hand and goes on at `p`. -/
theorem Placed.push (h : Placed m σ) (hut : u ≠ t)
    (hg : Goes σ ((σ.kschedPush k u d).setPc t p) u q (.ready k d)) (hpub : (σ.th t).pc.calm)
    (hp : p.calm ∧ p.Ok) (hd : d < m.numCoresOnline)
    (hkeep : (σ.th u).saved = true ∨ d = (σ.th u).ownerCPU) :
    Placed m ((σ.kschedPush k u d).setPc t p) := by
  refine h.arrive (t := t) (y := { σ.th t with pc := p }) hg (fun e v => ?_)
    (push_th_pushed hut hd) (fun _ => push_th_self hut)
    (fun v hvu hvt => push_th_of_ne hvu hvt) (fun _ => ⟨⟨rfl,rfl,rfl,rfl,?_,?_⟩,hp.2⟩) hd hkeep
  · rfl
  · exact hp.1.1.trans hpub.1.symm
  · exact hp.1.2.trans hpub.2.symm

end Push

section

variable (h : Placed m σ) (hctx : (σ.cpu c).ctx = .thread t l)
include h hctx

/-- The first of the threads to be woken. -/
theorem Placed.first_waking {u : Tid} (hpc : (σ.th t).pc = .waking (u::us)) :
    u ≠ t ∧ u ∈ members σ (.waking t) ∧ (σ.th u).state = .parked := by
  have hin : u ∈ members σ (.waking t) := by
    show u ∈ (σ.th t).pc.wakes
    rw [hpc]
    exact List.mem_cons_self
  exact ⟨h.ne_of_mem hctx (by rw [hpc]; rfl) hin,hin,h.state _ u hin⟩

theorem Placed.wake_goes {u : Tid} {k : Tier} {d : ℕ} (hpc : (σ.th t).pc = .waking (u::us))
    (hd : d < m.numCoresOnline) :
    Goes σ ((σ.kschedPush k u d).setPc t (.waking us)) u (.waking t) (.ready k d) := by
  refine push_goes (h.first_waking hctx hpc).1 hd (.inl ⟨rfl,?_⟩)
  rw [hpc]
  exact ⟨rfl,rfl⟩

/-- A woken thread goes to the ready queue of the CPU it last ran on. -/
theorem Placed.wake {u : Tid} (hpc : (σ.th t).pc = .waking (u::us)) :
    Placed m ((σ.kschedWake u).setPc t (.waking us)) := by
  obtain ⟨hut,-,hparked⟩ := h.first_waking hctx hpc
  rw [kschedWake,if_pos hparked]
  exact h.push hut (h.wake_goes hctx hpc (h.small u)) (by rw [hpc]; exact ⟨rfl,rfl⟩)
    ⟨⟨rfl,rfl⟩,trivial⟩ (h.small u) (.inr rfl)

theorem Placed.made_in_hand {u : Tid} {k : Tier} {d : ℕ} (hpc : (σ.th t).pc = .spawning u k d) :
    u ≠ t ∧ u ∈ members σ (.made t) := by
  have hin : u ∈ members σ (.made t) := by
    show u ∈ (σ.th t).pc.makes
    rw [hpc]
    exact List.mem_cons_self
  exact ⟨h.ne_of_mem hctx (by rw [hpc]; rfl) hin,hin⟩

theorem Placed.made_goes {u : Tid} {k : Tier} {d : ℕ} (hpc : (σ.th t).pc = .spawning u k d)
    (hd : d < m.numCoresOnline) :
    Goes σ ((σ.kschedPush k u d).setPc t .run) u (.made t) (.ready k d) := by
  refine push_goes (h.made_in_hand hctx hpc).1 hd (.inr ⟨rfl,?_⟩)
  rw [hpc]
  exact ⟨rfl,rfl⟩

/-- A built thread is pushed by the thread that built it. -/
theorem Placed.pushMade {u : Tid} {k : Tier} {d : ℕ} (hpc : (σ.th t).pc = .spawning u k d)
    (hd : d < m.numCoresOnline) : Placed m ((σ.kschedPush k u d).setPc t .run) := by
  obtain ⟨hut,hin⟩ := h.made_in_hand hctx hpc
  exact h.push hut (h.made_goes hctx hpc hd) (by rw [hpc]; exact ⟨rfl,rfl⟩)
    ⟨⟨rfl,rfl⟩,trivial⟩ hd (.inl (h.held _ u rfl hin))

end

theorem bootPush_goes {u : Tid} {k : Tier} {d : ℕ} (hctx : (σ.cpu c).ctx = .boot (.spawning u k d))
    (hd : d < m.numCoresOnline) :
    Goes σ ((σ.kschedPush k u d).setCtx c (.boot .idle)) u (.hand c) (.ready k d) := by
  have hpush := kschedPush_eq (σ := σ) (k := k) (u := u) hd
  have hpc {α : Type} (f : Tpc → α) (v : Tid) :
      f (((σ.kschedPush k u d).setCtx c (.boot .idle)).th v).pc = f (σ.th v).pc := by
    refine pc_update f ?_ v
    rfl
  refine goes_of_pushed (by nofun) ?_ (by rw [hpush]; rfl) fun r hr hrr => ?_
  · show (σ.cpu c).ctx.held = u::(((σ.kschedPush k u d).setCtx c _).cpu c).ctx.held
    rw [setCtx_self,hctx]
    rfl
  · refine members_eq r (fun k' d' he => absurd he (hrr k' d')) (fun w _ => by rfl)
      (fun v _ => hpc Tpc.wakes v) (fun v _ => hpc Tpc.makes v) (fun e he => ?_)
    subst he
    rw [setCtx_of_ne fun hec => hr (by rw [hec])]
    rfl

/-- A thread that a dispatcher has in hand. -/
theorem mem_hand {u : Tid} (hctx : (σ.cpu c).ctx = .boot pc) (hu : pc.held = [u]) :
    u ∈ members σ (.hand c) := by
  show u ∈ (σ.cpu c).ctx.held
  rw [hctx]
  show u ∈ pc.held
  rw [hu]
  exact List.mem_cons_self

/-- A built thread is pushed by the boot code. -/
theorem Placed.bootPush {u : Tid} {k : Tier} {d : ℕ} (h : Placed m σ)
    (hctx : (σ.cpu c).ctx = .boot (.spawning u k d)) (hd : d < m.numCoresOnline) :
    Placed m ((σ.kschedPush k u d).setCtx c (.boot .idle)) := by
  have hpush := kschedPush_eq (σ := σ) (k := k) (u := u) hd
  refine h.arrive (t := u) (y := σ.th u) (bootPush_goes hctx hd) (fun e v => ?_) ?_
    (fun hne => absurd rfl hne) (fun v hv _ => ?_) (fun hne => absurd rfl hne) hd
    (.inl (h.held _ u rfl (mem_hand hctx rfl)))
  · rw [hpush]
    exact executes_setCtx_boot (σ := (σ.setTh u _).setReady k d _) hctx e v
  · rw [hpush]
    exact update_self ..
  · exact update_of_ne hv ..

/-- The places after threads have been taken off a wait list. -/
structure Taken (σ σ' : Sched) (t : Tid) (w : WaitList) (n : ℕ) : Prop where
  waking : members σ' (.waking t) = (σ.waiters w).take n
  wait : members σ' (.wait w) = (σ.waiters w).drop n
  rest : ∀ r, r ≠ .wait w → r ≠ .waking t → members σ' r = members σ r

theorem take_taken {n : ℕ} {flag : ℕ → Bool} {count : ℕ → ℕ} (hmakes : (σ.th t).pc.makes = []) :
    Taken σ { σ.take t w n with flag := flag, count := count } t w n := by
  refine ⟨?_,update_self ..,fun r hr hr' => ?_⟩
  · show (update σ.th t _ t).pc.wakes = _
    rw [update_self]
    rfl
  · refine members_eq r (fun _ _ _ => rfl) (fun w' he => ?_) (fun u he => ?_) (fun u _ => ?_)
      (fun _ _ => rfl)
    · exact update_of_ne (fun hw => hr (by rw [he,hw])) ..
    · show (update σ.th t _ u).pc.wakes = _
      rw [update_of_ne fun hu => hr' (by rw [he,hu])]
    · refine pc_update Tpc.makes ?_ u
      exact hmakes.symm

/-- Threads are taken off a wait list to be woken. -/
theorem Placed.take {n : ℕ} {flag : ℕ → Bool} {count : ℕ → ℕ} (h : Placed m σ)
    (hpc : (σ.th t).pc = .run ∨ ∃ o, (σ.th t).pc = .retry o) :
    Placed m { σ.take t w n with flag := flag, count := count } := by
  obtain ⟨hwakes,hmakes,hpub,hend⟩ := quiet_of_start hpc
  have htaken : Taken σ { σ.take t w n with flag := flag, count := count } t w n :=
    take_taken hmakes
  let x : KThread := { σ.th t with pc := .waking ((σ.waiters w).take n) }
  -- the threads taken off were on the wait list, and are as parked as before
  refine .of_sited ?_ fun u => (h.sited u).kept ?_ ?_ (fun _ => Iff.rfl) fun r hu => ?_
  · refine h.apart.transfer (p := .wait w) (q := .waking t) (by nofun) hwakes ?_ htaken.rest
    rw [htaken.waking,htaken.wait]
    show ((σ.waiters w).take n++(σ.waiters w).drop n).Perm (σ.waiters w)
    rw [List.take_append_drop]
  · show Unmoved _ (update σ.th t x u)
    by_cases hu : u = t
    · subst hu
      rw [update_self]
      exact ⟨rfl,rfl,rfl,rfl,hpub.symm,hend.symm⟩
    · rw [update_of_ne hu]
      exact .refl _
  · show (update σ.th t x u).pc.Ok
    by_cases hu : u = t
    · subst hu
      rw [update_self]
      trivial
    · rw [update_of_ne hu]
      exact h.ok u
  · by_cases hr : r = .wait w
    · subst hr
      rw [htaken.wait] at hu
      exact ⟨.wait w,List.mem_of_mem_drop hu,id⟩
    · by_cases hr' : r = .waking t
      · subst hr'
        rw [htaken.waking] at hu
        exact ⟨.wait w,List.mem_of_mem_take hu,fun hs => ⟨hs.used,hs.state,by nofun,by nofun⟩⟩
      · rw [htaken.rest r hr hr'] at hu
        exact ⟨r,hu,id⟩

end Gooos.Ksched
