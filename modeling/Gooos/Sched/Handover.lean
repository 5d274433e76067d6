import Mathlib
import Gooos.Sched.Placement

/-!
# Handing a thread from one CPU to the next

The steps that change who executes a thread: a dispatch, a switch back to the
bootstrap context, a spawn and an exit. With them every orderly step keeps each thread
in one place, and so does every orderly run.
-/

namespace Gooos.Ksched

open Sched Places Function

variable {m : Machine} {σ σ' : Sched} {c : ℕ} {t : Tid} {l : Loop}

/-- A change of one CPU's record that leaves what it has in hand. -/
theorem members_setCpu {x : CPU} (hheld : x.ctx.held = (σ.cpu c).ctx.held) (r : Place) :
    members (σ.setCpu c x) r = members σ r := by
  refine members_eq r (fun _ _ _ => rfl) (fun _ _ => rfl) (fun _ _ => rfl) (fun _ _ => rfl)
    (fun d _ => ?_)
  show (update σ.cpu c x d).ctx.held = _
  by_cases hd : d = c
  · rw [hd,update_self,hheld]
  · rw [update_of_ne hd]

/-- A dispatcher goes on with nothing in hand. -/
theorem Placed.look {pc pc' : Dpc} {x : CPU} (h : Placed m σ) (hctx : (σ.cpu c).ctx = .boot pc)
    (hx : x.ctx = .boot pc') (hheld : pc'.held = pc.held) : Placed m (σ.setCpu c x) := by
  have hself : ((σ.setCpu c x).cpu c).ctx = .boot pc' := by
    show (update σ.cpu c x c).ctx = _
    rw [update_self,hx]
  refine h.own (members_setCpu ?_) (fun d u => ?_) fun u => ⟨.refl _,h.ok u⟩
  · rw [hx,hctx]
    exact hheld
  · refine executes_iff (c := c) (fun e he => ?_) (by rw [hctx]; nofun) (by rw [hself]; nofun) d
    exact congrArg CPU.ctx (update_of_ne he ..)

/-- The thread that was in hand is nowhere after its dispatch. -/
theorem dispatch_members (σ : Sched) (c : ℕ) (t : Tid) (l : Loop) :
    members (σ.dispatch c t l) (.hand c) = [] ∧
      ∀ r, r ≠ .hand c → members (σ.dispatch c t l) r = members σ r := by
  refine ⟨?_,fun r hr => ?_⟩
  · show (update σ.cpu c _ c).ctx.held = []
    rw [update_self]
    rfl
  · refine members_eq r (fun _ _ _ => rfl) (fun _ _ => rfl) (fun u _ => ?_) (fun u _ => ?_)
      (fun d he => ?_)
    · refine pc_update Tpc.wakes ?_ u
      rfl
    · refine pc_update Tpc.makes ?_ u
      rfl
    · show (update σ.cpu c _ d).ctx.held = _
      rw [update_of_ne fun hd => hr (by rw [he,hd])]

theorem Placed.dispatch (h : Placed m σ) (hc : c < m.numCoresOnline)
    (hctx : (σ.cpu c).ctx = .boot (.popped t l)) : Placed m (σ.dispatch c t l) := by
  have hin : t ∈ members σ (.hand c) := mem_hand hctx rfl
  obtain ⟨hhand,hother⟩ := dispatch_members σ c t l
  have hsaved := h.held _ t rfl hin
  have hcalm := h.calm t hsaved
  have hself : (σ.dispatch c t l).th t =
      { σ.th t with state := .running, ownerCPU := c, saved := false } := update_self ..
  have hne {u : Tid} (hu : u ≠ t) : (σ.dispatch c t l).th u = σ.th u := update_of_ne hu ..
  have hctx' : ((σ.dispatch c t l).cpu c).ctx = .thread t l := by
    show (update σ.cpu c _ c).ctx = _
    rw [update_self]
  have hcpu {d : ℕ} (hd : d ≠ c) : (σ.dispatch c t l).cpu d = σ.cpu d := update_of_ne hd ..
  -- whoever is somewhere now was there before, and is not the dispatched thread
  have hback (r : Place) (u : Tid) (hu : u ∈ members (σ.dispatch c t l) r) :
      u ≠ t ∧ u ∈ members σ r := by
    by_cases hr : r = .hand c
    · subst hr
      rw [hhand] at hu
      cases hu
    · rw [hother r hr] at hu
      exact ⟨fun hut => hr (h.apart.one _ _ t (hut ▸ hu) hin),hu⟩
  refine .of_sited (h.apart.shrink fun r => ?_) fun u => ?_
  · by_cases hr : r = .hand c
    · subst hr
      rw [hhand]
      exact List.nil_sublist _
    · rw [hother r hr]
  by_cases hut : u = t
  · subst hut
    refine .executed (.intro hctx') (fun d hd => ?_) hc ?_ (fun r hr => ?_)
      (fun _ => ⟨fun r hr => ?_,?_⟩)
      ?_
    · by_contra hdc
      rw [Executes,hcpu hdc] at hd
      rw [(h.exec d u hd).2.1] at hsaved
      cases hsaved
    · rw [hself]
      exact ⟨h.used _ u hin,rfl,rfl⟩
    · exact absurd rfl (hback r u hr).1
    · exact (hback r u hr).1 rfl
    · rw [hself]
      rw [hcalm.2]
      rfl
    · rw [hself]
      exact h.ok u
  · refine (h.sited u).aside (hne hut) (executes_iff (fun d hd => by rw [hcpu hd]) ?_ ?_)
      fun r hr => (hback r u hr).2
    · rw [hctx]
      rintro _ ⟨⟩
    · rw [hctx']
      rintro l' ⟨⟩
      exact hut rfl

theorem switchOut_members {next : Tpc} (hctx : (σ.cpu c).ctx = .thread t l)
    (hwakes : next.wakes = (σ.th t).pc.wakes) (hmakes : next.makes = (σ.th t).pc.makes)
    (r : Place) : members (σ.switchOut c t l next) r = members σ r := by
  have hth : (σ.switchOut c t l next).th =
      update σ.th t { σ.th t with saved := true, pc := next } := rfl
  refine members_thread hth rfl rfl (fun d => ?_) hwakes hmakes r
  by_cases hd : d = c
  · subst hd
    show (((σ.setTh t _).setCtx d _).cpu d).ctx.held = _
    rw [setCtx_self,hctx]
    rfl
  · show (((σ.setTh t _).setCtx c _).cpu d).ctx.held = _
    rw [setCtx_of_ne hd]
    rfl

/-- The switch to the bootstrap context stores the thread's context. -/
theorem Placed.switchOut {next : Tpc} (h : Placed m σ) (hctx : (σ.cpu c).ctx = .thread t l)
    (hwakes : next.wakes = (σ.th t).pc.wakes) (hmakes : next.makes = (σ.th t).pc.makes)
    (hnext : next.calm ∧ next.Ok) : Placed m (σ.switchOut c t l next) := by
  have hexec : Executes σ c t := .intro hctx
  have hself : (σ.switchOut c t l next).th t = { σ.th t with saved := true, pc := next } :=
    update_self ..
  have hne {u : Tid} (hu : u ≠ t) : (σ.switchOut c t l next).th u = σ.th u :=
    update_of_ne hu ..
  have hctx' : ((σ.switchOut c t l next).cpu c).ctx = .boot (.returned t l) := setCtx_self _
  have hcpu {d : ℕ} (hd : d ≠ c) : (σ.switchOut c t l next).cpu d = σ.cpu d := setCtx_of_ne hd
  have hmem := switchOut_members hctx hwakes hmakes
  refine .of_sited (h.apart.congr hmem) fun u => ?_
  by_cases hut : u = t
  · subst hut
    refine .stored (fun d hd => ?_) ?_ ?_ (fun r hr => ?_) ?_ ?_
    · by_cases hdc : d = c
      · obtain ⟨l',hl⟩ := hd
        rw [hdc,hctx'] at hl
        cases hl
      · rw [Executes,hcpu hdc] at hd
        exact hdc ((h.exec d u hd).2.2.symm.trans (h.exec c u hexec).2.2)
    all_goals
      rw [hself]
    · exact h.small u
    · rw [hmem] at hr
      have hold := (h.sited u).suits r hr
      exact ⟨hold.used,hold.state,hold.owner,fun _ => rfl⟩
    · exact hnext.1
    · exact hnext.2
  · refine (h.sited u).aside (hne hut) (executes_iff (fun d hd => by rw [hcpu hd]) ?_ ?_)
      fun r hr => by rwa [hmem] at hr
    · rw [hctx]
      rintro l' ⟨⟩
      exact hut rfl
    · rw [hctx']
      rintro _ ⟨⟩

/-- A thread in a free slot is nowhere. -/
theorem Placed.nowhere_of_free {u : Tid} (h : Placed m σ) (hfree : (σ.th u).used = false) :
    (∀ r, u ∉ members σ r) ∧ ∀ d, ¬Executes σ d u := by
  constructor
  · intro r hr
    rw [h.used r u hr] at hfree
    cases hfree
  · intro d hd
    rw [(h.exec d u hd).1] at hfree
    cases hfree

/-- Thread `u` gets to place `q` in a slot that was free, and is rid of what the slot had
in hand before. -/
structure Appears (σ σ' : Sched) (u : Tid) (q : Place) : Prop where
  dest : (members σ' q).Perm (u::members σ q)
  rest : ∀ r, r ≠ q → members σ' r = members σ r ∨
    members σ' r = [] ∧ (r = .waking u ∨ r = .made u)

/-- A thread is built in a free slot and put in one place. -/
theorem Placed.build {u : Tid} {q : Place} (h : Placed m σ) (hfree : (σ.th u).used = false)
    (hb : Appears σ σ' u q)
    (hexec : ∀ d v, Executes σ' d v ↔ Executes σ d v)
    (hstay : ∀ v, v ≠ u → Unmoved (σ.th v) (σ'.th v)) (hok : ∀ v, (σ'.th v).pc.Ok)
    (hu : (σ'.th u).used = true ∧ (σ'.th u).saved = true ∧ (σ'.th u).state = q.state)
    (hsmall : (σ'.th u).ownerCPU < m.numCoresOnline) (hcalm : (σ'.th u).pc.calm)
    (hplace : ∀ k d, q ≠ .ready k d) : Placed m σ' := by
  obtain ⟨hnew,hidle⟩ := h.nowhere_of_free hfree
  obtain ⟨hused,hsaved,hstate⟩ := hu
  have hmem (r : Place) (hr : r ≠ q) : (members σ' r).Sublist (members σ r) := by
    obtain heq | ⟨hnil,-⟩ := hb.rest r hr
    · rw [heq]
    · rw [hnil]
      exact List.nil_sublist _
  -- the old entries of the slot go first
  refine h.put (w := fun r => if r = q then members σ q else members σ' r) (q := q) (fun r => ?_)
    (fun r => ?_) ?_ (fun r hr => (if_neg hr).symm) hexec hstay hok fun honly => ?_
  · by_cases hr : r = q
    · rw [if_pos hr,hr]
    · rw [if_neg hr]
      exact hmem r hr
  · by_cases hr : r = q
    · rw [if_pos hr]
      exact hnew q
    · rw [if_neg hr]
      exact fun hv => hnew r ((hmem r hr).subset hv)
  · rw [if_pos rfl]
    exact hb.dest
  · refine .stored (fun d hd => hidle d ((hexec d u).mp hd)) hsaved hsmall (fun r hr => ?_) hcalm
      (hok u)
    rw [honly r hr]
    exact ⟨hused,hstate,fun k d hkd => absurd hkd (hplace k d),fun _ => hsaved⟩

/-- A spawn changes one slot, which was free, and no list. -/
structure Built (m : Machine) (σ : Sched) (u : Tid) (d : ℕ) (σ' : Sched) (x : KThread) : Prop where
  free : (σ.th u).used = false
  target : d < m.numCoresOnline
  th : σ'.th = update σ.th u x
  cpu : σ'.cpu = σ.cpu
  ready : σ'.ready = σ.ready
  waiters : σ'.waiters = σ.waiters
  used : x.used = true
  state : x.state = .runnable
  owner : x.ownerCPU = 0
  saved : x.saved = true
  pc : x.pc = x.entry.start

theorem ring3Target_lt (m : Machine) (σ : Sched) : ring3Target m σ < m.numCoresOnline := by
  rw [ring3Target]
  split
  · have := Nat.mod_lt σ.rrCounter.toNat (show 0 < m.numCoresOnline-1 by omega)
    omega
  · exact m.pos

theorem Spawns.built {u : Tid} {k : Tier} {d : ℕ} (h : Spawns m σ u k d σ') :
    ∃ x, Built m σ u d σ' x := by
  obtain hfree | ⟨hfree,-⟩ | hfree := h
  · exact ⟨_,hfree,m.pos,rfl,rfl,rfl,rfl,rfl,rfl,rfl,rfl,rfl⟩
  · exact ⟨_,hfree,m.pos,rfl,rfl,rfl,rfl,rfl,rfl,rfl,rfl,rfl⟩
  · exact ⟨_,hfree,ring3Target_lt m σ,rfl,rfl,rfl,rfl,rfl,rfl,rfl,rfl,rfl⟩

/-- A fresh thread wakes, makes and hands on nothing. -/
theorem Entry.start_calm (e : Entry) :
    e.start.wakes = [] ∧ e.start.makes = [] ∧ e.start.calm ∧ e.start.Ok := by
  cases e <;> exact ⟨rfl,rfl,⟨rfl,rfl⟩,trivial⟩

section Spawn

variable {u : Tid} {d : ℕ} {x : KThread} {σ₁ : Sched}

section

variable (hb : Built m σ u d σ₁ x)
include hb

theorem Built.members (r : Place) : members σ₁ r = members σ r ∨
    members σ₁ r = [] ∧ (r = .waking u ∨ r = .made u) := by
  by_cases hr : r = .waking u ∨ r = .made u
  · refine .inr ⟨?_,hr⟩
    obtain ⟨hwakes,hmakes,-⟩ := x.entry.start_calm
    obtain rfl | rfl := hr
    · show (σ₁.th u).pc.wakes = []
      rw [hb.th,update_self,hb.pc,hwakes]
    · show (σ₁.th u).pc.makes = []
      rw [hb.th,update_self,hb.pc,hmakes]
  · refine .inl (members_eq r (fun k e _ => by rw [hb.ready]) (fun w _ => by rw [hb.waiters])
      (fun v he => ?_) (fun v he => ?_) (fun e _ => by rw [hb.cpu]))
    · rw [hb.th,update_of_ne fun hv => hr (.inl (by rw [he,hv]))]
    · rw [hb.th,update_of_ne fun hv => hr (.inr (by rw [he,hv]))]

/-- The thread that runs is not the one that is built. -/
theorem Built.ne_running (h : Placed m σ) (hctx : (σ.cpu c).ctx = .thread t l) : u ≠ t := by
  rintro rfl
  exact (h.nowhere_of_free hb.free).2 c (.intro hctx)

theorem Built.setPc_self {p : Tpc} (hut : u ≠ t) :
    (σ₁.setPc t p).th t = { σ.th t with pc := p } := by
  show update σ₁.th t { σ₁.th t with pc := p } t = _
  rw [update_self,hb.th,update_of_ne hut.symm]

theorem Built.setPc_of_ne {p : Tpc} {v : Tid} (hvt : v ≠ t) :
    (σ₁.setPc t p).th v = if v = u then x else σ.th v := by
  show update σ₁.th t _ v = _
  rw [update_of_ne hvt,hb.th,update_apply]

theorem Built.boot_appears {k : Tier} (hctx : (σ.cpu c).ctx = .boot .idle) :
    Appears σ (σ₁.setCtx c (.boot (.spawning u k d))) u (.hand c) := by
  constructor
  · show (Ctx.held ((σ₁.setCtx c _).cpu c).ctx).Perm (u::(σ.cpu c).ctx.held)
    rw [setCtx_self,hctx]
    exact List.Perm.refl _
  · intro r hr
    have hsame : Ksched.members (σ₁.setCtx c (.boot (.spawning u k d))) r = Ksched.members σ₁ r := by
      refine members_eq r (fun _ _ _ => rfl) (fun _ _ => rfl) (fun _ _ => rfl) (fun _ _ => rfl)
        (fun e he => ?_)
      rw [setCtx_of_ne fun hec => hr (by rw [he,hec])]
    rw [hsame]
    exact hb.members r

theorem Built.made_appears {k : Tier} (hut : u ≠ t)
    (hpc : (σ.th t).pc = .run) : Appears σ (σ₁.setPc t (.spawning u k d)) u (.made t) := by
  constructor
  · show ((σ₁.setPc t _).th t).pc.makes.Perm (u::(σ.th t).pc.makes)
    rw [hb.setPc_self hut,hpc]
    exact List.Perm.refl _
  · intro r hr
    have hsame : Ksched.members (σ₁.setPc t (.spawning u k d)) r = Ksched.members σ₁ r := by
      refine members_eq r (fun _ _ _ => rfl) (fun _ _ => rfl) (fun v _ => ?_) (fun v he => ?_)
        (fun _ _ => rfl)
      · refine pc_update Tpc.wakes ?_ v
        rw [hb.th,update_of_ne hut.symm,hpc]
        rfl
      · show (update σ₁.th t _ v).pc.makes = _
        rw [update_of_ne fun hvt => hr (by rw [he,hvt])]
    rw [hsame]
    exact hb.members r

end

/-- The boot code builds a thread. -/
theorem Placed.bootMade {k : Tier} (h : Placed m σ) (hctx : (σ.cpu c).ctx = .boot .idle)
    (hb : Built m σ u d σ₁ x) : Placed m (σ₁.setCtx c (.boot (.spawning u k d))) := by
  have hctx₁ : (σ₁.cpu c).ctx = .boot .idle := by rw [hb.cpu,hctx]
  have hself : (σ₁.setCtx c (.boot (.spawning u k d))).th u = x := by
    show σ₁.th u = x
    rw [hb.th,update_self]
  have hne {v : Tid} (hv : v ≠ u) : (σ₁.setCtx c (.boot (.spawning u k d))).th v = σ.th v := by
    show σ₁.th v = _
    rw [hb.th,update_of_ne hv]
  obtain ⟨-,-,hcalm,hok⟩ := x.entry.start_calm
  refine h.build hb.free (hb.boot_appears hctx) (fun e v => ?_) (fun v hv => ?_) (fun v => ?_) ?_ ?_ ?_
    (by nofun)
  · rw [executes_setCtx_boot hctx₁,Executes,Executes,hb.cpu]
  · rw [hne hv]
    exact .refl _
  · by_cases hv : v = u
    · rw [hv,hself,hb.pc]
      exact hok
    · rw [hne hv]
      exact h.ok v
  · rw [hself]
    exact ⟨hb.used,hb.saved,hb.state⟩
  · rw [hself,hb.owner]
    exact m.pos
  · rw [hself,hb.pc]
    exact hcalm

/-- A running thread builds one. -/
theorem Placed.made {k : Tier} (h : Placed m σ) (hctx : (σ.cpu c).ctx = .thread t l)
    (hpc : (σ.th t).pc = .run) (hb : Built m σ u d σ₁ x) :
    Placed m (σ₁.setPc t (.spawning u k d)) := by
  have hut := hb.ne_running h hctx
  have hself : (σ₁.setPc t (.spawning u k d)).th t = _ := hb.setPc_self hut
  have hnew : (σ₁.setPc t (.spawning u k d)).th u = x := by
    rw [hb.setPc_of_ne hut,if_pos rfl]
  have hne {v : Tid} (hv : v ≠ u) (hvt : v ≠ t) : (σ₁.setPc t (.spawning u k d)).th v = σ.th v := by
    rw [hb.setPc_of_ne hvt,if_neg hv]
  obtain ⟨-,-,hcalm,hok⟩ := x.entry.start_calm
  refine h.build hb.free (hb.made_appears hut hpc) (fun e v => ?_) (fun v hv => ?_) (fun v => ?_)
    ?_ ?_ ?_ (by nofun)
  · rw [Executes,Executes]
    rw [← hb.cpu]
    rfl
  · by_cases hvt : v = t
    · rw [hvt,hself]
      refine ⟨rfl,rfl,rfl,rfl,?_,?_⟩
      · rw [hpc]
        rfl
      · rw [hpc]
        rfl
    · rw [hne hv hvt]
      exact .refl _
  · by_cases hv : v = u
    · rw [hv,hnew,hb.pc]
      exact hok
    · by_cases hvt : v = t
      · rw [hvt,hself]
        trivial
      · rw [hne hv hvt]
        exact h.ok v
  · rw [hnew]
    exact ⟨hb.used,hb.saved,hb.state⟩
  · rw [hnew,hb.owner]
    exact m.pos
  · rw [hnew,hb.pc]
    exact hcalm

end Spawn

/-- A thread marks itself as exiting. -/
theorem Placed.ending (h : Placed m σ) (hctx : (σ.cpu c).ctx = .thread t l)
    (hpc : (σ.th t).pc.wakes = [] ∧ (σ.th t).pc.makes = [] ∧ (σ.th t).pc.published = false) :
    Placed m (σ.kschedExit t t) := by
  have hth := congrArg Sched.th (kschedExit_own σ t)
  have hexec : Executes σ c t := .intro hctx
  obtain ⟨hno,-⟩ := h.out c t hexec hpc.2.2
  have hself : (σ.kschedExit t t).th t = { σ.th t with state := .exiting, pc := .exitSwitch } := by
    rw [hth]
    exact update_self ..
  have hne {u : Tid} (hu : u ≠ t) : (σ.kschedExit t t).th u = σ.th u := by
    rw [hth]
    exact update_of_ne hu ..
  have hmem : ∀ r, members (σ.kschedExit t t) r = members σ r :=
    members_thread hth rfl rfl (fun _ => rfl) hpc.1.symm hpc.2.1.symm
  refine .of_sited (h.apart.congr hmem) fun u => ?_
  by_cases hut : u = t
  · subst hut
    have hold := h.exec c u hexec
    refine .executed (σ := σ.kschedExit u u) hexec (fun d hd => ?_) (hold.2.2 ▸ h.small u) ?_
      (fun r hr => ?_) (fun _ => ⟨fun r => ?_,?_⟩) ?_
    · exact (h.exec d u hd).2.2.symm.trans hold.2.2
    · rw [hself]
      exact hold
    · rw [hmem] at hr
      exact absurd hr (hno r)
    · rw [hmem]
      exact hno r
    · rw [hself]
      rfl
    · rw [hself]
      trivial
  · exact (h.sited u).aside (hne hut) (fun _ => Iff.rfl) fun r hr => by rwa [hmem] at hr

/-- The slot of a thread that is nowhere is freed. -/
theorem Placed.free (h : Placed m σ) (hno : ∀ r, t ∉ members σ r) (hidle : ∀ d, ¬Executes σ d t) :
    Placed m (σ.kthreadPoolFree t) := by
  rw [kthreadPoolFree]
  split
  · let σ' : Sched :=
      { σ.setTh t { σ.th t with used := false } with poolHint := min σ.poolHint t }
    have hself : σ'.th t = { σ.th t with used := false } := update_self ..
    have hmem : ∀ r, members σ' r = members σ r :=
      members_thread (t := t) rfl rfl rfl (fun _ => rfl) rfl rfl
    refine .of_sited (h.apart.congr hmem) fun u => ?_
    by_cases hut : u = t
    · subst hut
      have hsaved : (σ.th u).saved = true := by
        by_contra hs
        exact hidle _ (h.gone u (Bool.eq_false_iff.mpr hs))
      refine .stored hidle ?_ ?_ (fun r hr => ?_) ?_ ?_
      · rwa [hself]
      · rw [hself]
        exact h.small u
      · rw [hmem] at hr
        exact absurd hr (hno r)
      · rw [hself]
        exact h.calm u hsaved
      · rw [hself]
        exact h.ok u
    · refine (h.sited u).aside ?_ (fun _ => Iff.rfl) fun r hr => by rwa [hmem] at hr
      exact update_of_ne hut ..
  · exact h

end Gooos.Ksched
