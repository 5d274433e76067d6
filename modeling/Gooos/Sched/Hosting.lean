import Mathlib
import Gooos.Sched.Orderly

/-!
# Threads and the processes they host

Which process a thread hosts, when it has given it up, and which CPU it is tied to:
services and the boot shell's thread belong to the BSP. Spawns in progress are aimed at
the queue their thread belongs on.
-/

namespace Gooos.Ksched

open Sched Places Trace Function

/-- The thread hosts no process any more, and is to end. -/
def Tpc.left : Tpc → Bool
  | .finishing => true
  | .exitSwitch => true
  | .dead => true
  | .toSwitch p => p.left
  | .resuming p => p.left
  | .irq p => p.left
  | .knows _ _ p => p.left
  | _ => false

/-- The spawn in progress: the thread, and the queue it is to be pushed to. -/
def Tpc.aim : Tpc → Option (Tid × Tier × ℕ)
  | .spawning u k d => some (u,k,d)
  | .toSwitch p => p.aim
  | .resuming p => p.aim
  | .irq p => p.aim
  | .knows _ _ p => p.aim
  | _ => none

/-- The tier a thread belongs to. -/
def Entry.tier : Entry → Tier
  | .service => .service
  | .ring3WrapperKT => .ring3

/-- The thread belongs to the BSP. -/
def KThread.pinned (x : KThread) : Prop := x.entry = .service ∨ x.hosted = some shellProc

structure Hosts (x : KThread) : Prop where
  service : x.used = true → x.entry = .service → x.hosted = none
  left : x.used = true → x.pc.left = true → x.hosted = none
  ring3 : x.used = true → x.entry = .ring3WrapperKT → x.hosted = none → x.pc.left = true
  exits : x.used = true → x.state = .exiting → x.pc.left = true
  free : x.used = false → x.hosted = none ∧ x.pc.left = true

variable {m : Machine} {σ σ' : Sched} {c : ℕ} {t : Tid} {l : Loop} {a : Act} {obs : List Obs}

theorem makes_eq (p : Tpc) : p.makes = p.aim.toList.map Prod.fst := by
  induction p with
  | toSwitch p ih | resuming p ih | irq p ih | knows _ _ p ih => exact ih
  | _ => rfl

/-! ## The running thread -/

/-- What a move makes of the thread that is executed. -/
structure Turn (x y : KThread) : Prop where
  used : y.used = x.used
  entry : y.entry = x.entry
  owner : y.ownerCPU = x.ownerCPU
  host : y.hosted = x.hosted ∧ y.pc.left = x.pc.left ∨
    y.hosted = none ∧ y.pc.left = true ∧ x.pc.published = false
  exits : y.state = .exiting → x.state = .exiting ∨ y.pc.left = true
  parks : y.state = .parked → x.state = .parked ∨ y.pc.left = false
  aim : y.pc.aim = x.pc.aim ∨ ∃ u k d, x.pc = .spawning u k d ∧ y.pc = .run

variable {x y : KThread} {p : Tpc} {k : Tier} {d : ℕ} {σ₁ : Sched}

theorem Turn.pc {b : Bool} {fs : List Vec} (hleft : p.left = x.pc.left)
    (haim : p.aim = x.pc.aim) : Turn x { x with saved := b, frames := fs, pc := p } :=
  ⟨rfl,rfl,rfl,.inl ⟨rfl,hleft⟩,.inl,.inl,.inl haim⟩

/-- A thread that yields. -/
theorem Turn.yield (howner : x.ownerCPU = c) (hleft : p.left = x.pc.left)
    (haim : p.aim = x.pc.aim) :
    Turn x { x with state := .runnable, ownerCPU := c, pc := .toSwitch p } :=
  ⟨rfl,rfl,howner.symm,.inl ⟨rfl,hleft⟩,nofun,nofun,.inl haim⟩

theorem Turn.trans_frames {fs : List Vec}
    (h : Turn { x with frames := fs, pc := p } y) (hleft : p.left = x.pc.left)
    (haim : p.aim = x.pc.aim) (hpub : p.published = x.pc.published)
    (hp : ∀ u k d, p ≠ .spawning u k d) : Turn x y where
  used := h.used
  entry := h.entry
  owner := h.owner
  host := h.host.imp (fun hh => ⟨hh.1,hh.2.trans hleft⟩) fun hh => ⟨hh.1,hh.2.1,hpub.symm.trans hh.2.2⟩
  exits := h.exits
  parks := h.parks
  aim := by
    obtain hsame | ⟨u,k,d,hpc,-⟩ := h.aim
    · exact .inl (hsame.trans haim)
    · exact absurd hpc (hp u k d)

theorem Passes.spawn {q : Tpc} (h : Passes c t x q p) : p.left = q.left ∧ p.aim = q.aim := by
  cases h with
  | hop h => cases h <;> exact ⟨rfl,rfl⟩
  | exits hp hq => obtain rfl | rfl := hp <;> obtain rfl | rfl := hq <;> exact ⟨rfl,rfl⟩
  | _ => exact ⟨rfl,rfl⟩

theorem Own.turn {z : CPU} (ho : Own σ c t σ' x z)
    (hservice : (σ.th t).entry = .service → (σ.th t).hosted = none) : Turn (σ.th t) x := by
  obtain ⟨hused,hstate,howner,-,hentry⟩ := ho.keeps
  obtain ⟨hp,hhost⟩ | ⟨hp,heq,hhost⟩ := ho.pc
  · exact ⟨hused,hentry,howner,.inl ⟨hhost,hp.spawn.1⟩,fun h => .inl (hstate ▸ h),
      fun h => .inl (hstate ▸ h),.inl hp.spawn.2⟩
  · have hold : (σ.th t).pc.published = false ∧ (σ.th t).pc.aim = none := by
      revert hp
      generalize (σ.th t).pc = q
      rintro (_ | _ | rfl | rfl) <;> exact ⟨rfl,rfl⟩
    have hnone : x.hosted = none := by
      obtain ⟨hsvc,hsame⟩ | hnone := hhost
      · exact hsame.trans (hservice hsvc)
      · exact hnone
    refine ⟨hused,hentry,howner,.inr ⟨hnone,?_,hold.1⟩,fun h => .inl (hstate ▸ h),
      fun h => .inl (hstate ▸ h),.inl ?_⟩
    · rw [heq]
      rfl
    · rw [heq,hold.2]
      rfl

theorem kschedPush_of_ne {u v : Tid} (hv : v ≠ u) : (σ.kschedPush k u d).th v = σ.th v :=
  update_of_ne hv ..

theorem kschedWake_of_ne {u v : Tid} (hv : v ≠ u) : (σ.kschedWake u).th v = σ.th v := by
  rw [kschedWake]
  split
  · exact kschedPush_of_ne hv
  · rfl

/-- The running thread keeps its process until it gives it up for good. -/
theorem Does.turn (h : Does m σ c a σ' obs) (hplaced : Placed m σ)
    (hctx : (σ.cpu c).ctx = .thread t l)
    (hservice : (σ.th t).entry = .service → (σ.th t).hosted = none) :
    Turn (σ.th t) (σ'.th t) ∨ ∃ u k d σ₁, Spawns m σ u k d σ₁ ∧ k = .ring3 ∧
      d = ring3Target m σ ∧ (σ.th t).pc = .run ∧ u ≠ t ∧ σ' = σ₁.setPc t (.spawning u k d) := by
  have hself {x : KThread} (hx : Turn (σ.th t) x) : Turn (σ.th t) (update σ.th t x t) := by
    rwa [update_self]
  obtain ⟨hused,-,howner⟩ := hplaced.exec c t (.intro hctx)
  have hc : c < m.numCoresOnline := howner ▸ hplaced.small t
  cases h.of_thread hctx with
  | alone h =>
    obtain ⟨x,y,ho⟩ := h.own
    rw [ho.self]
    exact .inl (ho.turn hservice)
  | park hpc =>
    refine .inl (hself ?_)
    obtain hpc | ⟨o,hpc⟩ := hpc
    all_goals
      exact ⟨rfl,rfl,rfl,.inl ⟨rfl,by rw [hpc]; rfl⟩,nofun,fun _ => .inr rfl,.inl (by rw [hpc]; rfl)⟩
  | take hpc =>
    refine .inl (hself ?_)
    obtain hpc | ⟨o,hpc⟩ := hpc <;> exact .pc (by rw [hpc]; rfl) (by rw [hpc]; rfl)
  | wake hpc =>
    rw [setPc_self,kschedWake_of_ne (hplaced.first_waking hctx hpc).1.symm]
    exact .inl (.pc (by rw [hpc]; rfl) (by rw [hpc]; rfl))
  | @push u k d hpc =>
    rw [setPc_self,kschedPush_of_ne (hplaced.made_in_hand hctx hpc).1.symm]
    exact .inl ⟨rfl,rfl,rfl,.inl ⟨rfl,by rw [hpc]; rfl⟩,.inl,.inl,.inr ⟨u,k,d,hpc,rfl⟩⟩
  | @made u k d σ₁ hpc hspawn hk =>
    refine .inr ⟨u,k,d,σ₁,hspawn,hk.1,hk.2,hpc,?_,rfl⟩
    rintro rfl
    rw [hspawn.free] at hused
    cases hused
  | yield hpc =>
    rw [kschedYield_th hc,update_self]
    exact .inl (.yield howner (by rw [hpc]; rfl) (by rw [hpc]; rfl))
  | preempt =>
    have hth : (σ.enter c t .preempt (.irq (σ.th t).pc)).th t =
        { σ.th t with frames := .preempt::(σ.th t).frames, pc := .irq (σ.th t).pc } :=
      update_self ..
    left
    rw [kschedYield_th hc,update_self,hth]
    exact .trans_frames (.yield howner rfl rfl) rfl rfl rfl (by nofun)
  | switch hpc | last hpc =>
    refine .inl (hself ?_)
    exact .pc (by rw [hpc]; rfl) (by rw [hpc]; rfl)
  | ending hpc =>
    rw [kschedExit_own]
    refine .inl (hself ?_)
    exact ⟨rfl,rfl,rfl,.inl ⟨rfl,by rw [hpc]; rfl⟩,fun _ => .inr rfl,nofun,.inl (by rw [hpc]; rfl)⟩

/-! ## The other threads -/

/-- CPU `c` has thread `u` in hand, popped or newly built, and is to give it to CPU `d`. -/
def Rehomes (σ : Sched) (c : ℕ) (u : Tid) (d : ℕ) : Prop :=
  d = c ∧ (∃ l, (σ.cpu c).ctx = .boot (.popped u l)) ∨
    (∃ k, (σ.cpu c).ctx = .boot (.spawning u k d)) ∨
    ∃ t l k, (σ.cpu c).ctx = .thread t l ∧ (σ.th t).pc = .spawning u k d

/-- A move of CPU `c` neither parks a thread it does not execute nor marks it as exiting,
frees it only if it is, and gives it to another CPU only from its hands. -/
structure Spared (σ : Sched) (c : ℕ) (u : Tid) (y : KThread) : Prop where
  state : y.state = (σ.th u).state ∨ y.state = .runnable ∨ y.state = .running
  used : (σ.th u).used = true → y.used = true ∨ (σ.th u).state = .exiting
  owner : (σ.th u).used = true → y.ownerCPU = (σ.th u).ownerCPU ∨ Rehomes σ c u y.ownerCPU
  saved : (σ.th u).used = true → y.saved = true → (σ.th u).saved = true

section Spared

variable {u v : Tid}

theorem Spared.of_eq (h : y = σ.th u) : Spared σ c u y := by
  subst h
  exact ⟨.inl rfl,.inl,fun _ => .inl rfl,fun _ => id⟩

theorem Spared.state_eq (h : Spared σ c u y)
    (hy : y.state = .exiting ∨ y.state = .parked) : (σ.th u).state = y.state := by
  obtain hsame | hrunnable | hrunning := h.state
  · exact hsame.symm
  · rw [hrunnable] at hy
    obtain hy | hy := hy <;> cases hy
  · rw [hrunning] at hy
    obtain hy | hy := hy <;> cases hy

theorem Spared.push (hd : d < m.numCoresOnline)
    (howner : v = u → d = (σ.th u).ownerCPU ∨ Rehomes σ c u d) :
    Spared σ c u ((σ.kschedPush k v d).th u) := by
  by_cases hv : v = u
  · subst hv
    have hth : (σ.kschedPush k v d).th v = { σ.th v with state := .runnable, ownerCPU := d } := by
      rw [kschedPush_eq hd]
      exact update_self ..
    rw [hth]
    exact ⟨.inr (.inl rfl),.inl,fun _ => howner rfl,fun _ => id⟩
  · exact .of_eq (kschedPush_of_ne (Ne.symm hv))

theorem Spared.wake (h : Placed m σ) : Spared σ c u ((σ.kschedWake v).th u) := by
  rw [kschedWake]
  split
  · exact .push (h.small v) fun hv => .inl (by rw [hv])
  · exact .of_eq rfl

theorem Spared.free (hv : (σ.th v).state = .exiting) :
    Spared σ c u ((σ.kthreadPoolFree v).th u) := by
  by_cases hu : u = v
  · subst hu
    rw [kthreadPoolFree]
    by_cases hused : (σ.th u).used = true
    · rw [if_pos hused]
      show Spared σ c u (update σ.th u _ u)
      rw [update_self]
      exact ⟨.inl rfl,fun _ => .inr hv,fun _ => .inl rfl,fun _ => id⟩
    · rw [if_neg hused]
      exact .of_eq rfl
  · exact .of_eq (kthreadPoolFree_of_ne hu)

theorem Spawns.spared (h : Spawns m σ v k d σ₁) : Spared σ c u (σ₁.th u) := by
  by_cases hu : u = v
  · subst hu
    have hfree (hused : (σ.th u).used = true) : False := by
      rw [h.free] at hused
      cases hused
    refine ⟨.inr (.inl ?_),fun hused => (hfree hused).elim,fun hused => (hfree hused).elim,
      fun hused => (hfree hused).elim⟩
    obtain ⟨x,hb⟩ := h.built
    rw [hb.th,update_self]
    exact hb.state
  · exact .of_eq (h.th_of_ne hu)

theorem Does.spared (h : Does m σ c a σ' obs) (hs : Sound m σ)
    (hne : ∀ l, (σ.cpu c).ctx ≠ .thread u l) : Spared σ c u (σ'.th u) := by
  cases h with
  | boot hctx h =>
    cases h with
    | reap hstate => exact .free hstate
    | @dispatch t l =>
      show Spared σ c u (update σ.th t _ u)
      by_cases hu : u = t
      · subst hu
        rw [update_self]
        exact ⟨.inr (.inr rfl),.inl,fun _ => .inr (.inl ⟨rfl,l,hctx⟩),nofun⟩
      · rw [update_of_ne hu]
        exact .of_eq rfl
    | @back t l =>
      obtain ⟨-,hstate,heq⟩ | ⟨-,heq⟩ := returnStep_cases σ c t l
      · rw [heq]
        exact .free hstate
      · rw [heq]
        exact .of_eq rfl
    | made _ hspawn => exact hspawn.spared
    | @push v k d =>
      have hd := ((hs.homed.housed c).aims d (by rw [hctx]; exact List.mem_cons_self)).2
      have hpush : Spared σ c u ((σ.kschedPush k v d).th u) :=
        .push hd fun hv => .inr (.inr (.inl ⟨k,hv ▸ hctx⟩))
      exact hpush
    | _ => exact .of_eq rfl
  | @thread t l hctx h =>
    have hut : u ≠ t := fun hut => hne l (hut ▸ hctx)
    cases h with
    | alone h =>
      obtain ⟨x,y,ho⟩ := h.own
      rw [ho.th]
      exact .of_eq (update_of_ne hut ..)
    | wake =>
      rw [setPc_of_ne hut]
      exact .wake hs.placed
    | @push v k d hpc =>
      have hd : d < m.numCoresOnline :=
        hs.homed.targets t d (by rw [hpc]; exact List.mem_cons_self)
      rw [setPc_of_ne hut]
      exact .push hd fun hv => .inr (.inr (.inr ⟨t,l,k,hctx,hv ▸ hpc⟩))
    | made _ hspawn =>
      rw [setPc_of_ne hut]
      exact hspawn.spared
    | yield =>
      rw [kschedYield,setPc_of_ne hut]
      exact .of_eq (kschedPush_of_ne hut)
    | preempt =>
      have hold : (σ.enter c t .preempt (.irq (σ.th t).pc)).th u = σ.th u := update_of_ne hut ..
      rw [kschedYield,setPc_of_ne hut]
      exact .of_eq ((kschedPush_of_ne hut).trans hold)
    | ending =>
      rw [kschedExit_own]
      exact .of_eq (update_of_ne hut ..)
    | _ => exact .of_eq (update_of_ne hut ..)

end Spared

/-! ## Every thread -/

theorem Hosts.turn (h : Hosts x) (hused : x.used = true) (hturn : Turn x y) : Hosts y := by
  obtain ⟨hhost,hleft⟩ | ⟨hhost,hleft,-⟩ := hturn.host
  · constructor
    · rw [hturn.entry,hhost]
      exact fun _ => h.service hused
    · rw [hleft,hhost]
      exact fun _ => h.left hused
    · rw [hturn.entry,hhost,hleft]
      exact fun _ => h.ring3 hused
    · rw [hleft]
      intro _ hexit
      obtain hold | hnew := hturn.exits hexit
      · exact h.exits hused hold
      · rwa [hleft] at hnew
    · rw [hturn.used,hused]
      nofun
  · exact ⟨fun _ _ => hhost,fun _ _ => hhost,fun _ _ _ => hleft,fun _ _ => hleft,
      fun _ => ⟨hhost,hleft⟩⟩

theorem Hosts.spared {u : Tid} (h : Hosts (σ.th u)) (hu : Untouched (σ.th u) y)
    (hs : Spared σ c u y) : Hosts y := by
  constructor
  · rw [hu.entry,hu.hosted]
    exact fun hused => h.service (hu.used hused)
  · rw [hu.pc,hu.hosted]
    exact fun hused => h.left (hu.used hused)
  · rw [hu.entry,hu.hosted,hu.pc]
    exact fun hused => h.ring3 (hu.used hused)
  · rw [hu.pc]
    exact fun hused hexit => h.exits (hu.used hused) ((hs.state_eq (.inl hexit)).trans hexit)
  · intro hfree
    rw [hu.hosted,hu.pc]
    cases hx : (σ.th u).used with
    | false => exact h.free hx
    | true =>
      -- the slot has been freed by this move
      obtain hy | hexit := hs.used hx
      · rw [hfree] at hy
        cases hy
      · have hleft := h.exits hx hexit
        exact ⟨h.left hx hleft,hleft⟩

/-- The process a new thread hosts. -/
theorem Spawns.hosted {u : Tid} (h : Spawns m σ u k d σ₁) (hnone : (σ.th u).hosted = none) :
    ((σ₁.th u).entry = .service ∧ (σ₁.th u).hosted = none ∧ k = .service ∧ d = 0 ∧
      σ₁.nextProc = σ.nextProc ∧ σ₁.shellSpawned = σ.shellSpawned) ∨
    ((σ₁.th u).entry = .ring3WrapperKT ∧ (σ₁.th u).hosted = some shellProc ∧ k = .ring3 ∧ d = 0 ∧
      σ₁.nextProc = σ.nextProc ∧ σ.shellSpawned = false ∧ σ₁.shellSpawned = true) ∨
    ((σ₁.th u).entry = .ring3WrapperKT ∧ (σ₁.th u).hosted = some σ.nextProc ∧ k = .ring3 ∧
      d = ring3Target m σ ∧ σ₁.nextProc = σ.nextProc+1 ∧ σ₁.shellSpawned = σ.shellSpawned) := by
  have hself {x : KThread} : update σ.th u x u = x := update_self ..
  obtain hfree | ⟨hfree,hfirst⟩ | hfree := h
  · exact .inl ⟨congrArg _ hself,(congrArg _ hself).trans hnone,rfl,rfl,rfl,rfl⟩
  · exact .inr (.inl ⟨congrArg _ hself,congrArg _ hself,rfl,rfl,rfl,hfirst,rfl⟩)
  · exact .inr (.inr ⟨congrArg _ hself,congrArg _ hself,rfl,rfl,rfl,rfl⟩)

theorem Entry.start_left (e : Entry) : e.start.left = false := by
  cases e <;> rfl

theorem Entry.start_aim (e : Entry) : e.start.aim = none := by
  cases e <;> rfl

theorem Spawns.hosts {u : Tid} (h : Spawns m σ u k d σ₁)
    (hnone : (σ.th u).hosted = none) : Hosts (σ₁.th u) := by
  obtain ⟨x,hb⟩ := h.built
  have hx : σ₁.th u = x := by rw [hb.th,update_self]
  have hhost := h.hosted hnone
  rw [hx] at hhost ⊢
  have hleft : x.pc.left = false := by
    rw [hb.pc]
    exact x.entry.start_left
  constructor
  · intro _ hentry
    obtain ⟨-,hhost,-⟩ | ⟨hring3,-⟩ | ⟨hring3,-⟩ := hhost
    · exact hhost
    · rw [hring3] at hentry
      cases hentry
    · rw [hring3] at hentry
      cases hentry
  · rw [hleft]
    nofun
  · intro _ hentry hnone
    obtain ⟨hservice,-⟩ | ⟨-,hhost,-⟩ | ⟨-,hhost,-⟩ := hhost
    · rw [hservice] at hentry
      cases hentry
    · rw [hhost] at hnone
      cases hnone
    · rw [hhost] at hnone
      cases hnone
  · rw [hb.state]
    nofun
  · rw [hb.used]
    nofun

/-! ## The invariant -/

/-- A queue the thread may be pushed to: of its own tier, and on the BSP if it belongs
there. With an AP online, the other threads are kept off the BSP. -/
structure Routed (m : Machine) (x : KThread) (k : Tier) (d : ℕ) : Prop where
  tier : k = x.entry.tier
  home : x.pinned → d = 0
  away : 1 < m.numCoresOnline → ¬x.pinned → d ≠ 0
  live : x.pc.left = false

structure Hosting (m : Machine) (σ : Sched) : Prop where
  hosts : ∀ t, Hosts (σ.th t)
  one : ∀ t u p, (σ.th t).hosted = some p → (σ.th u).hosted = some p → t = u
  known : ∀ t p, (σ.th t).hosted = some p →
    p < σ.nextProc ∧ (p = shellProc → σ.shellSpawned = true)
  pos : 0 < σ.nextProc
  pinned : ∀ t, (σ.th t).used = true → (σ.th t).pinned → (σ.th t).ownerCPU = 0
  aims : ∀ u v k d, (σ.th u).pc.aim = some (v,k,d) → Routed m (σ.th v) k d
  boots : ∀ c v k d, (σ.cpu c).ctx = .boot (.spawning v k d) → Routed m (σ.th v) k d

theorem hosting_boot (m : Machine) : Hosting m boot where
  hosts := fun _ => ⟨nofun,nofun,nofun,nofun,fun _ => ⟨rfl,rfl⟩⟩
  one := nofun
  known := nofun
  pos := Nat.one_pos
  pinned := nofun
  aims := nofun
  boots := nofun

theorem Routed.of_eq (h : Routed m x k d)
    (hentry : y.entry = x.entry) (hhosted : y.hosted = x.hosted) (hpc : y.pc = x.pc) :
    Routed m y k d := by
  have hpin : y.pinned = x.pinned := by rw [KThread.pinned,KThread.pinned,hentry,hhosted]
  constructor
  · rw [hentry]
    exact h.tier
  · rw [hpin]
    exact h.home
  · rw [hpin]
    exact h.away
  · rw [hpc]
    exact h.live

theorem Spawns.routed {u : Tid} (h : Spawns m σ u k d σ₁)
    (hnone : (σ.th u).hosted = none) (hpos : 0 < σ.nextProc) : Routed m (σ₁.th u) k d := by
  have hlive : (σ₁.th u).pc.left = false := by
    obtain ⟨x,hb⟩ := h.built
    rw [hb.th,update_self,hb.pc]
    exact x.entry.start_left
  obtain ⟨hentry,-,rfl,rfl,-⟩ | ⟨hentry,hhost,rfl,rfl,-⟩ | ⟨hentry,hhost,rfl,rfl,-⟩ := h.hosted hnone
  · exact ⟨by rw [hentry]; rfl,fun _ => rfl,fun _ hpin => absurd (.inl hentry) hpin,hlive⟩
  · exact ⟨by rw [hentry]; rfl,fun _ => rfl,fun _ hpin => absurd (.inr hhost) hpin,hlive⟩
  · refine ⟨by rw [hentry]; rfl,?_,fun hn _ => ?_,hlive⟩
    · rintro (hservice | hshell)
      · rw [hentry] at hservice
        cases hservice
      · rw [hhost] at hshell
        exact absurd (Option.some.inj hshell) hpos.ne'
    · rw [ring3Target,if_pos hn]
      omega

/-- A thread in somebody's hand is executed by nobody. -/
theorem Placed.idle_of_held {p : Place} (h : Placed m σ) (hp : p.held = true)
    (hin : t ∈ members σ p) : (σ.th t).used = true ∧ t ∈ members σ p ∧ ∀ c, ¬Executes σ c t := by
  refine ⟨h.used p t hin,hin,fun c hexec => ?_⟩
  have hsaved := h.held p t hp hin
  rw [(h.exec c t hexec).2.1] at hsaved
  cases hsaved

theorem Placed.idle_of_aim {u v : Tid} (h : Placed m σ) (haim : (σ.th u).pc.aim = some (v,k,d)) :
    (σ.th v).used = true ∧ v ∈ members σ (.made u) ∧ ∀ c, ¬Executes σ c v := by
  refine h.idle_of_held (p := .made u) rfl ?_
  show v ∈ (σ.th u).pc.makes
  rw [makes_eq,haim]
  exact List.mem_cons_self

theorem Placed.idle_of_boot {v : Tid} {d e : ℕ} (h : Placed m σ)
    (hctx : (σ.cpu e).ctx = .boot (.spawning v k d)) :
    (σ.th v).used = true ∧ v ∈ members σ (.hand e) ∧ ∀ c, ¬Executes σ c v :=
  h.idle_of_held rfl (mem_hand hctx rfl)

/-- What a CPU executes after a move of its own. -/
theorem Does.ctx_of (h : Does m σ c a σ' obs) (hs : Sound m σ) :
    (σ'.cpu c).ctx = (σ.cpu c).ctx ∨ (∃ pc, (σ'.cpu c).ctx = .boot pc ∧ pc.held = []) ∨
    (∃ t l k d, (σ'.cpu c).ctx = .boot (.popped t l) ∧ t ∈ σ.ready k d ∧ (c = 0 → d = 0)) ∨
    (∃ t l, (σ.cpu c).ctx = .boot (.popped t l) ∧ (σ'.cpu c).ctx = .thread t l) ∨
    Builds m σ c σ' := by
  have hsame {x : CPU} (hx : x.ctx = (σ.cpu c).ctx) :
      (update σ.cpu c x c).ctx = (σ.cpu c).ctx := by
    rwa [update_self]
  cases h with
  | boot hctx h =>
    cases h with
    | stay => exact .inl rfl
    | irq | iret => exact .inl (hsame rfl)
    | @pop l t ts hpolls hready =>
      refine .inr (.inr (.inl ⟨t,l,l.tier,c,setCtx_self _,?_,id⟩))
      rw [hready]
      exact List.mem_cons_self
    | @steal i t ts hi hsrc hready =>
      refine .inr (.inr (.inl ⟨t,_,.ring3,(c+i)%m.numCoresOnline,setCtx_self _,?_,fun hc => ?_⟩))
      · rw [hready]
        exact List.mem_cons_self
      · exact absurd hc ((hs.homed.housed c).steals (by rw [hctx]; rfl))
    | look hheld hfrom hheld' => exact .inr (.inl ⟨_,setCtx_self _,hheld'⟩)
    | reap | push => exact .inr (.inl ⟨_,setCtx_self _,rfl⟩)
    | @dispatch t l =>
      refine .inr (.inr (.inr (.inl ⟨t,l,hctx,?_⟩)))
      show (update σ.cpu c _ c).ctx = _
      rw [update_self]
    | @back t l =>
      refine .inr (.inl ⟨.idle,?_,rfl⟩)
      obtain ⟨-,-,heq⟩ | ⟨-,heq⟩ := returnStep_cases σ c t l
      · rw [heq]
        show (update (σ.kthreadPoolFree t).cpu c _ c).ctx = _
        rw [update_self]
      · rw [heq]
        show (update σ.cpu c _ c).ctx = _
        rw [update_self]
    | made hc hspawn => exact .inr (.inr (.inr (.inr (.boot hctx hc hspawn))))
  | thread hctx h =>
    cases h with
    | alone h =>
      obtain ⟨x,y,ho⟩ := h.own
      exact .inl (ho.cpus c).1
    | wake =>
      left
      show ((kschedWake ..).cpu c).ctx = _
      rw [kschedWake_cpu]
    | made hpc hspawn hk => exact .inr (.inr (.inr (.inr (.thread hctx hpc hspawn hk))))
    | preempt => exact .inl (enter_ctx c)
    | switch | last => exact .inr (.inl ⟨_,setCtx_self _,rfl⟩)
    | _ => exact .inl rfl

/-- A bootstrap context gets a new thread only by building it. -/
theorem Does.spawning_of (h : Does m σ c a σ' obs) (hs : Sound m σ) (hb : ¬Builds m σ c σ')
    {u : Tid} (hctx' : (σ'.cpu c).ctx = .boot (.spawning u k d)) :
    (σ.cpu c).ctx = .boot (.spawning u k d) := by
  obtain hsame | ⟨pc,hpc,hheld⟩ | ⟨t,l,j,e,hpop,-⟩ | ⟨t,l,-,hrun⟩ | hbuilds := h.ctx_of hs
  · exact hsame.symm.trans hctx'
  · rw [hpc] at hctx'
    cases hctx'
    cases hheld
  · rw [hpop] at hctx'
    cases hctx'
  · rw [hrun] at hctx'
    cases hctx'
  · exact absurd hbuilds hb

section Step

variable (h : Hosting m σ) (hs : Sound m σ)
include h hs

/-- A move that builds no thread. -/
theorem Hosting.quiet (hdoes : Does m σ c a σ' obs) (hb : ¬Builds m σ c σ') : Hosting m σ' := by
  have hturn {u : Tid} {l : Loop} (hctx : (σ.cpu c).ctx = .thread u l) :
      Turn (σ.th u) (σ'.th u) := by
    obtain hturn | ⟨v,k,d,σ₁,hspawn,hk,hd,hpc,-,rfl⟩ := hdoes.turn hs.placed hctx
      ((h.hosts u).service (hs.placed.exec c u (.intro hctx)).1)
    · exact hturn
    · exact absurd (.thread hctx hpc hspawn ⟨hk,hd⟩) hb
  -- threads keep their entry, and their process until they give it up
  have hkeeps (u : Tid) : (σ'.th u).entry = (σ.th u).entry ∧
      ((σ'.th u).hosted = (σ.th u).hosted ∨ (σ'.th u).hosted = none) ∧
      ((σ'.th u).used = true → (σ.th u).used = true) ∧ Hosts (σ'.th u) := by
    by_cases hrun : Executes σ c u
    · obtain ⟨l,hctx⟩ := hrun
      have hused := (hs.placed.exec c u (.intro hctx)).1
      have ht := hturn hctx
      exact ⟨ht.entry,ht.host.imp And.left And.left,fun _ => hused,(h.hosts u).turn hused ht⟩
    · have hne (l : Loop) : (σ.cpu c).ctx ≠ .thread u l := fun hctx => hrun ⟨l,hctx⟩
      have hu := hdoes.untouched hb hne
      exact ⟨hu.entry,.inl hu.hosted,hu.used,(h.hosts u).spared hu (hdoes.spared hs hne)⟩
  have hsome {u : Tid} {p : ℕ} (hp : (σ'.th u).hosted = some p) : (σ.th u).hosted = some p := by
    obtain hsame | hnone := (hkeeps u).2.1
    · rwa [hsame] at hp
    · rw [hnone] at hp
      cases hp
  have hpin {u : Tid} (hp : (σ'.th u).pinned) : (σ.th u).pinned := by
    refine hp.imp (fun hentry => ?_) hsome
    rwa [(hkeeps u).1] at hentry
  have hrouted {v : Tid} {k : Tier} {d : ℕ} (hr : Routed m (σ.th v) k d)
      (hidle : ∀ c, ¬Executes σ c v) : Routed m (σ'.th v) k d := by
    have hu := hdoes.untouched hb fun l hctx => hidle c ⟨l,hctx⟩
    exact hr.of_eq hu.entry hu.hosted hu.pc
  have hprocs := hdoes.procs hb
  constructor
  · exact fun u => (hkeeps u).2.2.2
  · exact fun t u p ht hu => h.one t u p (hsome ht) (hsome hu)
  · intro t p hp
    rw [hprocs.1,hprocs.2]
    exact h.known t p (hsome hp)
  · rw [hprocs.1]
    exact h.pos
  · intro u hused' hp
    have hused := (hkeeps u).2.2.1 hused'
    have howner := h.pinned u hused (hpin hp)
    by_cases hrun : Executes σ c u
    · obtain ⟨l,hctx⟩ := hrun
      rw [(hturn hctx).owner]
      exact howner
    · have hspared := hdoes.spared hs fun l hctx => hrun ⟨l,hctx⟩
      obtain hsame | ⟨hc,l,hctx⟩ | ⟨k,hctx⟩ | ⟨t,l,k,hctx,hpc⟩ := hspared.owner hused
      · rw [hsame]
        exact howner
      · rw [hc]
        exact (hs.homed.housed c).home u (mem_popped.mpr ⟨l,hctx⟩) howner
      · exact (h.boots c u k _ hctx).home (hpin hp)
      · exact (h.aims t u k _ (by rw [hpc]; rfl)).home (hpin hp)
  · intro u v k d haim'
    have haim : (σ.th u).pc.aim = some (v,k,d) := by
      by_cases hrun : Executes σ c u
      · obtain ⟨l,hctx⟩ := hrun
        obtain hsame | ⟨w,k',d',-,hpc⟩ := (hturn hctx).aim
        · rwa [hsame] at haim'
        · rw [hpc] at haim'
          cases haim'
      · rwa [(hdoes.untouched hb fun l hctx => hrun ⟨l,hctx⟩).pc] at haim'
    exact hrouted (h.aims u v k d haim) (hs.placed.idle_of_aim haim).2.2
  · intro e v k d hctx'
    have hctx : (σ.cpu e).ctx = .boot (.spawning v k d) := by
      by_cases he : e = c
      · subst he
        exact hdoes.spawning_of hs hb hctx'
      · obtain ⟨x,hx,-⟩ := hdoes.cpu
        rwa [hx,update_of_ne he] at hctx'
    exact hrouted (h.boots e v k d hctx) (hs.placed.idle_of_boot hctx).2.2

/-- A new thread in the free slot `u`; the others keep what they have. -/
theorem Hosting.built {u : Tid} (hspawn : Spawns m σ u k d σ₁) (hu : σ'.th u = σ₁.th u)
    (hprocs : σ'.nextProc = σ₁.nextProc ∧ σ'.shellSpawned = σ₁.shellSpawned)
    (hold : ∀ v, v ≠ u → (σ'.th v).entry = (σ.th v).entry ∧ (σ'.th v).hosted = (σ.th v).hosted ∧
      (σ'.th v).used = (σ.th v).used ∧ (σ'.th v).ownerCPU = (σ.th v).ownerCPU ∧ Hosts (σ'.th v))
    (hidle : ∀ v, v ≠ u → ¬Executes σ c v → (σ'.th v).pc = (σ.th v).pc)
    (haims : ∀ w v j e, (σ'.th w).pc.aim = some (v,j,e) →
      (σ.th w).pc.aim = some (v,j,e) ∨ v = u ∧ j = k ∧ e = d)
    (hboots : ∀ b v j e, (σ'.cpu b).ctx = .boot (.spawning v j e) →
      (σ.cpu b).ctx = .boot (.spawning v j e) ∨ v = u ∧ j = k ∧ e = d) : Hosting m σ' := by
  have hnone := ((h.hosts u).free hspawn.free).1
  have hnew := hspawn.hosted hnone
  have hused (v : Tid) (hv : (σ.th v).used = true) : v ≠ u := by
    rintro rfl
    rw [hspawn.free] at hv
    cases hv
  have hrouted {v : Tid} {j : Tier} {e : ℕ} (hr : Routed m (σ.th v) j e)
      (hv : (σ.th v).used = true) (hno : ∀ c, ¬Executes σ c v) : Routed m (σ'.th v) j e :=
    hr.of_eq (hold v (hused v hv)).1 (hold v (hused v hv)).2.1 (hidle v (hused v hv) (hno c))
  have hnewRouted : Routed m (σ'.th u) k d := by
    rw [hu]
    exact hspawn.routed hnone h.pos
  -- the process of the new thread is hosted by no other
  have hfresh {v : Tid} {p : ℕ} (hv : v ≠ u) (hp : (σ'.th v).hosted = some p) :
      (σ'.th u).hosted ≠ some p := by
    rw [(hold v hv).2.1] at hp
    obtain ⟨hlt,hshell⟩ := h.known v p hp
    rw [hu]
    obtain ⟨-,hhost,-⟩ | ⟨-,hhost,-,-,-,hfirst,-⟩ | ⟨-,hhost,-⟩ := hnew
    · rw [hhost]
      nofun
    · rw [hhost]
      intro heq
      have := hshell (Option.some.inj heq).symm
      rw [hfirst] at this
      cases this
    · rw [hhost]
      intro heq
      exact absurd (Option.some.inj heq) hlt.ne'
  have hmono : σ.nextProc ≤ σ'.nextProc ∧ (σ.shellSpawned = true → σ'.shellSpawned = true) := by
    rw [hprocs.1,hprocs.2]
    obtain ⟨-,-,-,-,hn,hb⟩ | ⟨-,-,-,-,hn,-,hb⟩ | ⟨-,-,-,-,hn,hb⟩ := hnew
    · exact ⟨hn.ge,fun hshell => hb.trans hshell⟩
    · exact ⟨hn.ge,fun _ => hb⟩
    · exact ⟨by omega,fun hshell => hb.trans hshell⟩
  constructor
  · intro v
    by_cases hv : v = u
    · subst hv
      rw [hu]
      exact hspawn.hosts hnone
    · exact (hold v hv).2.2.2.2
  · intro v w p hv hw
    by_cases hvu : v = u
    · by_cases hwu : w = u
      · rw [hvu,hwu]
      · exact absurd (hvu ▸ hv) (hfresh hwu hw)
    · by_cases hwu : w = u
      · exact absurd (hwu ▸ hw) (hfresh hvu hv)
      · rw [(hold v hvu).2.1] at hv
        rw [(hold w hwu).2.1] at hw
        exact h.one v w p hv hw
  · intro v p hp
    by_cases hv : v = u
    · subst hv
      rw [hu] at hp
      rw [hprocs.1,hprocs.2]
      obtain ⟨-,hhost,-⟩ | ⟨-,hhost,-,-,hn,-,hb⟩ | ⟨-,hhost,-,-,hn,hb⟩ := hnew
      · rw [hhost] at hp
        cases hp
      · rw [hhost] at hp
        cases hp
        exact ⟨hn ▸ h.pos,fun _ => hb⟩
      · rw [hhost] at hp
        cases hp
        exact ⟨by omega,fun heq => absurd heq h.pos.ne'⟩
    · rw [(hold v hv).2.1] at hp
      obtain ⟨hlt,hshell⟩ := h.known v p hp
      exact ⟨hlt.trans_le hmono.1,fun heq => hmono.2 (hshell heq)⟩
  · exact h.pos.trans_le hmono.1
  · intro v hv hpin
    by_cases hvu : v = u
    · subst hvu
      obtain ⟨x,hb⟩ := hspawn.built
      rw [hu,hb.th,update_self]
      exact hb.owner
    · obtain ⟨hentry,hhost,hused',howner,-⟩ := hold v hvu
      rw [howner]
      rw [KThread.pinned,hentry,hhost] at hpin
      exact h.pinned v (hused' ▸ hv) hpin
  · intro w v j e haim
    obtain haim | ⟨rfl,rfl,rfl⟩ := haims w v j e haim
    · obtain ⟨hv,-,hno⟩ := hs.placed.idle_of_aim haim
      exact hrouted (h.aims w v j e haim) hv hno
    · exact hnewRouted
  · intro b v j e hctx
    obtain hctx | ⟨rfl,rfl,rfl⟩ := hboots b v j e hctx
    · obtain ⟨hv,-,hno⟩ := hs.placed.idle_of_boot hctx
      exact hrouted (h.boots b v j e hctx) hv hno
    · exact hnewRouted

theorem Hosting.builds (hb : Builds m σ c σ') : Hosting m σ' := by
  -- the new thread spawns nothing itself
  have hstart {u : Tid} {k : Tier} {d : ℕ} {σ₁ : Sched} (hspawn : Spawns m σ u k d σ₁) :
      (σ₁.th u).pc.aim = none := by
    obtain ⟨x,hx⟩ := hspawn.built
    rw [hx.th,update_self,hx.pc]
    exact x.entry.start_aim
  cases hb with
  | @boot u k d σ₁ hctx hc hspawn =>
    refine h.built (c := c) hs hspawn rfl ⟨rfl,rfl⟩ (fun v hv => ?_) (fun v hv _ => ?_)
      (fun w v j e haim => ?_) (fun b v j e hctx' => ?_)
    · have hth : (σ₁.setCtx c (.boot (.spawning u k d))).th v = σ.th v := hspawn.th_of_ne hv
      rw [hth]
      exact ⟨rfl,rfl,rfl,rfl,h.hosts v⟩
    · show (σ₁.th v).pc = _
      rw [hspawn.th_of_ne hv]
    · change (σ₁.th w).pc.aim = some (v,j,e) at haim
      by_cases hw : w = u
      · subst hw
        rw [hstart hspawn] at haim
        cases haim
      · rw [hspawn.th_of_ne hw] at haim
        exact .inl haim
    · by_cases hbc : b = c
      · subst hbc
        rw [setCtx_self] at hctx'
        cases hctx'
        exact .inr ⟨rfl,rfl,rfl⟩
      · rw [setCtx_of_ne hbc,hspawn.cpu_eq] at hctx'
        exact .inl hctx'
  | @thread t l u k d σ₁ hctx hpc hspawn hk =>
    have hused := (hs.placed.exec c t (.intro hctx)).1
    have htu : t ≠ u := by
      rintro rfl
      rw [hspawn.free] at hused
      cases hused
    have hself : (σ₁.setPc t (.spawning u k d)).th t = { σ.th t with pc := .spawning u k d } := by
      rw [setPc_self,hspawn.th_of_ne htu]
    refine h.built (c := c) hs hspawn (setPc_of_ne htu.symm) ⟨rfl,rfl⟩ (fun v hv => ?_)
      (fun v hv hno => ?_) (fun w v j e haim => ?_) (fun b v j e hctx' => ?_)
    · by_cases hvt : v = t
      · subst hvt
        rw [hself]
        refine ⟨rfl,rfl,rfl,rfl,(h.hosts v).service,nofun,?_,?_,?_⟩
        · intro _ hentry hnone
          have hleft := (h.hosts v).ring3 hused hentry hnone
          rw [hpc] at hleft
          cases hleft
        · intro _ hexit
          have hleft := (h.hosts v).exits hused hexit
          rw [hpc] at hleft
          cases hleft
        · intro hfree
          rw [hused] at hfree
          cases hfree
      · rw [setPc_of_ne hvt,hspawn.th_of_ne hv]
        exact ⟨rfl,rfl,rfl,rfl,h.hosts v⟩
    · have hvt : v ≠ t := fun hvt => hno ⟨l,hvt ▸ hctx⟩
      rw [setPc_of_ne hvt,hspawn.th_of_ne hv]
    · by_cases hwt : w = t
      · subst hwt
        rw [hself] at haim
        cases haim
        exact .inr ⟨rfl,rfl,rfl⟩
      · rw [setPc_of_ne hwt] at haim
        by_cases hw : w = u
        · subst hw
          rw [hstart hspawn] at haim
          cases haim
        · rw [hspawn.th_of_ne hw] at haim
          exact .inl haim
    · change (σ₁.cpu b).ctx = .boot (.spawning v j e) at hctx'
      rw [hspawn.cpu_eq] at hctx'
      exact .inl hctx'

/-- Every orderly step keeps the invariant. -/
theorem Hosting.step (e : ℕ × Act) (hord : orderly m σ e = true) : Hosting m (σ.step m e).1 := by
  obtain heq | ⟨-,hdoes⟩ := hs.does e hord
  · rw [heq]
    exact h
  · by_cases hb : Builds m σ e.1 (σ.step m e).1
    · exact h.builds hs hb
    · exact h.quiet hs hdoes hb

end Step

/-- In an orderly run no process is executed by two CPUs, nor by two threads. -/
theorem process_on_one_cpu (m : Machine) (es : List (ℕ × Act))
    (hrun : Meets (Sched.step m) (fun σ e => orderly m σ e = true) boot es) :
    let σ := exec (Sched.step m) boot es
    ∀ c d t u p, Executes σ c t → Executes σ d u → (σ.th t).hosted = some p →
      (σ.th u).hosted = some p → c = d ∧ t = u := by
  intro σ c d t u p hc hd ht hu
  obtain ⟨hs,hh⟩ : Sound m σ ∧ Hosting m σ := hrun.inv (I := fun σ => Sound m σ ∧ Hosting m σ)
    (fun σ e h hord => ⟨h.1.step e hord,h.2.step h.1 e hord⟩) ⟨sound_boot m,hosting_boot m⟩
  obtain rfl := hh.one t u p ht hu
  -- both CPUs are the thread's owner
  exact ⟨(hs.placed.exec c t hc).2.2.symm.trans (hs.placed.exec d t hd).2.2,rfl⟩

theorem process_on_one_cpu_child :
    let σ := exec (Sched.step threeCores) boot childOnAp
    (σ.th 1).hosted = some 1 ∧ ∀ d u, Executes σ d u → (σ.th u).hosted = some 1 → 1 = d ∧ 1 = u :=
  ⟨by decide +kernel,fun d u hd => process_on_one_cpu threeCores childOnAp (by decide +kernel)
    1 d 1 u 1 ⟨.kschedLoopRing3Only,by decide +kernel⟩ hd (by decide +kernel)⟩

end Gooos.Ksched
