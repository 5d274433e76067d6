import Mathlib
import Gooos.Sched.Handover

/-!
# What each CPU's dispatcher may have in hand

The loops of the BSP and of the APs, the threads a dispatcher may hold, and where spawns
in progress are aimed. A thread the BSP has just left stays with the BSP, so that its
slot can be freed if it is exiting.
-/

namespace Gooos.Ksched

open Sched Places Function
open List (mem_singleton)

/-- The CPU a spawn in progress is aimed at. -/
def Tpc.targets : Tpc → List ℕ
  | .spawning _ _ d => [d]
  | .toSwitch p => p.targets
  | .resuming p => p.targets
  | .irq p => p.targets
  | .knows _ _ p => p.targets
  | _ => []

/-- The loop a CPU is in, while a thread is involved. -/
def Ctx.loop : Ctx → Option Loop
  | .boot (.popped _ l) => some l
  | .boot (.returned _ l) => some l
  | .thread _ l => some l
  | _ => none

/-- The thread a reclaiming loop is about to look at. -/
def Ctx.looksAt : Ctx → List Tid
  | .boot (.returned t l) => if l.reclaims then [t] else []
  | _ => []

/-- The thread a dispatcher has popped. -/
def Ctx.popped : Ctx → List Tid
  | .boot (.popped t _) => [t]
  | _ => []

/-- The CPU a bootstrap context is about to push a new thread to. -/
def Ctx.aims : Ctx → List ℕ
  | .boot (.spawning _ _ d) => [d]
  | _ => []

def Ctx.steals : Ctx → Bool
  | .boot (.stealing _) => true
  | _ => false

structure Housed (m : Machine) (σ : Sched) (c : ℕ) : Prop where
  aims : ∀ d ∈ (σ.cpu c).ctx.aims, c = 0 ∧ d < m.numCoresOnline
  loop : ∀ l ∈ (σ.cpu c).ctx.loop, l = .kschedLoopRing3Only ↔ c ≠ 0
  steals : (σ.cpu c).ctx.steals = true → c ≠ 0
  home : ∀ t ∈ (σ.cpu c).ctx.popped, (σ.th t).ownerCPU = 0 → c = 0
  back : ∀ t ∈ (σ.cpu c).ctx.looksAt, (σ.th t).used = true ∧ (σ.th t).saved = true ∧
    (σ.th t).ownerCPU = 0 ∧ ∀ u, t ∉ (σ.th u).pc.makes

structure Homed (m : Machine) (σ : Sched) : Prop where
  targets : ∀ t, ∀ d ∈ (σ.th t).pc.targets, d < m.numCoresOnline
  housed : ∀ c, Housed m σ c

variable {m : Machine} {σ σ' : Sched} {c : ℕ} {t : Tid} {l : Loop}

theorem reclaims_of_looksAt {x : Ctx} (h : t ∈ x.looksAt) :
    ∃ l, x = .boot (.returned t l) ∧ l.reclaims = true := by
  unfold Ctx.looksAt at h
  split at h
  · rename_i u l
    split at h
    · rename_i hl
      rw [mem_singleton] at h
      exact ⟨l,by rw [h],hl⟩
    · cases h
  · cases h

theorem mem_popped {x : Ctx} : t ∈ x.popped ↔ ∃ l, x = .boot (.popped t l) := by
  unfold Ctx.popped
  split
  · rename_i u l
    simp only [mem_singleton]
    constructor
    · rintro rfl
      exact ⟨l,rfl⟩
    · rintro ⟨l',he⟩
      cases he
      rfl
  · rename_i hne
    simp only [List.not_mem_nil,false_iff]
    rintro ⟨l,he⟩
    exact hne t l he

/-- Only the BSP runs a loop that reclaims. -/
theorem Housed.bsp (h : Housed m σ c) (ht : t ∈ (σ.cpu c).ctx.looksAt) : c = 0 := by
  obtain ⟨l,hctx,hl⟩ := reclaims_of_looksAt ht
  by_contra hc
  have hloop := (h.loop l (by rw [hctx]; rfl)).mpr hc
  rw [hloop] at hl
  cases hl

/-- A thread in hand is in nobody's list of built threads. -/
theorem Placed.popped_not_made (h : Placed m σ) (ht : t ∈ (σ.cpu c).ctx.popped) (u : Tid) :
    t ∈ members σ (.hand c) ∧ t ∉ (σ.th u).pc.makes := by
  obtain ⟨l,hctx⟩ := mem_popped.mp ht
  have hin : t ∈ members σ (.hand c) := mem_hand hctx rfl
  exact ⟨hin,fun hm => nomatch h.apart.one (.hand c) (.made u) t hin hm⟩

/-- What a step of CPU `c` may make of thread `u`, with the other dispatchers relying on
the threads they have in hand. -/
structure Relied (m : Machine) (σ : Sched) (c : ℕ) (u : Tid) (x : KThread) : Prop where
  targets : ∀ d ∈ x.pc.targets, d ∈ (σ.th u).pc.targets ∨ d < m.numCoresOnline
  makes : ∀ v ∈ x.pc.makes, v ∈ (σ.th u).pc.makes ∨ (σ.th v).used = false
  kept : ∀ d, d ≠ c → u ∈ (σ.cpu d).ctx.popped ∨ u ∈ (σ.cpu d).ctx.looksAt →
    (σ.th u).used = true → u ∉ members σ (.hand c) → (∀ v, u ∉ (σ.th v).pc.makes) →
    x.ownerCPU = (σ.th u).ownerCPU ∧ x.used = true ∧ ((σ.th u).saved = true → x.saved = true)

theorem Relied.same (u : Tid) : Relied m σ c u (σ.th u) :=
  ⟨fun _ => .inl,fun _ => .inl,fun _ _ _ hused _ _ => ⟨rfl,hused,id⟩⟩

/-- Steps of CPU `c`: what the other dispatchers rely on stays as it is. -/
theorem Homed.frame (hP : Placed m σ) (h : Homed m σ)
    (hctx : ∀ d, d ≠ c → (σ'.cpu d).ctx = (σ.cpu d).ctx)
    (hth : ∀ u, Relied m σ c u (σ'.th u)) (hnew : Housed m σ' c) : Homed m σ' := by
  constructor
  · intro u d hd
    exact ((hth u).targets d hd).elim (h.targets u d) id
  · intro d
    by_cases hd : d = c
    · rw [hd]
      exact hnew
    · have hold := h.housed d
      constructor
      · rw [hctx d hd]
        exact hold.aims
      · rw [hctx d hd]
        exact hold.loop
      · rw [hctx d hd]
        exact hold.steals
      · rw [hctx d hd]
        intro u hu howner
        obtain ⟨hin,-⟩ := hP.popped_not_made hu u
        have hmoved := (hth u).kept d hd (.inl hu) (hP.used _ u hin)
          (fun hc => hd (by cases hP.apart.one _ _ u hin hc; rfl))
          (fun v => (hP.popped_not_made hu v).2)
        rw [hmoved.1] at howner
        exact hold.home u hu howner
      · rw [hctx d hd]
        intro u hu
        obtain ⟨hused,hsaved,howner,hmade⟩ := hold.back u hu
        have hd0 := hold.bsp hu
        -- a thread the BSP has left is in no other dispatcher's hand
        have hhand : u ∉ members σ (.hand c) := by
          intro hin
          have hin : u ∈ (σ.cpu c).ctx.held := hin
          cases hx : (σ.cpu c).ctx with
          | thread v l =>
            rw [hx] at hin
            cases hin
          | boot pc =>
            rw [hx] at hin
            cases pc with
            | popped v l =>
              obtain rfl := mem_singleton.mp hin
              exact hd (hd0.trans ((h.housed c).home u (by rw [hx]; exact hin) howner).symm)
            | spawning v k e =>
              have := ((h.housed c).aims e (by rw [hx]; exact List.mem_cons_self)).1
              exact hd (hd0.trans this.symm)
            | _ => cases hin
        obtain ⟨ho,hu',hs⟩ := (hth u).kept d hd (.inr hu) hused hhand hmade
        refine ⟨hu',hs hsaved,ho.trans howner,fun v hv => ?_⟩
        obtain hv | hv := (hth v).makes u hv
        · exact hmade v hv
        · rw [hused] at hv
          cases hv

/-- A CPU in its bootstrap context with no thread involved. -/
theorem Housed.of_free {pc : Dpc} (hctx : (σ.cpu c).ctx = .boot pc) (hheld : pc.held = [])
    (hnot : ∀ t l, pc ≠ .returned t l) (hsteal : ∀ i, pc = .stealing i → c ≠ 0) :
    Housed m σ c := by
  cases pc with
  | popped | spawning => cases hheld
  | returned t l => exact absurd rfl (hnot t l)
  | stealing i =>
    constructor <;> rw [hctx]
    · nofun
    · nofun
    · exact fun _ => hsteal i rfl
    · nofun
    · nofun
  | _ => constructor <;> rw [hctx] <;> nofun

theorem Housed.of_thread (hctx : (σ.cpu c).ctx = .thread t l)
    (hl : l = .kschedLoopRing3Only ↔ c ≠ 0) : Housed m σ c := by
  constructor <;> rw [hctx]
  · nofun
  · intro l' hl'
    cases hl'
    exact hl
  · nofun
  · nofun
  · nofun

variable {x : KThread} {k : Tier} {d : ℕ} {u : Tid} {σ₁ : Sched}

section

variable (hP : Placed m σ) (h : Homed m σ)
include hP h

/-- A thread changes itself, keeping its slot and its CPU. -/
theorem Homed.thread
    (hctx : (σ.cpu c).ctx = .thread t l) (hctx' : ∀ d, (σ'.cpu d).ctx = (σ.cpu d).ctx)
    (hth : σ'.th = update σ.th t x)
    (hx : x.ownerCPU = (σ.th t).ownerCPU ∧ x.used = (σ.th t).used ∧ x.saved = (σ.th t).saved)
    (hmakes : ∀ u ∈ x.pc.makes, u ∈ (σ.th t).pc.makes)
    (htargets : ∀ d ∈ x.pc.targets, d ∈ (σ.th t).pc.targets) : Homed m σ' := by
  refine h.frame (c := c) hP (fun d _ => hctx' d) (fun u => ?_) ?_
  · rw [hth]
    by_cases hu : u = t
    · subst hu
      rw [update_self]
      refine ⟨fun d hd => .inl (htargets d hd),fun v hv => .inl (hmakes v hv),?_⟩
      intro _ _ _ hused _ _
      rw [hx.1,hx.2.1,hx.2.2]
      exact ⟨rfl,hused,id⟩
    · rw [update_of_ne hu]
      exact .same u
  · exact .of_thread ((hctx' c).trans hctx) ((h.housed c).loop l (by rw [hctx]; rfl))

/-- A dispatcher goes on without a thread. -/
theorem Homed.look {pc : Dpc} {x : CPU} (hx : x.ctx = .boot pc)
    (hheld : pc.held = []) (hnot : ∀ t l, pc ≠ .returned t l)
    (hsteal : ∀ i, pc = .stealing i → c ≠ 0) : Homed m (σ.setCpu c x) := by
  refine h.frame (c := c) hP (fun d hd => ?_) .same (.of_free ?_ hheld hnot hsteal)
  · show (update σ.cpu c x d).ctx = _
    rw [update_of_ne hd]
  · show (update σ.cpu c x c).ctx = _
    rw [update_self,hx]

/-- A dispatcher takes a thread whose last CPU was its own, or not the BSP. -/
theorem Homed.pop {ts : List Tid}
    (hready : σ.ready k d = t::ts) (hd : d = 0 → c = 0) (hl : l = .kschedLoopRing3Only ↔ c ≠ 0) :
    Homed m ((σ.setReady k d ts).setCtx c (.boot (.popped t l))) := by
  refine h.frame (c := c) hP (fun e he => congrArg CPU.ctx (setCtx_of_ne he)) .same ?_
  constructor <;> rw [setCtx_self]
  · nofun
  · intro l' hl'
    cases hl'
    exact hl
  · nofun
  · intro u hu howner
    obtain rfl := mem_singleton.mp hu
    have hin : u ∈ σ.ready k d := by
      rw [hready]
      exact List.mem_cons_self
    exact hd ((hP.owner k d u hin).symm.trans howner)
  · nofun

theorem Homed.dispatch
    (hctx : (σ.cpu c).ctx = .boot (.popped t l)) : Homed m (σ.dispatch c t l) := by
  have hin : t ∈ members σ (.hand c) :=
    (hP.popped_not_made (mem_popped.mpr ⟨l,hctx⟩) t).1
  refine h.frame (c := c) hP (fun e he => ?_) (fun u => ?_)
    (.of_thread (t := t) ?_ ((h.housed c).loop l (by rw [hctx]; rfl)))
  · show (update σ.cpu c _ e).ctx = _
    rw [update_of_ne he]
  · show Relied m σ c u (update σ.th t _ u)
    by_cases hut : u = t
    · subst hut
      rw [update_self]
      exact ⟨fun _ => .inl,fun _ => .inl,fun _ _ _ _ hhand _ => absurd hin hhand⟩
    · rw [update_of_ne hut]
      exact .same u
  · show (update σ.cpu c _ c).ctx = _
    rw [update_self]

/-- The switch back: the thread is still used, stored, and last ran here. -/
theorem Homed.switchOut {next : Tpc}
    (hctx : (σ.cpu c).ctx = .thread t l) (hmakes : ∀ u ∈ next.makes, u ∈ (σ.th t).pc.makes)
    (htargets : ∀ d ∈ next.targets, d ∈ (σ.th t).pc.targets) :
    Homed m (σ.switchOut c t l next) := by
  have hself : (σ.switchOut c t l next).th t = { σ.th t with saved := true, pc := next } :=
    update_self ..
  have hne {u : Tid} (hu : u ≠ t) : (σ.switchOut c t l next).th u = σ.th u :=
    update_of_ne hu ..
  have hloop := (h.housed c).loop l (by rw [hctx]; rfl)
  obtain ⟨hused,hsaved,howner⟩ := hP.exec c t (.intro hctx)
  refine h.frame (c := c) hP (fun e he => congrArg CPU.ctx (setCtx_of_ne he)) (fun u => ?_) ?_
  · by_cases hu : u = t
    · subst hu
      rw [hself]
      exact ⟨fun d hd => .inl (htargets d hd),fun v hv => .inl (hmakes v hv),
        fun _ _ _ hused _ _ => ⟨rfl,hused,fun _ => rfl⟩⟩
    · rw [hne hu]
      exact .same u
  · have hctx' : ((σ.switchOut c t l next).cpu c).ctx = .boot (.returned t l) := setCtx_self _
    constructor <;> rw [hctx']
    · nofun
    · intro l' hl'
      cases hl'
      exact hloop
    · nofun
    · nofun
    · intro u hu
      obtain ⟨l',he,hl⟩ := reclaims_of_looksAt hu
      cases he
      have hc : c = 0 := by
        by_contra hc
        rw [hloop.mpr hc] at hl
        cases hl
      rw [hself]
      refine ⟨hused,rfl,howner.trans hc,fun v hv => ?_⟩
      -- a built thread has a stored context, the executed one has not
      have hv : t ∈ (σ.th v).pc.makes := by
        by_cases hvt : v = t
        · subst hvt
          rw [hself] at hv
          exact hmakes v hv
        · rwa [hne hvt] at hv
      have := hP.held (.made v) t rfl hv
      rw [hsaved] at this
      cases this

/-- A running thread pushes another one, to the CPU that ran it last unless it is new. -/
theorem Homed.push {p : Tpc}
    (hctx : (σ.cpu c).ctx = .thread t l) (hut : u ≠ t) (hd : d < m.numCoresOnline)
    (hu : d = (σ.th u).ownerCPU ∨ u ∈ (σ.th t).pc.makes) (hp : p.makes = [] ∧ p.targets = []) :
    Homed m ((σ.kschedPush k u d).setPc t p) := by
  have hself := push_th_self (σ := σ) (k := k) (d := d) (p := p) hut
  have hpushed := push_th_pushed (σ := σ) (k := k) (p := p) hut hd
  have hcpu : ((σ.kschedPush k u d).setPc t p).cpu = σ.cpu := by
    rfl
  refine h.frame (c := c) hP (fun e _ => by rw [hcpu]) (fun v => ?_)
    (.of_thread (by rw [hcpu,hctx]) ((h.housed c).loop l (by rw [hctx]; rfl)))
  by_cases hv : v = t
  · subst hv
    rw [hself]
    refine ⟨?_,?_,fun _ _ _ hused _ _ => ⟨rfl,hused,id⟩⟩
    · rw [hp.2]
      nofun
    · rw [hp.1]
      nofun
  · by_cases hvu : v = u
    · subst hvu
      rw [hpushed]
      refine ⟨fun _ => .inl,fun _ => .inl,fun _ _ _ hused _ hmade => ?_⟩
      obtain hu | hu := hu
      · exact ⟨hu,hused,id⟩
      · exact absurd hu (hmade t)
    · rw [push_th_of_ne hvu hv]
      exact .same v

theorem Homed.yield {next : Tpc}
    (hctx : (σ.cpu c).ctx = .thread t l) (hmakes : ∀ u ∈ next.makes, u ∈ (σ.th t).pc.makes)
    (htargets : ∀ d ∈ next.targets, d ∈ (σ.th t).pc.targets) :
    Homed m (σ.kschedYield c t t next) := by
  obtain ⟨-,-,howner⟩ := hP.exec c t (.intro hctx)
  have hc : c < m.numCoresOnline := howner ▸ hP.small t
  exact h.thread hP hctx (fun _ => rfl) (kschedYield_th hc) ⟨howner.symm,rfl,rfl⟩ hmakes htargets

end

theorem Entry.start_targets (e : Entry) : e.start.targets = [] := by
  cases e <;> rfl

/-- No dispatcher relies on a free slot. -/
theorem Built.relied (hb : Built m σ u d σ₁ x)
    (v : Tid) : Relied m σ c v (if v = u then x else σ.th v) := by
  by_cases hv : v = u
  · subst hv
    rw [if_pos rfl]
    constructor
    · rw [hb.pc,Entry.start_targets]
      nofun
    · rw [hb.pc,x.entry.start_calm.2.1]
      nofun
    · intro _ _ _ hused
      rw [hb.free] at hused
      cases hused
  · rw [if_neg hv]
    exact .same v

section

variable (hP : Placed m σ) (h : Homed m σ)
include hP h

theorem Homed.bootMade (hc : c = 0) (hb : Built m σ u d σ₁ x) :
    Homed m (σ₁.setCtx c (.boot (.spawning u k d))) := by
  refine h.frame (c := c) hP (fun e he => ?_) (fun v => ?_) ?_
  · rw [setCtx_of_ne he,hb.cpu]
  · show Relied m σ c v (σ₁.th v)
    rw [hb.th,update_apply]
    exact hb.relied v
  · constructor <;> rw [setCtx_self]
    · intro e he
      obtain rfl := mem_singleton.mp he
      exact ⟨hc,hb.target⟩
    · nofun
    · nofun
    · nofun
    · nofun

theorem Homed.bootPush (hctx : (σ.cpu c).ctx = .boot (.spawning u k d)) :
    Homed m ((σ.kschedPush k u d).setCtx c (.boot .idle)) := by
  have hin : u ∈ members σ (.hand c) := mem_hand hctx rfl
  refine h.frame (c := c) hP (fun e he => ?_) (fun v => ?_)
    (.of_free (setCtx_self _) rfl (by nofun) (by nofun))
  · rw [setCtx_of_ne he]
    rfl
  · show Relied m σ c v (update σ.th u _ v)
    by_cases hvu : v = u
    · subst hvu
      rw [update_self]
      exact ⟨fun _ => .inl,fun _ => .inl,fun _ _ _ _ hhand _ => absurd hin hhand⟩
    · rw [update_of_ne hvu]
      exact .same v

theorem Homed.made (hctx : (σ.cpu c).ctx = .thread t l) (hb : Built m σ u d σ₁ x) :
    Homed m (σ₁.setPc t (.spawning u k d)) := by
  have hut := hb.ne_running hP hctx
  have hself : (σ₁.setPc t (.spawning u k d)).th t = _ := hb.setPc_self hut
  refine h.frame (c := c) hP (fun e _ => ?_) (fun v => ?_)
    (.of_thread (t := t) ?_ ((h.housed c).loop l (by rw [hctx]; rfl)))
  · show (σ₁.cpu e).ctx = _
    rw [hb.cpu]
  · by_cases hv : v = t
    · subst hv
      rw [hself]
      refine ⟨fun e he => ?_,fun w hw => ?_,fun _ _ _ hused _ _ => ⟨rfl,hused,id⟩⟩
      · obtain rfl := mem_singleton.mp he
        exact .inr hb.target
      · obtain rfl := mem_singleton.mp hw
        exact .inr hb.free
    · rw [hb.setPc_of_ne hv]
      exact hb.relied v
  · show (σ₁.cpu c).ctx = _
    rw [hb.cpu,hctx]

/-- A thread a reclaiming loop has left is executed by nobody. -/
theorem Homed.idle_of_looksAt (ht : t ∈ (σ.cpu c).ctx.looksAt) (d : ℕ) : ¬Executes σ d t := by
  intro hd
  have hsaved := ((h.housed c).back t ht).2.1
  rw [(hP.exec d t hd).2.1] at hsaved
  cases hsaved

end

/-- An exiting thread is on no list. -/
theorem Placed.nowhere_of_exiting (h : Placed m σ) (ht : (σ.th t).state = .exiting) (r : Place) :
    t ∉ members σ r := by
  intro hr
  have := h.state r t hr
  rw [ht] at this
  cases r <;> cases this

/-- What a dispatcher does with a thread that has come back. -/
theorem returnStep_cases (σ : Sched) (c : ℕ) (t : Tid) (l : Loop) :
    (l.reclaims = true ∧ (σ.th t).state = .exiting ∧ σ.returnStep c t l =
      (σ.kthreadPoolFree t).setCpu c
        { (σ.kthreadPoolFree t).cpu c with ctx := .boot .idle, running := none }) ∨
    (¬(l.reclaims = true ∧ (σ.th t).state = .exiting) ∧ σ.returnStep c t l =
      σ.setCpu c { σ.cpu c with ctx := .boot .idle, running := none }) := by
  simp only [returnStep]
  split
  · rename_i h
    exact .inl ⟨h.1,h.2,rfl⟩
  · rename_i h
    exact .inr ⟨h,rfl⟩

theorem kthreadPoolFree_pc (σ : Sched) (t u : Tid) :
    ((σ.kthreadPoolFree t).th u).pc = (σ.th u).pc := by
  rw [kthreadPoolFree]
  split
  · refine pc_update id ?_ u
    rfl
  · rfl

theorem kthreadPoolFree_of_ne (hu : u ≠ t) : (σ.kthreadPoolFree t).th u = σ.th u := by
  rw [kthreadPoolFree]
  split
  · exact update_of_ne hu ..
  · rfl

theorem Placed.back (hP : Placed m σ) (h : Homed m σ)
    (hctx : (σ.cpu c).ctx = .boot (.returned t l)) : Placed m (σ.returnStep c t l) := by
  obtain ⟨hl,hstate,heq⟩ | ⟨-,heq⟩ := returnStep_cases σ c t l
  · have ht : t ∈ (σ.cpu c).ctx.looksAt := by
      rw [hctx,Ctx.looksAt,if_pos hl]
      exact List.mem_cons_self
    rw [heq]
    have hctx' : ((σ.kthreadPoolFree t).cpu c).ctx = .boot (.returned t l) := by
      rw [kthreadPoolFree_cpu,hctx]
    exact (hP.free (hP.nowhere_of_exiting hstate) (h.idle_of_looksAt hP ht)).look hctx' rfl rfl
  · rw [heq]
    exact hP.look hctx rfl rfl

theorem Homed.back (hP : Placed m σ) (h : Homed m σ)
    (hctx : (σ.cpu c).ctx = .boot (.returned t l)) : Homed m (σ.returnStep c t l) := by
  obtain ⟨hl,hstate,heq⟩ | ⟨-,heq⟩ := returnStep_cases σ c t l
  · have ht : t ∈ (σ.cpu c).ctx.looksAt := by
      rw [hctx,Ctx.looksAt,if_pos hl]
      exact List.mem_cons_self
    have hctx' : ((σ.returnStep c t l).cpu c).ctx = .boot .idle := by
      rw [heq]
      show (update (σ.kthreadPoolFree t).cpu c _ c).ctx = _
      rw [update_self]
    rw [heq] at hctx' ⊢
    refine h.frame (c := c) hP (fun e he => ?_) (fun v => ?_) (.of_free hctx' rfl (by nofun) (by nofun))
    · show (update (σ.kthreadPoolFree t).cpu c _ e).ctx = _
      rw [update_of_ne he,kthreadPoolFree_cpu]
    · show Relied m σ c v ((σ.kthreadPoolFree t).th v)
      by_cases hvt : v = t
      · subst hvt
        refine ⟨?_,?_,fun e he hv _ _ _ => ?_⟩
        · rw [kthreadPoolFree_pc]
          exact fun _ => .inl
        · rw [kthreadPoolFree_pc]
          exact fun _ => .inl
        · -- the freed thread is popped by nobody, and only the BSP looks at one to free it
          obtain hv | hv := hv
          · exact absurd (hP.popped_not_made hv v).1 (hP.nowhere_of_exiting hstate _)
          · exact absurd (((h.housed e).bsp hv).trans ((h.housed c).bsp ht).symm) he
      · rw [kthreadPoolFree_of_ne hvt]
        exact .same v
  · rw [heq]
    exact h.look hP rfl rfl (by nofun) (by nofun)

end Gooos.Ksched
