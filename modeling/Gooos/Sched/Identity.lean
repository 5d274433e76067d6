import Mathlib
import Gooos.Sched.Tiers

/-!
# The current process

`currentProc` finds the running process through the CPU's pool index and the slot table,
and `kthreadResumeRing3Ctx` loads its page table. The boot shell has none of its own, so
that its resume keeps what is loaded: the boot PML4 only as long as no other process runs
on the BSP, which holds with an AP online.
-/

namespace Gooos.Ksched

open Sched Places Trace Function

/-- How far the life of a hosted process has come. -/
inductive Phase where
  | fresh
  | busy
  | exits (s : ExitStage) (proc : ℕ)
  | gone
  deriving DecidableEq, Repr

def Tpc.phase : Tpc → Phase
  | .wrapper => .fresh
  | .exiting s p => .exits s p
  | .finishing => .gone
  | .exitSwitch => .gone
  | .dead => .gone
  | .halted => .gone
  | .toSwitch p => p.phase
  | .resuming p => p.phase
  | .irq p => p.phase
  | .knows _ _ p => p.phase
  | _ => .busy

/-- The slot table holds the process: from `ring3WrapperKT` until `processExit` clears
it. -/
def Phase.bound : Phase → Bool
  | .busy => true
  | .exits .marked _ => true
  | .exits .unmapped _ => true
  | _ => false

/-- The process has its page table: until `processExit` frees it. -/
def Phase.mapped : Phase → Bool
  | .fresh => true
  | .busy => true
  | .exits .marked _ => true
  | _ => false

/-- The thread runs for its process: neither in `ring3WrapperKT`, nor between a resume and
`kthreadResumeRing3Ctx`, nor past its end. -/
def Tpc.inside : Tpc → Bool
  | .wrapper => false
  | .resuming _ => false
  | .finishing => false
  | .exitSwitch => false
  | .dead => false
  | .toSwitch p => p.inside
  | .irq p => p.inside
  | .knows _ _ p => p.inside
  | _ => true

/-- The page table of a process; the boot shell's is the boot PML4. -/
def pageTable (p : ℕ) : Option ℕ := if p = shellProc then none else some p

variable {m : Machine} {σ σ' : Sched} {c : ℕ} {t : Tid} {l : Loop} {a : Act} {obs : List Obs}

theorem phase_of_left {p : Tpc} (h : p.left = true) : p.phase = .gone := by
  induction p with
  | toSwitch p ih | resuming p ih | irq p ih | knows _ _ p ih => exact ih h
  | finishing | exitSwitch | dead => rfl
  | _ => cases h

/-! ## Moves that change no table -/

/-- What moves that touch no table make of the running thread. -/
structure Proceeds (x y : KThread) : Prop where
  phase : y.pc.phase = x.pc.phase ∨ y.pc.phase = .gone
  inside : y.pc.inside = true → x.pc.inside = true
  outside : y.saved = true → x.saved = true ∨ y.pc.inside = false

theorem Proceeds.pc {x y : KThread} (hsaved : y.saved = x.saved)
    (hphase : y.pc.phase = x.pc.phase) (hinside : y.pc.inside = true → x.pc.inside = true) :
    Proceeds x y :=
  ⟨.inl hphase,hinside,fun h => .inl (hsaved ▸ h)⟩

structure Plain (σ : Sched) (c : ℕ) (σ' : Sched) : Prop where
  slots : σ'.procByPoolSlot = σ.procByPoolSlot
  procs : σ'.proc = σ.proc
  cpus : ∀ d, (σ'.cpu d).currentPoolIdx = (σ.cpu d).currentPoolIdx ∧
    (σ'.cpu d).cr3 = (σ.cpu d).cr3

/-- A change of a CPU that keeps the pool index and the page table. -/
theorem cpus_update {x : CPU} (hx : x.currentPoolIdx = (σ.cpu c).currentPoolIdx ∧
    x.cr3 = (σ.cpu c).cr3) (d : ℕ) :
    (update σ.cpu c x d).currentPoolIdx = (σ.cpu d).currentPoolIdx ∧
      (update σ.cpu c x d).cr3 = (σ.cpu d).cr3 := by
  by_cases hd : d = c
  · subst hd
    rwa [update_self]
  · rw [update_of_ne hd]
    exact ⟨rfl,rfl⟩

theorem Plain.of_cpu {τ : Sched} {x : CPU} (hslots : τ.procByPoolSlot = σ.procByPoolSlot)
    (hprocs : τ.proc = σ.proc) (hcpu : τ.cpu = update σ.cpu c x)
    (hx : x.currentPoolIdx = (σ.cpu c).currentPoolIdx ∧ x.cr3 = (σ.cpu c).cr3) :
    Plain σ c τ :=
  ⟨hslots,hprocs,fun d => by rw [hcpu]; exact cpus_update hx d⟩

theorem Plain.of_eq {τ : Sched} (hslots : τ.procByPoolSlot = σ.procByPoolSlot)
    (hprocs : τ.proc = σ.proc) (hcpu : τ.cpu = σ.cpu) : Plain σ c τ :=
  ⟨hslots,hprocs,fun d => by rw [hcpu]; exact ⟨rfl,rfl⟩⟩

theorem kthreadPoolFree_tables (σ : Sched) (t : Tid) :
    (σ.kthreadPoolFree t).procByPoolSlot = σ.procByPoolSlot ∧
      (σ.kthreadPoolFree t).proc = σ.proc := by
  rw [kthreadPoolFree]
  split <;> exact ⟨rfl,rfl⟩

theorem kschedWake_tables (σ : Sched) (t : Tid) :
    (σ.kschedWake t).procByPoolSlot = σ.procByPoolSlot ∧ (σ.kschedWake t).proc = σ.proc := by
  rw [kschedWake]
  split <;> exact ⟨rfl,rfl⟩

theorem Does.plain (h : Does m σ c a σ' obs) (hnb : ¬Builds m σ c σ')
    (hnr : ∀ t l, (σ.cpu c).ctx = .thread t l → ¬Rebinds σ c t σ') : Plain σ c σ' := by
  cases h with
  | boot hctx h =>
    cases h with
    | stay => exact .of_eq rfl rfl rfl
    | @reap t =>
      obtain ⟨hslots,hprocs⟩ := kthreadPoolFree_tables σ t
      refine .of_cpu (x := { σ.cpu c with ctx := .boot .idle }) hslots hprocs ?_ ⟨rfl,rfl⟩
      show update (σ.kthreadPoolFree t).cpu c { (σ.kthreadPoolFree t).cpu c with ctx := _ } = _
      rw [kthreadPoolFree_cpu]
    | @back t l =>
      obtain ⟨-,-,heq⟩ | ⟨-,heq⟩ := returnStep_cases σ c t l
      · obtain ⟨hslots,hprocs⟩ := kthreadPoolFree_tables σ t
        rw [heq]
        let x : CPU := { σ.cpu c with ctx := .boot .idle, running := none }
        refine .of_cpu (x := x) hslots hprocs ?_ ⟨rfl,rfl⟩
        show update (σ.kthreadPoolFree t).cpu c
          { (σ.kthreadPoolFree t).cpu c with ctx := _, running := _ } = _
        rw [kthreadPoolFree_cpu]
      · rw [heq]
        exact .of_cpu rfl rfl rfl ⟨rfl,rfl⟩
    | made hc hspawn => exact absurd (.boot hctx hc hspawn) hnb
    | _ => exact .of_cpu rfl rfl rfl ⟨rfl,rfl⟩
  | @thread t l hctx h =>
    cases h with
    | alone h =>
      cases h with
      | rebinds h => exact absurd h (hnr t l hctx)
      | stay | hop | finish => exact .of_eq rfl rfl rfl
      | _ => exact .of_cpu rfl rfl rfl ⟨rfl,rfl⟩
    | wake =>
      obtain ⟨hslots,hprocs⟩ := kschedWake_tables σ _
      exact .of_eq hslots hprocs (kschedWake_cpu σ _)
    | made hpc hspawn hk => exact absurd (.thread hctx hpc hspawn hk) hnb
    | preempt | switch | last => exact .of_cpu rfl rfl rfl ⟨rfl,rfl⟩
    | _ => exact .of_eq rfl rfl rfl

theorem Hops.proceeds {x : KThread} {p q : Tpc} (h : Hops c t x q p) :
    (p.phase = q.phase ∨ p.phase = .gone) ∧ (p.inside = true → q.inside = true) := by
  cases h with
  | halt | lost => exact ⟨.inr rfl,id⟩
  | _ => exact ⟨.inl rfl,id⟩

theorem Does.proceeds (hdoes : Does m σ c a σ' obs) (hnb : ¬Builds m σ c σ')
    (hnr : ∀ t l, (σ.cpu c).ctx = .thread t l → ¬Rebinds σ c t σ') (hplaced : Placed m σ)
    (hctx : (σ.cpu c).ctx = .thread t l) : Proceeds (σ.th t) (σ'.th t) := by
  have hself {x : KThread} (hx : Proceeds (σ.th t) x) :
      Proceeds (σ.th t) (update σ.th t x t) := by
    rwa [update_self]
  have hc : c < m.numCoresOnline := by
    rw [← (hplaced.exec c t (.intro hctx)).2.2]
    exact hplaced.small t
  -- the thread goes on at `p`, at no later stage of its life
  have hset {τ : Sched} {p q : Tpc} (hpc : (σ.th t).pc = q) (hτ : τ.th t = σ.th t)
      (hphase : p.phase = q.phase) (hinside : p.inside = true → q.inside = true) :
      Proceeds (σ.th t) ((τ.setPc t p).th t) := by
    rw [setPc_self,hτ]
    exact .pc rfl (hpc ▸ hphase) (hpc ▸ hinside)
  cases hdoes.of_thread hctx with
  | alone h =>
    cases h with
    | stay => exact .pc rfl rfl id
    | hop h =>
      rw [setPc_self]
      exact ⟨h.proceeds.1,h.proceeds.2,.inl⟩
    | finish =>
      rw [setPc_self]
      exact ⟨.inr rfl,nofun,.inl⟩
    | rebinds h => exact absurd h (hnr t l hctx)
    | syscall hpc | sysret hpc => exact hself (.pc rfl (by rw [hpc]) (by rw [hpc]; exact id))
    | irq => exact hself (.pc rfl rfl id)
    | iret hpc => exact hself (.pc rfl (by rw [hpc]; rfl) (by rw [hpc]; exact id))
  | park hpc | take hpc =>
    refine hself ?_
    obtain hpc | ⟨o,hpc⟩ := hpc <;> exact .pc rfl (by rw [hpc]; rfl) (by rw [hpc]; exact id)
  | wake hpc =>
    exact hset hpc (kschedWake_of_ne (hplaced.first_waking hctx hpc).1.symm) rfl id
  | push hpc => exact hset hpc (kschedPush_of_ne (hplaced.made_in_hand hctx hpc).1.symm) rfl id
  | made hpc hspawn hk => exact absurd (.thread hctx hpc hspawn hk) hnb
  | yield hpc =>
    rw [kschedYield_th hc,update_self]
    exact .pc rfl (by rw [hpc]; rfl) (by rw [hpc]; exact id)
  | preempt =>
    have hth : (σ.enter c t .preempt (.irq (σ.th t).pc)).th t =
        { σ.th t with frames := .preempt::(σ.th t).frames, pc := .irq (σ.th t).pc } :=
      update_self ..
    rw [kschedYield_th hc,update_self,hth]
    exact .pc rfl rfl id
  | switch hpc => exact hself ⟨.inl (by rw [hpc]; rfl),nofun,fun _ => .inr rfl⟩
  | last => exact hself ⟨.inr rfl,nofun,fun _ => .inr rfl⟩
  | ending =>
    rw [kschedExit_own]
    exact hself ⟨.inr rfl,nofun,.inl⟩

/-! ## The BSP keeps to the boot shell -/

/-- With an AP online, no process but the boot shell gets to the BSP. -/
structure Apart0 (σ : Sched) : Prop where
  ready : ∀ k t p, t ∈ σ.ready k 0 → (σ.th t).hosted = some p → p = shellProc
  popped : ∀ t l p, (σ.cpu 0).ctx = .boot (.popped t l) → (σ.th t).hosted = some p → p = shellProc
  runs : ∀ t p, Executes σ 0 t → (σ.th t).hosted = some p → p = shellProc
  parked : ∀ t p, (σ.th t).state = .parked → (σ.th t).ownerCPU = 0 → (σ.th t).hosted = some p →
    p = shellProc

variable {x : KThread} {d p : ℕ}

theorem Routed.away_of_hosted {k : Tier} (h : Routed m x k 0)
    (hn : 1 < m.numCoresOnline) (hx : Hosts x) (hused : x.used = true)
    (hp : x.hosted = some p) : p = shellProc := by
  by_contra hne
  refine h.away hn ?_ rfl
  rintro (hservice | hshell)
  · rw [hx.service hused hservice] at hp
    cases hp
  · rw [hp] at hshell
    exact hne (Option.some.inj hshell)

/-- A process a thread hosts after a move, it hosted before, unless the move builds it. -/
theorem Hosting.hosted_of (hh : Hosting m σ) (hs : Sound m σ) (hdoes : Does m σ c a σ' obs)
    (hold : (σ.th t).used = true ∨ ¬Builds m σ c σ') (hp : (σ'.th t).hosted = some p) :
    (σ.th t).hosted = some p := by
  by_cases hrun : Executes σ c t
  · obtain ⟨l,hctx⟩ := hrun
    obtain hturn | ⟨u,k,d,σ₁,hspawn,-,-,-,hut,rfl⟩ := hdoes.turn hs.placed hctx
      ((hh.hosts t).service (hs.placed.exec c t (.intro hctx)).1)
    · obtain ⟨hhost,-⟩ | ⟨hnone,-⟩ := hturn.host
      · rwa [hhost] at hp
      · rw [hnone] at hp
        cases hp
    · rwa [setPc_self,hspawn.th_of_ne hut.symm] at hp
  · have hne (l : Loop) : (σ.cpu c).ctx ≠ .thread t l := fun hctx => hrun ⟨l,hctx⟩
    obtain hused | hb := hold
    · obtain hu | ⟨k,d,σ₁,hspawn,-⟩ := hdoes.others (u := t) hne
      · rwa [hu.hosted] at hp
      · rw [hspawn.free] at hused
        cases hused
    · rwa [(hdoes.untouched hb hne).hosted] at hp

theorem Hosting.used_of (hh : Hosting m σ) (hp : (σ.th t).hosted = some p) :
    (σ.th t).used = true := by
  by_contra hfree
  rw [((hh.hosts t).free (by simpa using hfree)).1] at hp
  cases hp

theorem Builds.ctx_eq (h : Builds m σ c σ') :
    (σ'.cpu c).ctx = (σ.cpu c).ctx ∨ ∃ u k d, (σ'.cpu c).ctx = .boot (.spawning u k d) := by
  cases h with
  | boot hctx hc hspawn => exact .inr ⟨_,_,_,setCtx_self _⟩
  | @thread t l u k d σ₁ hctx hpc hspawn =>
    left
    show (σ₁.cpu c).ctx = _
    rw [hspawn.cpu_eq]

/-- A thread that is executed after a move of CPU `c` was so before, or has been
dispatched. -/
theorem Does.executes_of (h : Does m σ c a σ' obs) (hs : Sound m σ) (hexec : Executes σ' d t) :
    Executes σ d t ∨ d = c ∧ ∃ l, (σ.cpu c).ctx = .boot (.popped t l) := by
  obtain ⟨l,hl⟩ := hexec
  by_cases hd : d = c
  · subst hd
    obtain hsame | ⟨pc,hpc,-⟩ | ⟨u,l',k,e,hpop,-⟩ | ⟨u,l',hpop,hrun⟩ | hb := h.ctx_of hs
    · exact .inl ⟨l,hsame.symm.trans hl⟩
    · rw [hpc] at hl
      cases hl
    · rw [hpop] at hl
      cases hl
    · rw [hrun] at hl
      cases hl
      exact .inr ⟨rfl,l,hpop⟩
    · obtain hsame | ⟨u,k,e,hspawn⟩ := hb.ctx_eq
      · exact .inl ⟨l,hsame.symm.trans hl⟩
      · rw [hspawn] at hl
        cases hl
  · obtain ⟨x,hx,-⟩ := h.cpu
    rw [hx,update_of_ne hd] at hl
    exact .inl ⟨l,hl⟩

theorem Does.popped_of (h : Does m σ c a σ' obs) (hs : Sound m σ)
    (hpop' : (σ'.cpu 0).ctx = .boot (.popped t l)) :
    (σ.cpu 0).ctx = .boot (.popped t l) ∨ ∃ k, t ∈ σ.ready k 0 := by
  by_cases hc : 0 = c
  · subst hc
    obtain hsame | ⟨pc,hpc,hheld⟩ | ⟨u,l',k,e,hpop,hin,he⟩ | ⟨u,l',-,hrun⟩ | hb := h.ctx_of hs
    · exact .inl (hsame.symm.trans hpop')
    · rw [hpc] at hpop'
      cases hpop'
      cases hheld
    · rw [hpop] at hpop'
      cases hpop'
      exact .inr ⟨k,he rfl ▸ hin⟩
    · rw [hrun] at hpop'
      cases hpop'
    · obtain hsame | ⟨u,k,e,hspawn⟩ := hb.ctx_eq
      · exact .inl (hsame.symm.trans hpop')
      · rw [hspawn] at hpop'
        cases hpop'
  · obtain ⟨x,hx,-⟩ := h.cpu
    rw [hx,update_of_ne hc] at hpop'
    exact .inl hpop'

section Bsp

variable (h : Apart0 σ) (hs : Sound m σ) (hh : Hosting m σ) (hdoes : Does m σ c a σ' obs)
include h hs hh hdoes

theorem Apart0.parked_step (hparked : (σ'.th t).state = .parked)
    (howner : (σ'.th t).ownerCPU = 0) (hp : (σ'.th t).hosted = some p) : p = shellProc := by
  by_cases hrun : Executes σ c t
  · -- it is executed by CPU 0, and so was it before
    obtain ⟨hused,-,hc⟩ := hs.placed.exec c t hrun
    have hold : (σ'.th t).ownerCPU = (σ.th t).ownerCPU := by
      obtain ⟨l,hctx⟩ := hrun
      obtain hturn | ⟨u,k,d,σ₁,hspawn,-,-,-,hut,rfl⟩ := hdoes.turn hs.placed hctx
        ((hh.hosts t).service hused)
      · exact hturn.owner
      · rw [setPc_self,hspawn.th_of_ne hut.symm]
    have hc0 : c = 0 := hc.symm.trans (hold.symm.trans howner)
    exact h.runs t p (hc0 ▸ hrun) (hh.hosted_of hs hdoes (.inl hused) hp)
  · have hne (l : Loop) : (σ.cpu c).ctx ≠ .thread t l := fun hctx => hrun ⟨l,hctx⟩
    have hspared := hdoes.spared hs hne
    have hwas := (hspared.state_eq (.inr hparked)).trans hparked
    have hused : (σ.th t).used = true := by
      obtain hu | ⟨k,d,σ₁,hspawn,hth⟩ := hdoes.others (u := t) hne
      · rw [hu.hosted] at hp
        exact hh.used_of hp
      · obtain ⟨x,hb⟩ := hspawn.built
        rw [hth,hb.th,update_self,hb.state] at hparked
        cases hparked
    have hp := hh.hosted_of hs hdoes (.inl hused) hp
    obtain hsame | ⟨-,l,hpop⟩ | ⟨k,hctx⟩ | ⟨u,l,k,hctx,hpc⟩ := hspared.owner hused
    · exact h.parked t p hwas (hsame.symm.trans howner) hp
    · rw [(hs.placed.runnable_of_popped hpop).2.1] at hwas
      cases hwas
    · rw [hs.placed.state _ t (hs.placed.idle_of_boot hctx).2.1] at hwas
      cases hwas
    · rw [hs.placed.state _ t (hs.placed.idle_of_aim (u := u) (by rw [hpc]; rfl)).2.1] at hwas
      cases hwas

theorem Apart0.step_does (hn : 1 < m.numCoresOnline) : Apart0 σ' := by
  constructor
  · intro k t p hin hp
    obtain hold | hctx | ⟨u,l,hctx,hpc⟩ | ⟨u,l,us,hctx,hpc,-,he⟩ | ⟨l,hctx,-,he,-⟩ :=
      hdoes.ready_of hs hin
    · have hused := hs.placed.used (.ready k 0) t hold
      exact h.ready k t p hold (hh.hosted_of hs hdoes (.inl hused) hp)
    · have hused := (hs.placed.idle_of_boot hctx).1
      exact (hh.boots c t k 0 hctx).away_of_hosted hn (hh.hosts t) hused
        (hh.hosted_of hs hdoes (.inl hused) hp)
    · have haim : (σ.th u).pc.aim = some (t,k,0) := by
        rw [hpc]
        rfl
      have hused := (hs.placed.idle_of_aim haim).1
      exact (hh.aims u t k 0 haim).away_of_hosted hn (hh.hosts t) hused
        (hh.hosted_of hs hdoes (.inl hused) hp)
    · have hwait : t ∈ members σ (.waking u) := by
        show t ∈ (σ.th u).pc.wakes
        rw [hpc]
        exact List.mem_cons_self
      exact h.parked t p (hs.placed.state _ t hwait) he.symm
        (hh.hosted_of hs hdoes (.inl (hs.placed.used _ t hwait)) hp)
    · have hexec : Executes σ 0 t := he ▸ .intro hctx
      exact h.runs t p hexec (hh.hosted_of hs hdoes (.inl (hs.placed.exec 0 t hexec).1) hp)
  · intro t l p hpop' hp
    obtain hpop | ⟨k,hin⟩ := hdoes.popped_of hs hpop'
    · have hused := (hs.placed.runnable_of_popped hpop).1
      exact h.popped t l p hpop (hh.hosted_of hs hdoes (.inl hused) hp)
    · have hused := hs.placed.used (.ready k 0) t hin
      exact h.ready k t p hin (hh.hosted_of hs hdoes (.inl hused) hp)
  · intro t p hexec' hp
    obtain hexec | ⟨rfl,l,hpop⟩ := hdoes.executes_of hs hexec'
    · exact h.runs t p hexec (hh.hosted_of hs hdoes (.inl (hs.placed.exec 0 t hexec).1) hp)
    · have hused := (hs.placed.runnable_of_popped hpop).1
      exact h.popped t l p hpop (hh.hosted_of hs hdoes (.inl hused) hp)
  · exact fun t p hparked howner hp => h.parked_step hs hh hdoes hparked howner hp

end Bsp

/-! ## The tables -/

/-- The tables show what thread `t` hosts. -/
structure Known (σ : Sched) (t : Tid) : Prop where
  bound : ∀ p, (σ.th t).hosted = some p → (σ.th t).pc.phase.bound = true →
    σ.procByPoolSlot t = some p ∧ (σ.proc p).poolIdx = some t
  mapped : ∀ p, (σ.th t).hosted = some p → (σ.th t).pc.phase.mapped = true →
    (σ.proc p).pml4 = decide (p ≠ shellProc)
  exits : ∀ s q, (σ.th t).pc.phase = .exits s q → (σ.th t).hosted = some q
  outside : (σ.th t).saved = true → (σ.th t).hosted ≠ none → (σ.th t).pc.inside = false
  current : ∀ c, Executes σ c t → (σ.th t).hosted ≠ none → (σ.th t).pc.inside = true →
    (σ.cpu c).currentPoolIdx = some t
  table : ∀ c p, Executes σ c t → (σ.th t).hosted = some p → (σ.th t).pc.inside = true →
    (σ.th t).pc.phase.mapped = true → (σ.cpu c).cr3 = pageTable p

structure Identified (σ : Sched) : Prop where
  known : ∀ t, Known σ t
  bsp : (σ.cpu 0).cr3 = none
  shell : (σ.proc shellProc).pml4 = false

theorem identified_boot : Identified boot where
  known := fun _ => ⟨nofun,nofun,nofun,fun _ h => absurd rfl h,nofun,nofun⟩
  bsp := rfl
  shell := rfl

theorem apart0_boot : Apart0 boot := ⟨nofun,nofun,nofun,nofun⟩

/-- `currentProc` on a CPU that runs a thread for its process. -/
theorem Identified.currentProc_eq (h : Identified σ) (hexec : Executes σ c t)
    (hp : (σ.th t).hosted = some p) (hinside : (σ.th t).pc.inside = true)
    (hbound : (σ.th t).pc.phase.bound = true) : σ.currentProc c = some p := by
  rw [currentProc,(h.known t).current c hexec (by rw [hp]; nofun) hinside,Option.bind_some,
    ((h.known t).bound p hp hbound).1]
  rfl

/-- What a move has to leave alone for the tables to show what `t` hosts. -/
theorem Known.frame (h : Known σ t) (hslot : σ'.procByPoolSlot t = σ.procByPoolSlot t)
    (hproc : ∀ q, (σ.th t).hosted = some q → σ'.proc q = σ.proc q)
    (hhost : (σ'.th t).hosted = (σ.th t).hosted ∨
      (σ'.th t).hosted = none ∧ (σ'.th t).pc.phase = .gone)
    (hphase : (σ'.th t).pc.phase = (σ.th t).pc.phase ∨ (σ'.th t).pc.phase = .gone)
    (hsaved : (σ'.th t).saved = true → (σ.th t).hosted ≠ none →
      (σ.th t).saved = true ∨ (σ'.th t).pc.inside = false)
    (hinside : (σ'.th t).pc.inside = true → (σ.th t).pc.inside = true)
    (hcpus : ∀ d, Executes σ' d t → (σ.th t).hosted ≠ none → (σ.th t).pc.inside = true →
      Executes σ d t ∧ (σ'.cpu d).currentPoolIdx = (σ.cpu d).currentPoolIdx ∧
        (σ'.cpu d).cr3 = (σ.cpu d).cr3) : Known σ' t := by
  have hold {p : ℕ} (hp : (σ'.th t).hosted = some p) : (σ.th t).hosted = some p := by
    obtain hsame | ⟨hnone,-⟩ := hhost
    · rwa [hsame] at hp
    · rw [hnone] at hp
      cases hp
  have hsome (hp : (σ'.th t).hosted ≠ none) : (σ.th t).hosted ≠ none := by
    obtain ⟨p,hp⟩ := Option.ne_none_iff_exists'.mp hp
    rw [hold hp]
    nofun
  have hwas {b : Phase → Bool} (hgone : b .gone = false) (hb : b (σ'.th t).pc.phase = true) :
      b (σ.th t).pc.phase = true := by
    obtain hsame | hleft := hphase
    · rwa [hsame] at hb
    · rw [hleft,hgone] at hb
      cases hb
  constructor
  · intro p hp hb
    rw [hslot,hproc p (hold hp)]
    exact h.bound p (hold hp) (hwas rfl hb)
  · intro p hp hm
    rw [hproc p (hold hp)]
    exact h.mapped p (hold hp) (hwas rfl hm)
  · intro s q he
    obtain hsame | hleft := hphase
    · obtain hkeep | ⟨-,hleft⟩ := hhost
      · rw [hkeep]
        exact h.exits s q (hsame.symm.trans he)
      · rw [hleft] at he
        cases he
    · rw [hleft] at he
      cases he
  · intro hsv hp
    obtain hold | hout := hsaved hsv (hsome hp)
    · have hout := h.outside hold (hsome hp)
      exact Bool.eq_false_iff.mpr fun hin => absurd (hinside hin) (Bool.eq_false_iff.mp hout)
    · exact hout
  · intro d hexec hp hin
    obtain ⟨hd,hidx,-⟩ := hcpus d hexec (hsome hp) (hinside hin)
    rw [hidx]
    exact h.current d hd (hsome hp) (hinside hin)
  · intro d p hexec hp hin hm
    obtain ⟨hd,-,hcr3⟩ := hcpus d hexec (by rw [hold hp]; nofun) (hinside hin)
    rw [hcr3]
    exact h.table d p hd (hold hp) (hinside hin) (hwas rfl hm)

/-- A move that changes no table. -/
theorem Identified.plain (h : Identified σ) (hs : Sound m σ) (hh : Hosting m σ)
    (hdoes : Does m σ c a σ' obs) (hnb : ¬Builds m σ c σ')
    (hnr : ∀ t l, (σ.cpu c).ctx = .thread t l → ¬Rebinds σ c t σ') : Identified σ' := by
  obtain ⟨hslots,hprocs,hcpus⟩ := hdoes.plain hnb hnr
  -- who is executed for its process now, was so before
  have hexec (u : Tid) (d : ℕ) (hexec' : Executes σ' d u) (hp : (σ.th u).hosted ≠ none)
      (hinside : (σ.th u).pc.inside = true) : Executes σ d u := by
    obtain hexec | ⟨rfl,l,hpop⟩ := hdoes.executes_of hs hexec'
    · exact hexec
    · -- a thread that is dispatched has still to resume
      have hsaved := (hs.placed.runnable_of_popped hpop).2.2
      rw [(h.known u).outside hsaved hp] at hinside
      cases hinside
  refine ⟨fun u => ?_,by rw [(hcpus 0).2]; exact h.bsp,by rw [hprocs]; exact h.shell⟩
  -- the running thread goes on, the others stand still
  by_cases hrun : Executes σ c u
  · obtain ⟨l,hctx⟩ := hrun
    have hgo := hdoes.proceeds hnb hnr hs.placed hctx
    refine (h.known u).frame (by rw [hslots]) (fun q _ => by rw [hprocs]) ?_ hgo.phase
      (fun hsv _ => hgo.outside hsv) hgo.inside fun d hd hp hin => ⟨hexec u d hd hp hin,hcpus d⟩
    obtain hturn | ⟨v,k,d,σ₁,hspawn,hk,hd,hpc,-,rfl⟩ := hdoes.turn hs.placed hctx
      ((hh.hosts u).service (hs.placed.exec c u (.intro hctx)).1)
    · obtain ⟨hhost,-⟩ | ⟨hnone,hleft,-⟩ := hturn.host
      · exact .inl hhost
      · exact .inr ⟨hnone,phase_of_left hleft⟩
    · exact absurd (.thread hctx hpc hspawn ⟨hk,hd⟩) hnb
  · have hu := hdoes.untouched hnb fun l hctx => hrun ⟨l,hctx⟩
    have hsp := hdoes.spared hs fun l hctx => hrun ⟨l,hctx⟩
    refine (h.known u).frame (by rw [hslots]) (fun q _ => by rw [hprocs]) (.inl hu.hosted)
      (.inl (by rw [hu.pc])) (fun hsv hp => ?_) (by rw [hu.pc]; exact id)
      fun d hd hp hin => ⟨hexec u d hd hp hin,hcpus d⟩
    obtain ⟨p,hp⟩ := Option.ne_none_iff_exists'.mp hp
    exact .inl (hsp.saved (hh.used_of hp) hsv)

/-- The running thread changes its own tables. -/
theorem Identified.own (h : Identified σ) (hs : Sound m σ) (hh : Hosting m σ)
    (hctx : (σ.cpu c).ctx = .thread t l) (hth : σ'.th = update σ.th t x)
    (hctx' : ∀ d, (σ'.cpu d).ctx = (σ.cpu d).ctx)
    (hslots : ∀ u, u ≠ t → σ'.procByPoolSlot u = σ.procByPoolSlot u)
    (hprocs : ∀ q, σ'.proc q = σ.proc q ∨ (σ.th t).hosted = some q)
    (hcpus : ∀ d, d ≠ c → (σ'.cpu d).currentPoolIdx = (σ.cpu d).currentPoolIdx ∧
      (σ'.cpu d).cr3 = (σ.cpu d).cr3)
    (hsaved : x.saved = (σ.th t).saved)
    (hbound : ∀ q, x.hosted = some q → x.pc.phase.bound = true →
      σ'.procByPoolSlot t = some q ∧ (σ'.proc q).poolIdx = some t)
    (hmapped : ∀ q, x.hosted = some q → x.pc.phase.mapped = true →
      (σ'.proc q).pml4 = decide (q ≠ shellProc))
    (hexits : ∀ s q, x.pc.phase = .exits s q → x.hosted = some q)
    (hcurrent : x.hosted ≠ none → x.pc.inside = true → (σ'.cpu c).currentPoolIdx = some t)
    (htable : ∀ q, x.hosted = some q → x.pc.inside = true → x.pc.phase.mapped = true →
      (σ'.cpu c).cr3 = pageTable q)
    (hbsp : c = 0 → (σ'.cpu 0).cr3 = none) (hshell : (σ'.proc shellProc).pml4 = false) :
    Identified σ' := by
  have hself : σ'.th t = x := by rw [hth,update_self]
  have hother {u : Tid} (hu : u ≠ t) : σ'.th u = σ.th u := by rw [hth,update_of_ne hu]
  have hexec (d : ℕ) (u : Tid) : Executes σ' d u ↔ Executes σ d u := by
    rw [Executes,Executes,hctx']
  have hrun := hs.placed.exec c t (.intro hctx)
  have htc {d : ℕ} (hd : Executes σ' d t) : d = c :=
    (hs.placed.exec d t ((hexec d t).mp hd)).2.2.symm.trans hrun.2.2
  refine ⟨fun u => ?_,?_,hshell⟩
  · by_cases hu : u = t
    · subst hu
      constructor <;> rw [hself]
      · exact hbound
      · exact hmapped
      · exact hexits
      · intro hsv
        rw [hsaved,hrun.2.1] at hsv
        cases hsv
      · intro d hd
        rw [htc hd]
        exact hcurrent
      · intro d q hd
        rw [htc hd]
        exact htable q
    · have hth' := hother hu
      refine (h.known u).frame (hslots u hu) (fun q hq => ?_) (.inl (by rw [hth']))
        (.inl (by rw [hth'])) (fun hsv _ => .inl (by rwa [hth'] at hsv)) (by rw [hth']; exact id)
        fun d hd _ _ => ?_
      · -- another thread's process is another one
        obtain hsame | hmine := hprocs q
        · exact hsame
        · exact absurd (hh.one u t q hq hmine) hu
      · rw [hexec] at hd
        refine ⟨hd,hcpus d ?_⟩
        rintro rfl
        obtain ⟨l',hl'⟩ := hd
        rw [hctx] at hl'
        cases hl'
        exact hu rfl
  · by_cases hc : 0 = c
    · exact hbsp hc.symm
    · rw [(hcpus 0 hc).2]
      exact h.bsp

section Tables

variable (h : Identified σ) (hs : Sound m σ) (hh : Hosting m σ)
include h hs hh

/-- `kthreadResumeRing3Ctx`: the boot shell, on the BSP, finds the boot PML4 loaded. -/
theorem Identified.resume {next : Tpc} (hz : Apart0 σ) (hctx : (σ.cpu c).ctx = .thread t l)
    (hpc : (σ.th t).pc = .knows c (some t) (.resuming next)) :
    Identified ((σ.kthreadResumeRing3Ctx c c t).setPc t next) := by
  have hphase : next.phase = (σ.th t).pc.phase := by
    rw [hpc]
    rfl
  have hused := (hs.placed.exec c t (.intro hctx)).1
  obtain ⟨hhost,heq⟩ | ⟨p,hhost,heq⟩ := kthreadResumeRing3Ctx_cases σ c t
  · rw [heq]
    have hno {q : ℕ} (hq : (σ.th t).hosted = some q) : False := by
      rw [hhost] at hq
      cases hq
    refine h.own (x := { σ.th t with pc := next }) hs hh hctx rfl (fun _ => rfl) (fun _ _ => rfl)
      (fun _ => .inl rfl) (fun _ _ => ⟨rfl,rfl⟩) rfl (fun _ hq => (hno hq).elim)
      (fun _ hq => (hno hq).elim) (fun s q he => ?_) (fun hne => absurd hhost hne)
      (fun _ hq => (hno hq).elim) (fun _ => h.bsp) h.shell
    exact (h.known t).exits s q (hphase.symm.trans he)
  · let y : CPU := { σ.cpu c with currentPoolIdx := some t,
                                  cr3 := if (σ.proc p).pml4 then some p else (σ.cpu c).cr3 }
    have hcpu : ((σ.setCpu c y).setPc t next).cpu = update σ.cpu c y := rfl
    rw [heq]
    refine h.own (x := { σ.th t with pc := next }) hs hh hctx rfl (setCpu_ctx rfl) (fun _ _ => rfl)
      (fun _ => .inl rfl) (fun d hd => ?_) rfl (fun q hq hb => ?_) (fun q hq hm => ?_)
      (fun s q he => ?_) (fun _ _ => ?_) (fun q hq _ hm => ?_) (fun hc => ?_) h.shell
    · rw [hcpu,update_of_ne hd]
      exact ⟨rfl,rfl⟩
    · exact (h.known t).bound q hq (hphase ▸ hb)
    · exact (h.known t).mapped q hq (hphase ▸ hm)
    · exact (h.known t).exits s q (hphase.symm.trans he)
    · rw [hcpu,update_self]
    · have hpml4 := (h.known t).mapped q hq (hphase ▸ hm)
      obtain rfl : p = q := Option.some.inj (hhost.symm.trans hq)
      rw [hcpu,update_self]
      show (if (σ.proc p).pml4 then some p else (σ.cpu c).cr3) = _
      by_cases hshell : p = shellProc
      · -- the boot shell is on the BSP
        have howner := hh.pinned t hused (.inr (hhost.trans (by rw [hshell])))
        have hc : c = 0 := (hs.placed.exec c t (.intro hctx)).2.2.symm.trans howner
        have hno : (σ.proc p).pml4 = false := by rw [hpml4,hshell]; rfl
        rw [hno,pageTable,if_pos hshell,hc]
        exact h.bsp
      · have hyes : (σ.proc p).pml4 = true := by rw [hpml4]; exact decide_eq_true hshell
        rw [hyes,pageTable,if_neg hshell]
        rfl
    · subst hc
      show (if (σ.proc p).pml4 then some p else (σ.cpu 0).cr3) = _
      rw [hz.runs t p (.intro hctx) hhost,h.shell]
      exact h.bsp

theorem Identified.bind (hctx : (σ.cpu c).ctx = .thread t l)
    (hpc : (σ.th t).pc = .knows c (some t) .wrapper) (hhost : (σ.th t).hosted = some p) :
    Identified ((σ.bindSlot t p).setPc t (.resuming .run)) := by
  have hproc (q : ℕ) : ((σ.bindSlot t p).proc q).pml4 = (σ.proc q).pml4 := by
    show (update σ.proc p _ q).pml4 = _
    by_cases hq : q = p
    · subst hq
      rw [update_self]
    · rw [update_of_ne hq]
  refine h.own (x := { σ.th t with pc := .resuming .run }) hs hh hctx rfl (fun _ => rfl)
    (fun u hu => update_of_ne hu ..) (fun q => ?_) (fun _ _ => ⟨rfl,rfl⟩) rfl
    (fun q hq _ => ?_) (fun q hq _ => ?_) nofun nofun nofun (fun _ => h.bsp) ?_
  · by_cases hq : q = p
    · exact .inr (hhost.trans (by rw [hq]))
    · exact .inl (update_of_ne hq ..)
  · obtain rfl : p = q := Option.some.inj (hhost.symm.trans hq)
    refine ⟨update_self ..,?_⟩
    show (update σ.proc p _ p).poolIdx = _
    rw [update_self]
  · have hold := (h.known t).mapped q hq (by rw [hpc]; rfl)
    exact (hproc q).trans hold
  · exact (hproc shellProc).trans h.shell

/-- `processExit` begins: the process it finds is the thread's own. -/
theorem Identified.exitMark (hctx : (σ.cpu c).ctx = .thread t l)
    (hpc : (σ.th t).pc = .knows c none .leaving) (hentry : (σ.th t).entry = .ring3WrapperKT)
    (hcur : σ.currentProc c = some p) :
    Identified ((σ.setProc p { σ.proc p with exited := true }).setPc t (.exiting .marked p)) := by
  have hexec : Executes σ c t := .intro hctx
  have hhost : (σ.th t).hosted = some p := by
    cases hnone : (σ.th t).hosted with
    | none =>
      have hleft := (hh.hosts t).ring3 (hs.placed.exec c t hexec).1 hentry hnone
      rw [hpc] at hleft
      cases hleft
    | some q =>
      have hq := h.currentProc_eq hexec hnone (by rw [hpc]; rfl) (by rw [hpc]; rfl)
      rw [hcur] at hq
      exact hq.symm
  have hproc (q : ℕ) : (update σ.proc p { σ.proc p with exited := true } q).pml4 =
      (σ.proc q).pml4 ∧ (update σ.proc p { σ.proc p with exited := true } q).poolIdx =
      (σ.proc q).poolIdx := by
    by_cases hq : q = p
    · subst hq
      rw [update_self]
      exact ⟨rfl,rfl⟩
    · rw [update_of_ne hq]
      exact ⟨rfl,rfl⟩
  refine h.own (x := { σ.th t with pc := .exiting .marked p }) hs hh hctx rfl (fun _ => rfl)
    (fun _ _ => rfl) (fun q => ?_) (fun _ _ => ⟨rfl,rfl⟩) rfl (fun q hq _ => ?_) (fun q hq _ => ?_)
    (fun s q he => ?_) (fun hne _ => ?_) (fun q hq _ _ => ?_) (fun _ => h.bsp) ?_
  · by_cases hq : q = p
    · exact .inr (hhost.trans (by rw [hq]))
    · exact .inl (update_of_ne hq ..)
  · obtain ⟨hslot,hidx⟩ := (h.known t).bound q hq (by rw [hpc]; rfl)
    exact ⟨hslot,(hproc q).2.trans hidx⟩
  · exact (hproc q).1.trans ((h.known t).mapped q hq (by rw [hpc]; rfl))
  · cases he
    exact hhost
  · exact (h.known t).current c hexec hne (by rw [hpc]; rfl)
  · exact (h.known t).table c q hexec hq (by rw [hpc]; rfl) (by rw [hpc]; rfl)
  · exact (hproc shellProc).1.trans h.shell

/-- `processExit` goes on: it gives up the page table, then the slot, then the thread. -/
theorem Identified.exitGo {s : ExitStage} (hctx : (σ.cpu c).ctx = .thread t l)
    (hpc : (σ.th t).pc = .exiting s p ∨ (σ.th t).pc = .knows c none (.exiting s p))
    (hrun : (σ.cpu c).running = some t) : Identified (σ.exitStep c t p s) := by
  have hexec : Executes σ c t := .intro hctx
  obtain ⟨hphase,hinside⟩ : (σ.th t).pc.phase = .exits s p ∧ (σ.th t).pc.inside = true := by
    obtain hpc | hpc := hpc
    all_goals
      rw [hpc]
      exact ⟨rfl,rfl⟩
  have hhost : (σ.th t).hosted = some p := (h.known t).exits s p hphase
  have hexits {s' : ExitStage} (r : ExitStage) (q : ℕ) (he : Phase.exits s' p = .exits r q) :
      (σ.th t).hosted = some q := by
    cases he
    exact hhost
  have hcurrent (hn : (σ.th t).hosted ≠ none) : (σ.cpu c).currentPoolIdx = some t :=
    (h.known t).current c hexec hn hinside
  cases s with
  | marked =>
    have hold := (h.known t).bound p hhost (by rw [hphase]; rfl)
    cases hpml4 : (σ.proc p).pml4 with
    | false =>
      have heq : σ.exitStep c t p .marked = σ.setPc t (.exiting .unmapped p) := by
        simp only [exitStep,hpml4]
        rfl
      rw [heq]
      refine h.own (x := { σ.th t with pc := .exiting .unmapped p }) hs hh hctx rfl (fun _ => rfl)
        (fun _ _ => rfl) (fun _ => .inl rfl) (fun _ _ => ⟨rfl,rfl⟩) rfl (fun q hq _ => ?_)
        (by rintro _ _ ⟨⟩) hexits (fun hn _ => hcurrent hn) (by rintro _ _ _ ⟨⟩) (fun _ => h.bsp)
        h.shell
      obtain rfl : p = q := Option.some.inj (hhost.symm.trans hq)
      exact hold
    | true =>
      have heq : σ.exitStep c t p .marked = ((σ.setCpu c { σ.cpu c with cr3 := none }).setProc p
          { σ.proc p with pml4 := false }).setPc t (.exiting .unmapped p) := by
        simp only [exitStep,hpml4]
        rfl
      rw [heq]
      have hproc {q : ℕ} (hq : q ≠ p) :
          update σ.proc p { σ.proc p with pml4 := false } q = σ.proc q :=
        update_of_ne hq ..
      refine h.own (x := { σ.th t with pc := .exiting .unmapped p }) hs hh hctx rfl
        (setCpu_ctx rfl) (fun _ _ => rfl) (fun q => ?_) (fun d hd => ?_) rfl (fun q hq _ => ?_)
        (by rintro _ _ ⟨⟩) hexits (fun hn _ => ?_) (by rintro _ _ _ ⟨⟩) (fun hc => ?_) ?_
      · by_cases hq : q = p
        · exact .inr (hhost.trans (by rw [hq]))
        · exact .inl (hproc hq)
      · show (update σ.cpu c _ d).currentPoolIdx = _ ∧ (update σ.cpu c _ d).cr3 = _
        rw [update_of_ne hd]
        exact ⟨rfl,rfl⟩
      · obtain rfl : p = q := Option.some.inj (hhost.symm.trans hq)
        refine ⟨hold.1,?_⟩
        show (update σ.proc p _ p).poolIdx = _
        rw [update_self]
        exact hold.2
      · show (update σ.cpu c _ c).currentPoolIdx = _
        rw [update_self]
        exact hcurrent hn
      · subst hc
        have hcpu := update_self 0 ({ σ.cpu 0 with cr3 := none } : CPU) σ.cpu
        exact congrArg CPU.cr3 hcpu
      · show (update σ.proc p _ shellProc).pml4 = _
        by_cases hq : shellProc = p
        · rw [hq,update_self]
        · rw [hproc hq]
          exact h.shell
  | unmapped =>
    have hidx := ((h.known t).bound p hhost (by rw [hphase]; rfl)).2
    have heq : σ.exitStep c t p .unmapped =
        ({ σ.setProc p { σ.proc p with poolIdx := none } with
          procByPoolSlot := update σ.procByPoolSlot t none, procByTask := none } :
            Sched).setPc t (.exiting .unbound p) := by
      simp only [exitStep,hidx]
    rw [heq]
    refine h.own (x := { σ.th t with pc := .exiting .unbound p }) hs hh hctx rfl (fun _ => rfl)
      (fun u hu => update_of_ne hu ..) (fun q => ?_) (fun _ _ => ⟨rfl,rfl⟩) rfl
      (by rintro _ _ ⟨⟩) (by rintro _ _ ⟨⟩) hexits (fun hn _ => hcurrent hn)
      (by rintro _ _ _ ⟨⟩) (fun _ => h.bsp) ?_
    · by_cases hq : q = p
      · exact .inr (hhost.trans (by rw [hq]))
      · exact .inl (update_of_ne hq ..)
    · show (update σ.proc p _ shellProc).pml4 = _
      by_cases hq : shellProc = p
      · rw [← hq]
        exact h.shell
      · rw [update_of_ne hq]
        exact h.shell
  | unbound =>
    have hth : (σ.exitStep c t p .unbound).th = update σ.th t
        { σ.th t with frames := (σ.th t).frames.drop 1,
                      pc := .knows c none (.exiting .counted p) } := by
      show update (update σ.th t _) t { update σ.th t _ t with pc := _ } = _
      rw [update_idem,update_self]
    refine h.own hs hh hctx hth (setCpu_ctx rfl) (fun _ _ => rfl) (fun _ => .inl rfl)
      (fun d hd => ?_) rfl (by rintro _ _ ⟨⟩) (by rintro _ _ ⟨⟩) hexits (fun hn _ => ?_)
      (by rintro _ _ _ ⟨⟩) (fun hc => ?_) h.shell
    · show (update σ.cpu c _ d).currentPoolIdx = _ ∧ (update σ.cpu c _ d).cr3 = _
      rw [update_of_ne hd]
      exact ⟨rfl,rfl⟩
    · show (update σ.cpu c _ c).currentPoolIdx = _
      rw [update_self]
      exact hcurrent hn
    · subst hc
      exact h.bsp
  | counted =>
    rw [exitStep_counted hrun]
    exact h.own (x := { σ.th t with hosted := none, pc := .finishing }) hs hh hctx rfl
      (fun _ => rfl) (fun _ _ => rfl) (fun _ => .inl rfl) (fun _ _ => ⟨rfl,rfl⟩) rfl
      (by rintro _ ⟨⟩) (by rintro _ ⟨⟩) (by rintro _ _ ⟨⟩) (fun hn _ => absurd rfl hn)
      (by rintro _ ⟨⟩) (fun _ => h.bsp) h.shell

omit hs in
/-- A new process: nobody hosts it yet. -/
theorem Identified.built {u : Tid} {k : Tier} {σ₁ : Sched}
    (hspawn : Spawns m σ u k d σ₁) (hu : σ'.th u = σ₁.th u) (hprocs : σ'.proc = σ₁.proc)
    (hslots : σ'.procByPoolSlot = σ₁.procByPoolSlot)
    (hcpus : ∀ e, (σ'.cpu e).currentPoolIdx = (σ.cpu e).currentPoolIdx ∧
      (σ'.cpu e).cr3 = (σ.cpu e).cr3)
    (hexec : ∀ e v, Executes σ' e v → Executes σ e v ∧ v ≠ u)
    (hold : ∀ v, v ≠ u → (σ'.th v).hosted = (σ.th v).hosted ∧ (σ'.th v).saved = (σ.th v).saved ∧
      (σ'.th v).pc.phase = (σ.th v).pc.phase ∧ (σ'.th v).pc.inside = (σ.th v).pc.inside) :
    Identified σ' := by
  have hnone := ((hh.hosts u).free hspawn.free).1
  have hnew := hspawn.hosted hnone
  have hsame : σ₁.procByPoolSlot = σ.procByPoolSlot := by
    cases hspawn <;> rfl
  -- the process of the new thread starts with the page table it should have
  have hproc : (∀ q, (σ₁.th u).hosted = some q → (σ₁.proc q).pml4 = decide (q ≠ shellProc)) ∧
      (∀ v q, (σ.th v).hosted = some q → σ₁.proc q = σ.proc q) ∧
      (σ₁.proc shellProc).pml4 = false := by
    cases hspawn with
    | service =>
      refine ⟨fun q hq => ?_,fun _ _ _ => rfl,h.shell⟩
      obtain ⟨-,hhost,-⟩ | ⟨-,-,hk,-⟩ | ⟨-,-,hk,-⟩ := hnew
      · rw [hhost] at hq
        cases hq
      · cases hk
      · cases hk
    | shell hfree hfirst =>
      have hself : (update σ.proc shellProc
          { pml4 := false, poolIdx := none, exited := false } shellProc).pml4 = false := by
        rw [update_self]
      refine ⟨fun q hq => ?_,fun v q hq => update_of_ne ?_ ..,hself⟩
      · change (update σ.th u _ u).hosted = some q at hq
        rw [update_self] at hq
        obtain rfl : shellProc = q := Option.some.inj hq
        exact hself
      · rintro rfl
        have := (hh.known v shellProc hq).2 rfl
        rw [hfirst] at this
        cases this
    | ring3 hfree =>
      refine ⟨fun q hq => ?_,fun v q hq => update_of_ne ?_ ..,?_⟩
      · change (update σ.th u _ u).hosted = some q at hq
        rw [update_self] at hq
        obtain rfl : σ.nextProc = q := Option.some.inj hq
        show (update σ.proc σ.nextProc _ σ.nextProc).pml4 = _
        rw [update_self]
        exact (decide_eq_true hh.pos.ne').symm
      · exact (hh.known v q hq).1.ne
      · show (update σ.proc σ.nextProc _ shellProc).pml4 = _
        have hne : shellProc ≠ σ.nextProc := hh.pos.ne
        rw [update_of_ne hne]
        exact h.shell
  obtain ⟨x,hx⟩ := hspawn.built
  have hself : σ'.th u = x := by rw [hu,hx.th,update_self]
  have hstart {q : ℕ} (hq : (σ'.th u).hosted = some q) : (σ'.th u).pc = .wrapper := by
    rw [hself,hx.pc]
    rw [hu,hx.th,update_self] at hq
    rw [hx.th,update_self] at hnew
    obtain ⟨-,hhost,-⟩ | ⟨hentry,-⟩ | ⟨hentry,-⟩ := hnew
    · rw [hhost] at hq
      cases hq
    · rw [hentry]
      rfl
    · rw [hentry]
      rfl
  refine ⟨fun v => ?_,by rw [(hcpus 0).2]; exact h.bsp,by rw [hprocs]; exact hproc.2.2⟩
  by_cases hv : v = u
  · subst hv
    constructor
    · intro p hp hb
      rw [hstart hp] at hb
      cases hb
    · intro p hp _
      rw [hprocs]
      exact hproc.1 p (hu ▸ hp)
    · intro s q he
      rw [hself,hx.pc] at he
      cases hentry : x.entry with
      | service | ring3WrapperKT =>
        rw [hentry] at he
        cases he
    · intro _ hp
      obtain ⟨q,hq⟩ := Option.ne_none_iff_exists'.mp hp
      rw [hstart hq]
      rfl
    · exact fun e he => absurd rfl (hexec e v he).2
    · exact fun e _ he => absurd rfl (hexec e v he).2
  · obtain ⟨hhost,hsaved,hphase,hinside⟩ := hold v hv
    exact (h.known v).frame (by rw [hslots,hsame]) (fun q hq => by rw [hprocs,hproc.2.1 v q hq])
      (.inl hhost) (.inl hphase) (fun hsv _ => .inl (by rwa [hsaved] at hsv))
      (by rw [hinside]; exact id) fun e he _ _ => ⟨(hexec e v he).1,hcpus e⟩

theorem Identified.builds (hb : Builds m σ c σ') : Identified σ' := by
  cases hb with
  | @boot u k d σ₁ hctx hc hspawn =>
    have hcpu : (σ₁.setCtx c (.boot (.spawning u k d))).cpu =
        update σ.cpu c { σ.cpu c with ctx := .boot (.spawning u k d) } := by
      show update σ₁.cpu c { σ₁.cpu c with ctx := _ } = _
      rw [hspawn.cpu_eq]
    refine h.built hh hspawn rfl rfl rfl (fun e => ?_) (fun e v he => ?_) (fun v hv => ?_)
    · rw [hcpu]
      refine cpus_update ?_ e
      exact ⟨rfl,rfl⟩
    · have hexec : Executes σ e v := by
        obtain ⟨l,hl⟩ := he
        rw [hcpu] at hl
        by_cases hec : e = c
        · subst hec
          rw [update_self] at hl
          cases hl
        · rw [update_of_ne hec] at hl
          exact ⟨l,hl⟩
      refine ⟨hexec,?_⟩
      rintro rfl
      have hused := (hs.placed.exec e v hexec).1
      rw [hspawn.free] at hused
      cases hused
    · have hth : (σ₁.setCtx c (.boot (.spawning u k d))).th v = σ.th v := hspawn.th_of_ne hv
      rw [hth]
      exact ⟨rfl,rfl,rfl,rfl⟩
  | @thread t l u k d σ₁ hctx hpc hspawn hk =>
    have hcpu : (σ₁.setPc t (.spawning u k d)).cpu = σ.cpu := hspawn.cpu_eq
    have hused {e : ℕ} {v : Tid} (hexec : Executes σ e v) : v ≠ u := by
      rintro rfl
      have hused := (hs.placed.exec e v hexec).1
      rw [hspawn.free] at hused
      cases hused
    refine h.built hh hspawn (setPc_of_ne (hused (.intro hctx)).symm) rfl rfl (fun e => ?_)
      (fun e v he => ?_) (fun v hv => ?_)
    · rw [hcpu]
      exact ⟨rfl,rfl⟩
    · rw [Executes,hcpu] at he
      exact ⟨he,hused he⟩
    · by_cases hvt : v = t
      · subst hvt
        rw [setPc_self,hspawn.th_of_ne hv,hpc]
        exact ⟨rfl,rfl,rfl,rfl⟩
      · rw [setPc_of_ne hvt,hspawn.th_of_ne hv]
        exact ⟨rfl,rfl,rfl,rfl⟩

/-- Every move keeps the tables, with an AP online. -/
theorem Identified.step_does (hz : Apart0 σ) (hdoes : Does m σ c a σ' obs) : Identified σ' := by
  by_cases hb : Builds m σ c σ'
  · exact h.builds hs hh hb
  by_cases hr : ∃ t l, (σ.cpu c).ctx = .thread t l ∧ Rebinds σ c t σ'
  · obtain ⟨t,l,hctx,hr⟩ := hr
    cases hr with
    | resume hpc => exact h.resume hs hh hz hctx hpc
    | bind hpc hhost => exact h.bind hs hh hctx hpc hhost
    | exitMark hpc hentry hproc => exact h.exitMark hs hh hctx hpc hentry hproc
    | exitGo hpc hrun => exact h.exitGo hs hh hctx hpc hrun
  · exact h.plain hs hh hdoes hb fun t l hctx h => hr ⟨t,l,hctx,h⟩

end Tables

/-- What holds in every state of an orderly run with an AP online. -/
theorem identified_of_orderly (hn : 1 < m.numCoresOnline) {es : List (ℕ × Act)}
    (hrun : Meets (Sched.step m) (fun σ e => orderly m σ e = true) boot es) :
    Identified (exec (Sched.step m) boot es) := by
  refine (hrun.inv (I := fun σ => Sound m σ ∧ Hosting m σ ∧ Apart0 σ ∧ Identified σ)
    (fun σ e h hord => ?_) ⟨sound_boot m,hosting_boot m,apart0_boot,identified_boot⟩).2.2.2
  obtain ⟨hs,hh,hz,hi⟩ := h
  refine ⟨hs.step e hord,hh.step hs e hord,?_⟩
  obtain heq | ⟨-,hdoes⟩ := hs.does e hord
  · rw [heq]
    exact ⟨hz,hi⟩
  · exact ⟨hz.step_does hs hh hdoes hn,hi.step_does hs hh hz hdoes⟩

/-- With an AP online, in an orderly run, a CPU that executes a thread for its process
finds that process as the current one, from the first resume until `processExit` clears
the slot, and has its page table loaded until `processExit` frees it. -/
theorem currentProc_of_orderly (m : Machine) (hn : 1 < m.numCoresOnline) (es : List (ℕ × Act))
    (hrun : Meets (Sched.step m) (fun σ e => orderly m σ e = true) boot es) (c : ℕ) (t : Tid)
    (p : ℕ) (hexec : Executes (exec (Sched.step m) boot es) c t)
    (hhost : ((exec (Sched.step m) boot es).th t).hosted = some p)
    (hinside : ((exec (Sched.step m) boot es).th t).pc.inside = true) :
    (((exec (Sched.step m) boot es).th t).pc.phase.bound = true →
      (exec (Sched.step m) boot es).currentProc c = some p) ∧
    (((exec (Sched.step m) boot es).th t).pc.phase.mapped = true →
      ((exec (Sched.step m) boot es).cpu c).cr3 = pageTable p) := by
  have h := identified_of_orderly hn hrun
  exact ⟨h.currentProc_eq hexec hhost hinside,(h.known t).table c p hexec hhost hinside⟩

/-- The child on the AP, and the boot shell beside it. -/
theorem currentProc_of_orderly_child :
    (exec (Sched.step threeCores) boot childOnAp).currentProc 1 = some 1 ∧
    ((exec (Sched.step threeCores) boot childOnAp).cpu 0).cr3 = pageTable shellProc :=
  ⟨(currentProc_of_orderly threeCores (by decide) childOnAp (by decide +kernel) 1 1 1
      ⟨.kschedLoopRing3Only,by decide +kernel⟩ (by decide +kernel) (by decide +kernel)).1
      (by decide +kernel),
    (currentProc_of_orderly threeCores (by decide) childOnAp (by decide +kernel) 0 0 shellProc
      ⟨.kschedLoopRing3OnlyOnce,by decide +kernel⟩ (by decide +kernel) (by decide +kernel)).2
      (by decide +kernel)⟩

def oneCore : Machine := ⟨1,by decide,by decide⟩

/-- On the only CPU, the boot shell starts a child and yields to it, and the child yields
back. -/
def childOnBsp : List (ℕ × Act) :=
  [(0,.spawnShell),(0,.go)]++(0,.poll .kschedLoopRing3OnlyOnce)::List.replicate 7 (0,.go)++
  [(0,.syscall),(0,.spawnRing3),(0,.go),(0,.yield)]++List.replicate 5 (0,.go)++
  (0,.poll .kschedLoopRing3OnlyOnce)::List.replicate 7 (0,.go)++
  [(0,.syscall),(0,.yield)]++List.replicate 5 (0,.go)++
  (0,.poll .kschedLoopRing3OnlyOnce)::List.replicate 4 (0,.go)

/-- The boot shell then goes on in its system call with the child's page table loaded. -/
theorem shell_keeps_child_table :
    ((exec (Sched.step oneCore) boot childOnBsp).cpu 0).ctx = .thread 0 .kschedLoopRing3OnlyOnce ∧
    ((exec (Sched.step oneCore) boot childOnBsp).th 0).hosted = some shellProc ∧
    ((exec (Sched.step oneCore) boot childOnBsp).th 0).pc = .run ∧
    ((exec (Sched.step oneCore) boot childOnBsp).cpu 0).cr3 = some 1 ∧
    pageTable shellProc = none := by
  decide +kernel

end Gooos.Ksched
