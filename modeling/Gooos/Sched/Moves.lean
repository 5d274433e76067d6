import Mathlib
import Gooos.Sched.Steps
import Gooos.Lib.Trace

/-!
# What a step can do

Every step of the scheduler is one of the moves listed here, as long as what a thread has
read of its CPU is still so when it goes on with it. The invariants are proved move by
move and never unfold the step function.
-/

namespace Gooos.Ksched

open Sched Function
open Function (update)

/-- The threads a bootstrap context has in hand: popped and not yet run, or built and not
yet pushed. -/
def Dpc.held : Dpc → List Tid
  | .popped t _ => [t]
  | .spawning t _ _ => [t]
  | _ => []

def Ctx.held : Ctx → List Tid
  | .boot pc => pc.held
  | .thread _ _ => []

/-- A new thread `u` with the tier and CPU it is to be pushed to. -/
inductive Spawns (m : Machine) (σ : Sched) : Tid → Tier → ℕ → Sched → Prop where
  | service {u : Tid} (hfree : (σ.th u).used = false) :
      Spawns m σ u .service 0 (σ.kschedSpawnInternal u .service none)
  | shell {u : Tid} (hfree : (σ.th u).used = false) (hfirst : σ.shellSpawned = false) :
      Spawns m σ u .ring3 0 (σ.spawnBootShell u)
  | ring3 {u : Tid} (hfree : (σ.th u).used = false) :
      Spawns m σ u .ring3 (ring3Target m σ) (σ.spawnRing3Wrapper m u)

/-- What the thread has read of its CPU is so: it is still there, and runs. -/
def Tpc.current (c : ℕ) (t : Tid) : Tpc → Bool
  | .knows cpu none _ => decide (cpu = c)
  | .knows cpu (some u) _ => decide (cpu = c ∧ u = t)
  | _ => true

/-- No thread goes on with what it has read on another CPU. -/
def fresh (σ : Sched) (e : ℕ × Act) : Bool :=
  match (σ.cpu e.1).ctx with
  | .boot _ => true
  | .thread t _ => decide (e.2 ≠ .go) || (σ.th t).pc.current e.1 t

/-- Only an idle dispatcher has entries open in its bootstrap context, and
`kschedRunning` is the thread a CPU executes. -/
structure Coherent (σ : Sched) : Prop where
  idle : ∀ c, (σ.cpu c).frames ≠ [] → (σ.cpu c).ctx = .boot .idle
  runs : ∀ c t l, (σ.cpu c).ctx = .thread t l → (σ.cpu c).running = some t

theorem coherent_boot : Coherent boot := ⟨fun _ h => absurd rfl h,nofun⟩

/-- A running thread `x` goes on from one point of its code to another. -/
inductive Hops (c : ℕ) (t : Tid) (x : KThread) : Tpc → Tpc → Prop where
  | stay (p : Tpc) : Hops c t x p p
  | retried (o : Op) : Hops c t x (.retry o) .run
  | woken : Hops c t x (.waking []) .run
  | halt : Hops c t x .run .halted
  | lost : Hops c t x (.knows c none .leaving) .halted
  | yield : Hops c t x .run .yielding
  | exit (hkernel : inKernel x = true) (hentry : x.entry = .ring3WrapperKT) :
      Hops c t x .run .leaving
  -- it reads the number of its CPU, and finds itself running there
  | cpu (p : Tpc) : Hops c t x p (.knows c none p)
  | thread (p : Tpc) : Hops c t x (.knows c none p) (.knows c (some t) p)

/-- A running thread touches the slot table, its process or the loaded page table. -/
inductive Rebinds (σ : Sched) (c : ℕ) (t : Tid) : Sched → Prop where
  | resume {next : Tpc} (hpc : (σ.th t).pc = .knows c (some t) (.resuming next)) :
      Rebinds σ c t ((σ.kthreadResumeRing3Ctx c c t).setPc t next)
  | bind {p : ℕ} (hpc : (σ.th t).pc = .knows c (some t) .wrapper)
      (hhost : (σ.th t).hosted = some p) :
      Rebinds σ c t ((σ.bindSlot t p).setPc t (.resuming .run))
  | exitMark {p : ℕ} (hpc : (σ.th t).pc = .knows c none .leaving)
      (hentry : (σ.th t).entry = .ring3WrapperKT) (hproc : σ.currentProc c = some p) :
      Rebinds σ c t
        ((σ.setProc p { σ.proc p with exited := true }).setPc t (.exiting .marked p))
  | exitGo {s : ExitStage} {p : ℕ}
      (hpc : (σ.th t).pc = .exiting s p ∨ (σ.th t).pc = .knows c none (.exiting s p))
      (hrun : (σ.cpu c).running = some t) : Rebinds σ c t (σ.exitStep c t p s)

/-- The moves of a running thread that concern no other thread. -/
inductive Alone (σ : Sched) (c : ℕ) (t : Tid) : Act → Sched → List Obs → Prop where
  | stay (a : Act) : Alone σ c t a σ []
  | hop {a : Act} {p : Tpc} (h : Hops c t (σ.th t) (σ.th t).pc p) :
      Alone σ c t a (σ.setPc t p) []
  | finish {a : Act} (hpc : (σ.th t).pc = .run ∧ (σ.th t).entry = .service ∨
      (σ.th t).pc = .knows c (some t) .wrapper ∧ (σ.th t).hosted = none) :
      Alone σ c t a (σ.setPc t .finishing) []
  | rebinds {σ' : Sched} (h : Rebinds σ c t σ') : Alone σ c t .go σ' []
  -- interrupts and system calls
  | syscall (hpc : (σ.th t).pc = .run) (hring3 : inKernel (σ.th t) = false) :
      Alone σ c t .syscall (σ.enter c t .syscall .run) []
  | irq {v : Vec} {obs : List Obs} (hv : v ≠ .syscall) (hmask : (σ.th t).pc.masked = false)
      (hskip : v = .preempt → (σ.enter c t v (.irq (σ.th t).pc)).preemptYields c = false)
      (hobs : obs = if v = .preempt then [.preempt c t false] else []) :
      Alone σ c t (.irq v) (σ.enter c t v (.irq (σ.th t).pc)) obs
  | iret {p : Tpc} {v : Vec} {vs : List Vec} (hpc : (σ.th t).pc = .irq p)
      (hframes : (σ.th t).frames = v::vs) : Alone σ c t .iret (σ.leave c t v vs p) []
  | sysret {v : Vec} {vs : List Vec} (hpc : (σ.th t).pc = .run)
      (hframes : (σ.th t).frames = v::vs) : Alone σ c t .iret (σ.leave c t v vs .run) []

/-- The moves of the thread that CPU `c` executes. -/
inductive ThreadDoes (m : Machine) (σ : Sched) (c : ℕ) (t : Tid) (l : Loop) :
    Act → Sched → List Obs → Prop where
  | alone {a : Act} {σ' : Sched} {obs : List Obs} (h : Alone σ c t a σ' obs) :
      ThreadDoes m σ c t l a σ' obs
  -- blocking calls
  | park {a : Act} {w : WaitList} {o : Op}
      (hpc : (σ.th t).pc = .run ∨ ∃ o, (σ.th t).pc = .retry o) :
      ThreadDoes m σ c t l a (σ.park t w o) []
  | take {a : Act} {w : WaitList} {n : ℕ} {flag : ℕ → Bool} {count : ℕ → ℕ}
      (hpc : (σ.th t).pc = .run ∨ ∃ o, (σ.th t).pc = .retry o) :
      ThreadDoes m σ c t l a { σ.take t w n with flag := flag, count := count } []
  | wake {u : Tid} {us : List Tid} (hpc : (σ.th t).pc = .waking (u::us)) :
      ThreadDoes m σ c t l .go ((σ.kschedWake u).setPc t (.waking us)) []
  -- spawns and yields
  | push {u : Tid} {k : Tier} {cpu : ℕ} (hpc : (σ.th t).pc = .spawning u k cpu) :
      ThreadDoes m σ c t l .go ((σ.kschedPush k u cpu).setPc t .run) []
  | made {u : Tid} {k : Tier} {cpu : ℕ} {σ₁ : Sched} (hpc : (σ.th t).pc = .run)
      (hspawn : Spawns m σ u k cpu σ₁) (hk : k = .ring3 ∧ cpu = ring3Target m σ) :
      ThreadDoes m σ c t l .spawnRing3 (σ₁.setPc t (.spawning u k cpu)) []
  | yield (hpc : (σ.th t).pc = .knows c (some t) .yielding) :
      ThreadDoes m σ c t l .go (σ.kschedYield c t t .run) []
  | preempt (hmask : (σ.th t).pc.masked = false)
      (hyields : (σ.enter c t .preempt (.irq (σ.th t).pc)).preemptYields c = true) :
      ThreadDoes m σ c t l (.irq .preempt)
        ((σ.enter c t .preempt (.irq (σ.th t).pc)).kschedYield c t t (.irq (σ.th t).pc))
        [.preempt c t true]
  -- switches
  | switch {next : Tpc} (hpc : (σ.th t).pc = .toSwitch next) :
      ThreadDoes m σ c t l .go (σ.switchOut c t l (.resuming next)) []
  | last (hpc : (σ.th t).pc = .exitSwitch) :
      ThreadDoes m σ c t l .go (σ.switchOut c t l .dead) []
  | ending (hpc : (σ.th t).pc = .knows c (some t) .finishing) :
      ThreadDoes m σ c t l .go (σ.kschedExit t t) []

/-- The moves of the bootstrap context of CPU `c`. -/
inductive BootDoes (m : Machine) (σ : Sched) (c : ℕ) :
    Dpc → Act → Sched → List Obs → Prop where
  | stay (pc : Dpc) (a : Act) : BootDoes m σ c pc a σ []
  | irq {v : Vec} (hframes : (σ.cpu c).frames = []) :
      BootDoes m σ c .idle (.irq v) (σ.bootIrq c v) []
  | iret {pc : Dpc} {v : Vec} {vs : List Vec} (hframes : (σ.cpu c).frames = v::vs) :
      BootDoes m σ c pc .iret (σ.bootIret c v vs) []
  | pop {l : Loop} {t : Tid} {ts : List Tid} (hpolls : σ.polls c l = true)
      (hready : σ.ready l.tier c = t::ts) : BootDoes m σ c .idle (.poll l)
        ((σ.setReady l.tier c ts).setCtx c (.boot (.popped t l))) []
  | steal {i : ℕ} {t : Tid} {ts : List Tid} (hi : i < m.numCoresOnline)
      (hsrc : (c+i)%m.numCoresOnline ≠ 0)
      (hready : σ.ready .ring3 ((c+i)%m.numCoresOnline) = t::ts) :
      BootDoes m σ c (.stealing i) .go ((σ.setReady .ring3 ((c+i)%m.numCoresOnline) ts).setCtx c
        (.boot (.popped t .kschedLoopRing3Only))) []
  | look {a : Act} {pc pc' : Dpc} (hheld : pc.held = []) (hfrom : ∀ t l, pc ≠ .returned t l)
      (hheld' : pc'.held = []) (hto : ∀ t l, pc' ≠ .returned t l)
      (hsteal : ∀ i, pc' = .stealing i → c ≠ 0 ∨ ∃ j, pc = .stealing j) :
      BootDoes m σ c pc a (σ.setCtx c (.boot pc')) []
  | reap {t : Tid} {l : Loop} (hstate : (σ.th t).state = .exiting) :
      BootDoes m σ c (.popped t l) .go ((σ.kthreadPoolFree t).setCtx c (.boot .idle)) []
  | dispatch {t : Tid} {l : Loop} (hstate : (σ.th t).state ≠ .exiting) :
      BootDoes m σ c (.popped t l) .go (σ.dispatch c t l) [.switchIn c t (σ.th t).saved]
  | back {t : Tid} {l : Loop} : BootDoes m σ c (.returned t l) .go (σ.returnStep c t l) []
  | made {a : Act} {u : Tid} {k : Tier} {cpu : ℕ} {σ₁ : Sched} (hc : c = 0)
      (hspawn : Spawns m σ u k cpu σ₁) :
      BootDoes m σ c .idle a (σ₁.setCtx c (.boot (.spawning u k cpu))) []
  | push {u : Tid} {k : Tier} {cpu : ℕ} : BootDoes m σ c (.spawning u k cpu) .go
      ((σ.kschedPush k u cpu).setCtx c (.boot .idle)) []

/-- The moves of CPU `c`. -/
inductive Does (m : Machine) (σ : Sched) (c : ℕ) (a : Act) (σ' : Sched) (obs : List Obs) :
    Prop where
  | boot {pc : Dpc} (hctx : (σ.cpu c).ctx = .boot pc) (h : BootDoes m σ c pc a σ' obs)
  | thread {t : Tid} {l : Loop} (hctx : (σ.cpu c).ctx = .thread t l)
      (h : ThreadDoes m σ c t l a σ' obs)

variable {m : Machine} {σ : Sched} {c : ℕ}

theorem kthreadPoolAlloc_free {t : Tid} (h : σ.kthreadPoolAlloc = some t) :
    (σ.th t).used = false := by
  have := List.find?_some h
  simpa using this

theorem does_bootSpawn (a : Act) (hc : c = 0) : BootDoes m σ c .idle a (σ.bootSpawn m c a) [] := by
  have hhalt : BootDoes m σ c .idle a (σ.setCtx c (.boot .halted)) [] :=
    .look rfl (by nofun) rfl (by nofun) (by nofun)
  cases a with
  | spawnService =>
    simp only [bootSpawn]
    split
    · exact hhalt
    · rename_i t ht
      exact .made hc (.service (kthreadPoolAlloc_free ht))
  | spawnShell =>
    simp only [bootSpawn]
    split
    · exact .stay ..
    · rename_i hshell
      split
      · exact hhalt
      · rename_i t ht
        exact .made hc (.shell (kthreadPoolAlloc_free ht) (by simpa using hshell))
  | spawnRing3 =>
    simp only [bootSpawn]
    split
    · exact hhalt
    · rename_i t ht
      exact .made hc (.ring3 (kthreadPoolAlloc_free ht))
  | _ => exact .stay ..

theorem does_poll {l : Loop} (hpolls : σ.polls c l = true) :
    BootDoes m σ c .idle (.poll l) (σ.pollStep c l) [] := by
  rw [pollStep]
  split
  · rename_i t ts hready
    exact .pop hpolls hready
  · split
    · rename_i hl
      refine .look rfl (by nofun) rfl (by nofun) fun i _ => .inl ?_
      -- the BSP does not run the loop that steals
      rintro rfl
      subst hl
      simp [polls] at hpolls
    · exact .stay ..

theorem does_steal {i : ℕ} : BootDoes m σ c (.stealing i) .go (σ.stealStep m c i) [] := by
  have hnext (pc' : Dpc) (hheld : pc'.held = []) (hto : ∀ t l, pc' ≠ .returned t l) :
      BootDoes m σ c (.stealing i) .go (σ.setCtx c (.boot pc')) [] :=
    .look rfl (by nofun) hheld hto fun _ _ => .inr ⟨i,rfl⟩
  rw [stealStep]
  split
  · rename_i hi
    dsimp only
    split
    · exact hnext _ rfl (by nofun)
    · rename_i hsrc
      split
      · rename_i t ts hready
        exact .steal hi hsrc hready
      · exact hnext _ rfl (by nofun)
  · exact hnext _ rfl (by nofun)

theorem does_boot (pc : Dpc) (a : Act) :
    BootDoes m σ c pc a (σ.stepBoot m c pc a).1 (σ.stepBoot m c pc a).2 := by
  cases hf : (σ.cpu c).frames with
  | cons v vs =>
    simp only [stepBoot,hf]
    by_cases ha : a = .iret
    · subst ha
      exact .iret hf
    · rw [if_neg ha]
      exact .stay ..
  | nil =>
    simp only [stepBoot,hf]
    split
    · split
      · rename_i hpolls
        exact does_poll hpolls
      · exact .stay ..
    · split
      · exact .stay ..
      · exact .irq hf
    · split
      · rename_i hc
        exact does_bootSpawn _ hc
      · exact .stay ..
    · exact does_steal
    · rw [dispatchStep]
      split
      · rename_i hstate
        exact .reap hstate
      · rename_i hstate
        exact .dispatch hstate
    · exact .back
    · exact .push
    · exact .stay ..

section Thread

variable {t : Tid} {l : Loop}

theorem does_hop {a : Act} {p q : Tpc} (hpc : (σ.th t).pc = p) (h : Hops c t (σ.th t) p q) :
    ThreadDoes m σ c t l a (σ.setPc t q) [] :=
  .alone (.hop (hpc ▸ h))

theorem does_stay {a : Act} : ThreadDoes m σ c t l a σ [] := .alone (.stay a)

theorem does_op (a : Act) (o : Op) (hpc : (σ.th t).pc = .run ∨ ∃ o, (σ.th t).pc = .retry o) :
    ThreadDoes m σ c t l a (σ.opSection t o) [] := by
  have hdone : ThreadDoes m σ c t l a (σ.setPc t .run) [] := by
    obtain hpc | ⟨o,hpc⟩ := hpc
    · exact does_hop hpc (.stay _)
    · exact does_hop hpc (.retried o)
  have htake (w : WaitList) (n : ℕ) (flag : ℕ → Bool) (count : ℕ → ℕ) :
      ThreadDoes m σ c t l a { σ.take t w n with flag := flag, count := count } [] := .take hpc
  have hcount (q n : ℕ) (w : WaitList) :
      ThreadDoes m σ c t l a ((σ.setCount q n).take t w 1) [] :=
    htake w 1 σ.flag (update σ.count q n)
  cases o with
  | wait e =>
    simp only [opSection]
    split
    · exact hdone
    · exact .park hpc
  | signal e => exact htake _ _ (update σ.flag e true) σ.count
  | push q =>
    simp only [opSection]
    split
    · exact hcount _ _ _
    · exact .park hpc
  | tryPush | tryPop =>
    simp only [opSection]
    split
    · exact hcount _ _ _
    · exact hdone
  | pop q =>
    simp only [opSection]
    split
    · exact hcount _ _ _
    · split
      · exact .park hpc
      · exact .park hpc

/-- A thread goes on with the CPU number it has read. -/
theorem does_goCpu {p : Tpc} (hrun : (σ.cpu c).running = some t)
    (hpc : (σ.th t).pc = .knows c none p) : ThreadDoes m σ c t l .go (σ.goCpu t c p) [] := by
  cases p with
  | leaving =>
    simp only [goCpu,processExit]
    split
    · rename_i p hentry hproc
      exact .alone (.rebinds (.exitMark hpc hentry hproc))
    · exact does_hop hpc .lost
  | exiting s p => exact .alone (.rebinds (.exitGo (.inr hpc) hrun))
  | _ =>
    simp only [goCpu,hrun]
    exact does_hop hpc (.thread _)

/-- And with the thread it has found there, which is itself. -/
theorem does_goThread {p : Tpc} (hpc : (σ.th t).pc = .knows c (some t) p) :
    ThreadDoes m σ c t l .go (σ.goThread c t c t p) [] := by
  cases p with
  | yielding => exact .yield hpc
  | resuming next => exact .alone (.rebinds (.resume hpc))
  | wrapper =>
    simp only [goThread]
    split
    · rename_i hhost
      exact .alone (.finish (.inr ⟨hpc,hhost⟩))
    · rename_i p hhost
      exact .alone (.rebinds (.bind hpc hhost))
  | finishing => exact .ending hpc
  | _ => exact does_stay

theorem does_go (hrun : (σ.cpu c).running = some t) (hcur : (σ.th t).pc.current c t = true) :
    ThreadDoes m σ c t l .go (σ.threadGo c t l (σ.th t).pc) [] := by
  cases hpc : (σ.th t).pc with
  | run | irq | dead | halted => exact does_stay
  | wrapper | resuming | yielding | leaving | finishing => exact does_hop hpc (.cpu _)
  | retry o => exact does_op _ o (.inr ⟨o,hpc⟩)
  | waking ws =>
    cases ws with
    | nil => exact does_hop hpc .woken
    | cons u us => exact .wake hpc
  | spawning u k cpu => exact .push hpc
  | toSwitch next => exact .switch hpc
  | exiting s p =>
    cases s with
    | unbound => exact does_hop hpc (.cpu _)
    | marked | unmapped | counted => exact .alone (.rebinds (.exitGo (.inl hpc) hrun))
  | exitSwitch => exact .last hpc
  | knows cpu u p =>
    rw [hpc] at hcur
    cases u with
    | none =>
      obtain rfl : cpu = c := of_decide_eq_true hcur
      exact does_goCpu hrun hpc
    | some u =>
      obtain ⟨rfl,rfl⟩ : cpu = c ∧ u = t := of_decide_eq_true hcur
      exact does_goThread hpc

theorem does_irq (v : Vec) (hv : v ≠ .syscall) (hmask : (σ.th t).pc.masked = false) :
    ThreadDoes m σ c t l (.irq v) (σ.threadIrq c t v (σ.th t).pc).1
      (σ.threadIrq c t v (σ.th t).pc).2 := by
  simp only [threadIrq]
  by_cases hp : v = .preempt
  · subst hp
    rw [if_pos rfl]
    split
    · rename_i hyields
      exact .preempt hmask hyields
    · rename_i hno
      exact .alone (.irq hv hmask (fun _ => by simpa using hno) (if_pos rfl).symm)
  · rw [if_neg hp]
    exact .alone (.irq hv hmask (fun h => absurd h hp) (if_neg hp).symm)

theorem does_iret : ThreadDoes m σ c t l .iret (σ.threadIret c t) [] := by
  rw [threadIret]
  split
  · rename_i p v vs hpc hframes
    exact .alone (.iret hpc hframes)
  · rename_i v vs hpc hframes
    exact .alone (.sysret hpc hframes)
  · exact does_stay

theorem does_exit (hpc : (σ.th t).pc = .run) (hkernel : inKernel (σ.th t) = true) :
    ThreadDoes m σ c t l .exit (σ.exitCall t) [] := by
  rw [exitCall]
  split
  · rename_i hentry
    exact .alone (.finish (.inl ⟨hpc,hentry⟩))
  · rename_i hentry
    exact does_hop hpc (.exit hkernel hentry)

theorem does_spawn (hpc : (σ.th t).pc = .run) :
    ThreadDoes m σ c t l .spawnRing3 (σ.threadSpawn m t) [] := by
  rw [threadSpawn]
  split
  · exact does_hop hpc .halt
  · rename_i u hu
    exact .made hpc (.ring3 (kthreadPoolAlloc_free hu)) ⟨rfl,rfl⟩

theorem does_thread (a : Act) (hrun : (σ.cpu c).running = some t)
    (hcur : a = .go → (σ.th t).pc.current c t = true) :
    ThreadDoes m σ c t l a (σ.stepThread m c t l a).1 (σ.stepThread m c t l a).2 := by
  cases a with
  | go => exact does_go hrun (hcur rfl)
  | op o =>
    simp only [stepThread]
    split
    · rename_i h
      exact does_op _ o (.inl h.1)
    · exact does_stay
  | yield =>
    simp only [stepThread]
    split
    · rename_i h
      exact does_hop h.1 .yield
    · exact does_stay
  | syscall =>
    simp only [stepThread]
    split
    · rename_i h
      exact .alone (.syscall h.1 (by simpa using h.2))
    · exact does_stay
  | irq v =>
    simp only [stepThread]
    split
    · rename_i h
      exact does_irq v h.1 h.2.1
    · exact does_stay
  | iret => exact does_iret
  | exit =>
    simp only [stepThread]
    split
    · rename_i h
      exact does_exit h.1 h.2
    · exact does_stay
  | spawnRing3 =>
    simp only [stepThread]
    split
    · rename_i h
      exact does_spawn h.1
    · exact does_stay
  | poll | spawnService | spawnShell => exact does_stay

end Thread

/-! ## What a move leaves alone -/

theorem kschedWake_cpu (σ : Sched) (u : Tid) : (σ.kschedWake u).cpu = σ.cpu := by
  rw [kschedWake]
  split <;> rfl

theorem kthreadPoolFree_cpu (σ : Sched) (t : Tid) : (σ.kthreadPoolFree t).cpu = σ.cpu := by
  rw [kthreadPoolFree]
  split <;> rfl

variable {t u : Tid} {l : Loop} {k : Tier} {d : ℕ} {σ' σ₁ : Sched} {a : Act} {obs : List Obs}

theorem Does.of_thread (h : Does m σ c a σ' obs) (hctx : (σ.cpu c).ctx = .thread t l) :
    ThreadDoes m σ c t l a σ' obs := by
  cases h with
  | boot hctx' =>
    rw [hctx] at hctx'
    cases hctx'
  | thread hctx' h =>
    rw [hctx] at hctx'
    cases hctx'
    exact h

theorem Does.of_boot {pc : Dpc} (h : Does m σ c a σ' obs) (hctx : (σ.cpu c).ctx = .boot pc) :
    BootDoes m σ c pc a σ' obs := by
  cases h with
  | boot hctx' h =>
    rw [hctx] at hctx'
    cases hctx'
    exact h
  | thread hctx' =>
    rw [hctx] at hctx'
    cases hctx'

theorem Spawns.cpu_eq (h : Spawns m σ u k d σ₁) : σ₁.cpu = σ.cpu := by
  cases h <;> rfl

/-- `kthreadResumeRing3Ctx` on the CPU it was called on. -/
theorem kthreadResumeRing3Ctx_cases (σ : Sched) (c : ℕ) (t : Tid) :
    ((σ.th t).hosted = none ∧ σ.kthreadResumeRing3Ctx c c t = σ) ∨
    ∃ p, (σ.th t).hosted = some p ∧ σ.kthreadResumeRing3Ctx c c t =
      σ.setCpu c { σ.cpu c with currentPoolIdx := some t,
                                cr3 := if (σ.proc p).pml4 then some p else (σ.cpu c).cr3 } := by
  rw [kthreadResumeRing3Ctx]
  split
  · rename_i hhost
    exact .inl ⟨hhost,rfl⟩
  · rename_i p hhost
    refine .inr ⟨p,hhost,?_⟩
    by_cases hp : (σ.proc p).pml4 = true
    · rw [if_pos hp,if_pos hp]
      simp only [setCpu,update_idem,update_self]
    · rw [if_neg hp,if_neg hp]

theorem setTh_setPc {x : KThread} {p : Tpc} :
    (σ.setTh t x).setPc t p = σ.setTh t { x with pc := p } := by
  simp only [setPc,setTh,update_self,update_idem]

/-- A thread that runs marks itself. -/
theorem kschedExit_own (σ : Sched) (t : Tid) :
    σ.kschedExit t t = σ.setTh t { σ.th t with state := .exiting, pc := .exitSwitch } :=
  setTh_setPc

/-- And clears its own entry of the side table. -/
theorem exitStep_counted {p : ℕ} (hrun : (σ.cpu c).running = some t) :
    σ.exitStep c t p .counted = σ.setTh t { σ.th t with hosted := none, pc := .finishing } := by
  simp only [exitStep,unhost,hrun]
  exact setTh_setPc

/-- How the control point of a running thread passes by moves of its own. -/
inductive Passes (c : ℕ) (t : Tid) (x : KThread) : Tpc → Tpc → Prop where
  | hop {p q : Tpc} (h : Hops c t x p q) : Passes c t x p q
  | resume (p : Tpc) : Passes c t x (.knows c (some t) (.resuming p)) p
  | bind : Passes c t x (.knows c (some t) .wrapper) (.resuming .run)
  | exitMark (n : ℕ) : Passes c t x (.knows c none .leaving) (.exiting .marked n)
  | exits {s s' : ExitStage} {n : ℕ} {p q : Tpc}
      (hp : p = .exiting s n ∨ p = .knows c none (.exiting s n))
      (hq : q = .exiting s' n ∨ q = .knows c none (.exiting s' n)) : Passes c t x p q
  | irq (p : Tpc) : Passes c t x p (.irq p)
  | iret (p : Tpc) : Passes c t x (.irq p) p

/-- From here a thread goes to its end. -/
inductive Ends (c : ℕ) (t : Tid) : Tpc → Prop where
  | service : Ends c t .run
  | unhosted : Ends c t (.knows c (some t) .wrapper)
  | exits {s : ExitStage} {n : ℕ} {p : Tpc}
      (hp : p = .exiting s n ∨ p = .knows c none (.exiting s n)) : Ends c t p

/-- A step that makes `x` of the running thread and `y` of its CPU, and nothing else of
threads, queues and contexts. -/
structure Own (σ : Sched) (c : ℕ) (t : Tid) (σ' : Sched) (x : KThread) (y : CPU) : Prop where
  th : σ'.th = update σ.th t x
  cpu : σ'.cpu = update σ.cpu c y
  lists : σ'.ready = σ.ready ∧ σ'.waiters = σ.waiters
  procs : σ'.nextProc = σ.nextProc ∧ σ'.shellSpawned = σ.shellSpawned
  keeps : x.used = (σ.th t).used ∧ x.state = (σ.th t).state ∧
    x.ownerCPU = (σ.th t).ownerCPU ∧ x.saved = (σ.th t).saved ∧ x.entry = (σ.th t).entry
  turns : y.ctx = (σ.cpu c).ctx ∧ y.frames = (σ.cpu c).frames ∧ y.running = (σ.cpu c).running
  pc : Passes c t (σ.th t) (σ.th t).pc x.pc ∧ x.hosted = (σ.th t).hosted ∨
    Ends c t (σ.th t).pc ∧ x.pc = .finishing ∧
      ((σ.th t).entry = .service ∧ x.hosted = (σ.th t).hosted ∨ x.hosted = none)

section Own

variable {x : KThread} {y : CPU} {v : Vec} {vs : List Vec} {p : Tpc}

theorem Own.self (h : Own σ c t σ' x y) : σ'.th t = x := by
  rw [h.th,update_self]

theorem Own.cpus (h : Own σ c t σ' x y) (d : ℕ) : (σ'.cpu d).ctx = (σ.cpu d).ctx ∧
    (σ'.cpu d).frames = (σ.cpu d).frames ∧ (σ'.cpu d).running = (σ.cpu d).running := by
  rw [h.cpu]
  by_cases hd : d = c
  · subst hd
    rw [update_self]
    exact h.turns
  · rw [update_of_ne hd]
    exact ⟨rfl,rfl,rfl⟩

theorem own_enter (hp : Passes c t (σ.th t) (σ.th t).pc p) :
    ∃ x y, Own σ c t (σ.enter c t v p) x y :=
  ⟨_,_,rfl,rfl,⟨rfl,rfl⟩,⟨rfl,rfl⟩,⟨rfl,rfl,rfl,rfl,rfl⟩,⟨rfl,rfl,rfl⟩,.inl ⟨hp,rfl⟩⟩

theorem own_leave (hp : Passes c t (σ.th t) (σ.th t).pc p) :
    ∃ x y, Own σ c t (σ.leave c t v vs p) x y :=
  ⟨_,_,rfl,rfl,⟨rfl,rfl⟩,⟨rfl,rfl⟩,⟨rfl,rfl,rfl,rfl,rfl⟩,⟨rfl,rfl,rfl⟩,.inl ⟨hp,rfl⟩⟩

theorem Rebinds.own (h : Rebinds σ c t σ') : ∃ x y, Own σ c t σ' x y := by
  have hself : σ.cpu = update σ.cpu c (σ.cpu c) := (update_eq_self ..).symm
  cases h with
  | resume hpc =>
    have hp := Passes.resume (c := c) (t := t) (x := σ.th t)
    obtain ⟨-,heq⟩ | ⟨n,-,heq⟩ := kthreadResumeRing3Ctx_cases σ c t
    · rw [heq]
      exact ⟨_,_,rfl,hself,⟨rfl,rfl⟩,⟨rfl,rfl⟩,⟨rfl,rfl,rfl,rfl,rfl⟩,⟨rfl,rfl,rfl⟩,
        .inl ⟨hpc ▸ hp _,rfl⟩⟩
    · rw [heq]
      exact ⟨_,_,rfl,rfl,⟨rfl,rfl⟩,⟨rfl,rfl⟩,⟨rfl,rfl,rfl,rfl,rfl⟩,⟨rfl,rfl,rfl⟩,
        .inl ⟨hpc ▸ hp _,rfl⟩⟩
  | bind hpc =>
    exact ⟨_,_,rfl,hself,⟨rfl,rfl⟩,⟨rfl,rfl⟩,⟨rfl,rfl,rfl,rfl,rfl⟩,⟨rfl,rfl,rfl⟩,
      .inl ⟨hpc ▸ .bind,rfl⟩⟩
  | exitMark hpc =>
    exact ⟨_,_,rfl,hself,⟨rfl,rfl⟩,⟨rfl,rfl⟩,⟨rfl,rfl,rfl,rfl,rfl⟩,⟨rfl,rfl,rfl⟩,
      .inl ⟨hpc ▸ .exitMark _,rfl⟩⟩
  | @exitGo s n hpc hrun =>
    cases s with
    | marked =>
      simp only [exitStep]
      split
      · exact ⟨_,_,rfl,rfl,⟨rfl,rfl⟩,⟨rfl,rfl⟩,⟨rfl,rfl,rfl,rfl,rfl⟩,⟨rfl,rfl,rfl⟩,
          .inl ⟨.exits hpc (.inl rfl),rfl⟩⟩
      · exact ⟨_,_,rfl,hself,⟨rfl,rfl⟩,⟨rfl,rfl⟩,⟨rfl,rfl,rfl,rfl,rfl⟩,⟨rfl,rfl,rfl⟩,
          .inl ⟨.exits hpc (.inl rfl),rfl⟩⟩
    | unmapped =>
      simp only [exitStep]
      split
      all_goals
        exact ⟨_,_,rfl,hself,⟨rfl,rfl⟩,⟨rfl,rfl⟩,⟨rfl,rfl,rfl,rfl,rfl⟩,⟨rfl,rfl,rfl⟩,
          .inl ⟨.exits hpc (.inl rfl),rfl⟩⟩
    | unbound =>
      refine ⟨{ σ.th t with frames := (σ.th t).frames.drop 1,
                            pc := .knows c none (.exiting .counted n) },_,?_,rfl,⟨rfl,rfl⟩,
        ⟨rfl,rfl⟩,⟨rfl,rfl,rfl,rfl,rfl⟩,⟨rfl,rfl,rfl⟩,.inl ⟨.exits hpc (.inr rfl),rfl⟩⟩
      show update (update σ.th t _) t { update σ.th t _ t with pc := _ } = _
      rw [update_idem,update_self]
    | counted =>
      rw [exitStep_counted hrun]
      exact ⟨_,_,rfl,hself,⟨rfl,rfl⟩,⟨rfl,rfl⟩,⟨rfl,rfl,rfl,rfl,rfl⟩,⟨rfl,rfl,rfl⟩,
        .inr ⟨.exits hpc,rfl,.inr rfl⟩⟩

theorem Alone.own (h : Alone σ c t a σ' obs) : ∃ x y, Own σ c t σ' x y := by
  have hself : σ.cpu = update σ.cpu c (σ.cpu c) := (update_eq_self ..).symm
  cases h with
  | stay =>
    exact ⟨_,_,(update_eq_self t _).symm,hself,⟨rfl,rfl⟩,⟨rfl,rfl⟩,⟨rfl,rfl,rfl,rfl,rfl⟩,
      ⟨rfl,rfl,rfl⟩,.inl ⟨.hop (.stay _),rfl⟩⟩
  | hop h =>
    exact ⟨_,_,rfl,hself,⟨rfl,rfl⟩,⟨rfl,rfl⟩,⟨rfl,rfl,rfl,rfl,rfl⟩,⟨rfl,rfl,rfl⟩,
      .inl ⟨.hop h,rfl⟩⟩
  | finish hpc =>
    refine ⟨_,_,rfl,hself,⟨rfl,rfl⟩,⟨rfl,rfl⟩,⟨rfl,rfl,rfl,rfl,rfl⟩,⟨rfl,rfl,rfl⟩,.inr ?_⟩
    obtain ⟨hpc,hentry⟩ | ⟨hpc,hhost⟩ := hpc
    · exact ⟨hpc ▸ .service,rfl,.inl ⟨hentry,rfl⟩⟩
    · exact ⟨hpc ▸ .unhosted,rfl,.inr hhost⟩
  | rebinds h => exact h.own
  | syscall hpc => exact own_enter (hpc ▸ .hop (.stay _))
  | irq => exact own_enter (.irq _)
  | iret hpc => exact own_leave (hpc ▸ .iret _)
  | sysret hpc => exact own_leave (hpc ▸ .hop (.stay _))

end Own

/-- How a CPU's record may change: the boot entries only by an interrupt of the idle loop
and its return, the running thread by a dispatch and by the switch back. -/
structure Turns (x y : CPU) : Prop where
  frames : y.frames = x.frames ∨ x.ctx = .boot .idle ∧ y.ctx = .boot .idle ∨
    x.frames ≠ [] ∧ y.ctx = x.ctx
  runs : (y.ctx = x.ctx ∧ y.running = x.running) ∨ (∃ pc, y.ctx = .boot pc) ∨
    ∃ t l, y.ctx = .thread t l ∧ y.running = some t

/-- Every move changes the CPU that makes it. -/
theorem Does.cpu (h : Does m σ c a σ' obs) :
    ∃ x, σ'.cpu = update σ.cpu c x ∧ Turns (σ.cpu c) x := by
  have hsame {τ : Sched} (hτ : τ.cpu = σ.cpu) :
      ∃ x, τ.cpu = update σ.cpu c x ∧ Turns (σ.cpu c) x :=
    ⟨σ.cpu c,by rw [hτ,update_eq_self],.inl rfl,.inl ⟨rfl,rfl⟩⟩
  cases h with
  | boot hctx h =>
    cases h with
    | stay => exact hsame rfl
    | irq => exact ⟨_,rfl,.inr (.inl ⟨hctx,hctx⟩),.inl ⟨rfl,rfl⟩⟩
    | iret hframes =>
      refine ⟨_,rfl,.inr (.inr ⟨?_,rfl⟩),.inl ⟨rfl,rfl⟩⟩
      rw [hframes]
      nofun
    | @reap t l =>
      refine ⟨{ σ.cpu c with ctx := .boot .idle },?_,.inl rfl,.inr (.inl ⟨_,rfl⟩)⟩
      show update (σ.kthreadPoolFree t).cpu c { (σ.kthreadPoolFree t).cpu c with ctx := _ } = _
      rw [kthreadPoolFree_cpu]
    | @dispatch t l => exact ⟨_,rfl,.inl rfl,.inr (.inr ⟨t,l,rfl,rfl⟩)⟩
    | @back t l =>
      refine ⟨{ σ.cpu c with ctx := .boot .idle, running := none },?_,.inl rfl,
        .inr (.inl ⟨_,rfl⟩)⟩
      simp only [returnStep]
      split
      · show update (σ.kthreadPoolFree t).cpu c
          { (σ.kthreadPoolFree t).cpu c with ctx := _, running := _ } = _
        rw [kthreadPoolFree_cpu]
      · rfl
    | @made a u k d σ₁ hc hspawn =>
      refine ⟨{ σ.cpu c with ctx := .boot (.spawning u k d) },?_,.inl rfl,.inr (.inl ⟨_,rfl⟩)⟩
      show update σ₁.cpu c { σ₁.cpu c with ctx := _ } = _
      rw [hspawn.cpu_eq]
    | _ => exact ⟨_,rfl,.inl rfl,.inr (.inl ⟨_,rfl⟩)⟩
  | thread hctx h =>
    cases h with
    | alone h =>
      obtain ⟨x,y,ho⟩ := h.own
      exact ⟨y,ho.cpu,.inl ho.turns.2.1,.inl ⟨ho.turns.1,ho.turns.2.2⟩⟩
    | wake => exact hsame (kschedWake_cpu σ _)
    | made hpc hspawn => exact hsame hspawn.cpu_eq
    | preempt => exact ⟨_,rfl,.inl rfl,.inl ⟨rfl,rfl⟩⟩
    | switch | last => exact ⟨_,rfl,.inl rfl,.inr (.inl ⟨_,rfl⟩)⟩
    | _ => exact hsame rfl

/-- What a thread keeps while others take steps. -/
structure Untouched (x y : KThread) : Prop where
  used : y.used = true → x.used = true
  pc : y.pc = x.pc
  frames : y.frames = x.frames
  entry : y.entry = x.entry
  hosted : y.hosted = x.hosted

theorem Untouched.refl (x : KThread) : Untouched x x := ⟨id,rfl,rfl,rfl,rfl⟩

theorem Untouched.update {u v : Tid} {x : KThread} (h : v = u → Untouched (σ.th u) x) :
    Untouched (σ.th v) (update σ.th u x v) := by
  by_cases hv : v = u
  · subst hv
    rw [update_self]
    exact h rfl
  · rw [update_of_ne hv]
    exact .refl _

theorem Untouched.of_eq {x y : KThread} (h : y = x) : Untouched x y := h ▸ .refl _

theorem untouched_kschedPush (k : Tier) (u : Tid) (d : ℕ) (v : Tid) :
    Untouched (σ.th v) ((σ.kschedPush k u d).th v) :=
  .update fun _ => ⟨id,rfl,rfl,rfl,rfl⟩

theorem untouched_kthreadPoolFree (u v : Tid) :
    Untouched (σ.th v) ((σ.kthreadPoolFree u).th v) := by
  rw [kthreadPoolFree]
  split
  · exact .update fun _ => ⟨nofun,rfl,rfl,rfl,rfl⟩
  · exact .refl _

theorem untouched_kschedWake (u v : Tid) : Untouched (σ.th v) ((σ.kschedWake u).th v) := by
  rw [kschedWake]
  split
  · exact untouched_kschedPush ..
  · exact .refl _

theorem setPc_self {τ : Sched} {t : Tid} {p : Tpc} : (τ.setPc t p).th t = { τ.th t with pc := p } :=
  update_self ..

theorem setPc_of_ne {τ : Sched} {t u : Tid} {p : Tpc} (hu : u ≠ t) : (τ.setPc t p).th u = τ.th u :=
  update_of_ne hu ..

theorem Spawns.th_of_ne {u v : Tid} (h : Spawns m σ u k d σ₁)
    (hvu : v ≠ u) : σ₁.th v = σ.th v := by
  cases h <;> exact update_of_ne hvu ..

theorem Spawns.free (h : Spawns m σ u k d σ₁) : (σ.th u).used = false := by
  cases h <;> assumption

/-- The moves that build a thread. -/
inductive Builds (m : Machine) (σ : Sched) (c : ℕ) : Sched → Prop where
  | boot {u : Tid} {k : Tier} {d : ℕ} {σ₁ : Sched} (hctx : (σ.cpu c).ctx = .boot .idle)
      (hc : c = 0) (hspawn : Spawns m σ u k d σ₁) :
      Builds m σ c (σ₁.setCtx c (.boot (.spawning u k d)))
  | thread {t : Tid} {l : Loop} {u : Tid} {k : Tier} {d : ℕ} {σ₁ : Sched}
      (hctx : (σ.cpu c).ctx = .thread t l) (hpc : (σ.th t).pc = .run)
      (hspawn : Spawns m σ u k d σ₁) (hk : k = .ring3 ∧ d = ring3Target m σ) :
      Builds m σ c (σ₁.setPc t (.spawning u k d))

/-- The other moves of CPU `c` touch only the thread that runs there. -/
theorem Does.untouched (h : Does m σ c a σ' obs)
    (hb : ¬Builds m σ c σ') (hne : ∀ l, (σ.cpu c).ctx ≠ .thread u l) :
    Untouched (σ.th u) (σ'.th u) := by
  cases h with
  | boot hctx h =>
    cases h with
    | reap => exact untouched_kthreadPoolFree ..
    | dispatch => exact .update fun _ => ⟨id,rfl,rfl,rfl,rfl⟩
    | back =>
      simp only [returnStep]
      split
      · exact untouched_kthreadPoolFree ..
      · exact .refl _
    | made hc hspawn => exact absurd (.boot hctx hc hspawn) hb
    | @push v k d => exact untouched_kschedPush k v d u
    | _ => exact .refl _
  | @thread t l hctx h =>
    have hut : u ≠ t := fun hut => hne l (hut ▸ hctx)
    cases h with
    | alone h =>
      obtain ⟨x,y,ho⟩ := h.own
      rw [ho.th]
      exact .of_eq (update_of_ne hut ..)
    | wake =>
      rw [setPc_of_ne hut]
      exact untouched_kschedWake ..
    | push =>
      rw [setPc_of_ne hut]
      exact untouched_kschedPush ..
    | made hpc hspawn hk => exact absurd (.thread hctx hpc hspawn hk) hb
    | yield =>
      rw [kschedYield,setPc_of_ne hut]
      exact untouched_kschedPush ..
    | preempt =>
      have hpush := untouched_kschedPush (σ := σ.enter c t .preempt (.irq (σ.th t).pc))
        (tierOf ((σ.enter c t .preempt (.irq (σ.th t).pc)).th t)) t c u
      have hold : (σ.enter c t .preempt (.irq (σ.th t).pc)).th u = σ.th u :=
        update_of_ne hut ..
      rw [kschedYield,setPc_of_ne hut]
      rw [hold] at hpush
      exact hpush
    | ending =>
      rw [kschedExit_own]
      exact .of_eq (update_of_ne hut ..)
    | _ => exact .of_eq (update_of_ne hut ..)

/-- A move of CPU `c` touches the thread that runs there, and of the others only one that
it builds. -/
theorem Does.others (h : Does m σ c a σ' obs) (hne : ∀ l, (σ.cpu c).ctx ≠ .thread u l) :
    Untouched (σ.th u) (σ'.th u) ∨ ∃ k d σ₁, Spawns m σ u k d σ₁ ∧ σ'.th u = σ₁.th u := by
  have hspawned {v : Tid} {k : Tier} {d : ℕ} {σ₁ : Sched} (hspawn : Spawns m σ v k d σ₁) :
      Untouched (σ.th u) (σ₁.th u) ∨ ∃ k d σ₂, Spawns m σ u k d σ₂ ∧ σ₁.th u = σ₂.th u := by
    by_cases huv : u = v
    · subst huv
      exact .inr ⟨k,d,σ₁,hspawn,rfl⟩
    · exact .inl (.of_eq (hspawn.th_of_ne huv))
  by_cases hb : Builds m σ c σ'
  · cases hb with
    | boot _ _ hspawn =>
      have hth := hspawned hspawn
      exact hth
    | @thread t l v k d σ₁ hctx _ hspawn =>
      have hut : u ≠ t := fun hut => hne l (hut ▸ hctx)
      rw [setPc_of_ne hut]
      exact hspawned hspawn
  · exact .inl (h.untouched hb hne)

/-- Only they count processes. -/
theorem Does.procs (h : Does m σ c a σ' obs) (hb : ¬Builds m σ c σ') :
    σ'.nextProc = σ.nextProc ∧ σ'.shellSpawned = σ.shellSpawned := by
  cases h with
  | boot hctx h =>
    cases h with
    | reap =>
      rw [kthreadPoolFree]
      split <;> exact ⟨rfl,rfl⟩
    | back =>
      simp only [returnStep,kthreadPoolFree]
      split
      · split <;> exact ⟨rfl,rfl⟩
      · exact ⟨rfl,rfl⟩
    | made hc hspawn => exact absurd (.boot hctx hc hspawn) hb
    | _ => exact ⟨rfl,rfl⟩
  | thread hctx h =>
    cases h with
    | alone h =>
      obtain ⟨x,y,ho⟩ := h.own
      exact ho.procs
    | made hpc hspawn hk => exact absurd (.thread hctx hpc hspawn hk) hb
    | wake =>
      rw [kschedWake]
      split <;> exact ⟨rfl,rfl⟩
    | _ => exact ⟨rfl,rfl⟩

/-- Every step is one of the moves, of a CPU that is online, if what a thread goes on with
is fresh. -/
theorem Coherent.does (h : Coherent σ) (e : ℕ × Act) (hfresh : fresh σ e = true) :
    (σ.step m e = (σ,[])) ∨
      e.1 < m.numCoresOnline ∧ Does m σ e.1 e.2 (σ.step m e).1 (σ.step m e).2 := by
  by_cases hc : e.1 < m.numCoresOnline
  · refine .inr ⟨hc,?_⟩
    rw [Sched.step,if_pos hc]
    split
    · rename_i pc hctx
      exact .boot hctx (does_boot pc e.2)
    · rename_i t l hctx
      refine .thread hctx (does_thread e.2 (h.runs e.1 t l hctx) fun ha => ?_)
      simpa [fresh,hctx,ha] using hfresh
  · exact .inl (if_neg hc)

theorem Coherent.step (h : Coherent σ) (e : ℕ × Act) (hfresh : fresh σ e = true) :
    Coherent (σ.step m e).1 := by
  obtain ⟨c,a⟩ := e
  obtain heq | ⟨hc,hdoes⟩ := h.does (m := m) (c,a) hfresh
  · rw [heq]
    exact h
  obtain ⟨x,hx,hturns⟩ := hdoes.cpu
  constructor
  · intro d hd
    by_cases hdc : d = c
    · subst hdc
      by_cases hf : (σ.cpu d).frames = []
      · rw [hx,update_self] at hd ⊢
        obtain hframes | ⟨-,hidle⟩ | ⟨hne,-⟩ := hturns.frames
        · exact absurd (hframes.trans hf) hd
        · exact hidle
        · exact absurd hf hne
      · -- with an entry open, the idle dispatcher can only return from it
        have hidle := h.idle d hf
        obtain ⟨v,vs,hvs⟩ := List.exists_cons_of_ne_nil hf
        rw [Sched.step,if_pos hc,hidle]
        simp only [stepBoot,hvs]
        split
        · show (update σ.cpu d _ d).ctx = _
          rw [update_self]
          exact hidle
        · exact hidle
    · rw [hx,update_of_ne hdc] at hd ⊢
      exact h.idle d hd
  · intro d t l hd
    by_cases hdc : d = c
    · subst hdc
      rw [hx,update_self] at hd ⊢
      obtain ⟨hctx,hrun⟩ | ⟨pc,hpc⟩ | ⟨u,l',hctx,hrun⟩ := hturns.runs
      · rw [hrun]
        exact h.runs d t l (hctx.symm.trans hd)
      · rw [hpc] at hd
        cases hd
      · rw [hctx] at hd
        cases hd
        exact hrun
    · rw [hx,update_of_ne hdc] at hd ⊢
      exact h.runs d t l hd

end Gooos.Ksched
