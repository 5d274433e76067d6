import Mathlib
import Gooos.Sched.State

/-!
# Steps of the scheduler

One step is one spinlock-protected section, one `kschedSwitch`, one interrupt entry or
return, or one of the unlocked stretches between them, on one CPU. Where such a stretch
reads `cpuID` or `kschedRunning` and interrupts are on, the reads are steps of their own.
`uniprocessorKernel` and `userspaceSMP` are set, so the BSP polls both of its queues and
an AP only its own Ring-3 queue.

Left out: the queue calls the boot code makes in its bootstrap context, the waits inside
`procCloseAll`, interrupts in the first round of an AP's loop, and the tests
`kschedRunning[cpuID()] != nil` in front of a yield.
-/

namespace Gooos.Ksched

open Function

/-- What an observer of a run sees. -/
inductive Obs where
  /-- `kschedSwitch` into a thread, and whether its context was stored. -/
  | switchIn (c : ℕ) (t : Tid) (saved : Bool)
  /-- The preemption IPI on a thread, and whether it yields. -/
  | preempt (c : ℕ) (t : Tid) (yields : Bool)
  deriving DecidableEq, Repr

/-- What a CPU does next; `go` goes on where there is no choice. -/
inductive Act where
  | go
  | poll (l : Loop)
  | op (o : Op)
  | yield
  | syscall
  | irq (v : Vec)
  | iret
  | exit
  | spawnService
  | spawnShell
  | spawnRing3
  deriving DecidableEq, Repr

/-- Where a function goes on that finds no thread running on the CPU it has read. -/
def Tpc.unmanaged : Tpc → Tpc
  | .yielding => .run
  | .resuming next => next
  | .wrapper => .finishing
  | _ => .halted

namespace Sched

/-! ## Queues and the pool -/

/-- The tier of a ready thread: `kschedYield` and `kschedWake` look at the side table. -/
def tierOf (x : KThread) : Tier := if x.hosted.isSome then .ring3 else .service

/-- `kschedPush` and `kschedPushRing3`. -/
def kschedPush (σ : Sched) (k : Tier) (t : Tid) (cpu : ℕ) : Sched :=
  let cpu := if cpu ≥ maxCPUs then 0 else cpu
  (σ.setTh t { σ.th t with state := .runnable, ownerCPU := cpu }).setReady k cpu
    (σ.ready k cpu++[t])

def kschedWake (σ : Sched) (t : Tid) : Sched :=
  if (σ.th t).state = .parked then σ.kschedPush (tierOf (σ.th t)) t (σ.th t).ownerCPU else σ

/-- The slot `kthreadPoolAlloc` takes. -/
def kthreadPoolAlloc (σ : Sched) : Option Tid :=
  ((List.range kthreadPoolCap).map fun i =>
    (⟨(σ.poolHint+i)%kthreadPoolCap,Nat.mod_lt _ (by decide)⟩ : Tid)).find? fun t => !(σ.th t).used

def kthreadPoolFree (σ : Sched) (t : Tid) : Sched :=
  if (σ.th t).used then
    { σ.setTh t { σ.th t with used := false } with poolHint := min σ.poolHint t }
  else σ

/-- `kschedSpawnInternal`, and for a Ring-3 host the entry in the side table. -/
def kschedSpawnInternal (σ : Sched) (t : Tid) (entry : Entry) (proc : Option ℕ) : Sched :=
  { σ.setTh t { state := .runnable, ownerCPU := 0, used := true, entry := entry,
                hosted := proc.or (σ.th t).hosted, saved := true, frames := [],
                pc := entry.start } with
    poolHint := (t+1)%kthreadPoolCap }

/-- A new process with or without a page table of its own. -/
def newProc (σ : Sched) (p : ℕ) (pml4 : Bool) : Sched :=
  σ.setProc p { pml4 := pml4, poolIdx := none, exited := false }

/-- The CPU `kschedSpawnRing3Wrapper` places a thread on. -/
def ring3Target (m : Machine) (σ : Sched) : ℕ :=
  if m.numCoresOnline > 1 then 1+σ.rrCounter.toNat%(m.numCoresOnline-1) else 0

/-- `elfSpawn` from the new process on, with the slot already chosen. -/
def spawnRing3Wrapper (m : Machine) (σ : Sched) (t : Tid) : Sched :=
  { (σ.newProc σ.nextProc true).kschedSpawnInternal t .ring3WrapperKT (some σ.nextProc) with
    nextProc := σ.nextProc+1,
    rrCounter := if m.numCoresOnline > 1 then σ.rrCounter+1 else σ.rrCounter }

/-- `elfLoad` of the boot shell. -/
def spawnBootShell (σ : Sched) (t : Tid) : Sched :=
  { (σ.newProc shellProc false).kschedSpawnInternal t .ring3WrapperKT (some shellProc) with
    shellSpawned := true }

/-! ## The bootstrap context -/

/-- A CPU polls the queue of a loop it runs; the BSP stops once the boot shell has
exited. -/
def polls (σ : Sched) (c : ℕ) (l : Loop) : Bool :=
  if c = 0 then decide (l ≠ .kschedLoopRing3Only) && !(σ.proc shellProc).exited
  else l = .kschedLoopRing3Only

/-- Open an ISR entry in the bootstrap context. -/
def bootIrq (σ : Sched) (c : ℕ) (v : Vec) : Sched :=
  let x := σ.cpu c
  σ.setCpu c { x with interruptDepth := x.interruptDepth+1,
                      syscallDepth := if v.sys then x.syscallDepth+1 else x.syscallDepth,
                      frames := v::x.frames }

def bootIret (σ : Sched) (c : ℕ) (v : Vec) (vs : List Vec) : Sched :=
  let x := σ.cpu c
  σ.setCpu c { x with interruptDepth := x.interruptDepth-1,
                      syscallDepth := if v.sys then x.syscallDepth-1 else x.syscallDepth,
                      frames := vs }

/-- The pop section of a loop. -/
def pollStep (σ : Sched) (c : ℕ) (l : Loop) : Sched :=
  match σ.ready l.tier c with
  | t::ts => (σ.setReady l.tier c ts).setCtx c (.boot (.popped t l))
  | [] => if l = .kschedLoopRing3Only then σ.setCtx c (.boot (.stealing 1)) else σ

/-- One round of the stealing loop of `kschedLoopRing3Only`. -/
def stealStep (m : Machine) (σ : Sched) (c i : ℕ) : Sched :=
  if i < m.numCoresOnline then
    let src := (c+i)%m.numCoresOnline
    if src = 0 then σ.setCtx c (.boot (.stealing (i+1)))
    else match σ.ready .ring3 src with
      | t::ts => (σ.setReady .ring3 src ts).setCtx c (.boot (.popped t .kschedLoopRing3Only))
      | [] => σ.setCtx c (.boot (.stealing (i+1)))
  else σ.setCtx c (.boot .idle)

/-- The dispatch: `kschedRunning`, the thread's fields, and the switch into it. -/
def dispatch (σ : Sched) (c : ℕ) (t : Tid) (l : Loop) : Sched :=
  (σ.setTh t { σ.th t with state := .running, ownerCPU := c, saved := false }).setCpu c
    { σ.cpu c with ctx := .thread t l, running := some t }

def dispatchStep (σ : Sched) (c : ℕ) (t : Tid) (l : Loop) : Sched × List Obs :=
  if (σ.th t).state = .exiting then ((σ.kthreadPoolFree t).setCtx c (.boot .idle),[])
  else (σ.dispatch c t l,[.switchIn c t (σ.th t).saved])

/-- After the switch back. -/
def returnStep (σ : Sched) (c : ℕ) (t : Tid) (l : Loop) : Sched :=
  let σ' := if l.reclaims ∧ (σ.th t).state = .exiting then σ.kthreadPoolFree t else σ
  σ'.setCpu c { σ'.cpu c with ctx := .boot .idle, running := none }

/-- A spawn by the boot code, up to the push. -/
def bootSpawn (m : Machine) (σ : Sched) (c : ℕ) : Act → Sched
  | .spawnService =>
    match σ.kthreadPoolAlloc with
    | none => σ.setCtx c (.boot .halted)
    | some t => (σ.kschedSpawnInternal t .service none).setCtx c (.boot (.spawning t .service 0))
  | .spawnShell =>
    if σ.shellSpawned then σ
    else match σ.kthreadPoolAlloc with
      | none => σ.setCtx c (.boot .halted)
      | some t => (σ.spawnBootShell t).setCtx c (.boot (.spawning t .ring3 0))
  | .spawnRing3 =>
    match σ.kthreadPoolAlloc with
    | none => σ.setCtx c (.boot .halted)
    | some t => (σ.spawnRing3Wrapper m t).setCtx c (.boot (.spawning t .ring3 (ring3Target m σ)))
  | _ => σ

/-- A step of a CPU in its bootstrap context. -/
def stepBoot (m : Machine) (σ : Sched) (c : ℕ) (pc : Dpc) (a : Act) : Sched × List Obs :=
  match (σ.cpu c).frames with
  | v::vs => if a = .iret then (σ.bootIret c v vs,[]) else (σ,[])
  | [] =>
    match pc,a with
    | .idle,.poll l => if σ.polls c l then (σ.pollStep c l,[]) else (σ,[])
    | .idle,.irq v => if v = .syscall then (σ,[]) else (σ.bootIrq c v,[])
    | .idle,a => if c = 0 then (σ.bootSpawn m c a,[]) else (σ,[])
    | .stealing i,.go => (σ.stealStep m c i,[])
    | .popped t l,.go => σ.dispatchStep c t l
    | .returned t l,.go => (σ.returnStep c t l,[])
    | .spawning t k cpu,.go => ((σ.kschedPush k t cpu).setCtx c (.boot .idle),[])
    | _,_ => (σ,[])

/-! ## Threads -/

/-- Link the thread into a wait list; it is to be switched out and will try again. -/
def park (σ : Sched) (t : Tid) (w : WaitList) (o : Op) : Sched :=
  (σ.setTh t { σ.th t with state := .parked, pc := .toSwitch (.retry o) }).setWaiters w
    (t::σ.waiters w)

/-- Take the first `n` threads off a wait list, to be woken outside the lock. -/
def take (σ : Sched) (t : Tid) (w : WaitList) (n : ℕ) : Sched :=
  (σ.setPc t (.waking ((σ.waiters w).take n))).setWaiters w ((σ.waiters w).drop n)

def setFlag (σ : Sched) (e : ℕ) : Sched := { σ with flag := update σ.flag e true }

def setCount (σ : Sched) (q n : ℕ) : Sched := { σ with count := update σ.count q n }

/-- The locked section of a call, once through its loop. -/
def opSection (σ : Sched) (t : Tid) : Op → Sched
  | .wait e => if σ.flag e then σ.setPc t .run else σ.park t (.event e) (.wait e)
  | .signal e => (σ.setFlag e).take t (.event e) (σ.waiters (.event e)).length
  | .push q =>
    if σ.count q < queueCap q then (σ.setCount q (σ.count q+1)).take t (.consumer q) 1
    else σ.park t (.producers q) (.push q)
  | .tryPush q =>
    if σ.count q < queueCap q then (σ.setCount q (σ.count q+1)).take t (.consumer q) 1
    else σ.setPc t .run
  | .pop q =>
    if 0 < σ.count q then (σ.setCount q (σ.count q-1)).take t (.producers q) 1
    else if σ.waiters (.consumer q) = [] then σ.park t (.consumer q) (.pop q)
    else σ.park t (.producers q) (.pop q)
  | .tryPop q =>
    if 0 < σ.count q then (σ.setCount q (σ.count q-1)).take t (.producers q) 1
    else σ.setPc t .run

/-- `kschedYield` up to the switch by thread `t`, which has read `cpu` and then found `u`
running there. -/
def kschedYield (σ : Sched) (cpu : ℕ) (u t : Tid) (next : Tpc) : Sched :=
  (σ.kschedPush (tierOf (σ.th u)) u cpu).setPc t (.toSwitch next)

/-- `kschedSwitch` to the bootstrap context. -/
def switchOut (σ : Sched) (c : ℕ) (t : Tid) (l : Loop) (next : Tpc) : Sched :=
  (σ.setTh t { σ.th t with saved := true, pc := next }).setCtx c (.boot (.returned t l))

/-- `kthreadResumeRing3Ctx` on CPU `c`, with `cpu` and the thread `u` running there read
before: the pool index is that of `cpu`, `writeCR3` is executed by `c`. -/
def kthreadResumeRing3Ctx (σ : Sched) (c cpu : ℕ) (u : Tid) : Sched :=
  match (σ.th u).hosted with
  | none => σ
  | some p =>
    let σ' := σ.setCpu cpu { σ.cpu cpu with currentPoolIdx := some u }
    if (σ.proc p).pml4 then σ'.setCpu c { σ'.cpu c with cr3 := some p } else σ'

/-- The locked bookkeeping of `ring3WrapperKT`. -/
def bindSlot (σ : Sched) (t : Tid) (p : ℕ) : Sched :=
  { σ.setProc p { σ.proc p with poolIdx := some t } with
    procByPoolSlot := update σ.procByPoolSlot t (some p), procByTask := some p }

/-- `currentProc`, with `c` for the CPU. -/
def currentProc (σ : Sched) (c : ℕ) : Option ℕ :=
  ((σ.cpu c).currentPoolIdx.bind σ.procByPoolSlot).or σ.procByTask

/-- `kschedExit` of thread `t` up to the switch, with `u` for `kschedRunning`. -/
def kschedExit (σ : Sched) (u t : Tid) : Sched :=
  (σ.setTh u { σ.th u with state := .exiting }).setPc t .exitSwitch

/-- Open an ISR entry on the thread's stack and count it on the CPU. -/
def enter (σ : Sched) (c : ℕ) (t : Tid) (v : Vec) (p : Tpc) : Sched :=
  let x := σ.cpu c
  (σ.setTh t { σ.th t with frames := v::(σ.th t).frames, pc := p }).setCpu c
    { x with interruptDepth := x.interruptDepth+1,
             syscallDepth := if v.sys then x.syscallDepth+1 else x.syscallDepth }

/-- Close an ISR entry of the thread; `vs` are the entries that stay open. -/
def leave (σ : Sched) (c : ℕ) (t : Tid) (v : Vec) (vs : List Vec) (p : Tpc) : Sched :=
  let x := σ.cpu c
  (σ.setTh t { σ.th t with frames := vs, pc := p }).setCpu c
    { x with interruptDepth := x.interruptDepth-1,
             syscallDepth := if v.sys then x.syscallDepth-1 else x.syscallDepth }

/-- The guards of `handlePreemptIPI` that a thread outside every locked section meets; the
handler's own entry has been counted. -/
def preemptYields (σ : Sched) (c : ℕ) : Bool :=
  !((σ.cpu c).interruptDepth > 1) && !((σ.cpu c).syscallDepth > 1)
    && (σ.cpu c).running.isSome

/-- An interrupt on a thread at `p`. -/
def threadIrq (σ : Sched) (c : ℕ) (t : Tid) (v : Vec) (p : Tpc) : Sched × List Obs :=
  let σ' := σ.enter c t v (.irq p)
  if v = .preempt then
    if σ'.preemptYields c then (σ'.kschedYield c t t (.irq p),[.preempt c t true])
    else (σ',[.preempt c t false])
  else (σ',[])

/-- `processExit` takes its own entry off the counters of the CPU it has read, which its
epilogue will never do. -/
def discount (σ : Sched) (c : ℕ) (t : Tid) : Sched :=
  let x := σ.cpu c
  (σ.setTh t { σ.th t with frames := (σ.th t).frames.drop 1 }).setCpu c
    { x with interruptDepth := if x.interruptDepth > 0 then x.interruptDepth-1
                               else x.interruptDepth,
             syscallDepth := if x.syscallDepth > 0 then x.syscallDepth-1 else x.syscallDepth }

/-- `processExit` has cleared the side table of the thread it found running on CPU `c`. -/
def unhost (σ : Sched) (c : ℕ) (t : Tid) : Sched :=
  match (σ.cpu c).running with
  | none => σ.setPc t .halted
  | some u => (σ.setTh u { σ.th u with hosted := none }).setPc t .finishing

/-- The next stage of `processExit` for process `p`; the last two use the CPU number `c`
read before them. -/
def exitStep (σ : Sched) (c : ℕ) (t : Tid) (p : ℕ) : ExitStage → Sched
  | .marked =>
    let σ' := if (σ.proc p).pml4
      then (σ.setCpu c { σ.cpu c with cr3 := none }).setProc p { σ.proc p with pml4 := false }
      else σ
    σ'.setPc t (.exiting .unmapped p)
  | .unmapped =>
    let σ' := match (σ.proc p).poolIdx with
      | none => { σ with procByTask := none }
      | some i =>
        { σ.setProc p { σ.proc p with poolIdx := none } with
          procByPoolSlot := update σ.procByPoolSlot i none, procByTask := none }
    σ'.setPc t (.exiting .unbound p)
  | .unbound => (σ.discount c t).setPc t (.knows c none (.exiting .counted p))
  | .counted => σ.unhost c t

/-- `processExit` up to the mark, with `cpu` for its CPU; `sys_exit` comes from Ring 3. -/
def processExit (σ : Sched) (cpu : ℕ) (t : Tid) : Sched :=
  match (σ.th t).entry,σ.currentProc cpu with
  | .ring3WrapperKT,some p =>
    (σ.setProc p { σ.proc p with exited := true }).setPc t (.exiting .marked p)
  | _,_ => σ.setPc t .halted

/-- A service's body returns, or a process calls `sys_exit`. -/
def exitCall (σ : Sched) (t : Tid) : Sched :=
  match (σ.th t).entry with
  | .service => σ.setPc t .finishing
  | .ring3WrapperKT => σ.setPc t .leaving

/-- The thread executes kernel code of its own: a service, or a system call handler. -/
def inKernel (x : KThread) : Bool := decide (x.entry = .service) || !x.frames.isEmpty

/-- `elfSpawn` by a running thread, up to the push. -/
def threadSpawn (m : Machine) (σ : Sched) (t : Tid) : Sched :=
  match σ.kthreadPoolAlloc with
  | none => σ.setPc t .halted
  | some u => (σ.spawnRing3Wrapper m u).setPc t (.spawning u .ring3 (ring3Target m σ))

/-- Thread `t` goes on at `p`, having read `cpu`. -/
def goCpu (σ : Sched) (t : Tid) (cpu : ℕ) : Tpc → Sched
  | .leaving => σ.processExit cpu t
  | .exiting s p => σ.exitStep cpu t p s
  | p =>
    match (σ.cpu cpu).running with
    | none => σ.setPc t p.unmanaged
    | some u => σ.setPc t (.knows cpu (some u) p)

/-- Thread `t`, on CPU `c`, goes on having read `cpu`, and thread `u` for it. -/
def goThread (σ : Sched) (c : ℕ) (t : Tid) (cpu : ℕ) (u : Tid) : Tpc → Sched
  | .yielding => σ.kschedYield cpu u t .run
  | .resuming next => (σ.kthreadResumeRing3Ctx c cpu u).setPc t next
  | .wrapper =>
    match (σ.th u).hosted with
    | none => σ.setPc t .finishing
    | some p => (σ.bindSlot u p).setPc t (.resuming .run)
  | .finishing => σ.kschedExit u t
  | _ => σ

/-- A step of thread `t`, dispatched by loop `l`, where there is no choice. -/
def threadGo (σ : Sched) (c : ℕ) (t : Tid) (l : Loop) : Tpc → Sched
  | .wrapper => σ.setPc t (.knows c none .wrapper)
  | .retry o => σ.opSection t o
  | .waking [] => σ.setPc t .run
  | .waking (w::ws) => (σ.kschedWake w).setPc t (.waking ws)
  | .spawning u k cpu => (σ.kschedPush k u cpu).setPc t .run
  | .toSwitch next => σ.switchOut c t l (.resuming next)
  | .resuming next => σ.setPc t (.knows c none (.resuming next))
  | .yielding => σ.setPc t (.knows c none .yielding)
  | .leaving => σ.setPc t (.knows c none .leaving)
  | .exiting .unbound p => σ.setPc t (.knows c none (.exiting .unbound p))
  | .exiting s p => σ.exitStep c t p s
  | .finishing => σ.setPc t (.knows c none .finishing)
  | .exitSwitch => σ.switchOut c t l .dead
  | .knows cpu none p => σ.goCpu t cpu p
  | .knows cpu (some u) p => σ.goThread c t cpu u p
  | _ => σ

/-- A return from an interrupt or a system call. -/
def threadIret (σ : Sched) (c : ℕ) (t : Tid) : Sched :=
  match (σ.th t).pc,(σ.th t).frames with
  | .irq p,v::vs => σ.leave c t v vs p
  | .run,v::vs => σ.leave c t v vs .run
  | _,_ => σ

/-- A step of a CPU that executes thread `t`. -/
def stepThread (m : Machine) (σ : Sched) (c : ℕ) (t : Tid) (l : Loop) :
    Act → Sched × List Obs
  | .go => (σ.threadGo c t l (σ.th t).pc,[])
  | .op o =>
    if (σ.th t).pc = .run ∧ inKernel (σ.th t) then (σ.opSection t o,[]) else (σ,[])
  | .yield =>
    if (σ.th t).pc = .run ∧ inKernel (σ.th t) then (σ.setPc t .yielding,[]) else (σ,[])
  | .syscall =>
    if (σ.th t).pc = .run ∧ ¬inKernel (σ.th t) then (σ.enter c t .syscall .run,[]) else (σ,[])
  | .irq v =>
    if v ≠ .syscall ∧ (σ.th t).pc.masked = false ∧ (σ.th t).pc ≠ .dead then
      σ.threadIrq c t v (σ.th t).pc
    else (σ,[])
  | .iret => (σ.threadIret c t,[])
  | .exit =>
    if (σ.th t).pc = .run ∧ inKernel (σ.th t) then (σ.exitCall t,[]) else (σ,[])
  | .spawnRing3 =>
    if (σ.th t).pc = .run ∧ inKernel (σ.th t) then (σ.threadSpawn m t,[]) else (σ,[])
  | _ => (σ,[])

/-- A step of CPU `c`. -/
def step (m : Machine) (σ : Sched) (e : ℕ × Act) : Sched × List Obs :=
  if e.1 < m.numCoresOnline then
    match (σ.cpu e.1).ctx with
    | .boot pc => σ.stepBoot m e.1 pc e.2
    | .thread t l => σ.stepThread m e.1 t l e.2
  else (σ,[])

end Sched

end Gooos.Ksched
