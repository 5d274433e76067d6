import Mathlib

/-!
# Kernel threads, CPUs and ready queues

The data of `kthread.go`, `kthread_sched.go`, `kthread_event.go`, `kthread_queue.go`
and `kthread_ring3.go`: the thread pool, what each CPU executes, the ready queues of
both tiers and the wait lists. Intrusive `WakeLink` lists are lists of pool slots.
-/

namespace Gooos.Ksched

open Function

def kthreadPoolCap : ℕ := 32
def maxCPUs : ℕ := 17
def fsReqQueueCap : ℕ := 8
def udpDgramQueueCap : ℕ := 16

instance : NeZero kthreadPoolCap := ⟨by decide⟩

/-- A pool slot, which is also the thread that lives in it. -/
abbrev Tid := Fin kthreadPoolCap

/-- `numCoresOnline` on this machine. -/
structure Machine where
  numCoresOnline : ℕ
  pos : 0 < numCoresOnline
  le : numCoresOnline ≤ maxCPUs

inductive KState where
  | new | runnable | running | parked | preempted | exiting
  deriving DecidableEq, Repr

/-- `kschedQueues` and `kschedQueuesRing3`. -/
inductive Tier where
  | service | ring3
  deriving DecidableEq, Repr

/-- The wait lists: the waiters of an event, the producers and the consumer of a request
or datagram queue. -/
inductive WaitList where
  | event (e : ℕ)
  | producers (q : ℕ)
  | consumer (q : ℕ)
  deriving DecidableEq, Repr

/-- Queue 0 is the file system's, the others carry datagrams. -/
def queueCap (q : ℕ) : ℕ := if q = 0 then fsReqQueueCap else udpDgramQueueCap

/-- Calls that may take a thread off the CPU or put others back on a ready queue. -/
inductive Op where
  | wait (e : ℕ)
  | signal (e : ℕ)
  | push (q : ℕ)
  | tryPush (q : ℕ)
  | pop (q : ℕ)
  | tryPop (q : ℕ)
  deriving DecidableEq, Repr

/-- Interrupt vectors: `int 0x80`, the preemption IPI `0xFB`, and all the others. -/
inductive Vec where
  | syscall | preempt | other
  deriving DecidableEq, Repr

/-- The vectors that count for `SyscallDepth`. -/
def Vec.sys : Vec → Bool
  | .other => false
  | _ => true

/-- How far `processExit` has come. -/
inductive ExitStage where
  | marked | unmapped | unbound | counted
  deriving DecidableEq, Repr

/-- Where a thread is in the code. -/
inductive Tpc where
  /-- In its own code: a service's body, a system call handler, or Ring 3. -/
  | run
  /-- At the top of `ring3WrapperKT`. -/
  | wrapper
  /-- In the loop of a blocking call, after a resume. -/
  | retry (o : Op)
  /-- Has taken the threads off their wait list and is to wake them one by one. -/
  | waking (ws : List Tid)
  /-- Has built a thread and is to push it. -/
  | spawning (t : Tid) (k : Tier) (cpu : ℕ)
  /-- Before `kschedSwitch` to the bootstrap context, to go on with `next` once resumed. -/
  | toSwitch (next : Tpc)
  /-- Switched in again, before `kthreadResumeRing3Ctx`. -/
  | resuming (next : Tpc)
  /-- In an interrupt handler that is to return to `under`. -/
  | irq (under : Tpc)
  /-- At the top of a `kschedYield` of its own. -/
  | yielding
  /-- At the top of `processExit`. -/
  | leaving
  | exiting (s : ExitStage) (proc : ℕ)
  /-- At the top of `kschedExit`. -/
  | finishing
  /-- At `p`, with the number of a CPU that `cpuID` has returned, and then the thread that
  `kschedRunning` had for it. Interrupts are on, so that neither need be so any more. -/
  | knows (cpu : ℕ) (u : Option Tid) (p : Tpc)
  /-- Marked as exiting, before its last `kschedSwitch`. -/
  | exitSwitch
  | dead
  /-- Halted by a panic. -/
  | halted
  deriving DecidableEq, Repr

/-- Interrupts are off: an interrupt handler is open. -/
def Tpc.masked : Tpc → Bool
  | .irq _ => true
  | .toSwitch p => p.masked
  | .resuming p => p.masked
  | .knows _ _ p => p.masked
  | _ => false

/-- The thread has been handed to others, but its context is not stored yet. -/
def Tpc.gap : Tpc → Bool
  | .toSwitch _ => true
  | .exitSwitch => true
  | .knows _ _ p => p.gap
  | _ => false

inductive Entry where
  | service | ring3WrapperKT
  deriving DecidableEq, Repr

def Entry.start : Entry → Tpc
  | .service => .run
  | .ring3WrapperKT => .wrapper

structure KThread where
  state : KState
  ownerCPU : ℕ
  used : Bool
  entry : Entry
  /-- `kthreadHostedProc` of the slot. -/
  hosted : Option ℕ
  /-- `SavedRSP` is the context the thread last left a CPU with. -/
  saved : Bool
  /-- The ISR entries open on the thread's stack, innermost first. -/
  frames : List Vec
  pc : Tpc
  deriving DecidableEq, Repr

/-- The dispatch loops. -/
inductive Loop where
  | kschedLoop | kschedLoopOnce | kschedLoopRing3Only | kschedLoopRing3OnlyOnce
  deriving DecidableEq, Repr

def Loop.tier : Loop → Tier
  | .kschedLoop => .service
  | .kschedLoopOnce => .service
  | .kschedLoopRing3Only => .ring3
  | .kschedLoopRing3OnlyOnce => .ring3

/-- The loops that look for an exiting thread after the switch back. -/
def Loop.reclaims : Loop → Bool
  | .kschedLoopOnce => true
  | .kschedLoopRing3OnlyOnce => true
  | _ => false

/-- Where a CPU's bootstrap context is. -/
inductive Dpc where
  | idle
  | stealing (i : ℕ)
  | popped (t : Tid) (l : Loop)
  | returned (t : Tid) (l : Loop)
  | spawning (t : Tid) (k : Tier) (cpu : ℕ)
  | halted
  deriving DecidableEq, Repr

/-- What a CPU executes. -/
inductive Ctx where
  | boot (pc : Dpc)
  | thread (t : Tid) (l : Loop)
  deriving DecidableEq, Repr

structure CPU where
  ctx : Ctx
  /-- `kschedRunning`. -/
  running : Option Tid
  interruptDepth : UInt32
  syscallDepth : UInt32
  currentPoolIdx : Option Tid
  /-- The loaded page table; `none` is the boot PML4. -/
  cr3 : Option ℕ
  /-- The ISR entries open in the bootstrap context. -/
  frames : List Vec
  deriving DecidableEq, Repr

/-- A `Process`; `pml4` says whether it has a page table of its own. -/
structure Proc where
  pml4 : Bool
  poolIdx : Option Tid
  exited : Bool
  deriving DecidableEq, Repr

structure Sched where
  th : Tid → KThread
  cpu : ℕ → CPU
  ready : Tier → ℕ → List Tid
  flag : ℕ → Bool
  count : ℕ → ℕ
  waiters : WaitList → List Tid
  rrCounter : UInt32
  poolHint : ℕ
  proc : ℕ → Proc
  nextProc : ℕ
  shellSpawned : Bool
  procByPoolSlot : Tid → Option ℕ
  /-- `procByTask` of the one task there is. -/
  procByTask : Option ℕ

/-- The boot shell is the first process. -/
def shellProc : ℕ := 0

def boot : Sched where
  th _ := { state := .new, ownerCPU := 0, used := false, entry := .service, hosted := none,
            saved := true, frames := [], pc := .dead }
  cpu _ := { ctx := .boot .idle, running := none, interruptDepth := 0, syscallDepth := 0,
             currentPoolIdx := none, cr3 := none, frames := [] }
  ready _ _ := []
  flag _ := false
  count _ := 0
  waiters _ := []
  rrCounter := 0
  poolHint := 0
  proc _ := { pml4 := false, poolIdx := none, exited := false }
  nextProc := 1
  shellSpawned := false
  procByPoolSlot _ := none
  procByTask := none

namespace Sched

def setTh (σ : Sched) (t : Tid) (x : KThread) : Sched := { σ with th := update σ.th t x }

def setCpu (σ : Sched) (c : ℕ) (x : CPU) : Sched := { σ with cpu := update σ.cpu c x }

def setPc (σ : Sched) (t : Tid) (p : Tpc) : Sched := σ.setTh t { σ.th t with pc := p }

def setCtx (σ : Sched) (c : ℕ) (x : Ctx) : Sched := σ.setCpu c { σ.cpu c with ctx := x }

def setReady (σ : Sched) (k : Tier) (c : ℕ) (ts : List Tid) : Sched :=
  { σ with ready := update σ.ready k (update (σ.ready k) c ts) }

def setWaiters (σ : Sched) (w : WaitList) (ts : List Tid) : Sched :=
  { σ with waiters := update σ.waiters w ts }

def setProc (σ : Sched) (p : ℕ) (x : Proc) : Sched := { σ with proc := update σ.proc p x }

end Sched

end Gooos.Ksched
