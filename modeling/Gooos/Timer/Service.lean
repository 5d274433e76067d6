import Gooos.Lib.Trace

/-!
# The timer service

`afterticks.go`: callers compute a deadline from the tick counter, put it into a fixed list under a
lock, and wait; one dispatcher reads the counter, takes what is due from the list under the lock,
and fires it outside. The steps here are those between which others can run. `ticks` counts without
bound, `pitTicks` is the counter of the code.
-/

namespace Gooos.Timer

open Function

abbrev Word := BitVec 64

def maxPendingTimers : ℕ := 256

inductive Client where
  | afterTicks | kEventAfter | kschedTimedPark
deriving DecidableEq

/-- The channel or event of a call; every call has its own. -/
inductive Target where
  | ch (c : ℕ)
  | ev (c : ℕ)
deriving DecidableEq

def Target.call : Target → ℕ
  | .ch c | .ev c => c

def Target.isCh : Target → Bool
  | .ch _ => true
  | .ev _ => false

def Client.target (client : Client) (c : ℕ) : Target :=
  match client with
  | .afterTicks => .ch c
  | .kEventAfter | .kschedTimedPark => .ev c

/-- A slot of `timerList` that is used. -/
structure Entry where
  deadline : Word
  target : Target
deriving DecidableEq

/-- A call; `made` is when it read the counter. -/
structure Call where
  client : Client
  d : Word
  deadline : Word
  made : ℕ
  inserted : Bool

/-- When the call asked to be woken. -/
def Call.due (call : Call) : ℕ := call.made+call.d.toNat

/-- Where the dispatcher is. A pass remembers when it started, and how many calls there were. -/
inductive Pass where
  | idle
  | started (now : Word) (start nCalls : ℕ)
  | firing (ready : List Target) (start nCalls : ℕ)

structure State where
  ticks : ℕ
  timerList : Fin maxPendingTimers → Option Entry
  calls : ℕ → Call
  nCalls : ℕ
  fires : ℕ → ℕ
  pass : Pass

inductive Ev where
  | tick
  /-- a client computes its deadline -/
  | call (client : Client) (d : Word)
  /-- `sysSleepHandler` -/
  | sleep (d : Word)
  /-- the client has the lock -/
  | insert (c : ℕ)
  /-- the dispatcher reads the counter -/
  | start
  /-- the dispatcher has the lock -/
  | scan
  /-- the dispatcher fires the next, or is done -/
  | fire
  /-- the client finds its event signalled, or its channel readable -/
  | wait (c : ℕ)

inductive Obs where
  /-- fired at this tick, after it had fired `before` times -/
  | fired (call : Call) (ticks before : ℕ)
  | returned (call : Call) (ticks : ℕ)
  | passEnded (start nCalls : ℕ) (calls : ℕ → Call) (fires : ℕ → ℕ)

namespace State

def pitTicks (s : State) : Word := BitVec.ofNat 64 s.ticks

def freeSlot (s : State) : Option (Fin maxPendingTimers) :=
  (List.finRange maxPendingTimers).find? fun i => (s.timerList i).isNone

def makeCall (s : State) (client : Client) (d : Word) : State :=
  { s with
    calls := update s.calls s.nCalls ⟨client,d,s.pitTicks+d,s.ticks,false⟩
    nCalls := s.nCalls+1 }

def markInserted (s : State) (c : ℕ) : State :=
  { s with calls := update s.calls c { s.calls c with inserted := true } }

def addFire (s : State) (c : ℕ) : State := { s with fires := update s.fires c (s.fires c+1) }

def setSlot (s : State) (i : Fin maxPendingTimers) (e : Entry) : State :=
  { s with timerList := update s.timerList i (some e) }

def isDue (now : Word) (e : Option Entry) : Bool := e.any fun e => e.deadline ≤ now

/-- What a pass takes from the list, in the order of the slots. -/
def dueTargets (s : State) (now : Word) : List Target :=
  (List.finRange maxPendingTimers).filterMap fun i =>
    if isDue now (s.timerList i) then (s.timerList i).map Entry.target else none

/-- Channels are fired before events. -/
def ready (s : State) (now : Word) : List Target :=
  (s.dueTargets now).filter Target.isCh++(s.dueTargets now).filter fun t => !t.isCh

def clearDue (s : State) (now : Word) : State :=
  { s with timerList := fun i => if isDue now (s.timerList i) then none else s.timerList i }

def step (s : State) : Ev → State × List Obs
  | .tick => ({ s with ticks := s.ticks+1 },[])
  | .call client d => (s.makeCall client d,[])
  | .sleep d =>
    if d = 0 then
      (s,[.returned ⟨.kschedTimedPark,0,s.pitTicks,s.ticks,true⟩ s.ticks])
    else
      (s.makeCall .kschedTimedPark d,[])
  | .insert c =>
    if c < s.nCalls ∧ (s.calls c).inserted = false then
      match s.freeSlot with
      | some i =>
        ((s.markInserted c).setSlot i ⟨(s.calls c).deadline,(s.calls c).client.target c⟩,[])
      | none =>
        -- overflow: the caller goes on at once
        ((s.markInserted c).addFire c,[.fired (s.calls c) s.ticks (s.fires c)])
    else
      (s,[])
  | .start =>
    match s.pass with
    | .idle => ({ s with pass := .started s.pitTicks s.ticks s.nCalls },[])
    | _ => (s,[])
  | .scan =>
    match s.pass with
    | .started now start n => ({ s.clearDue now with pass := .firing (s.ready now) start n },[])
    | _ => (s,[])
  | .fire =>
    match s.pass with
    | .firing (t::ts) start n =>
      ({ s.addFire t.call with pass := .firing ts start n },
        [.fired (s.calls t.call) s.ticks (s.fires t.call)])
    | .firing [] start n => ({ s with pass := .idle },[.passEnded start n s.calls s.fires])
    | _ => (s,[])
  | .wait c =>
    if c < s.nCalls ∧ 0 < s.fires c then (s,[.returned (s.calls c) s.ticks]) else (s,[])

def init : State :=
  ⟨0,fun _ => none,fun _ => ⟨.afterTicks,0,0,0,false⟩,0,fun _ => 0,.idle⟩

end State

/-- What the service is for: no timer fires early or twice, no caller goes on early, and a pass that
started when a timer was due has fired it by its end. -/
def Obs.Sound : Obs → Prop
  | .fired call ticks before => before = 0 ∧ call.due ≤ ticks
  | .returned call ticks => call.due ≤ ticks
  | .passEnded start n calls fires => ∀ c < n, (calls c).due ≤ start → fires c = 1

/-- A timer fires at most once, and once it has fired its slot is free. -/
def State.Clean (s : State) : Prop :=
  ∀ c, s.fires c ≤ 1 ∧ (0 < s.fires c → ∀ i e, s.timerList i = some e → e.target.call ≠ c)

/-- No sum wraps around, and the counter does so only while no timer is on its way and the
dispatcher has not read it; the list has room; the dispatcher does not overtake a call that it had
to see, between its reading of the counter and its turn at the lock. -/
def State.Timely (s : State) : Ev → Prop
  | .tick => (s.ticks+1)%2^64 = 0 → (∀ i, s.timerList i = none) ∧
      (∀ c < s.nCalls, (s.calls c).inserted = true) ∧ ∀ now start n, s.pass ≠ .started now start n
  | .call _ d | .sleep d => s.pitTicks.toNat+d.toNat < 2^64
  | .insert c => c < s.nCalls → (s.calls c).inserted = false → s.freeSlot ≠ none
  | .scan => ∀ now start n, s.pass = .started now start n → ∀ c < n,
      (s.calls c).inserted = false → start < (s.calls c).due
  | _ => True

end Gooos.Timer
