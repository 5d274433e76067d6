import Mathlib
import Gooos.Tcp.Sections

/-!
# TCB table and listener table

The table searches of `tcp.go` and the listener queues. A queue array with its
fill count is a list; pointers into `tcbTable` are slot numbers.
-/

namespace Gooos

abbrev Slot := Fin 16

instance slotNeZero : NeZero 16 := ⟨by decide⟩

/-- A `*TCB`. `gen` is not in the code: it says which allocation of the slot the
pointer was taken from, and no modelled function reads it. -/
structure TcbRef where
  slot : Slot
  gen : ℕ
  deriving DecidableEq, Repr

/-! ## Table searches -/

/-- The slot `tcbAlloc` claims. -/
def tcbAllocFind (tcb : Slot → TCB) : Option Slot :=
  (List.finRange 16).find? fun i => !(tcb i).active

def tcbLookup (tcb : Slot → TCB) (localIP : UInt32) (localPort : UInt16) (remoteIP : UInt32)
    (remotePort : UInt16) : Option Slot :=
  (List.finRange 16).find? fun i => (tcb i).active && (tcb i).localIP == localIP &&
    (tcb i).localPort == localPort && (tcb i).remoteIP == remoteIP &&
    (tcb i).remotePort == remotePort

def tcpEphemeralBase : UInt16 := 49152

/-- The first of the 16 ephemeral ports that no active TCB uses, or 0. -/
def tcpAllocEphemeralPort (tcb : Slot → TCB) : UInt16 :=
  (((List.range 16).map fun j => tcpEphemeralBase+UInt16.ofNat j).find? fun p =>
    !(List.finRange 16).any fun i => (tcb i).active && (tcb i).localPort == p).getD 0

/-! ## Listeners -/

/-- `tcpListener` with `pending[:nPending]` and `accept[:nAccept]`. Both queues
together never exceed the depth cap. -/
structure TcpListener where
  port : UInt16
  active : Bool
  owner : Int
  pending : List TcbRef
  accept : List TcbRef
  depth_le : pending.length+accept.length ≤ tcpAcceptQueueDepth

def TcpListener.zero : TcpListener := ⟨0,false,0,[],[],by simp⟩

def tcpListenerAllocLocked (ls : Fin 4 → TcpListener) (port : UInt16) (owner : Int) :
    Option (Fin 4 × TcpListener) :=
  if (List.finRange 4).any fun i => (ls i).active && (ls i).port == port then none
  else ((List.finRange 4).find? fun i => !(ls i).active).map fun i =>
    (i,⟨port,true,owner,[],[],by simp⟩)

def tcpListenerLookupLocked (ls : Fin 4 → TcpListener) (port : UInt16) : Option (Fin 4) :=
  (List.finRange 4).find? fun i => (ls i).active && (ls i).port == port

/-- The queue holds the pointer `t`. -/
def holds (q : List TcbRef) (t : TcbRef) : Bool := q.any (·.slot == t.slot)

/-- The queue with the first occurrence of `t` shifted out. -/
def shiftOut (q : List TcbRef) (t : TcbRef) : List TcbRef := q.eraseP (·.slot == t.slot)

theorem length_shiftOut_le (q : List TcbRef) (t : TcbRef) : (shiftOut q t).length ≤ q.length :=
  List.length_eraseP_le

theorem length_shiftOut_lt (q : List TcbRef) (t : TcbRef) (h : holds q t = true) :
    (shiftOut q t).length < q.length := by
  obtain ⟨r,hr,hs⟩ := List.any_eq_true.mp h
  rw [shiftOut,List.length_eraseP_of_mem hr hs]
  have := List.length_pos_of_mem hr
  omega

/-- `none` when the queues are at their cap. -/
def tcpListenerPushPending (l : TcpListener) (t : TcbRef) : Option TcpListener :=
  if h : l.pending.length+l.accept.length < tcpAcceptQueueDepth then
    some { l with
      pending := l.pending++[t]
      depth_le := by simp only [List.length_append,List.length_singleton]; omega }
  else none

/-- Move `t` from `pending` to `accept`; `false` when it was not pending. -/
def tcpListenerPromote (l : TcpListener) (t : TcbRef) : TcpListener × Bool :=
  if h : holds l.pending t = true then
    if tcpAcceptQueueDepth ≤ l.accept.length then
      ({ l with
         pending := shiftOut l.pending t
         depth_le := by
           have := l.depth_le
           have := length_shiftOut_le l.pending t
           omega },false)
    else
      ({ l with
         pending := shiftOut l.pending t
         accept := l.accept++[t]
         depth_le := by
           have := l.depth_le
           have := length_shiftOut_lt l.pending t h
           simp only [List.length_append,List.length_singleton]
           omega },true)
  else (l,false)

/-- Drop `t` from `pending`, or else from `accept`. -/
def tcpListenerRemove (l : TcpListener) (t : TcbRef) : TcpListener :=
  if holds l.pending t then
    { l with
      pending := shiftOut l.pending t
      depth_le := by
        have := l.depth_le
        have := length_shiftOut_le l.pending t
        omega }
  else
    { l with
      accept := shiftOut l.accept t
      depth_le := by
        have := l.depth_le
        have := length_shiftOut_le l.accept t
        omega }

/-- `sysAcceptHandler` taking the front of the accept queue. -/
def acceptPop (l : TcpListener) : Option (TcbRef × TcpListener) :=
  match h : l.accept with
  | [] => none
  | t :: ts => some (t,{ l with
      accept := ts
      depth_le := by
        have := l.depth_le
        rw [h,List.length_cons] at this
        omega })

/-- `socketFd.Close` of a listener: both queues emptied, the port given up. -/
def listenerDrain (l : TcpListener) : TcpListener :=
  { l with pending := [], accept := [], active := false, depth_le := by simp }

end Gooos
