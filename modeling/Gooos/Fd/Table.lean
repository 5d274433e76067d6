import Gooos.Lib.Trace

/-!
# Descriptor tables and pipes

`fd.go` and `pipe.go`, with the table parts of `sysPipeHandler`, `elfSpawn` and `processExit`.
A descriptor names the object behind it; only the pipe objects are part of this state, and the
rest of the kernel is a parameter that closing a socket may change.
-/

namespace Gooos.Fd

open Function

def procMaxFDs : ℕ := 16

instance : NeZero procMaxFDs := ⟨by decide⟩

abbrev Slot := Fin procMaxFDs

inductive FdErr where
  | ok | eof | pipe | bad
  deriving DecidableEq, Repr

/-- A `FileDesc` with a pointer to its object: two slots hold the same object if they hold
equal descriptors. -/
inductive FileDesc where
  | consoleStdin
  | consoleStdout (toVGA : Bool)
  | fileFd (f : ℕ)
  | pipeReader (p : ℕ)
  | pipeWriter (p : ℕ)
  | socketFd (s : ℕ)
  deriving DecidableEq, Repr

def FileDesc.isSocket : FileDesc → Bool
  | .socketFd _ => true
  | _ => false

/-- A `pipe`; `ch` are the bytes in the channel, which is closed exactly if `wrClosed`. -/
structure Pipe where
  ch : List UInt8
  rdClosed : Bool
  wrClosed : Bool
  rdRefs : ℕ
  wrRefs : ℕ
  deriving DecidableEq, Repr

/-- Both ends as `newPipe` makes them. -/
def Pipe.new : Pipe := ⟨[],false,false,1,1⟩

def Pipe.closeWriter (x : Pipe) : Pipe :=
  if x.wrClosed then
    x
  else
    let wrRefs := if 0 < x.wrRefs then x.wrRefs-1 else x.wrRefs
    { x with wrRefs, wrClosed := wrRefs = 0 }

def Pipe.closeReader (x : Pipe) : Pipe :=
  if x.rdClosed then
    x
  else
    let rdRefs := if 0 < x.rdRefs then x.rdRefs-1 else x.rdRefs
    { x with rdRefs, rdClosed := rdRefs = 0 }

/-- The tables of all processes, the pipes, and the rest. Processes and pipes are numbered as
they come. -/
structure Kernel (ρ : Type) where
  fds : ℕ × Slot → Option FileDesc
  nProcs : ℕ
  pipe : ℕ → Pipe
  nPipes : ℕ
  rest : ρ

namespace Kernel

variable {ρ : Type} (closeSocket : ℕ → ρ → ρ)

def setFd (k : Kernel ρ) (x : ℕ × Slot) (d : Option FileDesc) : Kernel ρ :=
  { k with fds := update k.fds x d }

def setPipe (k : Kernel ρ) (p : ℕ) (x : Pipe) : Kernel ρ :=
  { k with pipe := update k.pipe p x }

@[simp]
theorem setFd_fds (k : Kernel ρ) (x : ℕ × Slot) (d : Option FileDesc) :
    (k.setFd x d).fds = update k.fds x d := rfl

/-- `desc.Close()`. -/
def close (k : Kernel ρ) : FileDesc → Kernel ρ
  | .pipeWriter p => k.setPipe p (k.pipe p).closeWriter
  | .pipeReader p => k.setPipe p (k.pipe p).closeReader
  | .socketFd s => { k with rest := closeSocket s k.rest }
  | _ => k

def fdAddRef (k : Kernel ρ) : FileDesc → Kernel ρ
  | .pipeReader p => k.setPipe p { k.pipe p with rdRefs := (k.pipe p).rdRefs+1 }
  | .pipeWriter p => k.setPipe p { k.pipe p with wrRefs := (k.pipe p).wrRefs+1 }
  | _ => k

/-- The slot of a descriptor number, if it is one. -/
def slot? (fd : ℤ) : Option Slot :=
  if h : 0 ≤ fd ∧ fd < procMaxFDs then some ⟨fd.toNat,by omega⟩ else none

/-- The lowest free slot. -/
def freeSlot (k : Kernel ρ) (i : ℕ) : Option Slot :=
  (List.finRange procMaxFDs).find? fun a => (k.fds (i,a)).isNone

def procAllocFD (k : Kernel ρ) (i : ℕ) (d : FileDesc) : Option Slot × Kernel ρ :=
  match k.freeSlot i with
  | none => (none,k)
  | some a => (some a,k.setFd (i,a) (some d))

/-- Close what a slot holds and clear it. -/
def drop (k : Kernel ρ) (x : ℕ × Slot) : Kernel ρ :=
  match k.fds x with
  | none => k
  | some d => (k.setFd x none).close closeSocket d

def procClose (k : Kernel ρ) (i : ℕ) (fd : ℤ) : FdErr × Kernel ρ :=
  match slot? fd with
  | none => (.bad,k)
  | some a => (.ok,k.drop closeSocket (i,a))

/-- Close what `newfd` holds, install `d` there and count the new reference. -/
def install (k : Kernel ρ) (x : ℕ × Slot) (d : FileDesc) : Kernel ρ :=
  let k := match k.fds x with
    | none => k
    | some old => k.close closeSocket old
  (k.setFd x (some d)).fdAddRef d

/-- The new descriptor number if the call succeeds. -/
def procDup2 (k : Kernel ρ) (i : ℕ) (oldfd newfd : ℤ) : Option Slot × Kernel ρ :=
  match slot? oldfd, slot? newfd with
  | some a, some b =>
    match k.fds (i,a) with
    | none => (none,k)
    | some d => if a = b then (some b,k) else (some b,k.install closeSocket (i,b) d)
  | _, _ => (none,k)

/-- The descriptors of the read end and of the write end. A read end that found a slot is closed
again if the write end finds none. -/
def sysPipe (k : Kernel ρ) (i : ℕ) : Option (Slot × Slot) × Kernel ρ :=
  let p := k.nPipes
  let k := { k with pipe := update k.pipe p .new, nPipes := p+1 }
  match k.procAllocFD i (.pipeReader p) with
  | (none,k) => (none,k)
  | (some r,k) =>
    match k.procAllocFD i (.pipeWriter p) with
    | (none,k) => (none,(k.procClose closeSocket i r.val).2)
    | (some w,k) => (some (r,w),k)

/-- `sys_open` and the socket calls, once they have made the object. -/
def sysOpen (k : Kernel ρ) (i : ℕ) (d : FileDesc) : Option Slot × Kernel ρ := k.procAllocFD i d

/-- One turn of the inheritance loop: sockets stay with the parent. -/
def inherit (parent child : ℕ) (k : Kernel ρ) (a : Slot) : Kernel ρ :=
  match k.fds (parent,a) with
  | none => k.setFd (child,a) none
  | some d => if d.isSocket then k.setFd (child,a) none else (k.setFd (child,a) (some d)).fdAddRef d

/-- The table part of a successful `elfSpawn`. -/
def elfSpawn (k : Kernel ρ) (parent : ℕ) : Kernel ρ :=
  let child := k.nProcs
  (List.finRange procMaxFDs).foldl (inherit parent child) { k with nProcs := child+1 }

def procInitStdio (k : Kernel ρ) (i : ℕ) : Kernel ρ :=
  ((k.setFd (i,0) (some .consoleStdin)).setFd (i,1) (some (.consoleStdout true))).setFd (i,2)
    (some (.consoleStdout false))

/-- A process without a parent, as the boot hooks make it. -/
def launch (k : Kernel ρ) : Kernel ρ :=
  ({ k with nProcs := k.nProcs+1 }).procInitStdio k.nProcs

/-- The table part of `processExit`. -/
def procCloseAll (k : Kernel ρ) (i : ℕ) : Kernel ρ :=
  (List.finRange procMaxFDs).foldl (fun k a => k.drop closeSocket (i,a)) k

def empty (r : ρ) : Kernel ρ where
  fds _ := none
  nProcs := 0
  pipe _ := .new
  nPipes := 0
  rest := r

/-- The boot shell is process 0. -/
def boot (r : ρ) : Kernel ρ := (empty r).launch

end Kernel

/-- The calls that touch a table, each by process `i`. -/
inductive Ev (ρ : Type) where
  | pipe (i : ℕ)
  | dup2 (i : ℕ) (oldfd newfd : ℤ)
  | close (i : ℕ) (fd : ℤ)
  /-- a file or a socket is opened -/
  | openFd (i : ℕ) (d : FileDesc) (hd : ∀ p, d ≠ .pipeReader p ∧ d ≠ .pipeWriter p)
  /-- `sys_spawn` and `sys_exec` of a file that loads; others leave the tables alone -/
  | spawn (i : ℕ)
  | launch
  | exit (i : ℕ)
  /-- whatever else happens in the kernel -/
  | other (f : ρ → ρ)

namespace Kernel

variable {ρ : Type} (closeSocket : ℕ → ρ → ρ)

/-- Numbers that no process has are not used. -/
def step (k : Kernel ρ) : Ev ρ → Kernel ρ × List Unit
  | .pipe i => (if i < k.nProcs then (k.sysPipe closeSocket i).2 else k,[])
  | .dup2 i oldfd newfd =>
    (if i < k.nProcs then (k.procDup2 closeSocket i oldfd newfd).2 else k,[])
  | .close i fd => (if i < k.nProcs then (k.procClose closeSocket i fd).2 else k,[])
  | .openFd i d _ => (if i < k.nProcs then (k.sysOpen i d).2 else k,[])
  | .spawn i => (if i < k.nProcs then k.elfSpawn i else k,[])
  | .launch => (k.launch,[])
  | .exit i => (if i < k.nProcs then k.procCloseAll closeSocket i else k,[])
  | .other f => ({ k with rest := f k.rest },[])

end Kernel

end Gooos.Fd
