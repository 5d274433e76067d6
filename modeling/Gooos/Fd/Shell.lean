import Gooos.Fd.Effects

/-!
# The shell's pipelines

`executePipeline` of `user/cmd/sh/main.go` over the descriptor tables: pipes, redirections, the
two slots that keep the shell's own input and output, and the children of each stage.
-/

namespace Gooos.Fd

open Function

/-- What `parseStage` accepts: there is a command. -/
structure CmdLine where
  argv : List String
  stdinFile : String
  stdoutFile : String
  hargv : argv ≠ []

def CmdLine.cmd (c : CmdLine) : String := c.argv.head c.hargv

def isBuiltin (cmd : String) : Bool :=
  cmd = "help" || cmd = "echo" || cmd = "clear" || cmd = "exit"

def CmdLine.needRestore (c : CmdLine) : Bool := c.stdinFile ≠ "" || c.stdoutFile ≠ ""

structure Pipeline where
  stages : List CmdLine
  background : Bool

def savedStdinFD : Slot := 10
def savedStdoutFD : Slot := 11

/-- The kernel as the shell finds it. `files` says of each `sys_open`, `sys_spawn` and `sys_exec`
still to come whether it finds its file; `failed` that some call failed so far. -/
structure Sh (ρ : Type) where
  k : Kernel ρ
  files : List Bool
  /-- the name behind each file object that was opened -/
  opened : ℕ → String
  nFiles : ℕ
  failed : Bool

namespace Sh

variable {ρ : Type} (closeSocket : ℕ → ρ → ρ) (i : ℕ)

def pipe (s : Sh ρ) : Option (Slot × Slot) × Sh ρ :=
  let q := s.k.sysPipe closeSocket i
  (q.1,{ s with k := q.2, failed := s.failed || q.1.isNone })

def dup2 (s : Sh ρ) (oldfd newfd : Slot) : Option Slot × Sh ρ :=
  let q := s.k.procDup2 closeSocket i oldfd.val newfd.val
  (q.1,{ s with k := q.2, failed := s.failed || q.1.isNone })

def close (s : Sh ρ) (fd : Slot) : Sh ρ := { s with k := (s.k.procClose closeSocket i fd.val).2 }

def openFile (s : Sh ρ) (path : String) : Option Slot × Sh ρ :=
  if s.files.headD true then
    let q := s.k.sysOpen i (.fileFd s.nFiles)
    (q.1,{ s with
      k := q.2
      files := s.files.tail
      opened := update s.opened s.nFiles path
      nFiles := s.nFiles+1
      failed := s.failed || q.1.isNone })
  else
    (none,{ s with files := s.files.tail, failed := true })

/-- The number of the child. -/
def spawn (s : Sh ρ) : Option ℕ × Sh ρ :=
  if s.files.headD true then
    (some s.k.nProcs,{ s with k := s.k.elfSpawn i, files := s.files.tail })
  else
    (none,{ s with files := s.files.tail, failed := true })

/-- The child has run and exited when the call returns. -/
def exec (s : Sh ρ) : Sh ρ :=
  match s.spawn i with
  | (none,s) => s
  | (some j,s) => { s with k := s.k.procCloseAll closeSocket j }

/-- Keep the shell's input and output; `false` if there is nothing to keep. -/
def saveStdio (s : Sh ρ) : Bool × Sh ρ :=
  match s.dup2 closeSocket i 0 savedStdinFD with
  | (none,s) => (false,s)
  | (some _,s) =>
    let q := s.dup2 closeSocket i 1 savedStdoutFD
    (q.1.isSome,q.2)

def restoreStdio (saved : Bool) (s : Sh ρ) : Sh ρ :=
  if saved then
    let s := (s.dup2 closeSocket i savedStdinFD 0).2
    let s := s.close closeSocket i savedStdinFD
    let s := (s.dup2 closeSocket i savedStdoutFD 1).2
    s.close closeSocket i savedStdoutFD
  else
    s

/-- One redirection, if there is one; `false` if its file cannot be opened. -/
def redirect (s : Sh ρ) (path : String) (target : Slot) : Bool × Sh ρ :=
  if path = "" then
    (true,s)
  else
    match s.openFile i path with
    | (none,s) => (false,s)
    | (some fd,s) => (true,(s.dup2 closeSocket i fd target).2.close closeSocket i fd)

/-- Nothing if the shell has exited. -/
def runCommand (s : Sh ρ) (cmd : String) : Option (Sh ρ) :=
  if cmd = "exit" then none
  else if isBuiltin cmd then some s
  else some (s.exec closeSocket i)

/-- Foreground or background, a command that has its redirections. -/
def dispatch (background : Bool) (s : Sh ρ) (cmd : String) : Option (Sh ρ) :=
  if background && !isBuiltin cmd then some (s.spawn i).2 else s.runCommand closeSocket i cmd

/-- A stage whose input and output have been saved if it redirects them. -/
def runRedirected (background : Bool) (c : CmdLine) (s : Sh ρ) : Option (Sh ρ) :=
  match s.redirect closeSocket i c.stdinFile 0 with
  | (false,s) => some (s.restoreStdio closeSocket i c.needRestore)
  | (true,s) =>
    match s.redirect closeSocket i c.stdoutFile 1 with
    | (false,s) => some (s.restoreStdio closeSocket i c.needRestore)
    | (true,s) =>
      (s.dispatch closeSocket i background c.cmd).map (restoreStdio closeSocket i c.needRestore)

def executeCmdLine (background : Bool) (c : CmdLine) (s : Sh ρ) : Option (Sh ρ) :=
  if c.needRestore then
    match s.saveStdio closeSocket i with
    | (false,s) => some s
    | (true,s) => s.runRedirected closeSocket i background c
  else
    s.runRedirected closeSocket i background c

/-- The pipes of a pipeline, or nothing as soon as one cannot be made. -/
def makePipes (s : Sh ρ) : ℕ → Option (List (Slot × Slot)) × Sh ρ
  | 0 => (some [],s)
  | n+1 =>
    match s.pipe closeSocket i with
    | (none,s) => (none,s)
    | (some q,s) =>
      match s.makePipes n with
      | (none,s) => (none,s)
      | (some qs,s) => (some (q::qs),s)

/-- A builtin runs in the shell, anything else in a child. -/
def runStage (c : CmdLine) (s : Sh ρ) : Option (Option ℕ × Sh ρ) :=
  if isBuiltin c.cmd then (s.executeCmdLine closeSocket i false c).map (none,·)
  else some (s.spawn i)

/-- The loop over the stages, from one on: `before` is the read end that the last stage left, and
the first of `pipes` the pipe to the next stage. The first stage has no `before`, and the last one
no pipe. -/
def runStages (before : Option Slot) (pipes : List (Slot × Slot)) (s : Sh ρ) :
    List CmdLine → Option (List (Option ℕ) × Sh ρ)
  | [] => some ([],s)
  | c::cs =>
    let s := (s.dup2 closeSocket i (before.getD savedStdinFD) 0).2
    let s := (s.dup2 closeSocket i ((pipes.head?.map Prod.snd).getD savedStdoutFD) 1).2
    match s.runStage closeSocket i c with
    | none => none
    | some (pid,s) =>
      let s := before.elim s (s.close closeSocket i)
      let s := (pipes.head?.map Prod.snd).elim s (s.close closeSocket i)
      (s.runStages (pipes.head?.map Prod.fst) pipes.tail cs).map fun r => (pid::r.1,r.2)

/-- The children, in the order of the stages. The waits and the job table leave the descriptors
alone. -/
def executeConcurrentPipe (stages : List CmdLine) (s : Sh ρ) :
    Option (List (Option ℕ) × Sh ρ) :=
  match s.makePipes closeSocket i (stages.length-1) with
  | (none,s) => some ([],s)
  | (some pipes,s) =>
    match s.saveStdio closeSocket i with
    | (false,s) => some ([],s)
    | (true,s) =>
      (s.runStages closeSocket i none pipes stages).map fun r =>
        (r.1,r.2.restoreStdio closeSocket i true)

def executePipeline (p : Pipeline) (s : Sh ρ) : Option (Sh ρ) :=
  match p.stages with
  | [] => some s
  | [c] => s.executeCmdLine closeSocket i p.background c
  | stages => (s.executeConcurrentPipe closeSocket i stages).map Prod.snd

/-! ### The shell's own table -/

def tab (s : Sh ρ) : Slot → Option FileDesc := s.k.tab i

variable {closeSocket i} {s : Sh ρ}

theorem dup2_tab (a b : Slot) : (s.dup2 closeSocket i a b).2.tab i =
    if s.tab i a = none then s.tab i else update (s.tab i) b (s.tab i a) := by
  have hfds : (s.k.procDup2 closeSocket i a.val b.val).2.fds = _ := Kernel.procDup2_fds a b
  change (fun c => (s.k.procDup2 closeSocket i a.val b.val).2.fds (i,c)) = _
  rw [hfds]
  by_cases ha : s.k.tab i a = none
  · rw [if_pos ha]
    exact (if_pos ha).symm
  · rw [if_neg ha]
    exact (Kernel.tab_update ..).trans (if_neg ha).symm

theorem dup2_isSome (a b : Slot) : (s.dup2 closeSocket i a b).1.isSome = (s.tab i a).isSome :=
  Kernel.procDup2_isSome a b

/-- A slot that is not written stays. -/
theorem dup2_tab_of_ne {a b c : Slot} (hc : c ≠ b) :
    (s.dup2 closeSocket i a b).2.tab i c = s.tab i c := by
  rw [dup2_tab]
  split
  · rfl
  · exact update_of_ne hc ..

theorem dup2_tab_self {a b : Slot} (ha : s.tab i a ≠ none) :
    (s.dup2 closeSocket i a b).2.tab i b = s.tab i a := by
  rw [dup2_tab,if_neg ha,update_self]

theorem close_tab (a : Slot) :
    (s.close closeSocket i a).tab i = update (s.tab i) a none := by
  change (s.k.procClose closeSocket i a.val).2.tab i = _
  unfold Kernel.tab
  rw [Kernel.procClose_fds]
  exact Kernel.tab_update ..

theorem spawn_tab (hi : i < s.k.nProcs) : (s.spawn i).2.tab i = s.tab i := by
  rw [spawn]
  split
  · funext a
    exact (Kernel.elfSpawn_fds hi _).trans (if_neg (Nat.ne_of_lt hi))
  · rfl

theorem exec_tab (hi : i < s.k.nProcs) : (s.exec closeSocket i).tab i = s.tab i := by
  have hspawn := spawn_tab hi
  rw [exec]
  cases hs : s.spawn i with
  | mk j s' =>
    rw [hs] at hspawn
    cases j with
    | none => exact hspawn
    | some j =>
      have hj : i ≠ j := by
        rw [spawn] at hs
        split at hs
        · cases hs
          exact Nat.ne_of_lt hi
        · cases hs
      rw [← hspawn]
      funext a
      exact Kernel.procCloseAll_fds _ _ hj

/-- A pipe goes to the two lowest free slots. -/
theorem pipe_cases (closeSocket : ℕ → ρ → ρ) (i : ℕ) (s : Sh ρ) :
    ((s.pipe closeSocket i).1 = none ∧ (s.pipe closeSocket i).2.tab i = s.tab i ∧
      (s.pipe closeSocket i).2.failed = true ∧
      ∀ a b, s.tab i a = none → s.tab i b = none → a = b) ∨
    ∃ r w, (s.pipe closeSocket i).1 = some (r,w) ∧ r < w ∧ s.tab i r = none ∧
      s.tab i w = none ∧ (∀ b < w, b ≠ r → s.tab i b ≠ none) ∧
      (s.pipe closeSocket i).2.tab i = update (update (s.tab i) r
        (some (.pipeReader s.k.nPipes))) w (some (.pipeWriter s.k.nPipes)) := by
  obtain ⟨hnone,hfds,hfull⟩ | ⟨r,w,hsome,hlt,hr,hw,hlow,hfds⟩ :=
    Kernel.sysPipe_cases closeSocket s.k i
  · refine .inl ⟨hnone,?_,?_,hfull⟩
    · change (s.k.sysPipe closeSocket i).2.tab i = _
      unfold Kernel.tab
      rw [hfds]
      rfl
    · change (s.failed || (s.k.sysPipe closeSocket i).1.isNone) = true
      rw [hnone]
      exact Bool.or_true _
  · refine .inr ⟨r,w,hsome,hlt,(Kernel.freeSlot_eq_some.mp hr).1,hw,hlow,?_⟩
    change (s.k.sysPipe closeSocket i).2.tab i = _
    unfold Kernel.tab
    rw [hfds,Kernel.tab_update,Kernel.tab_update]
    rfl

/-- A file goes to a free slot, or is not opened. -/
theorem openFile_cases (s : Sh ρ) (path : String) :
    ((s.openFile i path).1 = none ∧ (s.openFile i path).2.tab i = s.tab i) ∨
    ∃ a f, (s.openFile i path).1 = some a ∧ s.tab i a = none ∧
      (s.openFile i path).2.tab i = update (s.tab i) a (some (.fileFd f)) := by
  rw [openFile]
  split
  · rw [Kernel.sysOpen,Kernel.procAllocFD]
    cases ha : s.k.freeSlot i with
    | none => exact .inl ⟨rfl,rfl⟩
    | some a => exact .inr ⟨a,s.nFiles,rfl,(Kernel.freeSlot_eq_some.mp ha).1,Kernel.tab_update ..⟩
  · exact .inl ⟨rfl,rfl⟩

/-! ### Everything else -/

/-- What the shell's calls leave alone: the tables of the other processes, and that something
has failed. -/
structure Later (i : ℕ) (s s' : Sh ρ) : Prop where
  procs : s.k.nProcs ≤ s'.k.nProcs
  others : ∀ j, j ≠ i → j < s.k.nProcs → s'.k.tab j = s.k.tab j
  failed : s'.failed = false → s.failed = false

namespace Later

variable {s₁ s₂ s₃ : Sh ρ}

theorem refl (i : ℕ) (s : Sh ρ) : Later i s s := ⟨le_rfl,fun _ _ _ => rfl,id⟩

theorem trans (h : Later i s₁ s₂) (h' : Later i s₂ s₃) : Later i s₁ s₃ :=
  ⟨h.procs.trans h'.procs,fun j hj hlt => (h'.others j hj (hlt.trans_le h.procs)).trans
    (h.others j hj hlt),fun hf => h.failed (h'.failed hf)⟩

/-- A call that writes at most slots of the shell. -/
theorem of_fds (hprocs : s'.k.nProcs = s.k.nProcs)
    (hfds : ∀ x, x.1 ≠ i → s'.k.fds x = s.k.fds x) (hf : s'.failed = false → s.failed = false) :
    Later i s s' :=
  ⟨hprocs.ge,fun j hj _ => funext fun a => hfds (j,a) hj,hf⟩

end Later

theorem update_other {f : ℕ × Slot → Option FileDesc} {a : Slot} {d : Option FileDesc}
    {x : ℕ × Slot} (hx : x.1 ≠ i) : update f (i,a) d x = f x :=
  update_of_ne (fun heq => hx (by rw [heq])) ..

theorem later_pipe (s : Sh ρ) : Later i s (s.pipe closeSocket i).2 := by
  refine .of_fds Kernel.sysPipe_nProcs (fun x hx => ?_) fun h => (Bool.or_eq_false_iff.mp h).1
  obtain ⟨-,hfds,-⟩ | ⟨r,w,-,-,-,-,-,hfds⟩ := Kernel.sysPipe_cases closeSocket s.k i
  · exact congrFun hfds x
  · exact (congrFun hfds x).trans ((update_other hx).trans (update_other hx))

theorem later_dup2 (s : Sh ρ) (a b : Slot) : Later i s (s.dup2 closeSocket i a b).2 := by
  refine .of_fds (Kernel.procDup2_nProcs a b) (fun x hx => ?_) fun h => (Bool.or_eq_false_iff.mp h).1
  refine (congrFun (Kernel.procDup2_fds a b) x).trans ?_
  split
  · rfl
  · exact update_other hx

theorem later_close (s : Sh ρ) (a : Slot) : Later i s (s.close closeSocket i a) :=
  .of_fds (Kernel.procClose_nProcs a) (fun x hx => (congrFun (Kernel.procClose_fds a) x).trans
    (update_other hx)) id

theorem later_openFile (s : Sh ρ) (path : String) : Later i s (s.openFile i path).2 := by
  rw [openFile]
  split
  · refine .of_fds (Kernel.procAllocFD_nProcs _) (fun x hx => ?_)
      fun h => (Bool.or_eq_false_iff.mp h).1
    change (s.k.procAllocFD i _).2.fds x = _
    rw [Kernel.procAllocFD]
    split
    · rfl
    · exact update_other hx
  · exact .of_fds rfl (fun _ _ => rfl) (by rintro ⟨⟩)

theorem later_spawn (hi : i < s.k.nProcs) : Later i s (s.spawn i).2 := by
  rw [spawn]
  split
  · refine ⟨?_,fun j _ hlt => funext fun a => ?_,id⟩
    · change s.k.nProcs ≤ (s.k.elfSpawn i).nProcs
      rw [Kernel.elfSpawn_nProcs]
      exact Nat.le_succ _
    · exact (Kernel.elfSpawn_fds hi _).trans (if_neg (Nat.ne_of_lt hlt))
  · exact .of_fds rfl (fun _ _ => rfl) nofun

theorem later_saveStdio (s : Sh ρ) : Later i s (s.saveStdio closeSocket i).2 := by
  have h : Later i s (s.dup2 closeSocket i 0 savedStdinFD).2 := later_dup2 s 0 savedStdinFD
  rw [saveStdio]
  split
  · rename_i s₁ hs
    rwa [hs] at h
  · rename_i s₁ hs
    rw [hs] at h
    exact h.trans (later_dup2 s₁ 1 savedStdoutFD)

theorem later_restoreStdio (s : Sh ρ) (saved : Bool) :
    Later i s (s.restoreStdio closeSocket i saved) := by
  rw [restoreStdio]
  split
  · exact (((later_dup2 s _ _).trans (later_close _ _)).trans (later_dup2 _ _ _)).trans
      (later_close _ _)
  · exact .refl i s

end Sh

end Gooos.Fd
