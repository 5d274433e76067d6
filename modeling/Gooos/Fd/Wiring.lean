import Gooos.Fd.Shell

/-!
# How a pipeline is wired

All pipes are made before the first stage is spawned, so the first stage inherits the read end of
its own pipe in the slot where the shell has it.
-/

namespace Gooos.Fd

open Function (update update_self update_of_ne)

/-- The slot holds a file that was opened on this name between two states of the shell. -/
def HoldsFile {ρ : Type} (s₀ s : Sh ρ) (path : String) (d : Option FileDesc) : Prop :=
  ∃ f, d = some (.fileFd f) ∧ s₀.nFiles ≤ f ∧ f < s.nFiles ∧ s.opened f = path

/-- A slot of a stage: what the stage redirects it to, or else `d`. -/
def HoldsOr {ρ : Type} (s₀ s : Sh ρ) (path : String) (d e : Option FileDesc) : Prop :=
  if path = "" then e = d else HoldsFile s₀ s path e

/-- The descriptors of a pipeline that process `i` has started in `s₀`: stage `j` is process
`s₀.k.nProcs+j`, and its pipe is `s₀.k.nPipes+j`. -/
structure Wired {ρ : Type} (i : ℕ) (stages : List CmdLine) (s₀ s : Sh ρ) : Prop where
  stdout : ∀ j c, stages[j]? = some c → j+1 < stages.length →
    HoldsOr s₀ s c.stdoutFile (some (.pipeWriter (s₀.k.nPipes+j))) (s.k.tab (s₀.k.nProcs+j) 1)
  stdin : ∀ j c, stages[j+1]? = some c →
    HoldsOr s₀ s c.stdinFile (some (.pipeReader (s₀.k.nPipes+j))) (s.k.tab (s₀.k.nProcs+j+1) 0)
  first : ∀ c, stages[0]? = some c →
    HoldsOr s₀ s c.stdinFile (s₀.tab i 0) (s.k.tab s₀.k.nProcs 0)
  last : ∀ c, stages.getLast? = some c →
    HoldsOr s₀ s c.stdoutFile (s₀.tab i 1) (s.k.tab (s₀.k.nProcs+(stages.length-1)) 1)
  /-- only stage `j` holds the write end of its pipe -/
  writers : ∀ j, j+1 < stages.length → ∀ x, s.k.fds x = some (.pipeWriter (s₀.k.nPipes+j)) →
    x.1 = s₀.k.nProcs+j
  /-- only the next stage holds the read end -/
  readers : ∀ j, j+1 < stages.length → ∀ x, s.k.fds x = some (.pipeReader (s₀.k.nPipes+j)) →
    x.1 = s₀.k.nProcs+j+1

namespace Sh

variable {ρ : Type} {closeSocket : ℕ → ρ → ρ} {i : ℕ} {s s' : Sh ρ}

/-- Pipes fill free slots; a pipe that cannot be made is a failure. -/
theorem makePipes_keeps (closeSocket : ℕ → ρ → ρ) (i n : ℕ) (s : Sh ρ) :
    Later i s (s.makePipes closeSocket i n).2 ∧
      (s.makePipes closeSocket i n).2.k.nProcs = s.k.nProcs ∧
      (s.makePipes closeSocket i n).2.nFiles = s.nFiles ∧
      (∀ a, s.tab i a ≠ none → (s.makePipes closeSocket i n).2.tab i a = s.tab i a) ∧
      ((s.makePipes closeSocket i n).1 = none → (s.makePipes closeSocket i n).2.failed = true) := by
  induction n generalizing s with
  | zero => exact ⟨.refl i s,rfl,rfl,fun _ _ => rfl,nofun⟩
  | succ n ih =>
    have hlater : Later i s (s.pipe closeSocket i).2 := later_pipe s
    have hprocs : (s.pipe closeSocket i).2.k.nProcs = s.k.nProcs := Kernel.sysPipe_nProcs
    have hfiles : (s.pipe closeSocket i).2.nFiles = s.nFiles := rfl
    have hcases := pipe_cases closeSocket i s
    rw [makePipes]
    cases hp : s.pipe closeSocket i with
    | mk q s₁ =>
      rw [hp] at hlater hprocs hfiles hcases
      obtain ⟨rfl,htab,hfail,-⟩ | ⟨r,w,rfl,-,hr,hw,-,htab⟩ := hcases
      · exact ⟨hlater,hprocs,hfiles,fun a _ => congrFun htab a,fun _ => hfail⟩
      · have hkeep (a : Slot) (ha : s.tab i a ≠ none) : s₁.tab i a = s.tab i a := by
          have haw : a ≠ w := by
            rintro rfl
            exact ha hw
          have har : a ≠ r := by
            rintro rfl
            exact ha hr
          rw [htab,update_of_ne haw,update_of_ne har]
        obtain ⟨hlater',hprocs',hfiles',hkeep',hfail'⟩ := ih s₁
        dsimp only
        cases hm : s₁.makePipes closeSocket i n with
        | mk qs s₂ =>
          rw [hm] at hlater' hprocs' hfiles' hkeep' hfail'
          have hall : Later i s s₂ ∧ s₂.k.nProcs = s.k.nProcs ∧ s₂.nFiles = s.nFiles ∧
              ∀ a, s.tab i a ≠ none → s₂.tab i a = s.tab i a := by
            refine ⟨hlater.trans hlater',hprocs'.trans hprocs,hfiles'.trans hfiles,fun a ha => ?_⟩
            have h₁ := hkeep a ha
            exact (hkeep' a (h₁ ▸ ha)).trans h₁
          cases qs with
          | none => exact ⟨hall.1,hall.2.1,hall.2.2.1,hall.2.2.2,fun _ => hfail' rfl⟩
          | some qs => exact ⟨hall.1,hall.2.1,hall.2.2.1,hall.2.2.2,nofun⟩

/-- What the save does if it succeeds, and that it fails otherwise. -/
theorem saveStdio_cases (closeSocket : ℕ → ρ → ρ) (i : ℕ) (s : Sh ρ) :
    ((s.saveStdio closeSocket i).1 = false ∧ (s.saveStdio closeSocket i).2.failed = true) ∨
    (s.saveStdio closeSocket i).1 = true ∧ s.tab i 0 ≠ none ∧ s.tab i 1 ≠ none ∧
      (s.saveStdio closeSocket i).2.tab i =
        update (update (s.tab i) savedStdinFD (s.tab i 0)) savedStdoutFD (s.tab i 1) ∧
      (s.saveStdio closeSocket i).2.k.nProcs = s.k.nProcs ∧
      (s.saveStdio closeSocket i).2.nFiles = s.nFiles := by
  have hfail (s : Sh ρ) (a b : Slot) (h : (s.dup2 closeSocket i a b).1 = none) :
      (s.dup2 closeSocket i a b).2.failed = true := by
    change (s.failed || (s.dup2 closeSocket i a b).1.isNone) = true
    rw [h]
    exact Bool.or_true _
  have hopen (s : Sh ρ) (a b c : Slot) (h : (s.dup2 closeSocket i a b).1 = some c) :
      s.tab i a ≠ none := by
    have hsome : (s.dup2 closeSocket i a b).1.isSome = _ := dup2_isSome a b
    rw [← Option.isSome_iff_ne_none,← hsome,h]
    rfl
  have hfail₁ := hfail s 0 savedStdinFD
  have hopen₁ := hopen s 0 savedStdinFD
  have htab₁ : (s.dup2 closeSocket i 0 savedStdinFD).2.tab i = _ := dup2_tab 0 savedStdinFD
  have hprocs₁ : (s.dup2 closeSocket i 0 savedStdinFD).2.k.nProcs = s.k.nProcs :=
    Kernel.procDup2_nProcs 0 savedStdinFD
  have hfiles₁ : (s.dup2 closeSocket i 0 savedStdinFD).2.nFiles = s.nFiles := rfl
  rw [saveStdio]
  cases hs : s.dup2 closeSocket i 0 savedStdinFD with
  | mk b s₁ =>
    rw [hs] at hfail₁ hopen₁ htab₁ hprocs₁ hfiles₁
    cases b with
    | none => exact .inl ⟨rfl,hfail₁ rfl⟩
    | some b =>
      have h0 := hopen₁ b rfl
      rw [if_neg h0] at htab₁
      have h1 : s₁.tab i 1 = s.tab i 1 := by rw [htab₁,update_of_ne (by decide)]
      dsimp only
      cases hd : (s₁.dup2 closeSocket i 1 savedStdoutFD).1 with
      | none => exact .inl ⟨rfl,hfail s₁ _ _ hd⟩
      | some c =>
        have h1' := hopen s₁ _ _ c hd
        refine .inr ⟨rfl,h0,h1 ▸ h1',?_,?_,hfiles₁⟩
        · rw [dup2_tab,if_neg h1',h1,htab₁]
        · exact (Kernel.procDup2_nProcs 1 savedStdoutFD).trans hprocs₁

/-- The input and the output of a stage. -/
def prepare (closeSocket : ℕ → ρ → ρ) (i : ℕ) (before next : Option Slot) (s : Sh ρ) : Sh ρ :=
  ((s.dup2 closeSocket i (before.getD savedStdinFD) 0).2.dup2 closeSocket i
    (next.getD savedStdoutFD) 1).2

/-- A turn of the loop for a stage that is not a builtin. -/
def turn (closeSocket : ℕ → ρ → ρ) (i : ℕ) (before next : Option Slot) (s : Sh ρ) : Sh ρ :=
  let s := ((s.prepare closeSocket i before next).spawn i).2
  let s := before.elim s (s.close closeSocket i)
  next.elim s (s.close closeSocket i)

theorem runStages_cons {before : Option Slot} {pipes : List (Slot × Slot)} {c : CmdLine}
    {cs : List CmdLine} (hc : isBuiltin c.cmd = false) :
    (s.runStages closeSocket i before pipes (c::cs)).map Prod.snd =
      ((s.turn closeSocket i before (pipes.head?.map Prod.snd)).runStages closeSocket i
        (pipes.head?.map Prod.fst) pipes.tail cs).map Prod.snd := by
  rw [runStages]
  rw [runStage,hc,if_neg Bool.false_ne_true]
  rw [Option.map_map]
  rfl

theorem later_prepare (s : Sh ρ) (before next : Option Slot) :
    Later i s (s.prepare closeSocket i before next) := (later_dup2 s _ _).trans (later_dup2 _ _ _)

/-- The closes at the end of a turn. -/
theorem close_option (closeSocket : ℕ → ρ → ρ) (i : ℕ) (s : Sh ρ) (a : Option Slot) :
    Later i s (a.elim s (s.close closeSocket i)) ∧
      (a.elim s (s.close closeSocket i)).k.nProcs = s.k.nProcs ∧
      (a.elim s (s.close closeSocket i)).nFiles = s.nFiles := by
  cases a with
  | none => exact ⟨.refl i s,rfl,rfl⟩
  | some a => exact ⟨later_close s a,Kernel.procClose_nProcs a,rfl⟩

theorem spawn_nFiles (s : Sh ρ) : (s.spawn i).2.nFiles = s.nFiles := by
  rw [spawn]
  split <;> rfl

/-- What a turn does to the others. -/
theorem later_turn (closeSocket : ℕ → ρ → ρ) (hi : i < s.k.nProcs) (before next : Option Slot) :
    Later i s (s.turn closeSocket i before next) ∧
      (s.turn closeSocket i before next).nFiles = s.nFiles := by
  have hprep : Later i s (s.prepare closeSocket i before next) := later_prepare s before next
  have hspawn := later_spawn (hi.trans_le hprep.procs)
  obtain ⟨h₁,-,hf₁⟩ := close_option closeSocket i
    ((s.prepare closeSocket i before next).spawn i).2 before
  obtain ⟨h₂,-,hf₂⟩ := close_option closeSocket i
    (before.elim ((s.prepare closeSocket i before next).spawn i).2
      (((s.prepare closeSocket i before next).spawn i).2.close closeSocket i)) next
  exact ⟨((hprep.trans hspawn).trans h₁).trans h₂,(hf₂.trans hf₁).trans (spawn_nFiles _)⟩

/-- A child has the table that the shell has prepared. -/
theorem turn_child (hi : i < s.k.nProcs) (before next : Option Slot)
    (hf : (s.turn closeSocket i before next).failed = false) :
    (s.turn closeSocket i before next).k.nProcs = s.k.nProcs+1 ∧
      ∀ a, (s.turn closeSocket i before next).k.tab s.k.nProcs a =
        ((s.prepare closeSocket i before next).tab i a).filter (!·.isSocket) := by
  have hprocs : (s.prepare closeSocket i before next).k.nProcs = s.k.nProcs :=
    (Kernel.procDup2_nProcs _ _).trans (Kernel.procDup2_nProcs _ _)
  rw [turn] at hf ⊢
  generalize s.prepare closeSocket i before next = u at *
  obtain ⟨h₁,hp₁,-⟩ := close_option closeSocket i (u.spawn i).2 before
  obtain ⟨h₂,hp₂,-⟩ := close_option closeSocket i
    (before.elim (u.spawn i).2 ((u.spawn i).2.close closeSocket i)) next
  have hlater := h₁.trans h₂
  have hp := hp₂.trans hp₁
  generalize next.elim _ _ = v at *
  rw [spawn] at hlater hp
  split at hlater
  · rename_i hfound
    rw [if_pos hfound] at hp
    have hchild : s.k.nProcs < (u.k.elfSpawn i).nProcs := by
      rw [Kernel.elfSpawn_nProcs,hprocs]
      exact Nat.lt_succ_self _
    refine ⟨?_,fun a => ?_⟩
    · rw [hp,← hprocs]
      exact Kernel.elfSpawn_nProcs
    · rw [hlater.others _ (Nat.ne_of_gt hi) hchild]
      exact (Kernel.elfSpawn_fds (hprocs ▸ hi) _).trans (if_pos hprocs.symm)
  · exact absurd (hlater.failed hf) (Bool.noConfusion)

/-- Only input and output are written before a stage is spawned. -/
theorem prepare_tab_of_ne (before next : Option Slot) {a : Slot} (h0 : a ≠ 0) (h1 : a ≠ 1) :
    (s.prepare closeSocket i before next).tab i a = s.tab i a :=
  (dup2_tab_of_ne h1).trans (dup2_tab_of_ne h0)

theorem later_runStages {before : Option Slot} {pipes : List (Slot × Slot)} {cs : List CmdLine}
    (hcs : ∀ c ∈ cs, isBuiltin c.cmd = false) (hi : i < s.k.nProcs)
    (hr : (s.runStages closeSocket i before pipes cs).map Prod.snd = some s') :
    Later i s s' ∧ s'.nFiles = s.nFiles := by
  induction cs generalizing before pipes s with
  | nil =>
    cases hr
    exact ⟨.refl i s,rfl⟩
  | cons c cs ih =>
    rw [runStages_cons (hcs c (List.mem_cons_self ..))] at hr
    obtain ⟨hturn,hfiles⟩ := later_turn closeSocket hi before
      (pipes.head?.map Prod.snd)
    obtain ⟨hrest,hfiles'⟩ := ih (fun c hc => hcs c (List.mem_cons_of_mem _ hc))
      (hi.trans_le hturn.procs) hr
    exact ⟨hturn.trans hrest,hfiles'.trans hfiles⟩

/-- The read end of the first pipe, in slot `r`, when the first stage is spawned: the shell has
it in some slot, or in `r` it has its own input or output instead. -/
theorem first_reader (closeSocket : ℕ → ρ → ρ) {T : Slot → Option FileDesc} {d : FileDesc} {r : Slot}
    (hr : T r = some d) (hs : s.tab i = update (update T savedStdinFD (T 0)) savedStdoutFD (T 1))
    (w : Slot) :
    (∃ a, (s.prepare closeSocket i none (some w)).tab i a = some d) ∨
      (r = savedStdinFD ∧ s.tab i r = T 0) ∨ r = savedStdoutFD ∧ s.tab i r = T 1 := by
  by_cases h10 : r = savedStdinFD
  · refine .inr (.inl ⟨h10,?_⟩)
    rw [hs,h10,update_of_ne (by decide),update_self]
  by_cases h11 : r = savedStdoutFD
  · refine .inr (.inr ⟨h11,?_⟩)
    rw [hs,h11,update_self]
  left
  by_cases h0 : r = 0
  · refine ⟨savedStdinFD,?_⟩
    rw [prepare_tab_of_ne none (some w) (by decide) (by decide),hs,update_of_ne (by decide),
      update_self,← h0,hr]
  by_cases h1 : r = 1
  · refine ⟨savedStdoutFD,?_⟩
    rw [prepare_tab_of_ne none (some w) (by decide) (by decide),hs,update_self,← h1,hr]
  · refine ⟨r,?_⟩
    rw [prepare_tab_of_ne none (some w) h0 h1,hs,update_of_ne h11,update_of_ne h10,hr]

/-- The shell's table after the first turn. -/
theorem first_turn_tab (closeSocket : ℕ → ρ → ρ) (hi : i < s.k.nProcs) {w a : Slot} (h0 : a ≠ 0)
    (h1 : a ≠ 1) (hw : a ≠ w) :
    (s.turn closeSocket i none (some w)).tab i a = s.tab i a := by
  have hprep : Later i s (s.prepare closeSocket i none (some w)) := later_prepare s _ _
  change ((((s.prepare closeSocket i none (some w)).spawn i).2.close closeSocket i w).tab i) a = _
  rw [close_tab,update_of_ne hw,spawn_tab (hi.trans_le hprep.procs)]
  exact prepare_tab_of_ne _ _ h0 h1

/-- The input of a stage that is not the first. -/
theorem prepare_stdin {r : Slot} (hr : s.tab i r ≠ none) (next : Option Slot) :
    (s.prepare closeSocket i (some r) next).tab i 0 = s.tab i r :=
  (dup2_tab_of_ne (by decide)).trans (dup2_tab_self hr)

/-- The state in which the loop starts if nothing fails: `T` is the table with the pipes, `r` and
`w` are the ends of the first one. -/
structure Started (i : ℕ) (s s₁ : Sh ρ) (T : Slot → Option FileDesc) (r w : Slot) : Prop where
  free : s.tab i r = none
  lowest : ∀ a < r, s.tab i a ≠ none
  ne : r ≠ w
  reader : T r = some (.pipeReader s.k.nPipes)
  kept : ∀ a, s.tab i a ≠ none → T a = s.tab i a
  nonempty : T 0 ≠ none ∧ T 1 ≠ none
  tab : s₁.tab i = update (update T savedStdinFD (T 0)) savedStdoutFD (T 1)
  nProcs : s₁.k.nProcs = s.k.nProcs
  nFiles : s₁.nFiles = s.nFiles

theorem started {cs : List CmdLine} {pids : List (Option ℕ)} (hlen : 2 ≤ cs.length)
    (hr : s.executeConcurrentPipe closeSocket i cs = some (pids,s')) (hok : s'.failed = false) :
    ∃ s₁ s₂ T r w qs, Started i s s₁ T r w ∧
      (s₁.runStages closeSocket i none ((r,w)::qs) cs).map Prod.snd = some s₂ ∧
      s' = s₂.restoreStdio closeSocket i true := by
  obtain ⟨n,hn⟩ : ∃ n, cs.length-1 = n+1 := ⟨cs.length-2,by omega⟩
  rw [executeConcurrentPipe,hn] at hr
  have hcases := pipe_cases closeSocket i s
  have hprocs : (s.pipe closeSocket i).2.k.nProcs = s.k.nProcs := Kernel.sysPipe_nProcs
  have hfiles : (s.pipe closeSocket i).2.nFiles = s.nFiles := rfl
  rw [makePipes] at hr
  cases hp : s.pipe closeSocket i with
  | mk q u₁ =>
    rw [hp] at hcases hr hprocs hfiles
    obtain ⟨rfl,-,hfail,-⟩ | ⟨r,w,rfl,hlt,hfree,hw,hlow,htab⟩ := hcases
    · cases hr
      rw [hok] at hfail
      cases hfail
    obtain ⟨-,hprocs₂,hfiles₂,hkeep,hfail⟩ := makePipes_keeps closeSocket i n u₁
    dsimp only at hr
    cases hm : u₁.makePipes closeSocket i n with
    | mk qs u₂ =>
      rw [hm] at hr hprocs₂ hfiles₂ hkeep hfail
      cases qs with
      | none =>
        cases hr
        rw [hfail rfl] at hok
        cases hok
      | some qs =>
        dsimp only at hr
        have hsave := saveStdio_cases closeSocket i u₂
        cases hv : u₂.saveStdio closeSocket i with
        | mk b u₃ =>
          rw [hv] at hr hsave
          obtain ⟨rfl,hfail⟩ | ⟨rfl,h0,h1,htab₃,hprocs₃,hfiles₃⟩ := hsave
          · cases hr
            rw [hok] at hfail
            cases hfail
          obtain ⟨⟨pids',u₄⟩,hu₄,heq⟩ := Option.map_eq_some_iff.mp hr
          cases heq
          have hreader : u₁.tab i r = some (.pipeReader s.k.nPipes) := by
            rw [htab,update_of_ne hlt.ne,update_self]
          refine ⟨u₃,u₄,u₂.tab i,r,w,qs,⟨hfree,?_,hlt.ne,?_,?_,⟨h0,h1⟩,htab₃,?_,?_⟩,?_,rfl⟩
          · exact fun a ha => hlow a (ha.trans hlt) ha.ne
          · rw [hkeep r (by rw [hreader]; exact Option.some_ne_none _),hreader]
          · intro a ha
            have har : a ≠ r := fun heq => ha (heq ▸ hfree)
            have haw : a ≠ w := fun heq => ha (heq ▸ hw)
            have ha₁ : u₁.tab i a = s.tab i a := by rw [htab,update_of_ne haw,update_of_ne har]
            exact (hkeep a (ha₁ ▸ ha)).trans ha₁
          · exact (hprocs₃.trans hprocs₂).trans hprocs
          · exact (hfiles₃.trans hfiles₂).trans hfiles
          · rw [hu₄]
            rfl

end Sh

/-- No pipeline of two or more stages is wired as it should be. -/
theorem pipeline_never_wired {ρ : Type} (closeSocket : ℕ → ρ → ρ) (r : ρ) (es : List (Ev ρ))
    (s s' : Sh ρ) (hs : s.k = Trace.exec (Kernel.step closeSocket) (Kernel.boot r) es) (i : ℕ)
    (hi : i < s.k.nProcs) (stages : List CmdLine) (hlen : 2 ≤ stages.length)
    (hstages : ∀ c ∈ stages, isBuiltin c.cmd = false) (pids : List (Option ℕ))
    (hr : s.executeConcurrentPipe closeSocket i stages = some (pids,s'))
    (hok : s'.failed = false) : ¬Wired i stages s s' := by
  intro hwired
  have hk : s.k.Counted := hs ▸ Trace.Meets.inv (G := fun _ _ => True) (I := Kernel.Counted)
    (fun k e h _ => h.step e) (Kernel.counted_boot r) (Trace.meets_of_forall (fun _ _ => trivial) _ es)
  obtain ⟨s₁,s₂,T,r,w,qs,hstart,hrun,rfl⟩ := Sh.started hlen hr hok
  have hrest : Sh.Later i s₂ (s₂.restoreStdio closeSocket i true) := Sh.later_restoreStdio s₂ true
  obtain ⟨c₀,c₁,cs,rfl⟩ : ∃ c₀ c₁ cs', stages = c₀::c₁::cs' := by
    match stages, hlen with
    | c₀::c₁::cs, _ => exact ⟨c₀,c₁,cs,rfl⟩
  rw [Sh.runStages_cons (hstages c₀ (List.mem_cons_self ..))] at hrun
  dsimp only [List.head?_cons,Option.map_some,List.tail_cons] at hrun
  have hi₁ : i < s₁.k.nProcs := hstart.nProcs ▸ hi
  obtain ⟨hturn₀,hfiles₀⟩ := Sh.later_turn closeSocket hi₁ none (some w)
  have hi₂ := hi₁.trans_le hturn₀.procs
  have hcs : ∀ c ∈ c₁::cs, isBuiltin c.cmd = false := fun c hc =>
    hstages c (List.mem_cons_of_mem _ hc)
  obtain ⟨hrun₁,hfiles₁⟩ := Sh.later_runStages hcs hi₂ hrun
  have hend := hrun₁.trans hrest
  obtain ⟨hprocs₀,hchild₀⟩ := Sh.turn_child hi₁ none (some w) (hend.failed hok)
  obtain ⟨a,ha⟩ | hlost := Sh.first_reader closeSocket hstart.reader hstart.tab w
  · -- the first stage has inherited the read end
    have hheld : (s₂.restoreStdio closeSocket i true).k.fds (s.k.nProcs,a) =
        some (.pipeReader (s.k.nPipes+0)) := by
      have hold := hchild₀ a
      rw [ha,hstart.nProcs] at hold
      refine (congrFun (hend.others _ (Nat.ne_of_gt hi) ?_) a).trans (hold.trans rfl)
      rw [hprocs₀,hstart.nProcs]
      exact Nat.lt_succ_self _
    have := hwired.readers 0 (by simp) _ hheld
    simp at this
  · -- the save has put the shell's own input or output where the second stage looks for its input
    obtain ⟨b,hb,hrb⟩ : ∃ b < r, s₁.tab i r = s.tab i b := by
      obtain ⟨rfl,hlost⟩ | ⟨rfl,hlost⟩ := hlost
      · exact ⟨0,by decide,hlost.trans (hstart.kept 0 (hstart.lowest 0 (by decide)))⟩
      · exact ⟨1,by decide,hlost.trans (hstart.kept 1 (hstart.lowest 1 (by decide)))⟩
    have hr01 : r ≠ 0 ∧ r ≠ 1 := by
      obtain ⟨rfl,-⟩ | ⟨rfl,-⟩ := hlost <;> decide
    have hvr := (Sh.first_turn_tab closeSocket hi₁ hr01.1 hr01.2 hstart.ne).trans hrb
    generalize s₁.turn closeSocket i none (some w) = v at *
    rw [Sh.runStages_cons (hstages c₁ (by simp))] at hrun
    obtain ⟨hturn₁,-⟩ := Sh.later_turn closeSocket hi₂ (some r)
      (qs.head?.map Prod.snd)
    obtain ⟨hrun₂,-⟩ := Sh.later_runStages (fun c hc => hcs c (List.mem_cons_of_mem _ hc))
      (hi₂.trans_le hturn₁.procs) hrun
    have hend₂ := hrun₂.trans hrest
    obtain ⟨hprocs₁,hchild₁⟩ := Sh.turn_child hi₂ (some r) (qs.head?.map Prod.snd) (hend₂.failed hok)
    have hbnone : s.tab i b ≠ none := hstart.lowest b hb
    have hv : v.k.nProcs = s.k.nProcs+1 := by rw [hprocs₀,hstart.nProcs]
    have hheld : (s₂.restoreStdio closeSocket i true).k.tab (s.k.nProcs+0+1) 0 =
        (s.tab i b).filter (!·.isSocket) := by
      have hold := hchild₁ 0
      rw [Sh.prepare_stdin (by rw [hvr]; exact hbnone),hvr,hv] at hold
      refine (congrFun (hend₂.others _ ?_ ?_) 0).trans hold
      · omega
      · omega
    have hin := hwired.stdin 0 c₁ rfl
    rw [hheld,HoldsOr] at hin
    split at hin
    · have hmade := hk.made s.k.nPipes ⟨(i,b),.inr (Option.eq_some_of_filter_eq_some hin)⟩
      exact Nat.lt_irrefl _ hmade
    · obtain ⟨f,-,hlow,hhigh,-⟩ := hin
      have hfiles : (s₂.restoreStdio closeSocket i true).nFiles = s.nFiles := by
        rw [← hstart.nFiles,← hfiles₀,← hfiles₁]
        rfl
      omega

/-- The boot shell runs `cat | wc`. -/
theorem pipeline_never_wired_two :
    let s : Sh Unit := ⟨Kernel.boot (),[],fun _ => "",0,false⟩
    let stages : List CmdLine := [⟨["cat"],"","",by decide⟩,⟨["wc"],"","",by decide⟩]
    ∃ pids s', s.executeConcurrentPipe (fun _ r => r) 0 stages = some (pids,s') ∧
      s'.failed = false ∧ ¬Wired 0 stages s s' := by
  intro s stages
  have hok : (s.executeConcurrentPipe (fun _ r => r) 0 stages).map (·.2.failed) = some false := by
    decide
  obtain ⟨⟨pids,s'⟩,hr,hf⟩ := Option.map_eq_some_iff.mp hok
  exact ⟨pids,s',hr,hf,pipeline_never_wired (fun _ r => r) () [] s s' rfl 0 (by decide) stages
    (by decide) (by decide) pids hr hf⟩

/-- In `cat | wc` of the boot shell, `cat` holds the read end of the pipe in its slot 3, and no call
has failed. -/
theorem first_stage_holds_reader :
    let s : Sh Unit := ⟨Kernel.boot (),[],fun _ => "",0,false⟩
    let stages : List CmdLine := [⟨["cat"],"","",by decide⟩,⟨["wc"],"","",by decide⟩]
    (s.executeConcurrentPipe (fun _ r => r) 0 stages).map
      (fun r => (r.1,r.2.failed,r.2.k.fds (1,1),r.2.k.fds (1,3),r.2.k.fds (2,0))) =
        some ([some 1,some 2],false,some (.pipeWriter 0),some (.pipeReader 0),
          some (.pipeReader 0)) := by
  decide

end Gooos.Fd
