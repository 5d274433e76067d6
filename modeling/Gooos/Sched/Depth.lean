import Mathlib
import Gooos.Sched.Slots

/-!
# The depth counters of a CPU

`InterruptDepth` and `SyscallDepth` count the ISR entries of the CPU, the entries
themselves lie on the stacks of threads. The counters tell the open entries of the
running thread as long as no thread is switched out with an entry open.
-/

namespace Gooos.Ksched

open Sched Places Trace Function

/-- The interrupt handlers open at a control point. -/
def Tpc.depth : Tpc → ℕ
  | .irq p => p.depth+1
  | .toSwitch p => p.depth
  | .resuming p => p.depth
  | .knows _ _ p => p.depth
  | _ => 0

/-- In `processExit`, before it has taken its own entry off the counters. -/
def Tpc.early : Tpc → Bool
  | .leaving => true
  | .exiting .marked _ => true
  | .exiting .unmapped _ => true
  | .exiting .unbound _ => true
  | .irq p => p.early
  | .toSwitch p => p.early
  | .resuming p => p.early
  | .knows _ _ p => p.early
  | _ => false

/-- The number of entries that count for `SyscallDepth`. -/
def sysCount (vs : List Vec) : ℕ := (vs.filter Vec.sys).length

/-- The entries on a thread's stack: at most one interrupt, over at most one system
call. -/
structure Framed (x : KThread) : Prop where
  shallow : x.pc.depth ≤ 1
  split : ∃ vs bs, x.frames = vs++bs ∧ vs.length = x.pc.depth ∧ (bs = [] ∨ bs = [.syscall]) ∧
    (x.pc.early = true → bs = [.syscall])

variable {p : Tpc} {x y : KThread} {v : Vec}

theorem depth_of_unmasked (h : p.masked = false) : p.depth = 0 := by
  induction p with
  | irq p ih => cases h
  | toSwitch p ih | resuming p ih | knows _ _ p ih => exact ih h
  | _ => rfl

theorem Framed.length_le (h : Framed x) : x.frames.length ≤ 2 := by
  obtain ⟨vs,bs,hframes,hvs,hbs,-⟩ := h.split
  have hshallow := h.shallow
  have hb : bs.length ≤ 1 := by
    obtain rfl | rfl := hbs
    · exact Nat.zero_le _
    · exact Nat.le_refl _
  rw [hframes,List.length_append]
  omega

theorem sysCount_le (vs : List Vec) : sysCount vs ≤ vs.length := List.length_filter_le ..

theorem sysCount_cons (v : Vec) (vs : List Vec) :
    sysCount (v::vs) = sysCount vs+if v.sys then 1 else 0 := by
  rw [sysCount,List.filter_cons]
  split
  · rfl
  · rfl

/-- A thread outside interrupt handlers. -/
theorem Framed.of_base (h : Framed x) (hdepth : x.pc.depth = 0) :
    (x.frames = [] ∨ x.frames = [.syscall]) ∧ (x.pc.early = true → x.frames = [.syscall]) := by
  obtain ⟨vs,bs,hframes,hvs,hbs,hearly⟩ := h.split
  rw [hdepth] at hvs
  obtain rfl := List.eq_nil_of_length_eq_zero hvs
  rw [hframes]
  exact ⟨hbs,hearly⟩

theorem Framed.base (hdepth : x.pc.depth = 0) (hframes : x.frames = [] ∨ x.frames = [.syscall])
    (hearly : x.pc.early = true → x.frames = [.syscall]) : Framed x :=
  ⟨hdepth ▸ Nat.zero_le _,[],x.frames,rfl,hdepth.symm,hframes,hearly⟩

/-- The control point moves, with the same handlers open. -/
theorem Framed.goto (h : Framed x) (hdepth : y.pc.depth = x.pc.depth)
    (hframes : y.frames = x.frames) (hearly : y.pc.early = true → x.pc.early = true) :
    Framed y := by
  obtain ⟨vs,bs,heq,hvs,hbs,he⟩ := h.split
  exact ⟨hdepth ▸ h.shallow,vs,bs,hframes.trans heq,hvs.trans hdepth.symm,hbs,fun hy => he (hearly hy)⟩

/-- An interrupt is taken. -/
theorem Framed.interrupt (h : Framed x)
    (hmask : x.pc.masked = false) (hpc : y.pc = p) (hp : p.depth = x.pc.depth+1)
    (hearly : p.early = x.pc.early) (hframes : y.frames = v::x.frames) : Framed y := by
  have hdepth := depth_of_unmasked hmask
  obtain ⟨vs,bs,heq,hvs,hbs,he⟩ := h.split
  refine ⟨?_,v::vs,bs,?_,?_,hbs,?_⟩
  · rw [hpc,hp,hdepth]
  · rw [hframes,heq,List.cons_append]
  · rw [hpc,hp,List.length_cons,hvs]
  · rw [hpc,hearly]
    exact he

/-- It returns. -/
theorem Framed.iret {vs : List Vec} (h : Framed x)
    (hpc : x.pc = .irq p) (hframes : x.frames = v::vs) (hy : y.pc = p) (hy' : y.frames = vs) :
    Framed y := by
  obtain ⟨us,bs,heq,hus,hbs,he⟩ := h.split
  have hshallow := h.shallow
  rw [hpc] at hus he hshallow
  cases us with
  | nil => cases hus
  | cons u us =>
    rw [hframes] at heq
    obtain ⟨-,rfl⟩ := List.cons.inj heq
    refine ⟨?_,us,bs,hy',?_,hbs,?_⟩
    · rw [hy]
      exact (Nat.le_succ _).trans hshallow
    · rw [hy]
      exact Nat.succ.inj hus
    · rw [hy]
      exact he

variable {m : Machine} {σ σ' : Sched} {c : ℕ} {t : Tid} {l : Loop}

theorem Framed.untouched (h : Framed x) (hu : Untouched x y) : Framed y :=
  h.goto (by rw [hu.pc]) hu.frames (by rw [hu.pc]; exact id)

/-- A new thread has no entry open. -/
theorem Spawns.framed {u : Tid} {k : Tier} {d : ℕ} {σ₁ : Sched} (h : Spawns m σ u k d σ₁) :
    Framed (σ₁.th u) ∧ (σ₁.th u).frames = [] := by
  have hnew (e : Entry) (p : Option ℕ) (τ : Sched) : Framed ((τ.kschedSpawnInternal u e p).th u) ∧
      ((τ.kschedSpawnInternal u e p).th u).frames = [] := by
    show Framed (update τ.th u _ u) ∧ (update τ.th u _ u).frames = []
    rw [update_self]
    refine ⟨.base ?_ (.inl rfl) ?_,rfl⟩
    · cases e <;> rfl
    · cases e <;> nofun
  cases h <;> exact hnew ..

/-- What a CPU counts, against what is open on the stack it runs on. -/
structure Exact (σ : Sched) (c : ℕ) : Prop where
  run : ∀ t l, (σ.cpu c).ctx = .thread t l →
    (σ.cpu c).interruptDepth.toNat = (σ.th t).frames.length ∧
    (σ.cpu c).syscallDepth.toNat = sysCount (σ.th t).frames
  rest : ∀ pc, (σ.cpu c).ctx = .boot pc → (σ.cpu c).frames.length ≤ 1 ∧
    (σ.cpu c).interruptDepth.toNat = (σ.cpu c).frames.length ∧
    (σ.cpu c).syscallDepth.toNat = sysCount (σ.cpu c).frames

/-- Neither counter jumps. -/
structure Near (x y : CPU) : Prop where
  interrupt : x.interruptDepth.toNat ≤ y.interruptDepth.toNat+1 ∧
    y.interruptDepth.toNat ≤ x.interruptDepth.toNat+1
  syscall : x.syscallDepth.toNat ≤ y.syscallDepth.toNat+1 ∧
    y.syscallDepth.toNat ≤ x.syscallDepth.toNat+1

theorem Near.of_eq {x y : CPU} (hi : y.interruptDepth = x.interruptDepth)
    (hs : y.syscallDepth = x.syscallDepth) : Near x y := by
  constructor
  · rw [hi]
    omega
  · rw [hs]
    omega

theorem toNat_succ {x : UInt32} (h : x.toNat ≤ 3) : (x+1).toNat = x.toNat+1 := by
  show (x.toNat+1)%2^32 = _
  omega

theorem toNat_pred {x : UInt32} (h : 0 < x.toNat) : (x-1).toNat = x.toNat-1 := by
  refine UInt32.toNat_sub_of_le x 1 ?_
  exact h

/-- The counters at an ISR entry. -/
theorem counted_entry {x y : UInt32} (v : Vec) (hx : x.toNat ≤ 3) (hy : y.toNat ≤ 3) :
    (x+1).toNat = x.toNat+1 ∧ (if v.sys then y+1 else y).toNat = y.toNat+if v.sys then 1 else 0 := by
  refine ⟨toNat_succ hx,?_⟩
  split
  · exact toNat_succ hy
  · rfl

/-- The counters at a return; the entry had been counted. -/
theorem counted_return {x y : UInt32} (hx : 0 < x.toNat)
    (hy : (if v.sys then 1 else 0) ≤ y.toNat) :
    (x-1).toNat = x.toNat-1 ∧ (if v.sys then y-1 else y).toNat = y.toNat-if v.sys then 1 else 0 := by
  refine ⟨toNat_pred hx,?_⟩
  split
  · rename_i hv
    rw [if_pos hv] at hy
    exact toNat_pred hy
  · rfl

/-- A step of the running thread: its stack and the counters agree again. -/
structure Agrees (σ σ' : Sched) (c : ℕ) (t : Tid) : Prop where
  framed : Framed (σ'.th t)
  exact : Exact σ' c
  near : Near (σ.cpu c) (σ'.cpu c)
  closed : (σ'.cpu c).ctx = (σ.cpu c).ctx ∨ (σ'.th t).frames = []

theorem Exact.of_thread (hctx : (σ.cpu c).ctx = .thread t l)
    (h : (σ.cpu c).interruptDepth.toNat = (σ.th t).frames.length ∧
      (σ.cpu c).syscallDepth.toNat = sysCount (σ.th t).frames) :
    Exact σ c := by
  constructor
  · intro u l' hu
    rw [hctx] at hu
    cases hu
    exact h
  · intro pc hpc
    rw [hctx] at hpc
    cases hpc

section Thread

variable (hf : Framed (σ.th t)) (hx : Exact σ c) (hctx : (σ.cpu c).ctx = .thread t l)
include hf hx hctx

omit hf in
/-- No entry is opened or closed. -/
theorem agrees_same (hcpu : (σ'.cpu c).ctx = (σ.cpu c).ctx ∧
      (σ'.cpu c).interruptDepth = (σ.cpu c).interruptDepth ∧
      (σ'.cpu c).syscallDepth = (σ.cpu c).syscallDepth)
    (hframes : (σ'.th t).frames = (σ.th t).frames) (hnew : Framed (σ'.th t)) :
    Agrees σ σ' c t := by
  refine ⟨hnew,.of_thread (hcpu.1.trans hctx) ?_,.of_eq hcpu.2.1 hcpu.2.2,.inl hcpu.1⟩
  rw [hcpu.2.1,hcpu.2.2,hframes]
  exact hx.run t l hctx

theorem agrees_enter (hnew : Framed { σ.th t with frames := v::(σ.th t).frames, pc := p }) :
    Agrees σ (σ.enter c t v p) c t := by
  obtain ⟨hi,hs⟩ := hx.run t l hctx
  have hlen := hf.length_le
  have hsys := sysCount_le (σ.th t).frames
  have hcount := counted_entry (x := (σ.cpu c).interruptDepth) (y := (σ.cpu c).syscallDepth) v
    (by omega) (by omega)
  have hth : (σ.enter c t v p).th t = { σ.th t with frames := v::(σ.th t).frames, pc := p } :=
    update_self ..
  have hcpu : (σ.enter c t v p).cpu c = { σ.cpu c with
      interruptDepth := (σ.cpu c).interruptDepth+1,
      syscallDepth := if v.sys then (σ.cpu c).syscallDepth+1 else (σ.cpu c).syscallDepth } :=
    update_self ..
  refine ⟨hth ▸ hnew,.of_thread ((enter_ctx c).trans hctx) ?_,?_,.inl (enter_ctx c)⟩
  · rw [hcpu,hth]
    refine ⟨?_,?_⟩
    · exact hcount.1.trans (congrArg (·+1) hi)
    · rw [sysCount_cons,← hs]
      exact hcount.2
  · rw [hcpu]
    constructor
    · show _ ≤ ((σ.cpu c).interruptDepth+1).toNat+1 ∧ ((σ.cpu c).interruptDepth+1).toNat ≤ _
      omega
    · rw [hcount.2]
      split <;> omega

omit hf in
theorem agrees_leave {vs : List Vec} (hframes : (σ.th t).frames = v::vs)
    (hnew : Framed { σ.th t with frames := vs, pc := p }) : Agrees σ (σ.leave c t v vs p) c t := by
  obtain ⟨hi,hs⟩ := hx.run t l hctx
  rw [hframes] at hi hs
  rw [sysCount_cons] at hs
  rw [List.length_cons] at hi
  have hcount := counted_return (x := (σ.cpu c).interruptDepth) (y := (σ.cpu c).syscallDepth) (v := v)
    (by omega) (by omega)
  have hth : (σ.leave c t v vs p).th t = { σ.th t with frames := vs, pc := p } :=
    update_self ..
  have hcpu : (σ.leave c t v vs p).cpu c = { σ.cpu c with
      interruptDepth := (σ.cpu c).interruptDepth-1,
      syscallDepth := if v.sys then (σ.cpu c).syscallDepth-1 else (σ.cpu c).syscallDepth } :=
    update_self ..
  have hctx' : ((σ.leave c t v vs p).cpu c).ctx = .thread t l := by
    rw [hcpu]
    exact hctx
  refine ⟨hth ▸ hnew,.of_thread hctx' ?_,?_,.inl (hctx'.trans hctx.symm)⟩
  · rw [hcpu,hth]
    refine ⟨?_,?_⟩
    · show ((σ.cpu c).interruptDepth-1).toNat = vs.length
      rw [hcount.1]
      omega
    · show (if v.sys then _ else _ : UInt32).toNat = sysCount vs
      rw [hcount.2]
      omega
  · rw [hcpu]
    constructor
    · show _ ≤ ((σ.cpu c).interruptDepth-1).toNat+1 ∧ ((σ.cpu c).interruptDepth-1).toNat ≤ _
      rw [hcount.1]
      omega
    · show _ ≤ (if v.sys then _ else _ : UInt32).toNat+1 ∧ (if v.sys then _ else _ : UInt32).toNat ≤ _
      rw [hcount.2]
      split <;> omega

/-- A switch out with no entry open leaves the counters at zero. -/
theorem agrees_switchOut {next : Tpc} (hco : Coherent σ) (hframes : (σ.th t).frames = [])
    (hdepth : next.depth = (σ.th t).pc.depth)
    (hearly : next.early = true → (σ.th t).pc.early = true) :
    Agrees σ (σ.switchOut c t l next) c t := by
  obtain ⟨hi,hs⟩ := hx.run t l hctx
  rw [hframes] at hi hs
  have hboot : (σ.cpu c).frames = [] := by
    by_contra hne
    rw [hco.idle c hne] at hctx
    cases hctx
  have hth : (σ.switchOut c t l next).th t = { σ.th t with saved := true, pc := next } :=
    update_self ..
  have hcpu : (σ.switchOut c t l next).cpu c = { σ.cpu c with ctx := .boot (.returned t l) } :=
    update_self ..
  refine ⟨hth ▸ hf.goto hdepth rfl hearly,?_,.of_eq (by rw [hcpu]) (by rw [hcpu]),?_⟩
  · constructor
    · intro u l' hu
      rw [hcpu] at hu
      cases hu
    · intro pc _
      rw [hcpu,hboot]
      exact ⟨Nat.zero_le _,hi,hs⟩
  · rw [hth]
    exact .inr hframes

/-- `processExit` takes its own entry off the stack and the counters. -/
theorem agrees_discount {p : ℕ} (hdepth : (σ.th t).pc.depth = 0)
    (hearly : (σ.th t).pc.early = true) : Agrees σ (σ.exitStep c t p .unbound) c t := by
  obtain ⟨hi,hs⟩ := hx.run t l hctx
  have hframes : (σ.th t).frames = [.syscall] := (hf.of_base hdepth).2 hearly
  rw [hframes] at hi hs
  have hi : (σ.cpu c).interruptDepth.toNat = 1 := hi
  have hs : (σ.cpu c).syscallDepth.toNat = 1 := hs
  have hi' : (σ.cpu c).interruptDepth > 0 := by
    rw [gt_iff_lt,UInt32.lt_iff_toNat_lt,hi]
    decide
  have hs' : (σ.cpu c).syscallDepth > 0 := by
    rw [gt_iff_lt,UInt32.lt_iff_toNat_lt,hs]
    decide
  have hth : (σ.exitStep c t p .unbound).th t =
      { σ.th t with frames := [], pc := .knows c none (.exiting .counted p) } := by
    have hdrop : (σ.discount c t).th t = { σ.th t with frames := (σ.th t).frames.drop 1 } :=
      update_self ..
    show ((σ.discount c t).setPc t _).th t = _
    rw [setPc_self,hdrop,hframes]
    rfl
  have hcpu : (σ.exitStep c t p .unbound).cpu c = { σ.cpu c with
      interruptDepth := (σ.cpu c).interruptDepth-1, syscallDepth := (σ.cpu c).syscallDepth-1 } := by
    show update σ.cpu c _ c = _
    rw [update_self,if_pos hi',if_pos hs']
  have hi'' := toNat_pred (x := (σ.cpu c).interruptDepth) (by omega)
  have hs'' := toNat_pred (x := (σ.cpu c).syscallDepth) (by omega)
  refine ⟨hth ▸ .base rfl (.inl rfl) (by nofun),.of_thread (by rw [hcpu]; exact hctx) ?_,?_,
    .inl (by rw [hcpu])⟩
  · rw [hcpu,hth]
    refine ⟨?_,?_⟩
    · show ((σ.cpu c).interruptDepth-1).toNat = 0
      rw [hi'',hi]
    · show ((σ.cpu c).syscallDepth-1).toNat = 0
      rw [hs'',hs]
  · rw [hcpu]
    constructor
    · show _ ≤ ((σ.cpu c).interruptDepth-1).toNat+1 ∧ ((σ.cpu c).interruptDepth-1).toNat ≤ _
      omega
    · show _ ≤ ((σ.cpu c).syscallDepth-1).toNat+1 ∧ ((σ.cpu c).syscallDepth-1).toNat ≤ _
      omega

/-- Nor does it matter which page table is loaded. -/
theorem agrees_rebinds (hr : Rebinds σ c t σ') : Agrees σ σ' c t := by
  have hcr3 (i : Option Tid) (r : Option ℕ) :
      let y := update σ.cpu c { σ.cpu c with currentPoolIdx := i, cr3 := r } c
      y.ctx = (σ.cpu c).ctx ∧ y.interruptDepth = (σ.cpu c).interruptDepth ∧
        y.syscallDepth = (σ.cpu c).syscallDepth := by
    rw [update_self]
    exact ⟨rfl,rfl,rfl⟩
  have hgo {τ : Sched} {p : Tpc} (hcpu : (τ.cpu c).ctx = (σ.cpu c).ctx ∧
        (τ.cpu c).interruptDepth = (σ.cpu c).interruptDepth ∧
        (τ.cpu c).syscallDepth = (σ.cpu c).syscallDepth) (hth : τ.th = σ.th)
      (hdepth : p.depth = (σ.th t).pc.depth) (hearly : p.early = true → (σ.th t).pc.early = true) :
      Agrees σ (τ.setPc t p) c t := by
    refine agrees_same hx hctx hcpu (by rw [setPc_self,hth]) ?_
    rw [setPc_self,hth]
    exact hf.goto hdepth rfl hearly
  cases hr with
  | resume hpc =>
    obtain ⟨-,heq⟩ | ⟨p,-,heq⟩ := kthreadResumeRing3Ctx_cases σ c t
    · rw [heq]
      exact hgo ⟨rfl,rfl,rfl⟩ rfl (by rw [hpc]; rfl) (by rw [hpc]; exact id)
    · rw [heq]
      exact hgo (hcr3 _ _) rfl (by rw [hpc]; rfl) (by rw [hpc]; exact id)
  | bind hpc => exact hgo ⟨rfl,rfl,rfl⟩ rfl (by rw [hpc]; rfl) (by rintro ⟨⟩)
  | exitMark hpc => exact hgo ⟨rfl,rfl,rfl⟩ rfl (by rw [hpc]; rfl) (by rw [hpc]; exact id)
  | @exitGo s p hpc hself =>
    obtain ⟨hdepth,hearly⟩ : (σ.th t).pc.depth = 0 ∧
        (σ.th t).pc.early = (Tpc.exiting s p).early := by
      obtain hpc | hpc := hpc
      all_goals
        rw [hpc]
        exact ⟨rfl,rfl⟩
    cases s with
    | marked =>
      simp only [exitStep]
      split
      · exact hgo (hcr3 (σ.cpu c).currentPoolIdx none) rfl hdepth.symm (fun _ => hearly)
      · exact hgo ⟨rfl,rfl,rfl⟩ rfl hdepth.symm (fun _ => hearly)
    | unmapped =>
      simp only [exitStep]
      split <;> exact hgo ⟨rfl,rfl,rfl⟩ rfl hdepth.symm (fun _ => hearly)
    | unbound => exact agrees_discount hf hx hctx hdepth hearly
    | counted =>
      rw [exitStep_counted hself]
      have hnew : (σ.setTh t { σ.th t with hosted := none, pc := .finishing }).th t =
          { σ.th t with hosted := none, pc := .finishing } := update_self ..
      refine agrees_same hx hctx ⟨rfl,rfl,rfl⟩ (by rw [hnew]) ?_
      rw [hnew]
      exact hf.goto hdepth.symm rfl (by rintro ⟨⟩)

/-- Every move of a running thread. -/
theorem agrees_of_does {a : Act} {obs : List Obs} (hco : Coherent σ)
    (hclosed : a = .go → (σ.th t).pc.gap = true → (σ.th t).frames = [])
    (hused : (σ.th t).used = true) (hdoes : Does m σ c a σ' obs) : Agrees σ σ' c t := by
  -- the counters are those of before wherever the CPU is untouched
  have hgo {τ : Sched} {p : Tpc} (hcpu : τ.cpu = σ.cpu)
      (hframes : (τ.th t).frames = (σ.th t).frames) (hpc : (τ.th t).pc = p)
      (hdepth : p.depth = (σ.th t).pc.depth) (hearly : p.early = true → (σ.th t).pc.early = true) :
      Agrees σ τ c t :=
    agrees_same hx hctx (by rw [hcpu]; exact ⟨rfl,rfl,rfl⟩) hframes
      (hf.goto (hpc ▸ hdepth) hframes (hpc ▸ hearly))
  have hsetPc {τ : Sched} {p : Tpc} (hcpu : τ.cpu = σ.cpu) (hth : Untouched (σ.th t) (τ.th t))
      (hdepth : p.depth = (σ.th t).pc.depth) (hearly : p.early = true → (σ.th t).pc.early = true) :
      Agrees σ (τ.setPc t p) c t :=
    hgo hcpu (by rw [setPc_self]; exact hth.frames) (by rw [setPc_self]) hdepth hearly
  cases hdoes.of_thread hctx with
  | alone halone =>
    cases halone with
    | stay => exact hgo rfl rfl rfl rfl id
    | hop hhop =>
      generalize hq : (σ.th t).pc = q at hhop
      cases hhop with
      | exit hkernel hentry =>
        -- a process exits from its system call
        have hframes : (σ.th t).frames = [.syscall] := by
          obtain ⟨hempty | hsys,-⟩ := hf.of_base (by rw [hq]; rfl)
          · simp [inKernel,hentry,hempty] at hkernel
          · exact hsys
        refine agrees_same hx hctx ⟨rfl,rfl,rfl⟩ (by rw [setPc_self]) ?_
        rw [setPc_self]
        exact .base rfl (.inr hframes) (fun _ => hframes)
      | stay => exact hsetPc rfl (.refl _) (by rw [hq]) (by rw [hq]; exact id)
      | cpu | thread => exact hsetPc rfl (.refl _) (by rw [hq]; rfl) (by rw [hq]; exact id)
      | _ => exact hsetPc rfl (.refl _) (by rw [hq]; rfl) (by rintro ⟨⟩)
    | finish hpc =>
      refine hsetPc rfl (.refl _) ?_ (by rintro ⟨⟩)
      obtain ⟨hpc,-⟩ | ⟨hpc,-⟩ := hpc <;> rw [hpc] <;> rfl
    | rebinds hr => exact agrees_rebinds hf hx hctx hr
    | syscall hpc hring3 =>
      have hempty : (σ.th t).frames = [] := by
        simpa [inKernel] using (Bool.or_eq_false_iff.mp hring3).2
      refine agrees_enter hf hx hctx (.base rfl (.inr ?_) (by rintro ⟨⟩))
      rw [hempty]
    | irq hv hmask => exact agrees_enter hf hx hctx (hf.interrupt hmask rfl rfl rfl rfl)
    | iret hpc hframes => exact agrees_leave hx hctx hframes (hf.iret hpc hframes rfl rfl)
    | sysret hpc hframes =>
      refine agrees_leave hx hctx hframes (.base rfl (.inl ?_) (by rintro ⟨⟩))
      obtain ⟨hbase,-⟩ := hf.of_base (by rw [hpc]; rfl)
      rw [hframes] at hbase
      obtain hbase | hbase := hbase
      · cases hbase
      · exact (List.cons.inj hbase).2
  | @park _ w o hpc =>
    have hth : (σ.park t w o).th t = { σ.th t with state := .parked, pc := .toSwitch (.retry o) } :=
      update_self ..
    refine hgo rfl (by rw [hth]) (by rw [hth]) ?_ (by rintro ⟨⟩)
    obtain hpc | ⟨o',hpc⟩ := hpc <;> rw [hpc] <;> rfl
  | @take _ w n flag count hpc =>
    have hth : (σ.take t w n).th t = { σ.th t with pc := .waking ((σ.waiters w).take n) } :=
      update_self ..
    refine hgo (p := .waking ((σ.waiters w).take n)) rfl ?_ ?_ ?_ (by rintro ⟨⟩)
    · rw [hth]
    · rw [hth]
    obtain hpc | ⟨o',hpc⟩ := hpc <;> rw [hpc] <;> rfl
  | wake hpc =>
    exact hsetPc (kschedWake_cpu σ _) (untouched_kschedWake ..) (by rw [hpc]; rfl) (by rintro ⟨⟩)
  | push hpc | yield hpc =>
    exact hsetPc rfl (untouched_kschedPush ..) (by rw [hpc]; rfl) (by rintro ⟨⟩)
  | made hpc hspawn =>
    refine hsetPc hspawn.cpu_eq (.of_eq (hspawn.th_of_ne ?_)) (by rw [hpc]; rfl) (by rintro ⟨⟩)
    rintro rfl
    rw [hspawn.free] at hused
    cases hused
  | preempt hmask hyields =>
    have henter : Agrees σ (σ.enter c t .preempt (.irq (σ.th t).pc)) c t :=
      agrees_enter hf hx hctx (hf.interrupt hmask rfl rfl rfl rfl)
    have hpush := untouched_kschedPush (σ := σ.enter c t .preempt (.irq (σ.th t).pc))
      (tierOf ((σ.enter c t .preempt (.irq (σ.th t).pc)).th t)) t c t
    have hself : ((σ.enter c t .preempt (.irq (σ.th t).pc)).kschedYield c t t
        (.irq (σ.th t).pc)).th t = _ := setPc_self
    -- the yield itself leaves the counters alone
    have hyield : Agrees (σ.enter c t .preempt (.irq (σ.th t).pc))
        ((σ.enter c t .preempt (.irq (σ.th t).pc)).kschedYield c t t (.irq (σ.th t).pc)) c t :=
      agrees_same henter.exact ((enter_ctx c).trans hctx) ⟨rfl,rfl,rfl⟩
      (by rw [hself]; exact hpush.frames)
      (henter.framed.goto (by rw [hself,enter_pc]; rfl) (by rw [hself]; exact hpush.frames)
        (by rw [hself,enter_pc]; exact id))
    exact ⟨hyield.framed,hyield.exact,henter.near,.inl (enter_ctx c)⟩
  | switch hpc =>
    exact agrees_switchOut hf hx hctx hco (hclosed rfl (by rw [hpc]; rfl)) (by rw [hpc]; rfl)
      (by rw [hpc]; exact id)
  | last hpc =>
    exact agrees_switchOut hf hx hctx hco (hclosed rfl (by rw [hpc]; rfl)) (by rw [hpc]; rfl)
      (by rintro ⟨⟩)
  | ending hpc =>
    rw [kschedExit_own]
    have hself : (σ.setTh t { σ.th t with state := .exiting, pc := .exitSwitch }).th t =
        { σ.th t with state := .exiting, pc := .exitSwitch } := update_self ..
    exact hgo rfl (by rw [hself]) (by rw [hself]) (by rw [hpc]; rfl) (by rintro ⟨⟩)

end Thread

/-- No thread is switched out with an ISR entry open. -/
def closing (σ : Sched) (e : ℕ × Act) : Bool :=
  match (σ.cpu e.1).ctx with
  | .boot _ => true
  | .thread t _ => decide (e.2 ≠ .go) || !(σ.th t).pc.gap || (σ.th t).frames.isEmpty

theorem Exact.of_boot {pc pc' : Dpc} (h : Exact σ c) (hctx : (σ.cpu c).ctx = .boot pc)
    (hctx' : (σ'.cpu c).ctx = .boot pc')
    (hcpu : (σ'.cpu c).interruptDepth = (σ.cpu c).interruptDepth ∧
      (σ'.cpu c).syscallDepth = (σ.cpu c).syscallDepth ∧ (σ'.cpu c).frames = (σ.cpu c).frames) :
    Exact σ' c ∧ Near (σ.cpu c) (σ'.cpu c) := by
  refine ⟨⟨fun t l ht => ?_,fun _ _ => ?_⟩,.of_eq hcpu.1 hcpu.2.1⟩
  · rw [hctx'] at ht
    cases ht
  · rw [hcpu.1,hcpu.2.1,hcpu.2.2]
    exact h.rest pc hctx

/-- Every move of a dispatcher; the threads it dispatches have no entry open. -/
theorem exact_of_does {a : Act} {obs : List Obs} {pc : Dpc} (h : Exact σ c)
    (hco : Coherent σ) (hctx : (σ.cpu c).ctx = .boot pc)
    (hclosed : ∀ t l, pc = .popped t l → (σ.th t).frames = [])
    (hdoes : Does m σ c a σ' obs) : Exact σ' c ∧ Near (σ.cpu c) (σ'.cpu c) := by
  have hgo {τ : Sched} {pc' : Dpc} (hτ : τ.cpu c = { σ.cpu c with ctx := .boot pc' }) :
      Exact τ c ∧ Near (σ.cpu c) (τ.cpu c) :=
    h.of_boot hctx (by rw [hτ]) (by rw [hτ]; exact ⟨rfl,rfl,rfl⟩)
  cases hdoes.of_boot hctx with
  | stay => exact ⟨h,.of_eq rfl rfl⟩
  | @irq v hframes =>
    obtain ⟨-,hi,hs⟩ := h.rest _ hctx
    rw [hframes] at hi hs
    have hi : (σ.cpu c).interruptDepth.toNat = 0 := hi
    have hs : (σ.cpu c).syscallDepth.toNat = 0 := hs
    have hcount := counted_entry (x := (σ.cpu c).interruptDepth) (y := (σ.cpu c).syscallDepth) v
      (by omega) (by omega)
    have hcpu : (σ.bootIrq c v).cpu c = { σ.cpu c with
        interruptDepth := (σ.cpu c).interruptDepth+1,
        syscallDepth := if v.sys then (σ.cpu c).syscallDepth+1 else (σ.cpu c).syscallDepth,
        frames := [v] } := by
      show update σ.cpu c _ c = _
      rw [update_self,hframes]
    have hone : sysCount [v] = if v.sys then 1 else 0 := by
      rw [sysCount_cons]
      exact Nat.zero_add _
    refine ⟨⟨fun t l ht => ?_,fun _ _ => ?_⟩,?_,?_⟩
    · rw [hcpu] at ht
      rw [show (σ.cpu c).ctx = .thread t l from ht] at hctx
      cases hctx
    · rw [hcpu,hone,hcount.1,hcount.2,List.length_singleton]
      omega
    · rw [hcpu,hcount.1]
      omega
    · rw [hcpu,hcount.2]
      split <;> omega
  | @iret pc' v vs hframes =>
    obtain ⟨hlen,hi,hs⟩ := h.rest _ hctx
    rw [hframes] at hlen hi hs
    rw [List.length_cons] at hlen hi
    rw [sysCount_cons] at hs
    have hcount := counted_return (x := (σ.cpu c).interruptDepth) (y := (σ.cpu c).syscallDepth)
      (v := v) (by omega) (by omega)
    have hcpu : (σ.bootIret c v vs).cpu c = { σ.cpu c with
        interruptDepth := (σ.cpu c).interruptDepth-1,
        syscallDepth := if v.sys then (σ.cpu c).syscallDepth-1 else (σ.cpu c).syscallDepth,
        frames := vs } := update_self ..
    refine ⟨⟨fun t l ht => ?_,fun _ _ => ?_⟩,?_,?_⟩
    · rw [hcpu] at ht
      rw [show (σ.cpu c).ctx = .thread t l from ht] at hctx
      cases hctx
    · rw [hcpu]
      show vs.length ≤ 1 ∧ ((σ.cpu c).interruptDepth-1).toNat = vs.length ∧
        (if v.sys then (σ.cpu c).syscallDepth-1 else _ : UInt32).toNat = sysCount vs
      omega
    · rw [hcpu,hcount.1]
      omega
    · rw [hcpu,hcount.2]
      split <;> omega
  | pop | steal | look | push => exact hgo (update_self ..)
  | @reap t l =>
    have hcpu : ((σ.kthreadPoolFree t).setCtx c (.boot .idle)).cpu c =
        { σ.cpu c with ctx := .boot .idle } := by
      simp only [setCtx,setCpu,update_self,kthreadPoolFree_cpu]
    exact hgo hcpu
  | @dispatch t l hstate =>
    have hcpu : (σ.dispatch c t l).cpu c = { σ.cpu c with ctx := .thread t l, running := some t } :=
      update_self ..
    have hth : (σ.dispatch c t l).th t =
        { σ.th t with state := .running, ownerCPU := c, saved := false } := update_self ..
    have hframes := hclosed t l rfl
    have hboot : (σ.cpu c).frames = [] := by
      by_contra hne
      rw [hco.idle c hne] at hctx
      cases hctx
    obtain ⟨-,hi,hs⟩ := h.rest _ hctx
    rw [hboot] at hi hs
    refine ⟨.of_thread (t := t) (l := l) (by rw [hcpu]) ?_,.of_eq (by rw [hcpu]) (by rw [hcpu])⟩
    rw [hcpu,hth]
    show (σ.cpu c).interruptDepth.toNat = (σ.th t).frames.length ∧
      (σ.cpu c).syscallDepth.toNat = sysCount (σ.th t).frames
    rw [hframes]
    exact ⟨hi,hs⟩
  | @back t l =>
    obtain ⟨-,-,heq⟩ | ⟨-,heq⟩ := returnStep_cases σ c t l
    all_goals
      have hcpu : (σ.returnStep c t l).cpu c =
          { σ.cpu c with ctx := .boot .idle, running := none } := by
        rw [heq]
        simp only [setCpu,update_self,kthreadPoolFree_cpu]
      exact h.of_boot hctx (by rw [hcpu]) (by rw [hcpu]; exact ⟨rfl,rfl,rfl⟩)
  | @made a u k d σ₁ hc hspawn =>
    have hcpu : (σ₁.setCtx c (.boot (.spawning u k d))).cpu c =
        { σ.cpu c with ctx := .boot (.spawning u k d) } := by
      simp only [setCtx,setCpu,update_self,hspawn.cpu_eq]
    exact hgo hcpu

/-- The condition on the steps of a run: orderly, and switches out only between ISR
entries. -/
def closed (m : Machine) (σ : Sched) (e : ℕ × Act) : Bool := orderly m σ e && closing σ e

/-- What holds in every state such a run reaches. -/
structure Accurate (m : Machine) (σ : Sched) : Prop where
  sound : Sound m σ
  framed : ∀ t, (σ.th t).used = true → Framed (σ.th t)
  stored : ∀ t, (σ.th t).used = true → (σ.th t).saved = true → (σ.th t).frames = []
  exact : ∀ c, Exact σ c

theorem accurate_boot (m : Machine) : Accurate m boot where
  sound := sound_boot m
  framed := nofun
  stored := nofun
  exact _ := ⟨nofun,fun _ _ => ⟨Nat.zero_le _,rfl,rfl⟩⟩

/-- A step keeps the agreement, and no counter jumps. -/
theorem Accurate.step (h : Accurate m σ) (e : ℕ × Act) (hcl : closed m σ e = true) :
    Accurate m (σ.step m e).1 ∧ ∀ d, Near (σ.cpu d) ((σ.step m e).1.cpu d) := by
  obtain ⟨hord,hclosing⟩ := Bool.and_eq_true_iff.mp hcl
  obtain ⟨c,a⟩ := e
  obtain heq | ⟨-,hdoes⟩ := h.sound.does (c,a) hord
  · rw [heq]
    exact ⟨h,fun _ => .of_eq rfl rfl⟩
  obtain ⟨x,hx,-⟩ := hdoes.cpu
  have hsound := h.sound.step (c,a) hord
  generalize (σ.step m (c,a)).1 = σ' at hdoes hx hsound
  have hself : Exact σ' c ∧ Near (σ.cpu c) (σ'.cpu c) ∧
      ∀ t l, (σ.cpu c).ctx = .thread t l → Agrees σ σ' c t := by
    cases hctx : (σ.cpu c).ctx with
    | boot pc =>
      have hstored (t : Tid) (l : Loop) (hpc : pc = .popped t l) : (σ.th t).frames = [] := by
        have hin : t ∈ members σ (.hand c) := mem_hand (hpc ▸ hctx) rfl
        exact h.stored t (h.sound.placed.used _ t hin) (h.sound.placed.held _ t rfl hin)
      obtain ⟨hexact,hnear⟩ := exact_of_does (h.exact c) h.sound.coherent hctx hstored hdoes
      exact ⟨hexact,hnear,nofun⟩
    | thread t l =>
      have hused := (h.sound.placed.exec c t (.intro hctx)).1
      have hopen (ha : a = .go) (hgap : (σ.th t).pc.gap = true) : (σ.th t).frames = [] := by
        subst ha
        simpa [closing,hctx,hgap] using hclosing
      have hagrees := agrees_of_does (h.framed t hused) (h.exact c) hctx h.sound.coherent hopen
        hused hdoes
      refine ⟨hagrees.exact,hagrees.near,fun u l' hu => ?_⟩
      cases hu
      exact hagrees
  -- a thread another CPU executes is not the one that moves
  have hother (d : ℕ) (hd : d ≠ c) : Exact σ' d := by
    have hcpu : σ'.cpu d = σ.cpu d := by rw [hx,update_of_ne hd]
    constructor
    · rw [hcpu]
      intro t l ht
      have hown := h.sound.placed.exec d t (.intro ht)
      have hsame : Untouched (σ.th t) (σ'.th t) := by
        refine (hdoes.others (u := t) fun l' hc => ?_).resolve_right ?_
        · exact hd (hown.2.2.symm.trans (h.sound.placed.exec c t (.intro hc)).2.2)
        · rintro ⟨k,e,σ₁,hspawn,-⟩
          rw [hspawn.free] at hown
          cases hown.1
      rw [hsame.frames]
      exact (h.exact d).run t l ht
    · rw [hcpu]
      exact (h.exact d).rest
  refine ⟨⟨hsound,fun t hused => ?_,fun t hused hsaved => ?_,fun d => ?_⟩,fun d => ?_⟩
  · by_cases hrun : ∃ l, (σ.cpu c).ctx = .thread t l
    · obtain ⟨l,hl⟩ := hrun
      exact (hself.2.2 t l hl).framed
    · obtain hsame | ⟨k,e,σ₁,hspawn,heq⟩ := hdoes.others (u := t) fun l hl => hrun ⟨l,hl⟩
      · exact (h.framed t (hsame.used hused)).untouched hsame
      · rw [heq]
        exact hspawn.framed.1
  · -- a thread that is executed after the step is not stored
    have hidle {d : ℕ} {l : Loop} (hd : (σ'.cpu d).ctx = .thread t l) : False := by
      rw [(hsound.placed.exec d t (.intro hd)).2.1] at hsaved
      cases hsaved
    by_cases hrun : ∃ l, (σ.cpu c).ctx = .thread t l
    · obtain ⟨l,hl⟩ := hrun
      exact (hself.2.2 t l hl).closed.resolve_left fun hctx => hidle (hctx.trans hl)
    · obtain hsame | ⟨k,e,σ₁,hspawn,heq⟩ := hdoes.others (u := t) fun l hl => hrun ⟨l,hl⟩
      · rw [hsame.frames]
        refine h.stored t (hsame.used hused) ?_
        by_contra hs
        obtain ⟨l,hl⟩ := h.sound.placed.gone t (by simpa using hs)
        by_cases hd : (σ.th t).ownerCPU = c
        · exact hrun ⟨l,hd ▸ hl⟩
        · refine hidle (d := (σ.th t).ownerCPU) (l := l) ?_
          rwa [hx,update_of_ne hd]
      · rw [heq]
        exact hspawn.framed.2
  · by_cases hd : d = c
    · rw [hd]
      exact hself.1
    · exact hother d hd
  · by_cases hd : d = c
    · rw [hd]
      exact hself.2.1
    · rw [hx,update_of_ne hd]
      exact .of_eq rfl rfl

theorem accurate_of_closed {es : List (ℕ × Act)}
    (hrun : Meets (Sched.step m) (fun σ e => closed m σ e = true) boot es) :
    Accurate m (exec (Sched.step m) boot es) :=
  hrun.inv (fun _ e h hcl => (h.step e hcl).1) (accurate_boot m)

/-- The guards let a thread yield that has no entry open. -/
theorem Accurate.preemptYields (h : Accurate m σ) (hctx : (σ.cpu c).ctx = .thread t l)
    (hframes : (σ.th t).frames = []) (p : Tpc) :
    (σ.enter c t .preempt p).preemptYields c = true := by
  obtain ⟨hi,hs⟩ := (h.exact c).run t l hctx
  have hr := h.sound.coherent.runs c t l hctx
  rw [hframes] at hi hs
  have hcpu : (σ.enter c t .preempt p).cpu c = { σ.cpu c with
      interruptDepth := (σ.cpu c).interruptDepth+1,
      syscallDepth := (σ.cpu c).syscallDepth+1 } := update_self ..
  have hone {x : UInt32} (hx : x.toNat = 0) : ¬(x+1 > 1) := by
    rw [gt_iff_lt,UInt32.lt_iff_toNat_lt,toNat_succ (by omega),hx]
    decide
  rw [Sched.preemptYields,hcpu]
  rw [decide_eq_false (hone hi),decide_eq_false (hone hs),hr]
  rfl

/-- In an orderly run that switches threads out only between ISR entries, the counters of a
CPU tell the entries open on the stack of the thread it executes and never wrap, a
preemption is skipped only for a thread that is inside another handler, and a thread in
Ring 3 always yields to it. -/
theorem counters_exact_of_closed (m : Machine) (es : List (ℕ × Act))
    (hrun : Meets (Sched.step m) (fun σ e => closed m σ e = true) boot es) :
    let σ := exec (Sched.step m) boot es
    (∀ c t, Executes σ c t → (σ.cpu c).interruptDepth.toNat = (σ.th t).frames.length ∧
      (σ.cpu c).syscallDepth.toNat = sysCount (σ.th t).frames) ∧
    (∀ e, closed m σ e = true → ∀ d, Near (σ.cpu d) ((σ.step m e).1.cpu d)) ∧
    (∀ c t, .preempt c t false ∈ (σ.step m (c,.irq .preempt)).2 → (σ.th t).frames ≠ []) ∧
    (∀ c t, Executes σ c t → (σ.th t).pc = .run → (σ.th t).frames = [] →
      (σ.step m (c,.irq .preempt)).2 = [.preempt c t true]) := by
  have h := accurate_of_closed hrun
  generalize exec (Sched.step m) boot es = σ at h
  refine ⟨fun c t ⟨l,hctx⟩ => (h.exact c).run t l hctx,fun e hcl => (h.step e hcl).2,
    fun c t hobs hframes => ?_,fun c t ⟨l,hctx⟩ hpc hframes => ?_⟩
  · have hfresh : fresh σ (c,.irq .preempt) = true := by
      rw [fresh]
      split <;> rfl
    obtain heq | ⟨-,hdoes⟩ := h.sound.coherent.does (m := m) (c,.irq .preempt) hfresh
    · rw [heq] at hobs
      cases hobs
    · generalize σ.step m (c,.irq .preempt) = r at hobs hdoes
      obtain ⟨σ',obs⟩ := r
      cases hdoes with
      | boot _ hdoes => cases hdoes <;> cases hobs
      | @thread u l hctx hdoes =>
        cases hdoes with
        | alone halone =>
          cases halone with
          | irq hv hmask hskip hobs' =>
            rw [hobs'] at hobs
            obtain rfl : t = u := by simpa using hobs
            have hyields := h.preemptYields hctx hframes (.irq (σ.th t).pc)
            rw [hskip rfl] at hyields
            cases hyields
          | _ => cases hobs
        | preempt => simp at hobs
        | _ => cases hobs
  · have hc : c < m.numCoresOnline :=
      (h.sound.placed.exec c t (.intro hctx)).2.2 ▸ h.sound.placed.small t
    have hyields := h.preemptYields hctx hframes (.irq .run)
    rw [Sched.step,if_pos hc,hctx]
    simp only [stepThread,hpc]
    rw [if_pos ⟨by decide,rfl,by decide⟩,threadIrq,if_pos rfl,if_pos hyields]

/-- A service waits for an event that the boot shell signals in a system call; the shell
returns to Ring 3, where a preemption finds it. -/
def shellPreempted : List (ℕ × Act) :=
  [(0,.spawnService),(0,.go),(0,.poll .kschedLoopOnce),(0,.go),(0,.irq .other),(0,.iret),
   (0,.op (.wait 5)),(0,.go),(0,.go),(0,.spawnShell),(0,.go)]++
  (0,.poll .kschedLoopRing3OnlyOnce)::List.replicate 7 (0,.go)++
  [(0,.syscall),(0,.op (.signal 5)),(0,.go),(0,.go),(0,.iret)]

theorem counters_exact_of_closed_shell :
    ((exec (Sched.step threeCores) boot shellPreempted).cpu 0).interruptDepth.toNat =
      ((exec (Sched.step threeCores) boot shellPreempted).th 1).frames.length ∧
    ((exec (Sched.step threeCores) boot shellPreempted).step threeCores (0,.irq .preempt)).2 =
      [.preempt 0 1 true] := by
  obtain ⟨hcount,-,-,hyields⟩ :=
    counters_exact_of_closed threeCores shellPreempted (by decide +kernel)
  have hexec : Executes (exec (Sched.step threeCores) boot shellPreempted) 0 1 :=
    ⟨.kschedLoopRing3OnlyOnce,by decide +kernel⟩
  exact ⟨(hcount 0 1 hexec).1,hyields 0 1 hexec (by decide +kernel) (by decide +kernel)⟩

/-- One BSP and one AP. -/
def twoCores : Machine := ⟨2,by decide,by decide⟩

/-- The shell starts two children on the AP. The first yields inside a system call, and
then the second runs for the first time. -/
def twoChildren : List (ℕ × Act) :=
  [(0,.spawnShell),(0,.go)]++(0,.poll .kschedLoopRing3OnlyOnce)::List.replicate 7 (0,.go)++
  [(0,.syscall),(0,.spawnRing3),(0,.go),(0,.spawnRing3),(0,.go)]++
  (1,.poll .kschedLoopRing3Only)::List.replicate 7 (1,.go)++
  [(1,.syscall),(1,.yield)]++List.replicate 5 (1,.go)++
  (1,.poll .kschedLoopRing3Only)::List.replicate 7 (1,.go)

/-- The second child runs in Ring 3 with no entry open, the counters show the first one's,
and the preemption IPI is skipped. -/
theorem ring3_exempt_from_preemption :
    ((exec (Sched.step twoCores) boot twoChildren).cpu 1).ctx = .thread 2 .kschedLoopRing3Only ∧
    ((exec (Sched.step twoCores) boot twoChildren).th 2).pc = .run ∧
    ((exec (Sched.step twoCores) boot twoChildren).th 2).frames = [] ∧
    ((exec (Sched.step twoCores) boot twoChildren).cpu 1).interruptDepth = 1 ∧
    ((exec (Sched.step twoCores) boot twoChildren).step twoCores (1,.irq .preempt)).2 =
      [.preempt 1 2 false] := by
  decide +kernel

end Gooos.Ksched
