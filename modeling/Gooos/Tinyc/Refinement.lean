import Gooos.Tinyc.Structured

/-!
# The flags implement the structured semantics

Between statements `returned` is off and `retVal` is 0; a statement that returns sets both, and
whatever runs on the way to the end of the call does nothing. A call puts back the flags of its
caller, and writes to no environment but its own and the globals.
-/

namespace Gooos.Tinyc

open Function

/-- The interpreter in environment `env` against the store: `ret` is what the call has returned so
far, and `L` has the environments of the other calls. -/
structure Match (env : Env) (depth : ℕ) (L : ℕ → Option Scope) (ret : Option Int64)
    (s : Evaluator) (t : Store) : Prop where
  globals : s.globals = t.globals
  frame : match env with
    | .globals => t.frame = none
    | .local k => k < s.nLocals ∧ ∃ names, t.frame = some ⟨names,s.locals k⟩
  others : ∀ j e, L j = some e → j < s.nLocals ∧ env ≠ .local j ∧ s.locals j = e
  heap : s.heap = t.heap
  nArrays : s.nArrays = t.nArrays
  funcs : s.funcs = t.funcs
  out : s.out = t.out
  callDepth : s.callDepth = depth
  returned : s.returned = ret.isSome
  retVal : s.retVal = ret.getD 0

/-- What a statement has returned. -/
def Flow.returned : Flow → Option Int64
  | .continue => none
  | .ret v => some v

theorem Flow.getD_returned (r : Flow) : r.returned.getD 0 = r.value := by
  cases r <;> rfl

section

variable {α β : Type}

/-- Both end alike, and stop alike with the same output. -/
abbrev Sim (R : Evaluator → Store → Prop) (Q : α → Evaluator → β → Store → Prop) (m : Ev α)
    (m' : Big β) : Prop :=
  Comp.Rel (fun _ => False) (fun s t => s.out = t.out) R Q m m'

end

section Lookups

variable {env : Env} {depth : ℕ} {L : ℕ → Option Scope} {ret : Option Int64} {s : Evaluator}
  {t : Store}

theorem Match.lookupVar (h : Match env depth L ret s t) (x : String) :
    s.lookupVar env x = (t.localVar x).or (t.globals.vars x) := by
  have hframe := h.frame
  rw [Evaluator.lookupVar.eq_def,Store.localVar,← h.globals]
  cases env with
  | globals =>
    rw [hframe]
    cases hx : s.globals.vars x <;> simp [Evaluator.env,hx]
  | «local» k =>
    obtain ⟨-,names,hf⟩ := hframe
    rw [hf]
    cases hx : (s.locals k).vars x <;> simp [Evaluator.env,hx]

theorem Match.lookupArray (h : Match env depth L ret s t) (a : String) :
    s.lookupArray env a = (t.localArray a).or (t.globals.arrays a) := by
  have hframe := h.frame
  rw [Evaluator.lookupArray.eq_def,Store.localArray,← h.globals]
  cases env with
  | globals =>
    rw [hframe]
    cases hx : s.globals.arrays a <;> simp [Evaluator.env,hx]
  | «local» k =>
    obtain ⟨-,names,hf⟩ := hframe
    rw [hf]
    cases hx : (s.locals k).arrays a <;> simp [Evaluator.env,hx]

theorem Match.setGlobals (h : Match env depth L ret s t) (e : Scope) :
    Match env depth L ret { s with globals := e } { t with globals := e } :=
  ⟨rfl,h.frame,h.others,h.heap,h.nArrays,h.funcs,h.out,h.callDepth,h.returned,h.retVal⟩

/-- A write to the environment of the call is one to its frame. -/
theorem Match.setFrame {k : ℕ} (h : Match (.local k) depth L ret s t) (e : Scope)
    (names : List String) : Match (.local k) depth L ret
      { s with locals := update s.locals k e } { t with frame := some ⟨names,e⟩ } := by
  refine ⟨h.globals,⟨h.frame.1,names,?_⟩,fun j e' hj => ?_,h.heap,h.nArrays,h.funcs,h.out,
    h.callDepth,h.returned,h.retVal⟩
  · change some _ = some (Frame.mk names (update s.locals k e k))
    rw [update_self]
  · obtain ⟨hlt,hne,he⟩ := h.others j e' hj
    have hjk : j ≠ k := fun hjk => hne (congrArg Env.local hjk.symm)
    exact ⟨hlt,hne,(update_of_ne hjk ..).trans he⟩

section

variable (h : Match env depth L ret s t) (x : String) (v : Int64)
include h x v

/-- `env.vars[x] = v`, as an assignment or as a declaration. -/
theorem Match.setOwn :
    Match env depth L ret (s.setEnv ((s.env env).setVar x v) env) (t.setLocal x v) ∧
      Match env depth L ret (s.setEnv ((s.env env).setVar x v) env) (t.declare x v) := by
  have hframe := h.frame
  rw [Store.setLocal,Store.declare]
  cases env with
  | globals =>
    rw [hframe,Store.setGlobal,← h.globals]
    exact ⟨h.setGlobals _,h.setGlobals _⟩
  | «local» k =>
    obtain ⟨-,names,hf⟩ := hframe
    rw [hf]
    exact ⟨h.setFrame _ names,h.setFrame _ (x::names)⟩

theorem Match.setGlobal :
    Match env depth L ret (s.setEnv (s.globals.setVar x v) .globals) (t.setGlobal x v) := by
  rw [Store.setGlobal,← h.globals]
  exact h.setGlobals _

theorem Match.setVar : Match env depth L ret (s.setVar env x v)
      (if (t.localVar x).isNone ∧ (t.globals.vars x).isSome then t.setGlobal x v
        else t.setLocal x v) := by
  have hframe := h.frame
  have hown := (h.setOwn x v).1
  rw [Evaluator.setVar.eq_def,← h.globals]
  cases env with
  | globals =>
    -- without a frame both branches are the globals
    have hsame : t.setLocal x v = t.setGlobal x v := by rw [Store.setLocal,hframe]
    rw [hsame,ite_self]
    cases (s.env .globals).vars x <;> exact h.setGlobal x v
  | «local» k =>
    obtain ⟨-,names,hf⟩ := hframe
    have hlocal : t.localVar x = (s.locals k).vars x := by
      rw [Store.localVar,hf]
      rfl
    rw [hlocal]
    rw [show s.env (.local k) = s.locals k from rfl]
    cases hl : (s.locals k).vars x with
    | some w =>
      exact hown
    | none =>
      cases hx : s.globals.vars x with
      | some w =>
        exact h.setGlobal x v
      | none =>
        exact hown

end

end Lookups

/-! ### One layer of the recursion -/

/-- Results of expressions: the same value, and no flag is touched. -/
def ExprPost (env : Env) (depth : ℕ) (L : ℕ → Option Scope) (v : Int64) (s : Evaluator)
    (v' : Int64) (t : Store) : Prop :=
  v = v' ∧ Match env depth L none s t

/-- Results of statements: the flags say whether and what was returned. -/
def FlowPost (env : Env) (depth : ℕ) (L : ℕ → Option Scope) (_ : Unit) (s : Evaluator)
    (r : Flow) (t : Store) : Prop :=
  Match env depth L r.returned s t

structure Simulates (r : Methods) (r' : Meaning) : Prop where
  expr : ∀ env depth L e, Sim (Match env depth L none) (ExprPost env depth L) (r.evalExpr e env)
    (r'.expr depth e)
  stmt : ∀ env depth L node, Sim (Match env depth L none) (FlowPost env depth L) (r.stmt node env)
    (r'.stmt depth node)
  loop : ∀ env depth L cond body step, Sim (Match env depth L none) (FlowPost env depth L)
    (r.loop cond body step env) (r'.loop depth cond body step)

/-- After a return it does nothing. -/
def Skips (m : Ev Unit) : Prop := ∀ s, s.returned = true → m s = .ok () s

section Layer

variable {α β : Type} {r : Methods} {r' : Meaning} (h : Simulates r r') (env : Env) (depth : ℕ)
  (L : ℕ → Option Scope)

theorem sim_print {ret : Option Int64} (cs : List Char) :
    Sim (Match env depth L ret) (fun _ s _ t => Match env depth L ret s t) (print cs)
      (Big.print cs) := by
  refine Comp.Rel.modify fun s t hm => ?_
  exact ⟨hm.globals,hm.frame,hm.others,hm.heap,hm.nArrays,hm.funcs,congrArg (·++cs) hm.out,
    hm.callDepth,hm.returned,hm.retVal⟩

theorem sim_fail {ret : Option Int64} (msg : String) {Q : α → Evaluator → β → Store → Prop} :
    Sim (Match env depth L ret) Q (fail msg) (Big.fail msg) := by
  refine Comp.Rel.bind (sim_print env depth L _) fun _ _ => ?_
  exact Comp.Rel.stop fun s t hm => hm.out

theorem skips_execStmt (r : Methods) (node : Stmt) (env : Env) : Skips (r.execStmt node env) := by
  intro s hs
  change (if s.returned then pure () else r.stmt node env : Ev Unit) s = _
  rw [if_pos hs]
  rfl

theorem skips_execBlock (r : Methods) (env : Env) (ss : List Stmt) :
    Skips (r.execBlock env ss) := by
  intro s hs
  cases ss with
  | nil => rfl
  | cons child rest =>
    change (if s.returned then pure () else (do r.execStmt child env; r.execBlock env rest) :
      Ev Unit) s = _
    rw [if_pos hs]
    rfl

theorem skips_execOpt (r : Methods) (env : Env) (node : Option Stmt) :
    Skips (r.execOpt node env) := by
  cases node with
  | none => exact fun _ _ => rfl
  | some node => exact skips_execStmt r node env

/-- The test at the head of a loop. -/
theorem skips_unless (m : Ev Unit) :
    Skips (do if (← Comp.get).returned then pure () else m) := by
  intro s hs
  change (if s.returned then pure () else m : Ev Unit) s = _
  rw [if_pos hs]
  rfl

theorem Skips.bind {m m' : Ev Unit} (hm : Skips m) (hm' : Skips m') : Skips (do m; m') := by
  intro s hs
  exact (Comp.bind_ok (hm s hs)).trans (hm' s hs)

theorem sim_andThen {m m' : Ev Unit} {b b' : Big Flow}
    (hm : Sim (Match env depth L none) (FlowPost env depth L) m b)
    (hm' : Sim (Match env depth L none) (FlowPost env depth L) m' b') (hskip : Skips m') :
    Sim (Match env depth L none) (FlowPost env depth L) (do m; m') (b.andThen b') := by
  refine Comp.Rel.bind hm fun _ fl s t hflow => ?_
  cases fl with
  | «continue» => exact hm' s t hflow
  | ret v =>
    -- the call has returned: the rest of the code falls through
    rw [hskip s hflow.returned]
    exact .ok hflow

/-- With the flag off the test passes. -/
theorem sim_unless {m : Ev Unit} {b : Big Flow}
    (hm : Sim (Match env depth L none) (FlowPost env depth L) m b) :
    Sim (Match env depth L none) (FlowPost env depth L)
      (do if (← Comp.get).returned then pure () else m) b := by
  intro s t hst
  change Res.Rel _ _ _ ((if s.returned then pure () else m : Ev Unit) s) _
  rw [hst.returned]
  exact hm s t hst

include h

theorem Simulates.execStmt (node : Stmt) :
    Sim (Match env depth L none) (FlowPost env depth L) (r.execStmt node env)
      (r'.stmt depth node) :=
  sim_unless env depth L (h.stmt env depth L node)

theorem Simulates.execOpt (node : Option Stmt) :
    Sim (Match env depth L none) (FlowPost env depth L) (r.execOpt node env)
      (r'.opt depth node) := by
  cases node with
  | none => exact Comp.Rel.pure fun s t hm => hm
  | some node => exact h.execStmt env depth L node

theorem Simulates.execBlock (ss : List Stmt) :
    Sim (Match env depth L none) (FlowPost env depth L) (r.execBlock env ss)
      (r'.block depth ss) := by
  induction ss with
  | nil => exact Comp.Rel.pure fun s t hm => hm
  | cons child rest ih =>
    refine sim_unless env depth L ?_
    exact sim_andThen env depth L (h.execStmt env depth L child) ih (skips_execBlock r env rest)

theorem Simulates.evalInit (init : Option Expr) :
    Sim (Match env depth L none) (ExprPost env depth L) (r.evalInit init env)
      (r'.init depth init) := by
  cases init with
  | none => exact Comp.Rel.pure fun s t hm => ⟨rfl,hm⟩
  | some e => exact h.expr env depth L e

theorem Simulates.loop' (cond : Expr) (body : Stmt) (step : Option Stmt) :
    Sim (Match env depth L none) (FlowPost env depth L) (r.loop' cond body step env)
      (r'.loop' depth cond body step) := by
  refine Comp.Rel.bind (h.expr env depth L cond) fun c c' s t hc => ?_
  obtain ⟨rfl,hm⟩ := hc
  by_cases hzero : c = 0
  · rw [if_pos hzero,if_pos hzero]
    exact .ok hm
  · rw [if_neg hzero,if_neg hzero]
    refine sim_andThen env depth L (h.execStmt env depth L body) ?_ ?_ s t hm
    · refine sim_andThen env depth L (h.execOpt env depth L step) ?_ (skips_unless _)
      exact sim_unless env depth L (h.loop env depth L cond body step)
    · exact (skips_execOpt r env step).bind (skips_unless _)

theorem Simulates.stmt' (node : Stmt) :
    Sim (Match env depth L none) (FlowPost env depth L) (r.stmt' node env)
      (r'.stmt' depth node) := by
  cases node with
  | block ss => exact h.execBlock env depth L ss
  | varDecl x init =>
    refine Comp.Rel.bind (h.evalInit env depth L init) fun v v' s t hv => ?_
    obtain ⟨rfl,hm⟩ := hv
    exact .ok (hm.setOwn x v).2
  | expr e =>
    refine Comp.Rel.bind (h.expr env depth L e) fun v v' => ?_
    exact Comp.Rel.pure fun s t hm => hm.2
  | ite cond thn els =>
    refine Comp.Rel.bind (h.expr env depth L cond) fun c c' s t hc => ?_
    obtain ⟨rfl,hm⟩ := hc
    by_cases hzero : c ≠ 0
    · rw [if_pos hzero,if_pos hzero]
      exact h.execStmt env depth L thn s t hm
    · rw [if_neg hzero,if_neg hzero]
      exact h.execOpt env depth L els s t hm
  | «while» cond body => exact h.loop env depth L cond body none
  | «for» init cond step body =>
    refine sim_andThen env depth L (h.execStmt env depth L init) ?_ (skips_unless _)
    exact sim_unless env depth L (h.loop env depth L cond body (some step))
  | ret e =>
    cases e with
    | none =>
      intro s t hm
      exact .ok ⟨hm.globals,hm.frame,hm.others,hm.heap,hm.nArrays,hm.funcs,hm.out,hm.callDepth,rfl,
        hm.retVal⟩
    | some e =>
      refine Comp.Rel.bind (h.expr env depth L e) fun v v' s t hv => ?_
      obtain ⟨rfl,hm⟩ := hv
      exact .ok ⟨hm.globals,hm.frame,hm.others,hm.heap,hm.nArrays,hm.funcs,hm.out,hm.callDepth,rfl,
        rfl⟩

theorem Simulates.execPrintln (fmt : List Char) (args : List Expr) :
    Sim (Match env depth L none) (fun _ s _ t => Match env depth L none s t)
      (r.execPrintln fmt args env) (r'.println depth fmt args) := by
  refine Comp.Rel.bind (rel_format (h.expr env depth L) fmt args) fun cs cs' s t hcs => ?_
  obtain ⟨rfl,hm⟩ := hcs
  exact sim_print env depth L _ s t hm

omit h

/-- The environment of a call that is still being set up. -/
theorem Match.setOther {ret : Option Int64} {s : Evaluator} {t : Store} {k : ℕ} {e : Scope}
    (hm : Match env depth (update L k (some e)) ret s t) (g : Scope → Scope) :
    Match env depth (update L k (some (g e))) ret (s.setEnv (g (s.locals k)) (.local k))
      t := by
  obtain ⟨hk,hne,he⟩ := hm.others k e (update_self ..)
  rw [he]
  refine ⟨hm.globals,?_,fun j f hj => ?_,hm.heap,hm.nArrays,hm.funcs,hm.out,hm.callDepth,
    hm.returned,hm.retVal⟩
  · have hframe := hm.frame
    cases env with
    | globals => exact hframe
    | «local» i =>
      have hik : i ≠ k := fun hik => hne (congrArg Env.local hik)
      obtain ⟨hi,names,hf⟩ := hframe
      refine ⟨hi,names,?_⟩
      rw [hf]
      exact congrArg (fun e => some (Frame.mk names e)) (update_of_ne hik ..).symm
  · by_cases hjk : j = k
    · subst hjk
      rw [update_self] at hj
      cases hj
      exact ⟨hk,hne,update_self ..⟩
    · rw [update_of_ne hjk] at hj
      obtain ⟨hlt,hne',hf⟩ := hm.others j f ((update_of_ne hjk ..).trans hj)
      exact ⟨hlt,hne',(update_of_ne hjk ..).trans hf⟩

include h

theorem Simulates.argValue (k : ℕ) (scope : Scope) (p : String) (a : Expr) :
    Sim (Match env depth (update L k (some scope)) none)
      (fun _ s scope' t => Match env depth (update L k (some scope')) none s t)
      (do
        let argVal ← r.evalExpr a env
        Comp.modify fun s => s.setEnv ((s.locals k).setVar p argVal) (.local k))
      (r'.argValue depth scope p a) := by
  refine Comp.Rel.bind (h.expr env depth _ a) fun v v' s t hv => ?_
  obtain ⟨rfl,hm⟩ := hv
  exact .ok (hm.setOther env depth L (·.setVar p v))

theorem Simulates.bindParam (k : ℕ) (scope : Scope) (p : String) (a : Expr) :
    Sim (Match env depth (update L k (some scope)) none)
      (fun _ s scope' t => Match env depth (update L k (some scope')) none s t)
      (r.bindParam env k p a) (r'.bindParam codeScoping depth scope p a) := by
  have hvalue := h.argValue env depth L k scope p a
  intro s t hm
  cases a with
  | var x =>
    have harray := hm.lookupArray x
    simp only [Methods.bindParam,Meaning.bindParam,Methods.argArray,codeScoping,Comp.get_bind]
    rw [← harray]
    cases s.lookupArray env x with
    | none => exact hvalue s t hm
    | some arr => exact .ok (hm.setOther env depth L (·.setArray p arr))
  | _ => exact hvalue s t hm

theorem Simulates.bindParams (k : ℕ) (ps : List String) (as : List Expr) (scope : Scope) :
    Sim (Match env depth (update L k (some scope)) none)
      (fun _ s scope' t => Match env depth (update L k (some scope')) none s t)
      (r.bindParams env k ps as) (r'.bindParams codeScoping depth scope ps as) := by
  induction ps generalizing as scope with
  | nil =>
    cases as <;> exact Comp.Rel.pure fun s t hm => hm
  | cons p ps ih =>
    cases as with
    | nil => exact Comp.Rel.pure fun s t hm => hm
    | cons a as =>
      exact Comp.Rel.bind (h.bindParam env depth L k scope p a) fun _ scope' => ih as scope'

omit h

/-- The environments of the other calls, as a callee sees them: with that of its caller. -/
def withCaller (L : ℕ → Option Scope) (env : Env) (e : Scope) : ℕ → Option Scope :=
  match env with
  | .globals => L
  | .local i => update L i (some e)

theorem Match.enter {s : Evaluator} {t : Store} (hm : Match env depth L none s t) :
    Match env (depth+1) (update L s.nLocals (some .empty)) none (Methods.enter s) t := by
  refine ⟨hm.globals,?_,fun j e hj => ?_,hm.heap,hm.nArrays,hm.funcs,hm.out,
    congrArg (·+1) hm.callDepth,hm.returned,hm.retVal⟩
  · have hframe := hm.frame
    cases env with
    | globals => exact hframe
    | «local» i =>
      obtain ⟨hi,names,hf⟩ := hframe
      refine ⟨Nat.lt_succ_of_lt hi,names,?_⟩
      rw [hf]
      exact congrArg (fun e => some (Frame.mk names e))
        (update_of_ne (Nat.ne_of_lt hi) ..).symm
  · by_cases hjk : j = s.nLocals
    · subst hjk
      rw [update_self] at hj
      cases hj
      refine ⟨Nat.lt_succ_self _,fun henv => ?_,update_self ..⟩
      subst henv
      exact absurd hm.frame.1 (Nat.lt_irrefl _)
    · rw [update_of_ne hjk] at hj
      obtain ⟨hlt,hne,he⟩ := hm.others j e hj
      exact ⟨Nat.lt_succ_of_lt hlt,hne,(update_of_ne hjk ..).trans he⟩

/-- The body of a call starts in the new environment. -/
theorem Match.start {s : Evaluator} {t : Store} {k : ℕ} {scope : Scope} (params : List String)
    (hm : Match env depth (update L k (some scope)) none s t) :
    Match (.local k) depth (withCaller (update L k none) env (s.env env)) none
      { s with returned := false, retVal := 0 } { t with frame := some ⟨params,scope⟩ } := by
  obtain ⟨hk,hne,hscope⟩ := hm.others k scope (update_self ..)
  have hold : ∀ j e, update L k none j = some e → j < s.nLocals ∧
      Env.local k ≠ .local j ∧ s.locals j = e := by
    intro j e hj
    have hjk : j ≠ k := by
      rintro rfl
      rw [update_self] at hj
      cases hj
    rw [update_of_ne hjk] at hj
    obtain ⟨hlt,-,he⟩ := hm.others j e ((update_of_ne hjk ..).trans hj)
    exact ⟨hlt,fun hkj => hjk (Env.local.inj hkj).symm,he⟩
  refine ⟨hm.globals,⟨hk,params,by rw [hscope]⟩,fun j e hj => ?_,hm.heap,hm.nArrays,hm.funcs,
    hm.out,hm.callDepth,rfl,rfl⟩
  cases env with
  | globals => exact hold j e hj
  | «local» i =>
    rw [withCaller] at hj
    by_cases hji : j = i
    · subst hji
      rw [update_self] at hj
      cases hj
      exact ⟨hm.frame.1,hne.symm,rfl⟩
    · rw [update_of_ne hji] at hj
      exact hold j e hj

/-- Back in the caller everything but the globals, the arrays and the output is as it was when the
body started. -/
theorem Match.leave {s s₁ s₂ : Evaluator} {t t₁ t₂ : Store} {scope : Scope} {ret : Option Int64}
    (hm : Match env depth L none s t)
    (hargs : Match env (depth+1) (update L s.nLocals (some scope)) none s₁ t₁)
    (hbody : Match (.local s.nLocals) (depth+1)
      (withCaller (update L s.nLocals none) env (s₁.env env)) ret s₂ t₂) :
    Match env depth L none
      { s₂ with returned := s₁.returned, retVal := s₁.retVal, callDepth := s₂.callDepth-1 }
      { t₂ with frame := t₁.frame } := by
  refine ⟨hbody.globals,?_,fun j e hj => ?_,hbody.heap,hbody.nArrays,hbody.funcs,hbody.out,?_,
    hargs.returned,hargs.retVal⟩
  · have hframe := hargs.frame
    cases env with
    | globals => exact hframe
    | «local» i =>
      obtain ⟨-,names,hf⟩ := hframe
      obtain ⟨hi,-,hsame⟩ := hbody.others i (s₁.locals i) (update_self ..)
      exact ⟨hi,names,hf.trans (congrArg (fun e => some (Frame.mk names e)) hsame.symm)⟩
  · obtain ⟨hlt,hne,-⟩ := hm.others j e hj
    have hold : update L s.nLocals none j = some e :=
      (update_of_ne (Nat.ne_of_lt hlt) ..).trans hj
    have hboth : withCaller (update L s.nLocals none) env (s₁.env env) j = some e := by
      cases env with
      | globals => exact hold
      | «local» i =>
        have hji : j ≠ i := fun hji => hne (congrArg Env.local hji.symm)
        exact (update_of_ne hji ..).trans hold
    obtain ⟨hlt₂,-,he⟩ := hbody.others j e hboth
    exact ⟨hlt₂,hne,he⟩
  · exact congrArg (·-1) hbody.callDepth

include h

theorem Simulates.callFunc (fn : FuncDef) (args : List Expr) :
    Sim (Match env depth L none) (ExprPost env depth L) (r.callFunc fn args env)
      (r'.call codeScoping depth fn args) := by
  intro s t hm
  change Res.Rel _ _ _ ((if maxCallDepth ≤ s.callDepth then fail depthExceeded else _ : Ev Int64) s) _
  rw [hm.callDepth,Meaning.call]
  by_cases hdepth : maxCallDepth ≤ depth
  · rw [if_pos hdepth,if_pos hdepth]
    exact sim_fail env depth L _ s t hm
  rw [if_neg hdepth,if_neg hdepth]
  have hparams := h.bindParams env (depth+1) L s.nLocals fn.params args .empty _ t
    (hm.enter env depth L)
  refine hparams.bind fun _ s₁ scope t₁ hargs => ?_
  have hbody := h.execBlock (.local s.nLocals) (depth+1) _ fn.body _ _
    (hargs.start env _ L fn.params)
  refine hbody.bind fun _ s₂ fl t₂ hend => ?_
  have hvalue : s₂.retVal = fl.value := hend.retVal.trans fl.getD_returned
  exact .ok ⟨hvalue,hm.leave env depth L hargs hend⟩

theorem Simulates.evalExpr' (node : Expr) :
    Sim (Match env depth L none) (ExprPost env depth L) (r.evalExpr' node env)
      (r'.expr' codeScoping depth node) := by
  cases node with
  | num v => exact Comp.Rel.pure fun s t hm => ⟨rfl,hm⟩
  | str cs => exact sim_fail env depth L _
  | var x =>
    intro s t hm
    have hvar := hm.lookupVar x
    simp only [Methods.evalExpr',Meaning.expr',codeScoping,Comp.get_bind]
    rw [← hvar]
    cases s.lookupVar env x with
    | none => exact sim_fail env depth L _ s t hm
    | some v => exact .ok ⟨rfl,hm⟩
  | neg e =>
    refine Comp.Rel.bind (h.expr env depth L e) fun v v' => ?_
    exact Comp.Rel.pure fun s t hv => ⟨congrArg (-·) hv.1,hv.2⟩
  | bin op left right =>
    refine Comp.Rel.bind (h.expr env depth L left) fun v v' s t hv => ?_
    obtain ⟨rfl,hm⟩ := hv
    refine Comp.Rel.bind (h.expr env depth L right) (fun w w' s t hw => ?_) s t hm
    obtain ⟨rfl,hm⟩ := hw
    cases evalBinOp op v w with
    | error msg => exact sim_fail env depth L msg s t hm
    | ok u => exact .ok ⟨rfl,hm⟩
  | assign x e =>
    refine Comp.Rel.bind (h.expr env depth L e) fun v v' s t hv => ?_
    obtain ⟨rfl,hm⟩ := hv
    exact .ok ⟨rfl,hm.setVar x v⟩
  | assignIndex a i e =>
    refine Comp.Rel.bind (h.expr env depth L e) fun v v' s t hv => ?_
    obtain ⟨rfl,hm⟩ := hv
    refine Comp.Rel.bind (h.expr env depth L i) (fun w w' s t hw => ?_) s t hm
    obtain ⟨rfl,hm⟩ := hw
    have harray := hm.lookupArray a
    rw [Comp.get_bind]
    change Res.Rel _ _ _ _
      ((Big.look (Look.ofOption ((t.localArray a).or (t.globals.arrays a))) _ >>= _) t)
    rw [← harray]
    cases s.lookupArray env a with
    | none => exact .stop (congrArg (·++_) hm.out)
    | some arr =>
      rw [Comp.bind_ok (rfl : Big.look (.ofOption (some arr)) _ t = .ok arr t),Comp.get_bind]
      dsimp only
      rw [hm.heap]
      cases element (t.heap arr) w with
      | none => exact sim_fail env depth L _ s t hm
      | some n =>
        refine .ok ⟨rfl,hm.globals,hm.frame,hm.others,?_,hm.nArrays,hm.funcs,hm.out,hm.callDepth,
          hm.returned,hm.retVal⟩
        change update s.heap arr _ = update t.heap arr _
        rw [hm.heap]
  | index a i =>
    intro s t hm
    have harray := hm.lookupArray a
    simp only [Methods.evalExpr',Comp.get_bind]
    change Res.Rel _ _ _ _
      ((Big.look (Look.ofOption ((t.localArray a).or (t.globals.arrays a))) _ >>= _) t)
    rw [← harray]
    cases s.lookupArray env a with
    | none => exact .stop (congrArg (·++_) hm.out)
    | some arr =>
      refine Comp.Rel.bind (h.expr env depth L i) (fun w w' s t hw => ?_) s t hm
      obtain ⟨rfl,hm⟩ := hw
      rw [Comp.get_bind,Comp.get_bind,hm.heap]
      cases element (t.heap arr) w with
      | none => exact sim_fail env depth L _ s t hm
      | some n => exact .ok ⟨rfl,hm⟩
  | call f args =>
    intro s t hm
    simp only [Methods.evalExpr',Meaning.expr',Comp.get_bind,← hm.funcs]
    cases s.funcs f with
    | none => exact sim_fail env depth L _ s t hm
    | some fn => exact h.callFunc env depth L fn args s t hm
  | println fmt args =>
    refine Comp.Rel.bind (h.execPrintln env depth L fmt args) fun _ _ => ?_
    exact Comp.Rel.pure fun s t hm => ⟨rfl,hm⟩

omit env depth L

theorem Simulates.register (ds : List Def) :
    Sim (Match .globals 0 (fun _ => none) none)
      (fun _ s _ t => Match .globals 0 (fun _ => none) none s t) (r.register ds)
      (r'.register ds) := by
  induction ds with
  | nil => exact Comp.Rel.pure fun s t hm => hm
  | cons d ds ih =>
    cases d with
    | var x init =>
      refine Comp.Rel.bind (h.evalInit .globals 0 _ init) fun v v' s t hv => ?_
      obtain ⟨rfl,hm⟩ := hv
      exact ih _ _ (hm.setGlobal x v)
    | array x size =>
      refine Comp.Rel.bind (h.expr .globals 0 _ size) fun n n' s t hn => ?_
      obtain ⟨rfl,hm⟩ := hn
      split
      · exact sim_fail .globals 0 _ _ s t hm
      · refine ih _ _ ⟨?_,hm.frame,hm.others,?_,congrArg (·+1) hm.nArrays,hm.funcs,hm.out,
          hm.callDepth,hm.returned,hm.retVal⟩
        · change s.globals.setArray x s.nArrays = t.globals.setArray x t.nArrays
          rw [hm.globals,hm.nArrays]
        · change update s.heap s.nArrays _ = update t.heap t.nArrays _
          rw [hm.heap,hm.nArrays]
    | func name fn =>
      intro s t hm
      refine ih _ _ ⟨hm.globals,hm.frame,hm.others,hm.heap,hm.nArrays,?_,hm.out,hm.callDepth,
        hm.returned,hm.retVal⟩
      exact congrArg (update · name (some fn)) hm.funcs

theorem Simulates.run (prog : List Def) :
    Sim (Match .globals 0 (fun _ => none) none)
      (fun _ s _ t => Match .globals 0 (fun _ => none) none s t) (r.run prog)
      (r'.program codeScoping prog) := by
  refine Comp.Rel.bind (h.register prog) fun _ _ s t hm => ?_
  rw [Comp.get_bind,Comp.get_bind,← hm.funcs]
  cases s.funcs "main" with
  | none => exact sim_fail .globals 0 _ _ s t hm
  | some fn =>
    refine Comp.Rel.bind (h.callFunc .globals 0 _ fn []) (fun v v' => ?_) s t hm
    exact Comp.Rel.pure fun s t hv => hv.2

end Layer

theorem simulates_within (fuel : ℕ) :
    Simulates (Methods.within fuel) (Meaning.within codeScoping fuel) := by
  induction fuel with
  | zero =>
    exact ⟨fun _ _ _ _ => Comp.Rel.stop fun _ _ hm => hm.out,
      fun _ _ _ _ => Comp.Rel.stop fun _ _ hm => hm.out,
      fun _ _ _ _ _ _ => Comp.Rel.stop fun _ _ hm => hm.out⟩
  | succ fuel ih =>
    exact ⟨fun env depth L e => ih.evalExpr' env depth L e,
      fun env depth L node => ih.stmt' env depth L node,
      fun env depth L cond body step => ih.loop' env depth L cond body step⟩

theorem match_new : Match .globals 0 (fun _ => none) none newEvaluator newStore :=
  ⟨rfl,rfl,nofun,rfl,rfl,rfl,rfl,rfl,rfl,rfl⟩

theorem run_eq_meaning (fuel : ℕ) (prog : List Def) :
    run fuel prog = meaning codeScoping fuel prog :=
  outcome_eq ((simulates_within fuel).run prog _ _ match_new) (fun _ _ _ _ hm => hm.out)
    fun _ hfree => hfree.elim

end Gooos.Tinyc
