import Gooos.Tinyc.Evaluator

/-!
# What a call leaves alone

No flag, whatever was returned inside, and no environment but its own and the globals.
-/

namespace Gooos.Tinyc

/-- The local environment that code in `env` may write. -/
def Env.own (env : Env) : Set ℕ := { j | env = .local j }

/-- Of the local environments that there were, only those of `own` may differ. -/
structure Isolated (own : Set ℕ) (s s' : Evaluator) : Prop where
  nLocals : s.nLocals ≤ s'.nLocals
  locals : ∀ j < s.nLocals, j ∉ own → s'.locals j = s.locals j
  callDepth : s'.callDepth = s.callDepth

/-- The flags are as before, too. -/
structure Restored (own : Set ℕ) (s s' : Evaluator) : Prop extends Isolated own s s' where
  returned : s'.returned = s.returned
  retVal : s'.retVal = s.retVal

section

variable {own own' : Set ℕ} {s s' s'' : Evaluator}

theorem Isolated.refl (own : Set ℕ) (s : Evaluator) : Isolated own s s :=
  ⟨le_rfl,fun _ _ _ => rfl,rfl⟩

theorem Isolated.trans (h : Isolated own s s') (h' : Isolated own s' s'') :
    Isolated own s s'' := by
  refine ⟨h.nLocals.trans h'.nLocals,fun j hj hown => ?_,h'.callDepth.trans h.callDepth⟩
  rw [h'.locals j (hj.trans_le h.nLocals) hown,h.locals j hj hown]

theorem Restored.refl (own : Set ℕ) (s : Evaluator) : Restored own s s := ⟨.refl own s,rfl,rfl⟩

theorem Restored.trans (h : Restored own s s') (h' : Restored own s' s'') : Restored own s s'' :=
  ⟨h.toIsolated.trans h'.toIsolated,h'.returned.trans h.returned,h'.retVal.trans h.retVal⟩

theorem Restored.mono (h : Restored own s s') (hown : own ⊆ own') : Restored own' s s' :=
  ⟨⟨h.nLocals,fun j hj hnot => h.locals j hj fun hmem => hnot (hown hmem),h.callDepth⟩,h.returned,
    h.retVal⟩

theorem restored_local {k : ℕ} (hk : k ∈ own) (s : Evaluator) (e : Scope) :
    Restored own s (s.setEnv e (.local k)) := by
  refine ⟨⟨le_rfl,fun j _ hown => ?_,rfl⟩,rfl,rfl⟩
  have hjk : j ≠ k := by
    rintro rfl
    exact hown hk
  exact Function.update_of_ne hjk ..

theorem restored_globals (s : Evaluator) (e : Scope) : Restored own s (s.setEnv e .globals) :=
  ⟨⟨le_rfl,fun _ _ _ => rfl,rfl⟩,rfl,rfl⟩

theorem restored_setEnv (env : Env) (s : Evaluator) (e : Scope) :
    Restored env.own s (s.setEnv e env) := by
  cases env with
  | globals => exact restored_globals s e
  | «local» k => exact restored_local (show k ∈ (Env.local k).own from rfl) s e

theorem restored_setVar (env : Env) (s : Evaluator) (x : String) (v : Int64) :
    Restored env.own s (s.setVar env x v) := by
  have hown := restored_setEnv env s ((s.env env).setVar x v)
  rw [Evaluator.setVar.eq_def]
  cases (s.env env).vars x with
  | some w => exact hown
  | none =>
    cases env with
    | globals => exact hown
    | «local» k =>
      cases s.globals.vars x with
      | some w => exact restored_globals s _
      | none => exact hown

end

/-! ### One layer of the recursion -/

structure Isolates (r : Methods) : Prop where
  expr : ∀ e env, Comp.Keeps (Restored env.own) (r.evalExpr e env)
  stmt : ∀ node env, Comp.Keeps (Isolated env.own) (r.stmt node env)
  loop : ∀ cond body step env, Comp.Keeps (Isolated env.own) (r.loop cond body step env)

section Layer

variable {α : Type} {r : Methods}

theorem keeps_fail (K : Evaluator → Evaluator → Prop) (msg : String) :
    Comp.Keeps K (fail msg : Ev α) := by
  intro s a s' h
  cases h

theorem keeps_print (env : Env) (cs : List Char) : Comp.Keeps (Restored env.own) (print cs) :=
  .modify fun _ => ⟨⟨le_rfl,fun _ _ _ => rfl,rfl⟩,rfl,rfl⟩

theorem keeps_format {eval : Expr → Ev Int64} {env : Env}
    (h : ∀ e, Comp.Keeps (Restored env.own) (eval e)) (fmt : List Char) (args : List Expr) :
    Comp.Keeps (Restored env.own) (format eval fmt args) := by
  have hpure : ∀ cs, Comp.Keeps (Restored env.own) (pure cs : Ev (List Char)) :=
    fun cs => .pure (.refl env.own) cs
  have htrans : ∀ s s' s'', Restored env.own s s' → Restored env.own s' s'' →
      Restored env.own s s'' :=
    fun _ _ _ => .trans
  induction fmt, args using format.induct with
  | case1 args => exact hpure _
  | case2 cs ih =>
    exact ih
  | case3 cs a as ih =>
    exact .bind htrans (h a) fun v => .bind htrans ih fun _ => hpure _
  | case4 cs as ih =>
    exact .bind htrans ih fun _ => hpure _
  | case5 c cs as h1 h2 h3 ih =>
    rw [format]
    · exact .bind htrans ih fun _ => hpure _
    all_goals assumption

namespace Isolates

variable (h : Isolates r) (env : Env)

/-- Statements are run one after the other. -/
theorem seq {m : Ev α} {β : Type} {f : α → Ev β} (hm : Comp.Keeps (Isolated env.own) m)
    (hf : ∀ a, Comp.Keeps (Isolated env.own) (f a)) : Comp.Keeps (Isolated env.own) (m >>= f) :=
  .bind (fun _ _ _ => .trans) hm hf

theorem seqExpr {m : Ev α} {β : Type} {f : α → Ev β} (hm : Comp.Keeps (Restored env.own) m)
    (hf : ∀ a, Comp.Keeps (Restored env.own) (f a)) : Comp.Keeps (Restored env.own) (m >>= f) :=
  .bind (fun _ _ _ => .trans) hm hf

theorem done (a : α) : Comp.Keeps (Isolated env.own) (pure a : Ev α) := .pure (.refl env.own) a

theorem value (a : α) : Comp.Keeps (Restored env.own) (pure a : Ev α) := .pure (.refl env.own) a

theorem unlessReturned {m : Ev Unit} (hm : Comp.Keeps (Isolated env.own) m) :
    Comp.Keeps (Isolated env.own) (do if (← Comp.get).returned then pure () else m) := by
  refine .get_bind fun s => ?_
  split
  · exact done env ()
  · exact hm

include h

theorem exprIsolated (e : Expr) : Comp.Keeps (Isolated env.own) (r.evalExpr e env) :=
  (h.expr e env).mono fun _ _ => Restored.toIsolated

theorem execStmt (node : Stmt) : Comp.Keeps (Isolated env.own) (r.execStmt node env) :=
  unlessReturned env (h.stmt node env)

theorem execOpt (node : Option Stmt) : Comp.Keeps (Isolated env.own) (r.execOpt node env) := by
  cases node with
  | none => exact done env ()
  | some node => exact h.execStmt env node

theorem execBlock (ss : List Stmt) : Comp.Keeps (Isolated env.own) (r.execBlock env ss) := by
  induction ss with
  | nil => exact done env ()
  | cons child rest ih => exact unlessReturned env (seq env (h.execStmt env child) fun _ => ih)

theorem evalInit (init : Option Expr) : Comp.Keeps (Restored env.own) (r.evalInit init env) := by
  cases init with
  | none => exact value env 0
  | some e => exact h.expr e env

theorem loop' (cond : Expr) (body : Stmt) (step : Option Stmt) :
    Comp.Keeps (Isolated env.own) (r.loop' cond body step env) := by
  refine seq env (h.exprIsolated env cond) fun c => ?_
  split
  · exact done env ()
  · refine seq env (h.execStmt env body) fun _ => seq env (h.execOpt env step) fun _ => ?_
    exact unlessReturned env (h.loop cond body step env)

theorem stmt' (node : Stmt) : Comp.Keeps (Isolated env.own) (r.stmt' node env) := by
  cases node with
  | block ss => exact h.execBlock env ss
  | varDecl x init =>
    refine seq env ((h.evalInit env init).mono fun _ _ => Restored.toIsolated) fun v => ?_
    exact .modify fun s => (restored_setEnv env s _).toIsolated
  | expr e => exact seq env (h.exprIsolated env e) fun _ => done env ()
  | ite cond thn els =>
    refine seq env (h.exprIsolated env cond) fun c => ?_
    split
    · exact h.execStmt env thn
    · exact h.execOpt env els
  | «while» cond body => exact h.loop cond body none env
  | «for» init cond step body =>
    exact seq env (h.execStmt env init) fun _ => unlessReturned env (h.loop cond body (some step) env)
  | ret e =>
    cases e with
    | none => exact .modify fun s => ⟨le_rfl,fun _ _ _ => rfl,rfl⟩
    | some e =>
      exact seq env (h.exprIsolated env e) fun _ => .modify fun s => ⟨le_rfl,fun _ _ _ => rfl,rfl⟩

theorem execPrintln (fmt : List Char) (args : List Expr) :
    Comp.Keeps (Restored env.own) (r.execPrintln fmt args env) :=
  seqExpr env (keeps_format (fun e => h.expr e env) fmt args) fun _ => keeps_print env _

theorem bindParam (k : ℕ) (p : String) (a : Expr) :
    Comp.Keeps (Restored (insert k env.own)) (r.bindParam env k p a) := by
  have hk : k ∈ insert k env.own := Set.mem_insert ..
  refine .get_bind fun s => ?_
  split
  · exact .modify fun s => restored_local hk s _
  · refine .bind (fun _ _ _ => .trans) ((h.expr a env).mono fun _ _ hm => ?_) fun v => ?_
    · exact hm.mono (Set.subset_insert ..)
    · exact .modify fun s => restored_local hk s _

theorem bindParams (k : ℕ) (ps : List String) (as : List Expr) :
    Comp.Keeps (Restored (insert k env.own)) (r.bindParams env k ps as) := by
  induction ps generalizing as with
  | nil => cases as <;> exact .pure (.refl _) ()
  | cons p ps ih =>
    cases as with
    | nil => exact .pure (.refl _) ()
    | cons a as => exact .bind (fun _ _ _ => .trans) (h.bindParam env k p a) fun _ => ih as

/-- A call puts back the flags, and leaves the other calls alone. -/
theorem callFunc (fn : FuncDef) (args : List Expr) :
    Comp.Keeps (Restored env.own) (r.callFunc fn args env) := by
  intro s v s' hcall
  change (if maxCallDepth ≤ s.callDepth then fail depthExceeded else _ : Ev Int64) s = _ at hcall
  split at hcall
  · cases hcall
  obtain ⟨_,s₁,hparams,hrest⟩ := Comp.bind_eq_ok
    (show (r.bindParams env s.nLocals fn.params args >>= _) (Methods.enter s) = _ from hcall)
  obtain ⟨_,s₂,hbody,hend⟩ := Comp.bind_eq_ok (show (r.execBlock (.local s.nLocals) fn.body >>= _)
    { s₁ with returned := false, retVal := 0 } = _ from hrest)
  cases hend
  have hargs := h.bindParams env s.nLocals fn.params args _ _ _ hparams
  have hin := h.execBlock (.local s.nLocals) fn.body _ _ _ hbody
  have hnew : s.nLocals+1 ≤ s₁.nLocals := hargs.nLocals
  refine ⟨⟨?_,fun j hj hown => ?_,?_⟩,hargs.returned,hargs.retVal⟩
  · exact (Nat.le_succ _).trans (hnew.trans hin.nLocals)
  · -- neither the callee's environment nor the caller's
    have hjk : j ≠ s.nLocals := Nat.ne_of_lt hj
    have hcallee : j ∉ (Env.local s.nLocals).own := fun hmem => hjk (Env.local.inj hmem).symm
    have hboth : j ∉ insert s.nLocals env.own := by
      exact not_or.mpr ⟨hjk,hown⟩
    calc
      s₂.locals j = s₁.locals j := hin.locals j (hj.trans_le (Nat.le_of_succ_le hnew)) hcallee
      _ = (Methods.enter s).locals j := hargs.locals j (Nat.lt_succ_of_lt hj) hboth
      _ = s.locals j := Function.update_of_ne hjk ..
  · change s₂.callDepth-1 = s.callDepth
    rw [hin.callDepth]
    rw [hargs.callDepth]
    exact Nat.add_sub_cancel ..

theorem evalExpr' (node : Expr) : Comp.Keeps (Restored env.own) (r.evalExpr' node env) := by
  cases node with
  | num v => exact value env v
  | str cs => exact keeps_fail _ _
  | var x =>
    refine .get_bind fun s => ?_
    cases s.lookupVar env x with
    | none => exact keeps_fail _ _
    | some v => exact value env v
  | neg e => exact seqExpr env (h.expr e env) fun _ => value env _
  | bin op left right =>
    refine seqExpr env (h.expr left env) fun v => seqExpr env (h.expr right env) fun w => ?_
    cases evalBinOp op v w with
    | error msg => exact keeps_fail _ _
    | ok u => exact value env u
  | assign x e =>
    refine seqExpr env (h.expr e env) fun v => seqExpr env ?_ fun _ => value env v
    exact .modify fun s => restored_setVar env s x v
  | assignIndex a i e =>
    refine seqExpr env (h.expr e env) fun v => seqExpr env (h.expr i env) fun w => ?_
    refine .get_bind fun s => ?_
    cases s.lookupArray env a with
    | none => exact keeps_fail _ _
    | some arr =>
      dsimp only
      cases element (s.heap arr) w with
      | none => exact keeps_fail _ _
      | some n =>
        refine seqExpr env (.modify fun s => ?_) fun _ => value env v
        exact ⟨⟨le_rfl,fun _ _ _ => rfl,rfl⟩,rfl,rfl⟩
  | index a i =>
    refine .get_bind fun s => ?_
    cases s.lookupArray env a with
    | none => exact keeps_fail _ _
    | some arr =>
      refine seqExpr env (h.expr i env) fun w => .get_bind fun s => ?_
      cases element (s.heap arr) w with
      | none => exact keeps_fail _ _
      | some n => exact value env _
  | call f args =>
    refine .get_bind fun s => ?_
    cases s.funcs f with
    | none => exact keeps_fail _ _
    | some fn => exact h.callFunc env fn args
  | println fmt args => exact seqExpr env (h.execPrintln env fmt args) fun _ => value env 0

end Isolates

end Layer

theorem isolates_within (fuel : ℕ) : Isolates (Methods.within fuel) := by
  induction fuel with
  | zero =>
    have htimeout : ∀ {α : Type} (K : Evaluator → Evaluator → Prop),
        Comp.Keeps K (Comp.stop .timeout : Ev α) := by
      intro α K s a s' hm
      cases hm
    exact ⟨fun _ _ => htimeout _,fun _ _ => htimeout _,fun _ _ _ _ => htimeout _⟩
  | succ fuel ih => exact ⟨fun e env => ih.evalExpr' env e,fun node env => ih.stmt' env node,
      fun cond body step env => ih.loop' env cond body step⟩

end Gooos.Tinyc
