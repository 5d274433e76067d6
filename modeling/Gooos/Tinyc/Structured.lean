import Gooos.Tinyc.Evaluator

/-!
# Structured semantics of Tiny C

What a program means, without flags: a statement ends with `continue` or with `return v`, and a call
has a frame of its own that nobody else sees. The semantics is a function of a bound on nested
calls and rounds, so that it also says what a program prints that never ends. It is open in how
names are looked up: `codeScoping` is how the interpreter does it.
-/

namespace Gooos.Tinyc

open Function

/-- The variables of a call; `names` are its parameters and the locals that it has declared. -/
structure Frame where
  names : List String
  scope : Scope

/-- There is no frame while the globals are initialised. -/
structure Store where
  globals : Scope
  frame : Option Frame
  heap : ℕ → List Int64
  nArrays : ℕ
  funcs : String → Option FuncDef
  out : List Char

def newStore : Store := ⟨.empty,none,fun _ => [],0,fun _ => none,[]⟩

namespace Store

def localVar (t : Store) (x : String) : Option Int64 := t.frame.bind fun f => f.scope.vars x
def localArray (t : Store) (x : String) : Option ℕ := t.frame.bind fun f => f.scope.arrays x

def setGlobal (t : Store) (x : String) (v : Int64) : Store :=
  { t with globals := t.globals.setVar x v }

/-- In the frame, or in the globals if there is none. -/
def setLocal (t : Store) (x : String) (v : Int64) : Store :=
  match t.frame with
  | none => t.setGlobal x v
  | some f => { t with frame := some { f with scope := f.scope.setVar x v } }

/-- A declaration gives the call a name. -/
def declare (t : Store) (x : String) (v : Int64) : Store :=
  match t.frame with
  | none => t.setGlobal x v
  | some f => { t with frame := some ⟨x::f.names,f.scope.setVar x v⟩ }

def setElement (t : Store) (r n : ℕ) (v : Int64) : Store :=
  { t with heap := update t.heap r ((t.heap r).set n v) }

def newArray (t : Store) (x : String) (size : ℕ) : Store :=
  { t with
    globals := t.globals.setArray x t.nArrays
    heap := update t.heap t.nArrays (List.replicate size 0)
    nArrays := t.nArrays+1 }

end Store

/-! ### How names are looked up -/

inductive Look (α : Type) where
  | found (a : α)
  | missing
  | clash

def Look.ofOption {α : Type} : Option α → Look α
  | some a => .found a
  | none => .missing

/-- A variable that is read, an array that is indexed, an array that a plain name as argument
stands for, and an assignment. -/
structure Scoping where
  var : Store → String → Look Int64
  array : Store → String → Look ℕ
  arg : Store → String → Look ℕ
  setVar : Store → String → Int64 → Look Store

/-- The two chains of `Env`, one for scalars and one for arrays. -/
def codeScoping : Scoping where
  var t x := .ofOption ((t.localVar x).or (t.globals.vars x))
  array t a := .ofOption ((t.localArray a).or (t.globals.arrays a))
  arg t a := .ofOption ((t.localArray a).or (t.globals.arrays a))
  setVar t x v :=
    .found (if (t.localVar x).isNone ∧ (t.globals.vars x).isSome then t.setGlobal x v
      else t.setLocal x v)

/-! ### Meaning -/

abbrev Big := Comp Stop Store

inductive Flow where
  | continue
  | ret (v : Int64)

/-- What a call yields whose body ends so. -/
def Flow.value : Flow → Int64
  | .continue => 0
  | .ret v => v

namespace Big

def print (cs : List Char) : Big Unit := Comp.modify fun t => { t with out := t.out++cs }

def fail {α : Type} (msg : String) : Big α := do
  print (msg.toList++['\n'])
  Comp.stop .exit

/-- What was found, or `m`. -/
def look {α : Type} (l : Look α) (m : Big α) : Big α :=
  match l with
  | .found a => pure a
  | .missing => m
  | .clash => Comp.stop .clash

/-- `m'` unless `m` returns. -/
def andThen (m m' : Big Flow) : Big Flow := do
  match ← m with
  | .continue => m'
  | .ret v => pure (.ret v)

end Big

/-- The meaning of expressions, of statements and of the rounds of a loop, at a call depth. -/
structure Meaning where
  expr : ℕ → Expr → Big Int64
  stmt : ℕ → Stmt → Big Flow
  loop : ℕ → Expr → Stmt → Option Stmt → Big Flow

namespace Meaning

variable (S : Scoping) (self : Meaning)

def block (depth : ℕ) : List Stmt → Big Flow
  | [] => pure .continue
  | s::ss => (self.stmt depth s).andThen (block depth ss)

def argValue (depth : ℕ) (scope : Scope) (p : String) (a : Expr) : Big Scope := do
  let v ← self.expr depth a
  pure (scope.setVar p v)

def bindParam (depth : ℕ) (scope : Scope) (p : String) (a : Expr) : Big Scope :=
  match a with
  | .var x => do
    match S.arg (← Comp.get) x with
    | .found r => pure (scope.setArray p r)
    | .missing => self.argValue depth scope p a
    | .clash => Comp.stop .clash
  | _ => self.argValue depth scope p a

def bindParams (depth : ℕ) (scope : Scope) : List String → List Expr → Big Scope
  | p::ps, a::as => do
    let scope ← self.bindParam S depth scope p a
    bindParams depth scope ps as
  | _, _ => pure scope

def call (depth : ℕ) (fn : FuncDef) (args : List Expr) : Big Int64 :=
  if maxCallDepth ≤ depth then
    Big.fail depthExceeded
  else do
    let scope ← self.bindParams S (depth+1) .empty fn.params args
    let caller ← Comp.get
    Comp.modify fun t => { t with frame := some ⟨fn.params,scope⟩ }
    let r ← self.block (depth+1) fn.body
    Comp.modify fun t => { t with frame := caller.frame }
    pure r.value

def println (depth : ℕ) (fmt : List Char) (args : List Expr) : Big Unit := do
  let result ← format (self.expr depth) fmt args
  Big.print (result++['\n'])

def init (depth : ℕ) (init : Option Expr) : Big Int64 :=
  match init with
  | none => pure 0
  | some e => self.expr depth e

def opt (depth : ℕ) (node : Option Stmt) : Big Flow :=
  match node with
  | none => pure .continue
  | some node => self.stmt depth node

/-- The array that is indexed under a name. -/
def arrayOf (a : String) : Big ℕ := do
  Big.look (S.array (← Comp.get) a) (Big.fail (undefinedArray a))

def expr' (depth : ℕ) (node : Expr) : Big Int64 :=
  match node with
  | .num v => pure v
  | .var x => do Big.look (S.var (← Comp.get) x) (Big.fail (undefinedVar x))
  | .neg e => do
    let v ← self.expr depth e
    pure (-v)
  | .bin op l r => do
    let left ← self.expr depth l
    let right ← self.expr depth r
    match evalBinOp op left right with
    | .error msg => Big.fail msg
    | .ok v => pure v
  | .assign x e => do
    let val ← self.expr depth e
    match S.setVar (← Comp.get) x val with
    | .found t =>
      Comp.modify fun _ => t
      pure val
    | _ => Comp.stop .clash
  | .assignIndex a i e => do
    let val ← self.expr depth e
    let idx ← self.expr depth i
    let r ← arrayOf S a
    match element ((← Comp.get).heap r) idx with
    | none => Big.fail (outOfBounds a)
    | some n =>
      Comp.modify fun t => t.setElement r n val
      pure val
  | .index a i => do
    let r ← arrayOf S a
    let idx ← self.expr depth i
    let t ← Comp.get
    match element (t.heap r) idx with
    | none => Big.fail (outOfBounds a)
    | some n => pure ((t.heap r).getD n 0)
  | .call f args => do
    match (← Comp.get).funcs f with
    | none => Big.fail (undefinedFunc f)
    | some fn => self.call S depth fn args
  | .println fmt args => do
    self.println depth fmt args
    pure 0
  | .str _ => Big.fail unexpectedExpr

def stmt' (depth : ℕ) (node : Stmt) : Big Flow :=
  match node with
  | .block ss => self.block depth ss
  | .varDecl x init => do
    let val ← self.init depth init
    Comp.modify fun t => t.declare x val
    pure .continue
  | .expr e => do
    let _ ← self.expr depth e
    pure .continue
  | .ite cond thn els => do
    let c ← self.expr depth cond
    if c ≠ 0 then self.stmt depth thn else self.opt depth els
  | .while cond body => self.loop depth cond body none
  | .for init cond step body => (self.stmt depth init).andThen (self.loop depth cond body (some step))
  | .ret none => pure (.ret 0)
  | .ret (some e) => do
    let v ← self.expr depth e
    pure (.ret v)

def loop' (depth : ℕ) (cond : Expr) (body : Stmt) (step : Option Stmt) : Big Flow := do
  let c ← self.expr depth cond
  if c = 0 then
    pure .continue
  else
    (self.stmt depth body).andThen ((self.opt depth step).andThen (self.loop depth cond body step))

/-- The meaning with at most `fuel` nested calls and rounds. -/
def within : (fuel : ℕ) → Meaning
  | 0 => ⟨fun _ _ => Comp.stop .timeout,fun _ _ => Comp.stop .timeout,
    fun _ _ _ _ => Comp.stop .timeout⟩
  | fuel+1 => ⟨(within fuel).expr' S,(within fuel).stmt',(within fuel).loop'⟩

def register : List Def → Big Unit
  | [] => pure ()
  | .var x init::ds => do
    let val ← self.init 0 init
    Comp.modify fun t => t.setGlobal x val
    register ds
  | .array x size::ds => do
    let n ← self.expr 0 size
    if n ≤ 0 ∨ 10000 < n then
      Big.fail (invalidSize x)
    else
      Comp.modify fun t => t.newArray x n.toInt.toNat
      register ds
  | .func name fn::ds => do
    Comp.modify fun t => { t with funcs := update t.funcs name (some fn) }
    register ds

def program (prog : List Def) : Big Unit := do
  self.register prog
  match (← Comp.get).funcs "main" with
  | none => Big.fail noMain
  | some mainFn =>
    let _ ← self.call S 0 mainFn []
    pure ()

end Meaning

/-- What a program means: how it ends, and what it prints. -/
def meaning (S : Scoping) (fuel : ℕ) (prog : List Def) : Option Stop × List Char :=
  outcome Store.out ((Meaning.within S fuel).program S prog newStore)

/-- Related results have the same outcome, unless the second is one that is let pass. -/
theorem outcome_eq {σ τ : Type} {free : Stop → Prop} {out : σ → List Char} {out' : τ → List Char}
    {Q : Unit → σ → Unit → τ → Prop} {r : Res Stop σ Unit} {r' : Res Stop τ Unit}
    (h : Res.Rel free (fun s t => out s = out' t) Q r r')
    (hQ : ∀ a s b t, Q a s b t → out s = out' t)
    (hfree : ∀ e, free e → (outcome out' r').1 ≠ some e) : outcome out r = outcome out' r' := by
  cases h with
  | ok hq => exact congrArg (Prod.mk none) (hQ _ _ _ _ hq)
  | stop hx => exact congrArg (Prod.mk _) hx
  | free he => exact absurd rfl (hfree _ he)

/-- Formats whose arguments have related values give the same text. -/
theorem rel_format {σ τ : Type} {free : Stop → Prop} {X R : σ → τ → Prop}
    {eval : Expr → Comp Stop σ Int64} {eval' : Expr → Comp Stop τ Int64}
    (h : ∀ e, Comp.Rel free X R (fun v s v' t => v = v' ∧ R s t) (eval e) (eval' e))
    (fmt : List Char) (args : List Expr) :
    Comp.Rel free X R (fun cs s cs' t => cs = cs' ∧ R s t) (format eval fmt args)
      (format eval' fmt args) := by
  have hpure : ∀ (f : List Char → List Char) cs cs', Comp.Rel free X
      (fun s t => cs = cs' ∧ R s t) (fun cs s cs' t => cs = cs' ∧ R s t)
      (pure (f cs) : Comp Stop σ _) (pure (f cs') : Comp Stop τ _) :=
    fun f cs cs' => Comp.Rel.pure fun s t hm => ⟨congrArg f hm.1,hm.2⟩
  induction fmt, args using format.induct with
  | case1 args => exact Comp.Rel.pure fun s t hm => ⟨rfl,hm⟩
  | case2 cs ih => exact ih
  | case3 cs a as ih =>
    refine Comp.Rel.bind (h a) fun v v' s t hv => ?_
    obtain ⟨rfl,hm⟩ := hv
    exact Comp.Rel.bind ih (hpure _) s t hm
  | case4 cs as ih =>
    exact Comp.Rel.bind ih (hpure _)
  | case5 c cs as h1 h2 h3 ih =>
    rw [format,format]
    exact Comp.Rel.bind ih (hpure _)
    all_goals assumption

end Gooos.Tinyc
