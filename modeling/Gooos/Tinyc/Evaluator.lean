import Gooos.Lib.Comp

/-!
# The Tiny C interpreter

`user/cmd/tinyc/eval.go`: a tree walk with one pair of flags, `returned` and `retVal`, for all
active calls. The recursion is open: every method takes the methods it calls, and `Methods.within`
ties the knot for a number of nested calls and loop rounds.
-/

namespace Gooos.Tinyc

open Function

/-! ### Syntax trees -/

inductive BinOp where
  | plus | minus | star | slash | percent | lt | gt | le | ge | eqEq | neq

/-- The expressions that the parser builds. -/
inductive Expr where
  | num (v : Int64)
  | str (s : List Char)
  | var (x : String)
  | neg (e : Expr)
  | bin (op : BinOp) (l r : Expr)
  | assign (x : String) (e : Expr)
  | assignIndex (a : String) (i e : Expr)
  | index (a : String) (i : Expr)
  | call (f : String) (args : List Expr)
  | println (fmt : List Char) (args : List Expr)

inductive Stmt where
  | block (ss : List Stmt)
  | varDecl (x : String) (init : Option Expr)
  | expr (e : Expr)
  | ite (cond : Expr) (thn : Stmt) (els : Option Stmt)
  | while (cond : Expr) (body : Stmt)
  | for (init : Stmt) (cond : Expr) (step body : Stmt)
  | ret (e : Option Expr)

structure FuncDef where
  params : List String
  body : List Stmt

inductive Def where
  | var (x : String) (init : Option Expr)
  | array (x : String) (size : Expr)
  | func (name : String) (fn : FuncDef)

/-! ### State -/

/-- Scalars, and arrays as addresses. -/
structure Scope where
  vars : String → Option Int64
  arrays : String → Option ℕ

def Scope.empty : Scope := ⟨fun _ => none,fun _ => none⟩

def Scope.setVar (e : Scope) (x : String) (v : Int64) : Scope :=
  { e with vars := update e.vars x (some v) }

def Scope.setArray (e : Scope) (x : String) (r : ℕ) : Scope :=
  { e with arrays := update e.arrays x (some r) }

/-- An `*Env`. The parent of every local one is `ev.globals`, which has none. -/
inductive Env where
  | globals
  | «local» (k : ℕ)
deriving DecidableEq

/-- Why a run stops early. -/
inductive Stop where
  /-- `gooos.Exit(1)` -/
  | exit
  /-- the bound on nested calls and rounds is used up -/
  | timeout
  /-- a name stands for something else than the scoping rules say -/
  | clash
deriving DecidableEq

structure Evaluator where
  globals : Scope
  locals : ℕ → Scope
  nLocals : ℕ
  heap : ℕ → List Int64
  nArrays : ℕ
  funcs : String → Option FuncDef
  callDepth : ℕ
  returned : Bool
  retVal : Int64
  out : List Char

def newEvaluator : Evaluator :=
  ⟨.empty,fun _ => .empty,0,fun _ => [],0,fun _ => none,0,false,0,[]⟩

namespace Evaluator

def env (s : Evaluator) : Env → Scope
  | .globals => s.globals
  | .local k => s.locals k

def setEnv (s : Evaluator) (e : Scope) : Env → Evaluator
  | .globals => { s with globals := e }
  | .local k => { s with locals := update s.locals k e }

def lookupVar (s : Evaluator) (env : Env) (x : String) : Option Int64 :=
  match (s.env env).vars x with
  | some v => some v
  | none =>
    match env with
    | .globals => none
    | .local _ => s.globals.vars x

def setVar (s : Evaluator) (env : Env) (x : String) (v : Int64) : Evaluator :=
  match (s.env env).vars x with
  | some _ => s.setEnv ((s.env env).setVar x v) env
  | none =>
    match env, s.globals.vars x with
    | .local _, some _ => s.setEnv (s.globals.setVar x v) .globals
    | _, _ => s.setEnv ((s.env env).setVar x v) env

def lookupArray (s : Evaluator) (env : Env) (x : String) : Option ℕ :=
  match (s.env env).arrays x with
  | some r => some r
  | none =>
    match env with
    | .globals => none
    | .local _ => s.globals.arrays x

end Evaluator

abbrev Ev := Comp Stop Evaluator

def maxCallDepth : ℕ := 256

/-- `gooos.Print` -/
def print (cs : List Char) : Ev Unit := Comp.modify fun s => { s with out := s.out++cs }

/-- A message on a line of its own, and `gooos.Exit(1)`. -/
def fail {α : Type} (msg : String) : Ev α := do
  print (msg.toList++['\n'])
  Comp.stop .exit

def undefinedVar (x : String) : String := "tinyc: error: undefined variable '"++x++"'"
def undefinedArray (x : String) : String := "tinyc: error: undefined array '"++x++"'"
def undefinedFunc (x : String) : String := "tinyc: error: undefined function '"++x++"'"
def outOfBounds (x : String) : String := "tinyc: error: index out of bounds for '"++x++"'"
def invalidSize (x : String) : String := "tinyc: error: invalid array size for '"++x++"'"
def depthExceeded : String := "tinyc: error: call depth exceeded (max 256)"
def unexpectedExpr : String := "tinyc: error: unexpected expression kind"
def noMain : String := "tinyc: error: no main() function"

def boolToInt (b : Bool) : Int64 := if b then 1 else 0

def evalBinOp (op : BinOp) (left right : Int64) : Except String Int64 :=
  match op with
  | .plus => .ok (left+right)
  | .minus => .ok (left-right)
  | .star => .ok (left*right)
  | .slash =>
    if right = 0 then .error "tinyc: error: division by zero" else .ok (left/right)
  | .percent =>
    if right = 0 then .error "tinyc: error: modulo by zero" else .ok (left%right)
  | .lt => .ok (boolToInt (left < right))
  | .gt => .ok (boolToInt (right < left))
  | .le => .ok (boolToInt (left ≤ right))
  | .ge => .ok (boolToInt (right ≤ left))
  | .eqEq => .ok (boolToInt (left = right))
  | .neq => .ok (boolToInt (left ≠ right))

/-- The index of an element, if it is one. -/
def element (arr : List Int64) (idx : Int64) : Option ℕ :=
  if 0 ≤ idx ∧ idx.toInt < arr.length then some idx.toInt.toNat else none

/-- The loop of `execPrintln`: the text for a format, with the arguments that it still has. -/
def format {m : Type → Type} [Monad m] (eval : Expr → m Int64) :
    List Char → List Expr → m (List Char)
  | [], _ => pure []
  | '%' :: 'd' :: cs, [] => format eval cs []
  | '%' :: 'd' :: cs, a::as => do
    let v ← eval a
    let rest ← format eval cs as
    pure ((toString v.toInt).toList++rest)
  | '\\' :: 'n' :: cs, as => do
    let rest ← format eval cs as
    pure ('\n'::rest)
  | c::cs, as => do
    let rest ← format eval cs as
    pure (c::rest)

/-! ### The methods -/

/-- The methods that call each other; `stmt` is `execStmt` behind its test of `returned`, and `loop`
is the rest of a `while` or `for` that goes round once more. -/
structure Methods where
  evalExpr : Expr → Env → Ev Int64
  stmt : Stmt → Env → Ev Unit
  loop : Expr → Stmt → Option Stmt → Env → Ev Unit

namespace Methods

variable (self : Methods)

def execStmt (node : Stmt) (env : Env) : Ev Unit := do
  if (← Comp.get).returned then pure () else self.stmt node env

def execBlock (env : Env) : List Stmt → Ev Unit
  | [] => pure ()
  | child::rest => do
    if (← Comp.get).returned then
      pure ()
    else
      self.execStmt child env
      execBlock env rest

/-- The array that a plain name stands for in an argument. -/
def argArray (s : Evaluator) (callerEnv : Env) : Expr → Option ℕ
  | .var x => s.lookupArray callerEnv x
  | _ => none

/-- A parameter of the call whose environment is `k`. -/
def bindParam (callerEnv : Env) (k : ℕ) (pname : String) (arg : Expr) : Ev Unit := do
  match argArray (← Comp.get) callerEnv arg with
  | some arr => Comp.modify fun s => s.setEnv ((s.locals k).setArray pname arr) (.local k)
  | none =>
    let argVal ← self.evalExpr arg callerEnv
    Comp.modify fun s => s.setEnv ((s.locals k).setVar pname argVal) (.local k)

/-- A parameter without an argument is not bound. -/
def bindParams (callerEnv : Env) (k : ℕ) : List String → List Expr → Ev Unit
  | p::ps, a::as => do
    self.bindParam callerEnv k p a
    bindParams callerEnv k ps as
  | _, _ => pure ()

/-- A new environment, and the depth counted up. -/
def enter (s : Evaluator) : Evaluator :=
  { s with
    callDepth := s.callDepth+1
    locals := update s.locals s.nLocals .empty
    nLocals := s.nLocals+1 }

def callFunc (fn : FuncDef) (args : List Expr) (callerEnv : Env) : Ev Int64 := do
  let s ← Comp.get
  if maxCallDepth ≤ s.callDepth then
    fail depthExceeded
  else
    Comp.modify enter
    self.bindParams callerEnv s.nLocals fn.params args
    let old ← Comp.get
    Comp.modify fun s => { s with returned := false, retVal := 0 }
    self.execBlock (.local s.nLocals) fn.body
    let result := (← Comp.get).retVal
    Comp.modify fun s =>
      { s with returned := old.returned, retVal := old.retVal, callDepth := s.callDepth-1 }
    pure result

def execPrintln (fmt : List Char) (args : List Expr) (env : Env) : Ev Unit := do
  let result ← format (fun e => self.evalExpr e env) fmt args
  print (result++['\n'])

/-- The initial value of a declaration. -/
def evalInit (init : Option Expr) (env : Env) : Ev Int64 :=
  match init with
  | none => pure 0
  | some e => self.evalExpr e env

/-- The `else` of an `if`, or the step of a loop: a `while` has none. -/
def execOpt (node : Option Stmt) (env : Env) : Ev Unit :=
  match node with
  | none => pure ()
  | some node => self.execStmt node env

def evalExpr' (node : Expr) (env : Env) : Ev Int64 :=
  match node with
  | .num v => pure v
  | .var x => do
    match (← Comp.get).lookupVar env x with
    | none => fail (undefinedVar x)
    | some v => pure v
  | .neg e => do
    let v ← self.evalExpr e env
    pure (-v)
  | .bin op l r => do
    let left ← self.evalExpr l env
    let right ← self.evalExpr r env
    match evalBinOp op left right with
    | .error msg => fail msg
    | .ok v => pure v
  | .assign x e => do
    let val ← self.evalExpr e env
    Comp.modify fun s => s.setVar env x val
    pure val
  | .assignIndex a i e => do
    let val ← self.evalExpr e env
    let idx ← self.evalExpr i env
    let s ← Comp.get
    match s.lookupArray env a with
    | none => fail (undefinedArray a)
    | some r =>
      match element (s.heap r) idx with
      | none => fail (outOfBounds a)
      | some n =>
        Comp.modify fun s => { s with heap := update s.heap r ((s.heap r).set n val) }
        pure val
  | .index a i => do
    match (← Comp.get).lookupArray env a with
    | none => fail (undefinedArray a)
    | some r =>
      let idx ← self.evalExpr i env
      let s ← Comp.get
      match element (s.heap r) idx with
      | none => fail (outOfBounds a)
      | some n => pure ((s.heap r).getD n 0)
  | .call f args => do
    match (← Comp.get).funcs f with
    | none => fail (undefinedFunc f)
    | some fn => self.callFunc fn args env
  | .println fmt args => do
    self.execPrintln fmt args env
    pure 0
  | .str _ => fail unexpectedExpr

def stmt' (node : Stmt) (env : Env) : Ev Unit :=
  match node with
  | .block ss => self.execBlock env ss
  | .varDecl x init => do
    let val ← self.evalInit init env
    Comp.modify fun s => s.setEnv ((s.env env).setVar x val) env
  | .expr e => do
    let _ ← self.evalExpr e env
    pure ()
  | .ite cond thn els => do
    let c ← self.evalExpr cond env
    if c ≠ 0 then self.execStmt thn env else self.execOpt els env
  | .while cond body => self.loop cond body none env
  | .for init cond step body => do
    self.execStmt init env
    if (← Comp.get).returned then pure () else self.loop cond body (some step) env
  | .ret none => Comp.modify fun s => { s with returned := true }
  | .ret (some e) => do
    let v ← self.evalExpr e env
    Comp.modify fun s => { s with retVal := v, returned := true }

/-- One round of a loop; `step` is that of a `for`. -/
def loop' (cond : Expr) (body : Stmt) (step : Option Stmt) (env : Env) : Ev Unit := do
  let c ← self.evalExpr cond env
  if c = 0 then
    pure ()
  else
    self.execStmt body env
    self.execOpt step env
    if (← Comp.get).returned then pure () else self.loop cond body step env

/-- The methods with at most `fuel` nested calls of them and rounds of loops. -/
def within : (fuel : ℕ) → Methods
  | 0 => ⟨fun _ _ => Comp.stop .timeout,fun _ _ => Comp.stop .timeout,
    fun _ _ _ _ => Comp.stop .timeout⟩
  | fuel+1 => ⟨(within fuel).evalExpr',(within fuel).stmt',(within fuel).loop'⟩

/-- The first pass of `Run`. -/
def register : List Def → Ev Unit
  | [] => pure ()
  | .var x init::ds => do
    let val ← self.evalInit init .globals
    Comp.modify fun s => { s with globals := s.globals.setVar x val }
    register ds
  | .array x size::ds => do
    let n ← self.evalExpr size .globals
    if n ≤ 0 ∨ 10000 < n then
      fail (invalidSize x)
    else
      Comp.modify fun s =>
        { s with
          globals := s.globals.setArray x s.nArrays
          heap := update s.heap s.nArrays (List.replicate n.toInt.toNat 0)
          nArrays := s.nArrays+1 }
      register ds
  | .func name fn::ds => do
    Comp.modify fun s => { s with funcs := update s.funcs name (some fn) }
    register ds

def run (prog : List Def) : Ev Unit := do
  self.register prog
  match (← Comp.get).funcs "main" with
  | none => fail noMain
  | some mainFn =>
    let _ ← self.callFunc mainFn [] .globals
    pure ()

end Methods

/-- How a run ended, if it did not end normally, and what was printed. -/
def outcome {σ : Type} (out : σ → List Char) : Res Stop σ Unit → Option Stop × List Char
  | .ok _ s => (none,out s)
  | .stop e s => (some e,out s)

/-- `Evaluator.Run` with a bound on nested calls and rounds. -/
def run (fuel : ℕ) (prog : List Def) : Option Stop × List Char :=
  outcome Evaluator.out ((Methods.within fuel).run prog newEvaluator)

end Gooos.Tinyc
