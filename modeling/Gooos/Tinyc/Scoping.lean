import Gooos.Tinyc.Structured

/-!
# Scoping rules of Tiny C

A name of the call, a parameter or a local that it has declared, stands for what the call has under
it, and any other name for the global. The interpreter has one chain for scalars and one for
arrays, so a name of the call that has no scalar falls through to a global scalar, and one that has
no array to a global array. Up to the first such use it follows the rules.
-/

namespace Gooos.Tinyc

open Function
open Option (isSome none_or)

def Store.isName (t : Store) (x : String) : Bool :=
  match t.frame with
  | none => false
  | some f => x ∈ f.names

/-- What a name of the call stands for; a clash if the call has none and a global has. -/
def ownOnly {α : Type} (mine : Option α) (global : Bool) : Look α :=
  match mine with
  | some a => .found a
  | none => if global then .clash else .missing

/-- The rules. A variable that was neither declared nor is a global is made by the first assignment
to it. -/
def ruleScoping : Scoping where
  var t x :=
    if t.isName x then ownOnly (t.localVar x) (t.globals.vars x).isSome
    else .ofOption ((t.globals.vars x).or (t.localVar x))
  array t a :=
    if t.isName a then ownOnly (t.localArray a) (t.globals.arrays a).isSome
    else .ofOption (t.globals.arrays a)
  arg t a :=
    if t.isName a then ownOnly (t.localArray a) (t.globals.arrays a).isSome
    else .ofOption (t.globals.arrays a)
  setVar t x v :=
    if t.isName x then
      if (t.localVar x).isNone ∧ (t.globals.vars x).isSome then .clash else .found (t.setLocal x v)
    else if (t.globals.vars x).isSome then .found (t.setGlobal x v)
    else .found (t.setLocal x v)

/-! ### Frames -/

/-- The frame of a call in a program with the global scalars `D`: what it has beside its names hides
no global. -/
structure Frame.Fair (D : Set String) (f : Frame) : Prop where
  vars : ∀ x, x ∉ f.names → (f.scope.vars x).isSome → x ∉ D
  arrays : ∀ a, a ∉ f.names → f.scope.arrays a = none

/-- `D` are the global scalars while a call is active. -/
structure Fair (D : Set String) (active : Bool) (t : Store) : Prop where
  frame : t.frame.isSome = active
  fair : ∀ f, t.frame = some f → f.Fair D
  domain : active = true → ∀ x, (t.globals.vars x).isSome ↔ x ∈ D

variable {f : Frame} {p x : String} {params : List String} {scope : Scope} {fuel : ℕ}
  {prog : List Def}

section Ops

variable {D : Set String} {active : Bool} {t : Store}

theorem isName_iff (hf : t.frame = some f) (x : String) : t.isName x = true ↔ x ∈ f.names := by
  rw [Store.isName,hf]
  exact decide_eq_true_iff

/-- A name that is not the call's own: the call has no array of it, and not also a scalar of it that
is a global. -/
theorem Fair.notName (h : Fair D active t) (hx : t.isName x = false) :
    (t.localVar x = none ∨ t.globals.vars x = none) ∧ t.localArray x = none := by
  rw [Store.localVar,Store.localArray]
  cases hf : t.frame with
  | none => exact ⟨.inl rfl,rfl⟩
  | some f =>
    have hname : x ∉ f.names := by
      rw [← isName_iff hf,hx]
      exact Bool.false_ne_true
    have hfair := h.fair f hf
    refine ⟨?_,hfair.arrays x hname⟩
    cases hlocal : f.scope.vars x with
    | none => exact .inl hlocal
    | some v =>
      have hactive : active = true := h.frame ▸ congrArg isSome hf
      have hD := hfair.vars x hname (congrArg isSome hlocal)
      rw [← h.domain hactive,Bool.not_eq_true,Option.isSome_eq_false_iff,Option.isNone_iff_eq_none]
        at hD
      exact .inr hD

theorem ownOnly_eq {α : Type} (mine global : Option α) :
    ownOnly mine global.isSome = .clash ∨ ownOnly mine global.isSome = .ofOption (mine.or global) := by
  cases mine with
  | some a => exact .inr rfl
  | none =>
    cases global with
    | some b => exact .inl rfl
    | none => exact .inr rfl

theorem Fair.var_agrees (h : Fair D active t) (x : String) :
    ruleScoping.var t x = .clash ∨ ruleScoping.var t x = codeScoping.var t x := by
  change (if _ then _ else _) = _ ∨ (if _ then _ else _) = Look.ofOption _
  cases hx : t.isName x with
  | true => exact ownOnly_eq ..
  | false =>
    refine .inr (congrArg Look.ofOption ?_)
    obtain hnone | hnone := (h.notName hx).1
    · rw [hnone,Option.or_none,none_or]
    · rw [hnone,Option.or_none,none_or]

theorem Fair.array_agrees (h : Fair D active t) (x : String) :
    ruleScoping.array t x = .clash ∨ ruleScoping.array t x = codeScoping.array t x := by
  change (if _ then _ else _) = _ ∨ (if _ then _ else _) = Look.ofOption _
  cases hx : t.isName x with
  | true => exact ownOnly_eq ..
  | false =>
    refine .inr (congrArg Look.ofOption ?_)
    rw [(h.notName hx).2,none_or]

theorem Fair.setVar_agrees (h : Fair D active t) (x : String) (v : Int64) :
    ruleScoping.setVar t x v = .clash ∨ ruleScoping.setVar t x v = codeScoping.setVar t x v := by
  change (if _ then if _ then _ else _ else if _ then _ else _) = _ ∨
    (if _ then if _ then _ else _ else if _ then _ else _) = Look.found (if _ then _ else _)
  cases hx : t.isName x with
  | true =>
    by_cases hclash : (t.localVar x).isNone ∧ (t.globals.vars x).isSome
    · rw [if_pos hclash]
      exact .inl rfl
    · rw [if_neg hclash,if_neg hclash]
      exact .inr rfl
  | false =>
    refine .inr ?_
    cases hglobal : t.globals.vars x with
    | none => simp
    | some w =>
      have hlocal : t.localVar x = none := (h.notName hx).1.resolve_right (by simp [hglobal])
      simp [hlocal]

theorem Fair.setFrame (h : Fair D active t) {f f' : Frame} (hf : t.frame = some f)
    (hf' : f'.Fair D) : Fair D active { t with frame := some f' } := by
  refine ⟨?_,fun g hg => ?_,h.domain⟩
  · rw [← h.frame,hf]
    rfl
  · cases hg
    exact hf'

/-- A write to a global keeps the set of globals, if it was one or no call is active. -/
theorem Fair.setGlobal (h : Fair D active t)
    (hx : active = true → (t.globals.vars x).isSome) (v : Int64) :
    Fair D active (t.setGlobal x v) := by
  refine ⟨h.frame,h.fair,fun hactive y => ?_⟩
  rw [← h.domain hactive y]
  change (update t.globals.vars x (some v) y).isSome = true ↔ _
  by_cases hyx : y = x
  · subst hyx
    rw [update_self]
    exact iff_of_true rfl (hx hactive)
  · rw [update_of_ne hyx]

theorem Frame.Fair.setVar (hf : f.Fair D) (hx : x ∉ f.names → x ∉ D)
    (v : Int64) : Frame.Fair D { f with scope := f.scope.setVar x v } := by
  refine ⟨fun y hy hsome => ?_,hf.arrays⟩
  by_cases hyx : y = x
  · subst hyx
    exact hx hy
  · refine hf.vars y hy ?_
    rw [← hsome]
    exact congrArg isSome (update_of_ne hyx ..).symm

theorem Fair.setLocal (h : Fair D active t)
    (hx : t.isName x = false → t.globals.vars x = none) (v : Int64) :
    Fair D active (t.setLocal x v) := by
  rw [Store.setLocal]
  cases hf : t.frame with
  | none =>
    refine h.setGlobal (fun hactive => ?_) v
    rw [← h.frame,hf] at hactive
    cases hactive
  | some f =>
    have hactive : active = true := h.frame ▸ congrArg isSome hf
    refine h.setFrame hf ((h.fair f hf).setVar (fun hname hD => ?_) v)
    rw [← isName_iff hf,Bool.not_eq_true] at hname
    rw [← h.domain hactive,hx hname] at hD
    cases hD

theorem Fair.setVar (h : Fair D active t) {v : Int64} {t' : Store}
    (ht : codeScoping.setVar t x v = .found t') : Fair D active t' := by
  cases ht
  split
  next hglobal => exact h.setGlobal (fun _ => hglobal.2) v
  next hown =>
    refine h.setLocal (fun hx => ?_) v
    -- the call has no scalar of it, so no global has one
    obtain hlocal | hglobal := (h.notName hx).1
    · rw [hlocal] at hown
      cases hglobal : t.globals.vars x with
      | none => rfl
      | some w => exact absurd ⟨rfl,congrArg isSome hglobal⟩ hown
    · exact hglobal

theorem Fair.declare (h : Fair D active t) (x : String) (v : Int64) :
    Fair D active (t.declare x v) := by
  rw [Store.declare]
  cases hf : t.frame with
  | none =>
    refine h.setGlobal (fun hactive => ?_) v
    rw [← h.frame,hf] at hactive
    cases hactive
  | some f =>
    refine h.setFrame hf ⟨fun y hy hsome => ?_,fun a ha => ?_⟩
    · rw [List.mem_cons,not_or] at hy
      refine (h.fair f hf).vars y hy.2 ?_
      rw [← hsome]
      exact congrArg isSome (update_of_ne hy.1 ..).symm
    · exact (h.fair f hf).arrays a fun hmem => ha (List.mem_cons_of_mem _ hmem)

end Ops

/-! ### Two ways to look up names -/

/-- `S` does what `S'` does, or `S'` has found a clash and that is let pass. -/
structure Agrees (free : Stop → Prop) (S S' : Scoping) : Prop where
  var : ∀ {D active t}, Fair D active t → ∀ x,
    S'.var t x = .clash ∧ free .clash ∨ S'.var t x = S.var t x
  array : ∀ {D active t}, Fair D active t → ∀ x,
    S'.array t x = .clash ∧ free .clash ∨ S'.array t x = S.array t x
  arg : ∀ {D active t}, Fair D active t → ∀ x,
    S'.arg t x = .clash ∧ free .clash ∨ S'.arg t x = S.arg t x
  setVar : ∀ {D active t}, Fair D active t → ∀ x v,
    S'.setVar t x v = .clash ∧ free .clash ∨ S'.setVar t x v = S.setVar t x v
  fair : ∀ {D active t x v t'}, Fair D active t → S.setVar t x v = .found t' → Fair D active t'

theorem agrees_self (free : Stop → Prop) : Agrees free codeScoping codeScoping :=
  ⟨fun _ _ => .inr rfl,fun _ _ => .inr rfl,fun _ _ => .inr rfl,fun _ _ _ => .inr rfl,
    fun h ht => h.setVar ht⟩

theorem agrees_rule {free : Stop → Prop} (hfree : free .clash) :
    Agrees free codeScoping ruleScoping := by
  have hor : ∀ {α : Type} {l l' : Look α}, l = .clash ∨ l = l' → l = .clash ∧ free .clash ∨ l = l' :=
    fun h => h.imp_left fun hclash => ⟨hclash,hfree⟩
  exact ⟨fun h x => hor (h.var_agrees x),fun h x => hor (h.array_agrees x),
    fun h x => hor (h.array_agrees x),fun h x v => hor (h.setVar_agrees x v),
    fun h ht => h.setVar ht⟩

section Agreement

variable {α β : Type} {free : Stop → Prop} {D : Set String} {active : Bool}

/-- The two run in the same store. -/
def SameStore (D : Set String) (active : Bool) (t t' : Store) : Prop := t = t' ∧ Fair D active t

def SamePost (D : Set String) (active : Bool) (a : α) (t : Store) (a' : α) (t' : Store) : Prop :=
  a = a' ∧ SameStore D active t t'

/-- The two do the same, unless the second stops for a reason that is let pass. -/
def Same (free : Stop → Prop) (D : Set String) (active : Bool) (m m' : Big α) : Prop :=
  Comp.Rel free (fun t t' => t.out = t'.out) (SameStore D active) (SamePost D active) m m'

namespace Same

theorem pure (a : α) : Same free D active (pure a) (pure a) :=
  Comp.Rel.pure fun _ _ h => ⟨rfl,h⟩

theorem bind {m m' : Big α} {f f' : α → Big β} (hm : Same free D active m m')
    (hf : ∀ a, Same free D active (f a) (f' a)) : Same free D active (m >>= f) (m' >>= f') := by
  refine Comp.Rel.bind hm fun a a' t t' h => ?_
  obtain ⟨rfl,h⟩ := h
  exact hf a t t' h

/-- Both read the same fair store. -/
theorem get_bind {f f' : Store → Big α} (h : ∀ t, Fair D active t →
    Res.Rel free (fun t t' => t.out = t'.out) (SamePost D active) (f t t) (f' t t)) :
    Same free D active (Comp.get >>= f) (Comp.get >>= f') := by
  rintro t _ ⟨rfl,hfair⟩
  exact h t hfair

theorem fromFair {m m' : Big α} (h : Same free D active m m') {t : Store} (ht : Fair D active t) :
    Res.Rel free (fun t t' => t.out = t'.out) (SamePost D active) (m t) (m' t) :=
  h t t ⟨rfl,ht⟩

theorem modify {f : Store → Store} (hf : ∀ t, Fair D active t → Fair D active (f t)) :
    Same free D active (Comp.modify f) (Comp.modify f) := by
  rintro t _ ⟨rfl,hfair⟩
  exact .ok ⟨rfl,rfl,hf t hfair⟩

theorem print (cs : List Char) : Same free D active (Big.print cs) (Big.print cs) :=
  modify fun _ h => ⟨h.frame,h.fair,h.domain⟩

theorem fail (msg : String) : Same free D active (Big.fail msg : Big α) (Big.fail msg) := by
  refine bind (print _) fun _ => ?_
  rintro t _ ⟨rfl,-⟩
  exact .stop rfl

theorem andThen {m m' b b' : Big Flow} (hm : Same free D active m m')
    (hb : Same free D active b b') : Same free D active (m.andThen b) (m'.andThen b') := by
  refine bind hm fun fl => ?_
  cases fl with
  | «continue» => exact hb
  | ret v => exact pure _

/-- What the two find is the same, or a clash that is let pass. -/
theorem look {S S' : Store → Look α} {msg : String}
    (h : ∀ t, Fair D active t → S' t = .clash ∧ free .clash ∨ S' t = S t) :
    Same free D active (do Big.look (S (← Comp.get)) (Big.fail msg))
      (do Big.look (S' (← Comp.get)) (Big.fail msg)) := by
  refine get_bind fun t ht => ?_
  obtain ⟨hclash,hfree⟩ | hsame := h t ht
  · rw [hclash]
    exact .free hfree
  · rw [hsame]
    cases S t with
    | found a => exact (pure a).fromFair ht
    | missing => exact (fail msg).fromFair ht
    | clash => exact .stop rfl

end Same

structure SameMeaning (free : Stop → Prop) (r r' : Meaning) : Prop where
  expr : ∀ D active depth e, Same free D active (r.expr depth e) (r'.expr depth e)
  stmt : ∀ D active depth node, Same free D active (r.stmt depth node) (r'.stmt depth node)
  loop : ∀ D active depth cond body step, Same free D active (r.loop depth cond body step)
    (r'.loop depth cond body step)

namespace SameMeaning

variable {r r' : Meaning} {S S' : Scoping} (h : SameMeaning free r r') (hS : Agrees free S S')
  (depth : ℕ)

include h

theorem block (ss : List Stmt) : Same free D active (r.block depth ss) (r'.block depth ss) := by
  induction ss with
  | nil => exact Same.pure _
  | cons s ss ih => exact Same.andThen (h.stmt D active depth s) ih

theorem opt (node : Option Stmt) :
    Same free D active (r.opt depth node) (r'.opt depth node) := by
  cases node with
  | none => exact Same.pure _
  | some node => exact h.stmt D active depth node

theorem init (e : Option Expr) : Same free D active (r.init depth e) (r'.init depth e) := by
  cases e with
  | none => exact Same.pure _
  | some e => exact h.expr D active depth e

theorem println (fmt : List Char) (args : List Expr) :
    Same free D active (r.println depth fmt args) (r'.println depth fmt args) := by
  refine Same.bind ?_ fun cs => Same.print _
  exact rel_format (fun e => h.expr D active depth e) fmt args

theorem loop' (cond : Expr) (body : Stmt) (step : Option Stmt) :
    Same free D active (r.loop' depth cond body step) (r'.loop' depth cond body step) := by
  refine Same.bind (h.expr D active depth cond) fun c => ?_
  split
  · exact Same.pure _
  · refine Same.andThen (h.stmt D active depth body) ?_
    exact Same.andThen (h.opt depth step) (h.loop D active depth cond body step)

theorem stmt' (node : Stmt) : Same free D active (r.stmt' depth node) (r'.stmt' depth node) := by
  cases node with
  | block ss => exact h.block depth ss
  | varDecl x init =>
    refine Same.bind (h.init depth init) fun v => ?_
    exact Same.bind (Same.modify fun t ht => ht.declare x v) fun _ => Same.pure _
  | expr e => exact Same.bind (h.expr D active depth e) fun _ => Same.pure _
  | ite cond thn els =>
    refine Same.bind (h.expr D active depth cond) fun c => ?_
    split
    · exact h.stmt D active depth thn
    · exact h.opt depth els
  | «while» cond body => exact h.loop D active depth cond body none
  | «for» init cond step body =>
    exact Same.andThen (h.stmt D active depth init) (h.loop D active depth cond body (some step))
  | ret e =>
    cases e with
    | none => exact Same.pure _
    | some e => exact Same.bind (h.expr D active depth e) fun v => Same.pure _

/-- The scope of a call that is set up has parameters only. -/
def ScopeWithin (params : List String) (scope : Scope) : Prop :=
  ∀ x, x ∉ params → scope.vars x = none ∧ scope.arrays x = none

omit h in
theorem ScopeWithin.setVar (hs : ScopeWithin params scope)
    (hp : p ∈ params) (v : Int64) : ScopeWithin params (scope.setVar p v) := by
  intro x hx
  have hxp : x ≠ p := fun hxp => hx (hxp ▸ hp)
  exact ⟨(update_of_ne hxp ..).trans (hs x hx).1,(hs x hx).2⟩

omit h in
theorem ScopeWithin.setArray (hs : ScopeWithin params scope) (hp : p ∈ params) (arr : ℕ) :
    ScopeWithin params (scope.setArray p arr) := by
  intro x hx
  have hxp : x ≠ p := fun hxp => hx (hxp ▸ hp)
  exact ⟨(hs x hx).1,(update_of_ne hxp ..).trans (hs x hx).2⟩

/-- The same scope of parameters. -/
def ScopePost (D : Set String) (active : Bool) (params : List String) (scope : Scope) (t : Store)
    (scope' : Scope) (t' : Store) : Prop :=
  (scope = scope' ∧ SameStore D active t t') ∧ ScopeWithin params scope

theorem argValue (hs : ScopeWithin params scope) (hp : p ∈ params) (a : Expr) :
    Comp.Rel free (fun t t' => t.out = t'.out) (SameStore D active) (ScopePost D active params)
      (r.argValue depth scope p a) (r'.argValue depth scope p a) := by
  refine Comp.Rel.bind (h.expr D active depth a) fun v v' t t' hv => ?_
  obtain ⟨rfl,ht⟩ := hv
  exact .ok ⟨⟨rfl,ht⟩,hs.setVar hp v⟩

include hS

theorem bindParam (hs : ScopeWithin params scope) (hp : p ∈ params) (a : Expr) :
    Comp.Rel free (fun t t' => t.out = t'.out) (SameStore D active) (ScopePost D active params)
      (r.bindParam S depth scope p a) (r'.bindParam S' depth scope p a) := by
  have hvalue : Comp.Rel free _ (SameStore D active) (ScopePost D active params) _ _ :=
    h.argValue depth hs hp a
  cases a with
  | var x =>
    rintro t _ ⟨rfl,ht⟩
    simp only [Meaning.bindParam,Comp.get_bind]
    obtain ⟨hclash,hfree⟩ | hsame := hS.arg ht x
    · rw [hclash]
      exact .free hfree
    · rw [hsame]
      cases S.arg t x with
      | found arr => exact .ok ⟨⟨rfl,rfl,ht⟩,hs.setArray hp arr⟩
      | missing => exact hvalue t t ⟨rfl,ht⟩
      | clash => exact .stop rfl
  | _ => exact hvalue

theorem bindParams (ps : List String) (hps : ∀ p ∈ ps, p ∈ params)
    (as : List Expr) (hs : ScopeWithin params scope) :
    Comp.Rel free (fun t t' => t.out = t'.out) (SameStore D active) (ScopePost D active params)
      (r.bindParams S depth scope ps as) (r'.bindParams S' depth scope ps as) := by
  have hdone : ∀ {scope}, ScopeWithin params scope → Comp.Rel free (fun t t' => t.out = t'.out)
      (SameStore D active) (ScopePost D active params) (pure scope : Big Scope) (pure scope) :=
    fun hs => Comp.Rel.pure fun _ _ ht => ⟨⟨rfl,ht⟩,hs⟩
  induction ps generalizing as scope with
  | nil => cases as <;> exact hdone hs
  | cons p ps ih =>
    cases as with
    | nil => exact hdone hs
    | cons a as =>
      have hp := hps p (List.mem_cons_self ..)
      refine Comp.Rel.bind (h.bindParam hS depth hs hp a) fun sc sc' t t' hsc => ?_
      obtain ⟨⟨rfl,ht⟩,hs'⟩ := hsc
      exact ih (fun q hq => hps q (List.mem_cons_of_mem _ hq)) as hs' t t' ht

theorem call (fn : FuncDef) (args : List Expr) :
    Same free D active (r.call S depth fn args) (r'.call S' depth fn args) := by
  rw [Meaning.call,Meaning.call]
  split
  · exact Same.fail _
  have hempty : ScopeWithin fn.params .empty := fun _ _ => ⟨rfl,rfl⟩
  refine Comp.Rel.bind (h.bindParams hS (depth+1) fn.params (fun _ hp => hp) args hempty)
    fun scope _ t _ hargs => ?_
  obtain ⟨⟨rfl,rfl,ht⟩,hscope⟩ := hargs
  -- the globals do not change their names while the body runs
  obtain ⟨D',hD'⟩ : ∃ D' : Set String, ∀ x, (t.globals.vars x).isSome ↔ x ∈ D' :=
    ⟨{ x | (t.globals.vars x).isSome },fun _ => Iff.rfl⟩
  have hstart : Fair D' true { t with frame := some ⟨fn.params,scope⟩ } := by
    refine ⟨rfl,fun f hf => ?_,fun _ => hD'⟩
    cases hf
    refine ⟨fun x hx hsome => ?_,fun a ha => (hscope a ha).2⟩
    rw [(hscope x hx).1] at hsome
    cases hsome
  have hbody : Same free D' true _ _ := h.block (depth+1) fn.body
  refine (hbody.fromFair hstart).bind fun fl t₂ _ _ hend => ?_
  obtain ⟨rfl,rfl,hend⟩ := hend
  refine .ok ⟨rfl,rfl,ht.frame,ht.fair,fun hactive x => ?_⟩
  calc
    (t₂.globals.vars x).isSome ↔ x ∈ D' := hend.domain rfl x
    _ ↔ (t.globals.vars x).isSome := (hD' x).symm
    _ ↔ x ∈ D := ht.domain hactive x

theorem expr' (node : Expr) :
    Same free D active (r.expr' S depth node) (r'.expr' S' depth node) := by
  cases node with
  | num v => exact Same.pure v
  | str cs => exact Same.fail _
  | var x => exact Same.look fun t ht => hS.var ht x
  | neg e => exact Same.bind (h.expr D active depth e) fun _ => Same.pure _
  | bin op left right =>
    refine Same.bind (h.expr D active depth left) fun v => ?_
    refine Same.bind (h.expr D active depth right) fun w => ?_
    cases evalBinOp op v w with
    | error msg => exact Same.fail msg
    | ok u => exact Same.pure u
  | assign x e =>
    refine Same.bind (h.expr D active depth e) fun v => Same.get_bind fun t ht => ?_
    obtain ⟨hclash,hfree⟩ | hsame := hS.setVar ht x v
    · rw [hclash]
      exact .free hfree
    · rw [hsame]
      cases hset : S.setVar t x v with
      | found t' => exact .ok ⟨rfl,rfl,hS.fair ht hset⟩
      | missing | clash => exact .stop rfl
  | assignIndex a i e =>
    refine Same.bind (h.expr D active depth e) fun v => ?_
    refine Same.bind (h.expr D active depth i) fun w => ?_
    refine Same.bind (Same.look fun t ht => hS.array ht a) fun arr => ?_
    refine Same.get_bind fun t ht => ?_
    cases element (t.heap arr) w with
    | none => exact (Same.fail _).fromFair ht
    | some n => exact .ok ⟨rfl,rfl,ht.frame,ht.fair,ht.domain⟩
  | index a i =>
    refine Same.bind (Same.look fun t ht => hS.array ht a) fun arr => ?_
    refine Same.bind (h.expr D active depth i) fun w => Same.get_bind fun t ht => ?_
    cases element (t.heap arr) w with
    | none => exact (Same.fail _).fromFair ht
    | some n => exact (Same.pure _).fromFair ht
  | call f args =>
    refine Same.get_bind fun t ht => ?_
    cases t.funcs f with
    | none => exact (Same.fail _).fromFair ht
    | some fn => exact (h.call hS depth fn args).fromFair ht
  | println fmt args => exact Same.bind (h.println depth fmt args) fun _ => Same.pure 0

omit hS

theorem register (ds : List Def) : Same free D false (r.register ds) (r'.register ds) := by
  induction ds with
  | nil => exact Same.pure ()
  | cons d ds ih =>
    cases d with
    | var x init =>
      refine Same.bind (h.init 0 init) fun v => Same.bind (Same.modify fun t ht => ?_) fun _ => ih
      exact ht.setGlobal nofun v
    | array x size =>
      refine Same.bind (h.expr D false 0 size) fun n => ?_
      split
      · exact Same.fail _
      · refine Same.bind (Same.modify fun t ht => ?_) fun _ => ih
        exact ⟨ht.frame,ht.fair,nofun⟩
    | func name fn =>
      refine Same.bind (Same.modify fun t ht => ?_) fun _ => ih
      exact ⟨ht.frame,ht.fair,nofun⟩

include hS

theorem program (prog : List Def) : Same free D false (r.program S prog) (r'.program S' prog) := by
  refine Same.bind (h.register prog) fun _ => Same.get_bind fun t ht => ?_
  cases t.funcs "main" with
  | none => exact (Same.fail _).fromFair ht
  | some fn =>
    exact (Same.bind (h.call hS 0 fn []) fun _ => Same.pure ()).fromFair ht

end SameMeaning

/-! ### Whole programs -/

variable {S S' : Scoping}

theorem sameMeaning_within (hS : Agrees free S S') (fuel : ℕ) :
    SameMeaning free (.within S fuel) (.within S' fuel) := by
  induction fuel with
  | zero =>
    have htimeout : ∀ {α : Type} D active, Same free D active (Comp.stop .timeout : Big α)
        (Comp.stop .timeout) := fun D active => Comp.Rel.stop fun t t' ht => congrArg _ ht.1
    exact ⟨fun _ _ _ _ => htimeout _ _,fun _ _ _ _ => htimeout _ _,
      fun _ _ _ _ _ _ => htimeout _ _⟩
  | succ fuel ih =>
    exact ⟨fun _ _ depth e => ih.expr' hS depth e,fun _ _ depth node => ih.stmt' depth node,
      fun _ _ depth cond body step => ih.loop' depth cond body step⟩

/-- With more fuel the same happens, unless there was not enough. -/
theorem sameMeaning_more (hS : Agrees free S S') (hfree : free .timeout) (fuel : ℕ) :
    SameMeaning free (.within S (fuel+1)) (.within S' fuel) := by
  induction fuel with
  | zero =>
    exact ⟨fun _ _ _ _ => Comp.Rel.stop_free hfree,fun _ _ _ _ => Comp.Rel.stop_free hfree,
      fun _ _ _ _ _ _ => Comp.Rel.stop_free hfree⟩
  | succ fuel ih =>
    exact ⟨fun _ _ depth e => ih.expr' hS depth e,fun _ _ depth node => ih.stmt' depth node,
      fun _ _ depth cond body step => ih.loop' depth cond body step⟩

theorem fair_newStore (D : Set String) : Fair D false newStore := ⟨rfl,nofun,nofun⟩

theorem out_eq_of_samePost {a a' : Unit} {t t' : Store} (h : SamePost D active a t a' t') :
    t.out = t'.out :=
  congrArg Store.out h.2.1

end Agreement

theorem meaning_succ (h : (meaning codeScoping fuel prog).1 ≠ some .timeout) :
    meaning codeScoping (fuel+1) prog = meaning codeScoping fuel prog := by
  have hS := agrees_self (· = .timeout)
  have hprog := ((sameMeaning_more hS rfl fuel).program hS prog).fromFair (fair_newStore ∅)
  refine outcome_eq hprog (fun _ _ _ _ hpost => out_eq_of_samePost hpost) ?_
  rintro e rfl
  exact h

/-- A program that ends within a bound does the same with any larger one. -/
theorem meaning_mono {fuel fuel' : ℕ} (hle : fuel ≤ fuel')
    (h : (meaning codeScoping fuel prog).1 ≠ some .timeout) :
    meaning codeScoping fuel' prog = meaning codeScoping fuel prog := by
  induction hle with
  | refl => rfl
  | step _ ih => rw [meaning_succ (ih ▸ h),ih]

/-- Until a clash, the lookups of the interpreter follow the rules. -/
theorem meaning_code_eq_rule (h : (meaning ruleScoping fuel prog).1 ≠ some .clash) :
    meaning codeScoping fuel prog = meaning ruleScoping fuel prog := by
  have hS : Agrees (· = .clash) codeScoping ruleScoping := agrees_rule rfl
  have hprog := ((sameMeaning_within hS fuel).program hS prog).fromFair (fair_newStore ∅)
  refine outcome_eq hprog (fun _ _ _ _ hpost => out_eq_of_samePost hpost) ?_
  rintro e rfl
  exact h

end Gooos.Tinyc
