import Gooos.Tinyc.Isolation
import Gooos.Tinyc.Refinement
import Gooos.Tinyc.Scoping

/-!
# What Tiny C programs do

The interpreter behaves as the structured semantics says, also where a program does not end. It
follows the scoping rules as long as no name of a call stands for a global of the other kind.
-/

namespace Gooos.Tinyc

/-- How a program behaves: it ends, normally or for a reason to stop, or it goes on for ever and
prints this much within each bound. -/
inductive Behaviour where
  | ends (e : Option Stop) (out : List Char)
  | diverges (out : ℕ → List Char)

def Behaves (f : ℕ → Option Stop × List Char) : Behaviour → Prop
  | .ends e out => e ≠ some .timeout ∧ ∃ fuel, f fuel = (e,out)
  | .diverges out => ∀ fuel, f fuel = (some .timeout,out fuel)

theorem exists_behaves (f : ℕ → Option Stop × List Char) : ∃ b, Behaves f b := by
  by_cases hend : ∃ fuel, (f fuel).1 ≠ some .timeout
  · obtain ⟨fuel,hfuel⟩ := hend
    exact ⟨.ends (f fuel).1 (f fuel).2,hfuel,fuel,rfl⟩
  · push Not at hend
    exact ⟨.diverges fun fuel => (f fuel).2,fun fuel => Prod.ext (hend fuel) rfl⟩

/-- With a larger bound a program that has ended does the same, so it has one behaviour. -/
theorem behaves_unique {prog : List Def} {b b' : Behaviour}
    (hb : Behaves (meaning codeScoping · prog) b) (hb' : Behaves (meaning codeScoping · prog) b') :
    b = b' := by
  cases b with
  | ends e out =>
    obtain ⟨he,n,hn⟩ := hb
    cases b' with
    | ends e' out' =>
      obtain ⟨he',m,hm⟩ := hb'
      have hn' : (meaning codeScoping n prog).1 ≠ some .timeout :=
        fun h => he ((congrArg Prod.fst hn).symm.trans h)
      have hm' : (meaning codeScoping m prog).1 ≠ some .timeout :=
        fun h => he' ((congrArg Prod.fst hm).symm.trans h)
      have hsame : meaning codeScoping n prog = meaning codeScoping m prog := by
        obtain hle | hle := Nat.le_total n m
        · exact (meaning_mono hle hn').symm
        · exact meaning_mono hle hm'
      cases hn.symm.trans (hsame.trans hm)
      rfl
    | diverges out' => exact absurd (congrArg Prod.fst (hn.symm.trans (hb' n))) he
  | diverges out =>
    cases b' with
    | ends e' out' =>
      obtain ⟨he',m,hm⟩ := hb'
      exact absurd (congrArg Prod.fst (hm.symm.trans (hb m))) he'
    | diverges out' =>
      refine congrArg Behaviour.diverges (funext fun n => ?_)
      exact congrArg Prod.snd ((hb n).symm.trans (hb' n))

/-- The interpreter is structured: within every bound it ends and prints as the semantics without
flags says, so both have the same one behaviour; and every call puts back the flags and the depth
that it found. -/
theorem evaluator_is_structured (prog : List Def) :
    (∀ fuel, run fuel prog = meaning codeScoping fuel prog) ∧
      (∃! b, Behaves (run · prog) b ∧ Behaves (meaning codeScoping · prog) b) ∧
      ∀ fuel fn args env,
        Comp.Keeps (Restored env.own) ((Methods.within fuel).callFunc fn args env) := by
  have hsame : (run · prog) = (meaning codeScoping · prog) :=
    funext fun fuel => run_eq_meaning fuel prog
  refine ⟨fun fuel => run_eq_meaning fuel prog,?_,fun fuel fn args env => ?_⟩
  · obtain ⟨b,hb⟩ := exists_behaves (meaning codeScoping · prog)
    rw [hsame]
    exact ⟨b,⟨hb,hb⟩,fun b' hb' => behaves_unique hb'.1 hb⟩
  · exact (isolates_within fuel).callFunc env fn args

/-- In every run that does not use a name of a call for a global of a kind in which the call has
none, names stand for what the scoping rules say: the program does what it does with frames of
parameters and declared locals that nobody else can reach. No statement of a call writes to the
environment of another one. -/
theorem scoping_rules_followed (prog : List Def) (fuel : ℕ)
    (h : (meaning ruleScoping fuel prog).1 ≠ some .clash) :
    run fuel prog = meaning ruleScoping fuel prog ∧
      ∀ node k, Comp.Keeps (Isolated {k}) ((Methods.within fuel).stmt node (.local k)) := by
  refine ⟨(run_eq_meaning fuel prog).trans (meaning_code_eq_rule h),fun node k => ?_⟩
  have hown : (Env.local k).own = {k} := Set.ext fun j => ⟨fun hj => (Env.local.inj hj).symm,
    fun hj => congrArg Env.local hj.symm⟩
  rw [← hown]
  exact (isolates_within fuel).stmt node (.local k)

/-- `var g; var a[2]; f(p,q) { var l; l = p; p = 9; q[0] = l; g = l; }` and a `main` with a local
`x` that calls `f(x,a)`. -/
def shadowing : List Def :=
  [.var "g" none,.array "a" (.num 2),
    .func "f" ⟨["p","q"],[.block [.varDecl "l" none],.expr (.assign "l" (.var "p")),
      .expr (.assign "p" (.num 9)),.expr (.assignIndex "q" (.num 0) (.var "l")),
      .expr (.assign "g" (.var "l"))]⟩,
    .func "main" ⟨[],[.block [.varDecl "x" none],.expr (.assign "x" (.num 5)),
      .expr (.call "f" [.var "x",.var "a"]),
      .expr (.println "%d %d %d".toList [.var "x",.index "a" (.num 0),.var "g"])]⟩]

theorem scoping_rules_followed_shadowing :
    run 9 shadowing = (none,"5 5 5\n".toList) ∧
      run 9 shadowing = meaning ruleScoping 9 shadowing := by
  refine ⟨by decide +kernel,(scoping_rules_followed shadowing 9 ?_).1⟩
  decide +kernel

/-- `var x[3]; f(p) { println(p); } main() { var x; x = 5; f(x); }` -/
def hiddenByArray : List Def :=
  [.array "x" (.num 3),
    .func "f" ⟨["p"],[.expr (.println "%d".toList [.var "p"])]⟩,
    .func "main" ⟨[],[.block [.varDecl "x" none],.expr (.assign "x" (.num 5)),
      .expr (.call "f" [.var "x"])]⟩]

/-- `var g = 1; f(g) { g = 7; } main() { f(); println(g); }` -/
def missingArgument : List Def :=
  [.var "g" (some (.num 1)),
    .func "f" ⟨["g"],[.expr (.assign "g" (.num 7))]⟩,
    .func "main" ⟨[],[.expr (.call "f" []),.expr (.println "%d".toList [.var "g"])]⟩]

/-- The rules without exception: a name of the call stands for what the call has. -/
def lexicalScoping : Scoping where
  var t x :=
    .ofOption (if t.isName x then t.localVar x else (t.globals.vars x).or (t.localVar x))
  array t a := .ofOption (if t.isName a then t.localArray a else t.globals.arrays a)
  arg t a := .ofOption (if t.isName a then t.localArray a else t.globals.arrays a)
  setVar t x v :=
    .found (if t.isName x ∨ (t.globals.vars x).isNone then t.setLocal x v else t.setGlobal x v)

/-- A local as argument is passed over for a global array of its name, and the callee has no scalar:
by the rules it is passed by value. An assignment to a parameter that got no argument changes the
global: by the rules it does not. -/
theorem local_hidden_by_global :
    run 9 hiddenByArray = (some .exit,"tinyc: error: undefined variable 'p'\n".toList) ∧
      meaning lexicalScoping 9 hiddenByArray = (none,"5\n".toList) ∧
      run 9 missingArgument = (none,"7\n".toList) ∧
      meaning lexicalScoping 9 missingArgument = (none,"1\n".toList) := by
  decide +kernel

end Gooos.Tinyc
