import Mathlib

/-!
# Runs of deterministic transition systems with observations

A system is a step function from a state and an event to a state and a list of
observations. Runs are over lists of events.
-/

namespace Trace

variable {σ ε ο : Type} (step : σ → ε → σ × List ο)

/-- The state after a list of events. -/
def exec (s : σ) : List ε → σ
  | [] => s
  | e :: es => exec (step s e).1 es

/-- The observations made on the way. -/
def outs (s : σ) : List ε → List ο
  | [] => []
  | e :: es => (step s e).2++outs (step s e).1 es

/-- Every step of the run satisfies `G` in the state it is taken from. -/
def Meets (G : σ → ε → Prop) (s : σ) : List ε → Prop
  | [] => True
  | e :: es => G s e ∧ Meets G (step s e).1 es

instance decidableMeets (G : σ → ε → Prop) [∀ s e, Decidable (G s e)] :
    (s : σ) → (es : List ε) → Decidable (Meets step G s es)
  | _, [] => .isTrue trivial
  | s, e :: es =>
    have := decidableMeets G (step s e).1 es
    inferInstanceAs (Decidable (G s e ∧ Meets step G (step s e).1 es))

variable {step}

theorem exec_append (s : σ) (xs ys : List ε) :
    exec step s (xs++ys) = exec step (exec step s xs) ys := by
  induction xs generalizing s with
  | nil => rfl
  | cons e es ih => exact ih _

variable {G : σ → ε → Prop} {s : σ} {es : List ε}

theorem meets_append {xs ys : List ε} :
    Meets step G s (xs++ys) ↔ Meets step G s xs ∧ Meets step G (exec step s xs) ys := by
  induction xs generalizing s with
  | nil => simp [Meets,exec]
  | cons e es ih => simp [Meets,exec,ih,and_assoc]

theorem meets_of_forall (h : ∀ s e, G s e) (s : σ) (es : List ε) : Meets step G s es := by
  induction es generalizing s with
  | nil => trivial
  | cons e es ih => exact ⟨h s e,ih _⟩

/-- Invariant rule: what guarded steps preserve holds after every guarded run. -/
theorem Meets.inv {I : σ → Prop} (hstep : ∀ s e, I s → G s e → I (step s e).1) (hs : I s)
    (hm : Meets step G s es) : I (exec step s es) := by
  induction es generalizing s with
  | nil => exact hs
  | cons e es ih => exact ih (hstep s e hs hm.1) hm.2

/-- What guarded steps show from a state of the invariant is all that a guarded run
shows. -/
theorem Meets.all_outs {I : σ → Prop} {P : ο → Prop} (hstep : ∀ s e, I s → G s e → I (step s e).1)
    (hobs : ∀ s e, I s → G s e → ∀ o ∈ (step s e).2, P o) (hs : I s)
    (hm : Meets step G s es) : ∀ o ∈ outs step s es, P o := by
  induction es generalizing s with
  | nil => nofun
  | cons e es ih =>
    intro o ho
    obtain ho | ho := List.mem_append.mp ho
    · exact hobs s e hs hm.1 o ho
    · exact ih (hstep s e hs hm.1) hm.2 o ho

theorem Meets.and {G G' : σ → ε → Prop} {s : σ} {es : List ε} (h : Meets step G s es)
    (h' : Meets step G' s es) : Meets step (fun s e => G s e ∧ G' s e) s es := by
  induction es generalizing s with
  | nil => trivial
  | cons e es ih => exact ⟨⟨h.1,h'.1⟩,ih h.2 h'.2⟩

theorem Meets.mono {G G' : σ → ε → Prop} (h : ∀ s e, G s e → G' s e)
    (hm : Meets step G s es) : Meets step G' s es := by
  induction es generalizing s with
  | nil => trivial
  | cons e es ih => exact ⟨h s e hm.1,ih hm.2⟩

/-- Two-run rule: a relation kept by equal events that forces equal observations
makes the two runs indistinguishable. -/
theorem outs_eq_of_bisim {R : σ → σ → Prop}
    (hstep : ∀ a b e, R a b → (step a e).2 = (step b e).2 ∧ R (step a e).1 (step b e).1)
    {a b : σ} (h : R a b) (es : List ε) :
    outs step a es = outs step b es ∧ R (exec step a es) (exec step b es) := by
  induction es generalizing a b with
  | nil => exact ⟨rfl,h⟩
  | cons e es ih =>
    obtain ⟨ho,hr⟩ := hstep a b e h
    obtain ⟨hos,hrs⟩ := ih hr
    exact ⟨by rw [outs,outs,ho,hos],hrs⟩

end Trace
