import Mathlib

/-!
# Computations with a state that may stop, and how two of them are related

A computation takes a state to a result and a new state, or stops for a reason with the state it
had. Two computations over different states are related by a relation before and a relation after.
-/

/-- A result with the state after it, or the reason to stop. -/
inductive Res (ε σ α : Type) where
  | ok (a : α) (s : σ)
  | stop (e : ε) (s : σ)

def Comp (ε σ α : Type) := σ → Res ε σ α

namespace Comp

variable {ε σ τ α β γ δ : Type}

instance : Monad (Comp ε σ) where
  pure a := fun s => .ok a s
  bind m f := fun s =>
    match m s with
    | .ok a s' => f a s'
    | .stop e s' => .stop e s'

def stop (e : ε) : Comp ε σ α := fun s => .stop e s

def get : Comp ε σ σ := fun s => .ok s s

def modify (f : σ → σ) : Comp ε σ Unit := fun s => .ok () (f s)

variable {m : Comp ε σ α} {f : α → Comp ε σ β} {s s' : σ}

theorem bind_ok {a : α} (h : m s = .ok a s') : (m >>= f) s = f a s' := by
  change (match m s with | .ok a s' => f a s' | .stop e s' => .stop e s') = _
  rw [h]

theorem bind_stop {e : ε} (h : m s = .stop e s') : (m >>= f) s = .stop e s' := by
  change (match m s with | .ok a s' => f a s' | .stop e s' => .stop e s') = _
  rw [h]

theorem get_bind {f : σ → Comp ε σ α} : (get >>= f) s = f s s := rfl

/-- A computation that succeeds went through both halves. -/
theorem bind_eq_ok {b : β}
    (h : (m >>= f) s = .ok b s') : ∃ a s₁, m s = .ok a s₁ ∧ f a s₁ = .ok b s' := by
  cases hm : m s with
  | ok a s₁ => exact ⟨a,s₁,rfl,(bind_ok hm).symm.trans h⟩
  | stop e s₁ =>
    rw [bind_stop hm] at h
    cases h

end Comp

/-! ### What a computation keeps -/

namespace Comp

variable {ε σ α β : Type} {K : σ → σ → Prop}

/-- When the computation succeeds, the state after it is `K`-related to the one before. -/
def Keeps (K : σ → σ → Prop) (m : Comp ε σ α) : Prop := ∀ s a s', m s = .ok a s' → K s s'

namespace Keeps

theorem mono {K' : σ → σ → Prop} {m : Comp ε σ α} (h : Keeps K m) (hK : ∀ s s', K s s' → K' s s') :
    Keeps K' m :=
  fun s a s' hm => hK s s' (h s a s' hm)

theorem pure (hrefl : ∀ s, K s s) (a : α) : Keeps K (pure a : Comp ε σ α) := by
  intro s b s' hm
  cases hm
  exact hrefl s

theorem bind (htrans : ∀ s s' s'', K s s' → K s' s'' → K s s'') {m : Comp ε σ α}
    {f : α → Comp ε σ β} (hm : Keeps K m) (hf : ∀ a, Keeps K (f a)) : Keeps K (m >>= f) := by
  intro s b s' h
  obtain ⟨a,s₁,h₁,h₂⟩ := bind_eq_ok h
  exact htrans s s₁ s' (hm s a s₁ h₁) (hf a s₁ b s' h₂)

theorem modify {f : σ → σ} (h : ∀ s, K s (f s)) : Keeps K (Comp.modify f : Comp ε σ Unit) := by
  intro s a s' hm
  cases hm
  exact h s

theorem get_bind {f : σ → Comp ε σ α} (h : ∀ s, Keeps K (f s)) : Keeps K (Comp.get >>= f) :=
  fun s a s' hm => h s s a s' hm

end Keeps

end Comp

/-! ### Relating two results -/

/-- Both succeed with related results, or both stop for the same reason in related states. Where the
second stops for a reason that is `free`, nothing is asked of the first. -/
inductive Res.Rel {ε σ τ α β : Type} (free : ε → Prop) (X : σ → τ → Prop)
    (Q : α → σ → β → τ → Prop) : Res ε σ α → Res ε τ β → Prop
  | ok {a : α} {s : σ} {b : β} {t : τ} (h : Q a s b t) : Rel free X Q (.ok a s) (.ok b t)
  | stop {e : ε} {s : σ} {t : τ} (h : X s t) : Rel free X Q (.stop e s) (.stop e t)
  | free {r : Res ε σ α} {e : ε} {t : τ} (h : free e) : Rel free X Q r (.stop e t)

theorem Res.Rel.bind {ε σ τ α β γ δ : Type} {free : ε → Prop} {X : σ → τ → Prop}
    {P : γ → σ → δ → τ → Prop} {Q : α → σ → β → τ → Prop} {m : Comp ε σ γ} {m' : Comp ε τ δ}
    {f : γ → Comp ε σ α} {f' : δ → Comp ε τ β} {s : σ} {t : τ} (hm : Res.Rel free X P (m s) (m' t))
    (hf : ∀ c s' d t', P c s' d t' → Res.Rel free X Q (f c s') (f' d t')) :
    Res.Rel free X Q ((m >>= f) s) ((m' >>= f') t) := by
  cases hms : m s with
  | ok c s' =>
    cases hmt : m' t with
    | ok d t' =>
      rw [hms,hmt] at hm
      rw [Comp.bind_ok hms,Comp.bind_ok hmt]
      cases hm with
      | ok hp => exact hf c s' d t' hp
    | stop e t' =>
      rw [hms,hmt] at hm
      rw [Comp.bind_stop hmt]
      cases hm with
      | free he => exact .free he
  | stop e s' =>
    cases hmt : m' t with
    | ok d t' =>
      rw [hms,hmt] at hm
      cases hm
    | stop e' t' =>
      rw [hms,hmt] at hm
      rw [Comp.bind_stop hms,Comp.bind_stop hmt]
      cases hm with
      | stop hx => exact .stop hx
      | free he => exact .free he

namespace Comp

variable {ε σ τ α β γ δ : Type} {free : ε → Prop} {X : σ → τ → Prop} {R : σ → τ → Prop}
  {Q : α → σ → β → τ → Prop} {P : γ → σ → δ → τ → Prop}

/-- From states related by `R` the results are related by `Q`. -/
def Rel (free : ε → Prop) (X : σ → τ → Prop) (R : σ → τ → Prop) (Q : α → σ → β → τ → Prop)
    (m : Comp ε σ α) (m' : Comp ε τ β) : Prop :=
  ∀ s t, R s t → Res.Rel free X Q (m s) (m' t)

namespace Rel

theorem pure {a : α} {b : β} (h : ∀ s t, R s t → Q a s b t) :
    Rel free X R Q (pure a) (pure b) :=
  fun s t hst => .ok (h s t hst)

theorem bind {m : Comp ε σ γ} {m' : Comp ε τ δ} {f : γ → Comp ε σ α} {f' : δ → Comp ε τ β}
    (hm : Rel free X R P m m') (hf : ∀ c d, Rel free X (P c · d ·) Q (f c) (f' d)) :
    Rel free X R Q (m >>= f) (m' >>= f') :=
  fun s t hst => (hm s t hst).bind fun c s' d t' hp => hf c d s' t' hp

theorem stop {e : ε} (h : ∀ s t, R s t → X s t) :
    Rel free X R Q (Comp.stop e : Comp ε σ α) (Comp.stop e : Comp ε τ β) :=
  fun s t hst => .stop (h s t hst)

theorem stop_free {e : ε} (h : free e) {m : Comp ε σ α} :
    Rel free X R Q m (Comp.stop e : Comp ε τ β) :=
  fun _ _ _ => .free h

theorem modify {f : σ → σ} {g : τ → τ} {Q : Unit → σ → Unit → τ → Prop}
    (h : ∀ s t, R s t → Q () (f s) () (g t)) :
    Rel free X R Q (Comp.modify f : Comp ε σ Unit) (Comp.modify g : Comp ε τ Unit) :=
  fun s t hst => .ok (h s t hst)

end Rel

end Comp
