import Mathlib

/-!
# Threads over a shared state

A configuration is a shared state and, for each thread, a control point of that
thread's own type. A proof outline puts an assertion on the shared state and one
on every control point; it holds if it survives each move: the moving thread has
to reach its next assertion, the assertions of the others have to be stable.
-/

namespace Interleave

open Function

variable {S T : Type} {L : T → Type}

structure Conf (S : Type) {T : Type} (L : T → Type) where
  shared : S
  pc : (τ : T) → L τ

/-- Thread `τ` goes on to `l` and leaves the shared state `s`. -/
def Conf.move [DecidableEq T] (c : Conf S L) (τ : T) (s : S) (l : L τ) : Conf S L :=
  ⟨s,update c.pc τ l⟩

section Move

variable [DecidableEq T] (c : Conf S L) (τ : T) (s : S) (l : L τ)

@[simp] theorem Conf.move_shared : (c.move τ s l).shared = s := rfl

@[simp] theorem Conf.move_pc_self : (c.move τ s l).pc τ = l := update_self ..

theorem Conf.move_pc_of_ne {τ' : T} (h : τ' ≠ τ) : (c.move τ s l).pc τ' = c.pc τ' :=
  update_of_ne h ..

end Move

structure Outline (S : Type) {T : Type} (L : T → Type) where
  glob : S → Prop
  loc : (τ : T) → L τ → S → Prop

namespace Outline

def Holds (A : Outline S L) (s : S) (pc : (τ : T) → L τ) : Prop :=
  A.glob s ∧ ∀ τ, A.loc τ (pc τ) s

variable {A : Outline S L} {s s' : S} {pc : (τ : T) → L τ}

theorem Holds.move [DecidableEq T] {τ : T} {l : L τ} (h : A.Holds s pc) (hglob : A.glob s')
    (hloc : A.loc τ l s')
    (hstable : ∀ τ', τ' ≠ τ → A.loc τ' (pc τ') s → A.loc τ' (pc τ') s') :
    A.Holds s' (update pc τ l) := by
  refine ⟨hglob,fun τ' => ?_⟩
  by_cases hτ : τ' = τ
  · subst hτ
    simpa using hloc
  · rw [update_of_ne hτ]
    exact hstable τ' hτ (h.2 τ')

/-- A change of the shared state that no thread makes. -/
theorem Holds.env (h : A.Holds s pc) (hglob : A.glob s → A.glob s')
    (hstable : ∀ τ l, A.loc τ l s → A.loc τ l s') : A.Holds s' pc :=
  ⟨hglob h.1,fun τ => hstable τ _ (h.2 τ)⟩

end Outline

end Interleave
