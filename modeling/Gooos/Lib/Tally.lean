import Mathlib

/-!
# Tallies

How often a table shows a value, over a finite set of places. Writing one place moves one unit
from the old value to the new one, which is what reference counts have to follow.
-/

namespace Tally

open Function
open Finset (mem_filter)

variable {α β : Type} [DecidableEq β] {s t : Finset α} {f : α → β} {a : α} {b v : β}

def tally (s : Finset α) (f : α → β) (b : β) : ℕ := (s.filter fun a => f a = b).card

theorem tally_pos : 0 < tally s f b ↔ ∃ a ∈ s, f a = b := by
  rw [tally,Finset.card_pos]
  constructor
  · rintro ⟨a,ha⟩
    exact ⟨a,mem_filter.mp ha⟩
  · rintro ⟨a,ha⟩
    exact ⟨a,mem_filter.mpr ha⟩

theorem tally_eq_zero : tally s f b = 0 ↔ ∀ a ∈ s, f a ≠ b := by
  rw [← Nat.le_zero,← Nat.not_lt,tally_pos]
  simp

/-- The value written counts one more, the value overwritten one less. -/
theorem tally_update [DecidableEq α] (ha : a ∈ s) (v b : β) :
    tally s (update f a v) b+(if f a = b then 1 else 0) =
      tally s f b+(if v = b then 1 else 0) := by
  have hrest : ∑ x ∈ s.erase a, (if update f a v x = b then 1 else 0) =
      ∑ x ∈ s.erase a, if f x = b then 1 else 0 := by
    refine Finset.sum_congr rfl fun x hx => ?_
    rw [update_of_ne (Finset.ne_of_mem_erase hx)]
  rw [tally,tally,Finset.card_filter,Finset.card_filter,← Finset.add_sum_erase s _ ha,
    ← Finset.add_sum_erase s (fun x => if f x = b then 1 else 0) ha,hrest,update_self]
  omega

/-- Places that do not show the value may be added. -/
theorem tally_of_subset (hst : s ⊆ t) (hf : ∀ a ∈ t, a ∉ s → f a ≠ b) :
    tally t f b = tally s f b := by
  refine congrArg Finset.card ?_
  ext a
  rw [mem_filter,mem_filter]
  constructor
  · rintro ⟨ha,hb⟩
    by_contra hs
    exact hf a ha (fun has => hs ⟨has,hb⟩) hb
  · rintro ⟨ha,hb⟩
    exact ⟨hst ha,hb⟩

end Tally
