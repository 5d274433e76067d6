import Mathlib

/-!
# Things in one place at a time

A family of lists, one for each place, that say what is where. It is apart if nothing
is in two places, or twice in one.
-/

namespace Places

variable {P T : Type} {m m' : P → List T}

/-- Nothing is listed twice, neither in one place nor in two. -/
structure Apart (m : P → List T) : Prop where
  nodup : ∀ p, (m p).Nodup
  one : ∀ p q t, t ∈ m p → t ∈ m q → p = q

theorem Apart.congr (h : Apart m) (hm : ∀ p, m' p = m p) : Apart m' := by
  have heq : m' = m := funext hm
  rwa [heq]

/-- Taking things away. -/
theorem Apart.shrink (h : Apart m) (hm : ∀ p, (m' p).Sublist (m p)) : Apart m' where
  nodup p := (hm p).nodup (h.nodup p)
  one p q t hp hq := h.one p q t ((hm p).subset hp) ((hm q).subset hq)

/-- What is somewhere after `t`, which was nowhere, has been added at `q`. -/
theorem mem_of_insert {p q : P} {t u : T} (hnew : ∀ p, t ∉ m p) (hq : (m' q).Perm (t::m q))
    (hm : ∀ p, p ≠ q → m' p = m p) (hu : u ∈ m' p) : p = q ∧ u = t ∨ u ≠ t ∧ u ∈ m p := by
  have hne {r : P} (hr : u ∈ m r) : u ≠ t ∧ u ∈ m r := ⟨fun hut => hnew r (hut ▸ hr),hr⟩
  by_cases hp : p = q
  · subst hp
    obtain hut | hu := List.mem_cons.mp (hq.mem_iff.mp hu)
    · exact .inl ⟨rfl,hut⟩
    · exact .inr (hne hu)
  · rw [hm p hp] at hu
    exact .inr (hne hu)

theorem Apart.insert {q : P} {t : T} (h : Apart m) (hnew : ∀ p, t ∉ m p)
    (hq : (m' q).Perm (t::m q)) (hm : ∀ p, p ≠ q → m' p = m p) : Apart m' := by
  constructor
  · intro p
    by_cases hp : p = q
    · subst hp
      exact hq.nodup_iff.mpr (List.nodup_cons.mpr ⟨hnew p,h.nodup p⟩)
    · rw [hm p hp]
      exact h.nodup p
  · intro p r u hp hr
    obtain ⟨rfl,rfl⟩ | ⟨hne,hp⟩ := mem_of_insert hnew hq hm hp
    · obtain ⟨rfl,-⟩ | ⟨hne,-⟩ := mem_of_insert hnew hq hm hr
      · rfl
      · exact absurd rfl hne
    · obtain ⟨-,hut⟩ | ⟨-,hr⟩ := mem_of_insert hnew hq hm hr
      · exact absurd hut hne
      · exact h.one p r u hp hr

/-- Moving part of one place to another that was empty. -/
theorem Apart.transfer [DecidableEq P] {p q : P} (h : Apart m) (hpq : p ≠ q) (hempty : m q = [])
    (hsplit : (m' q++m' p).Perm (m p)) (hm : ∀ r, r ≠ p → r ≠ q → m' r = m r) : Apart m' := by
  have hnodup : (m' q++m' p).Nodup := hsplit.nodup_iff.mpr (h.nodup p)
  have hdisj := List.disjoint_of_nodup_append hnodup
  -- what is at `p` or `q` now was at `p` before, the rest has not moved
  have hback (r : P) (u : T) (hu : u ∈ m' r) : u ∈ m (if r = q then p else r) := by
    by_cases hr : r = q
    · subst hr
      rw [if_pos rfl]
      exact hsplit.subset (List.mem_append_left _ hu)
    · rw [if_neg hr]
      by_cases hrp : r = p
      · subst hrp
        exact hsplit.subset (List.mem_append_right _ hu)
      · rwa [hm r hrp hr] at hu
  constructor
  · intro r
    by_cases hrq : r = q
    · subst hrq
      exact hnodup.of_append_left
    · by_cases hrp : r = p
      · subst hrp
        exact hnodup.of_append_right
      · rw [hm r hrp hrq]
        exact h.nodup r
  · intro r s u hr hs
    have heq := h.one _ _ u (hback r u hr) (hback s u hs)
    by_cases hrq : r = q
    · by_cases hsq : s = q
      · rw [hrq,hsq]
      · rw [if_pos hrq,if_neg hsq] at heq
        subst hrq heq
        exact absurd hs (hdisj hr)
    · by_cases hsq : s = q
      · rw [if_neg hrq,if_pos hsq] at heq
        subst hsq heq
        exact absurd hr (hdisj hs)
      · rwa [if_neg hrq,if_neg hsq] at heq

end Places
