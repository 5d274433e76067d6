import Mathlib

/-!
# Radix trees laid out in memory

A table is a frame of cells. A cell is blank or links to a frame one level down, and a
path of indices from the root leads to at most one frame. Cells off the paths in `own` are
of no concern here: they may lead anywhere, for instance into tables shared with others.
-/

namespace Radix

open Function
open Option (some_inj)

variable {F ι V : Type}

/-- The frame at the end of each path of indices. -/
abbrev Tree (ι F : Type) := List ι → Option F

/-- The cells hold the tree down to `depth`; the frames at that depth are not tables. -/
structure Holds (link : V → F → Prop) (blank : V) (own : List ι → Prop) (depth : ℕ)
    (cell : F → ι → V) (T : Tree ι F) : Prop where
  closed : ∀ p i, T (p++[i]) ≠ none → T p ≠ none
  inj : ∀ p q f, T p = some f → T q = some f → p = q
  inside : ∀ p, T p ≠ none → own p ∧ p.length ≤ depth
  linked : ∀ p i f g, T p = some f → T (p++[i]) = some g → link (cell f i) g
  empty : ∀ p i f, T p = some f → T (p++[i]) = none → p.length < depth → own (p++[i]) →
    cell f i = blank

variable {link : V → F → Prop} {blank : V} {own : List ι → Prop} {depth : ℕ}
  {cell cell' : F → ι → V} {T : Tree ι F}

/-- Only the cells of tables along `own` paths matter, and of those only where they lead. -/
theorem Holds.relink (h : Holds link blank own depth cell T)
    (hkeep : ∀ p f i, T p = some f → p.length < depth → own (p++[i]) →
      cell' f i = cell f i ∨ ∃ g, T (p++[i]) = some g ∧ link (cell' f i) g) :
    Holds link blank own depth cell' T where
  closed := h.closed
  inj := h.inj
  inside := h.inside
  linked p i f g hp hg := by
    obtain ⟨ho,hlen⟩ := h.inside (p++[i]) (by simp [hg])
    rw [List.length_append,List.length_singleton] at hlen
    obtain heq | ⟨g',hg',hlink⟩ := hkeep p f i hp (by omega) ho
    · rw [heq]
      exact h.linked p i f g hp hg
    · rw [hg,some_inj] at hg'
      exact hg' ▸ hlink
  empty p i f hp hn hd ho := by
    obtain heq | ⟨g,hg,-⟩ := hkeep p f i hp hd ho
    · rw [heq]
      exact h.empty p i f hp hn hd ho
    · rw [hn] at hg
      cases hg

theorem Holds.congr (h : Holds link blank own depth cell T)
    (hkeep : ∀ p f i, T p = some f → p.length < depth → own (p++[i]) → cell' f i = cell f i) :
    Holds link blank own depth cell' T :=
  h.relink fun p f i hp hd ho => .inl (hkeep p f i hp hd ho)

/-- Every beginning of a path that leads somewhere leads somewhere. -/
theorem Holds.of_append (h : Holds link blank own depth cell T) {p q : List ι}
    (hq : T (p++q) ≠ none) : T p ≠ none := by
  induction q using List.reverseRecOn with
  | nil => simpa using hq
  | append_singleton q i ih =>
    rw [← List.append_assoc] at hq
    exact ih (h.closed _ i hq)

section Graft

variable [DecidableEq ι] {p : List ι} {i : ι} {f g : F}

/-- Hang a frame from elsewhere below a table: a blank one at a new path, or any at the
full depth. -/
theorem Holds.graft (h : Holds link blank own depth cell T) (hp : T p = some f)
    (hd : p.length < depth) (ho : own (p++[i])) (hg : ∀ q, T q ≠ some g)
    (hnew : T (p++[i]) = none ∨ p.length+1 = depth) (hlink : link (cell' f i) g)
    (hzero : p.length+1 < depth → ∀ j, cell' g j = blank)
    (hkeep : ∀ q f' j, T q = some f' → q.length < depth → ¬(f' = f ∧ j = i) →
      cell' f' j = cell f' j) :
    Holds link blank own depth cell' (update T (p++[i]) (some g)) := by
  have hne : p ≠ p++[i] := by simp
  have hself : update T (p++[i]) (some g) (p++[i]) = some g := update_self ..
  have hother {q : List ι} (hq : q ≠ p++[i]) : update T (p++[i]) (some g) q = T q :=
    update_of_ne hq ..
  -- nothing hangs below the new frame
  have hbelow (j : ι) : T (p++[i]++[j]) = none := by
    by_contra hj
    obtain hnew | hnew := hnew
    · exact h.closed _ j hj hnew
    · have hlen := (h.inside _ hj).2
      simp only [List.length_append,List.length_singleton] at hlen
      omega
  -- a path one longer than another ends in a different cell
  have hcell {q : List ι} {j : ι} {f' : F} (hq : T q = some f') (hqj : q++[j] ≠ p++[i]) :
      ¬(f' = f ∧ j = i) := by
    rintro ⟨rfl,rfl⟩
    exact hqj (by rw [h.inj q p f' hq hp])
  constructor
  · intro q j hq
    by_cases hqp : q = p++[i]
    · rw [hqp,hself]
      simp
    · rw [hother hqp]
      by_cases hqj : q++[j] = p++[i]
      · rw [(List.append_inj' hqj rfl).1,hp]
        simp
      · rw [hother hqj] at hq
        exact h.closed q j hq
  · intro q r f' hq hr
    by_cases hqp : q = p++[i] <;> by_cases hrp : r = p++[i]
    · rw [hqp,hrp]
    · rw [hqp,hself,some_inj] at hq
      rw [hother hrp,← hq] at hr
      exact absurd hr (hg r)
    · rw [hrp,hself,some_inj] at hr
      rw [hother hqp,← hr] at hq
      exact absurd hq (hg q)
    · rw [hother hqp] at hq
      rw [hother hrp] at hr
      exact h.inj q r f' hq hr
  · intro q hq
    by_cases hqp : q = p++[i]
    · subst hqp
      exact ⟨ho,by simpa using hd⟩
    · rw [hother hqp] at hq
      exact h.inside q hq
  · intro q j f' g' hq hg'
    by_cases hqj : q++[j] = p++[i]
    · obtain ⟨rfl,hj⟩ := List.append_inj' hqj rfl
      obtain rfl : j = i := by simpa using hj
      rw [hother hne,hp,some_inj] at hq
      rw [hself,some_inj] at hg'
      exact hq ▸ hg' ▸ hlink
    · rw [hother hqj] at hg'
      by_cases hqp : q = p++[i]
      · rw [hqp,hbelow j] at hg'
        cases hg'
      · rw [hother hqp] at hq
        have hlen := (h.inside (q++[j]) (by simp [hg'])).2
        rw [List.length_append,List.length_singleton] at hlen
        rw [hkeep q f' j hq (by omega) (hcell hq hqj)]
        exact h.linked q j f' g' hq hg'
  · intro q j f' hq hn hlen hoq
    by_cases hqp : q = p++[i]
    · subst hqp
      rw [hself,some_inj] at hq
      rw [← hq]
      exact hzero (by simpa using hlen) j
    · have hqj : q++[j] ≠ p++[i] := by
        intro heq
        rw [heq,hself] at hn
        cases hn
      rw [hother hqp] at hq
      rw [hother hqj] at hn
      rw [hkeep q f' j hq hlen (hcell hq hqj)]
      exact h.empty q j f' hq hn hlen hoq

end Graft

/-! ### Bytes of words -/

/-- Byte `k` of a little-endian word. -/
def byteOf (w k : ℕ) : ℕ := w/256^k%256

/-- The word with byte `k` replaced. -/
def setByteOf (w k b : ℕ) : ℕ := (w/256^(k+1)*256+b)*256^k+w%256^k

theorem byteOf_setByteOf (w k : ℕ) {b : ℕ} (hb : b < 256) : byteOf (setByteOf w k b) k = b := by
  have hpos : 0 < 256^k := by positivity
  have hlo : w%256^k < 256^k := Nat.mod_lt _ hpos
  rw [byteOf,setByteOf,Nat.add_comm,Nat.add_mul_div_right _ _ hpos,Nat.div_eq_of_lt hlo,
    Nat.zero_add,Nat.add_comm,Nat.add_mul_mod_self_right,Nat.mod_eq_of_lt hb]

theorem byteOf_setByteOf_of_ne (w : ℕ) {k j b : ℕ} (hb : b < 256) (hj : j ≠ k) :
    byteOf (setByteOf w k b) j = byteOf w j := by
  have hpos : 0 < 256^k := by positivity
  have hlo : w%256^k < 256^k := Nat.mod_lt _ hpos
  rw [byteOf,byteOf,setByteOf]
  obtain hlt | hgt := Nat.lt_or_gt_of_ne hj
  · -- below `k` both words agree modulo `256^k`
    obtain ⟨d,rfl⟩ := Nat.exists_eq_add_of_lt hlt
    have hpow : 256^(j+d+1) = 256^j*(256^d*256) := by ring
    have hmod (x : ℕ) : x/256^j%256 = x%256^(j+d+1)/256^j%256 := by
      rw [hpow,Nat.mod_mul_right_div_self,Nat.mod_mul_left_mod]
    rw [hmod,hmod w,Nat.mul_add_mod_self_right,Nat.mod_mod]
  · -- above it they agree after the division by `256^(k+1)`
    obtain ⟨d,rfl⟩ := Nat.exists_eq_add_of_lt hgt
    have hpow : 256^(k+d+1) = 256^(k+1)*256^d := by ring
    have hdiv : ((w/256^(k+1)*256+b)*256^k+w%256^k)/256^(k+1) = w/256^(k+1) := by
      rw [pow_succ,← Nat.div_div_eq_div_mul,Nat.add_comm,Nat.add_mul_div_right _ _ hpos,
        Nat.div_eq_of_lt hlo,Nat.zero_add,Nat.add_comm,Nat.add_mul_div_right _ _ (by decide),
        Nat.div_eq_of_lt hb,Nat.zero_add]
    rw [hpow,← Nat.div_div_eq_div_mul,← Nat.div_div_eq_div_mul,hdiv]

end Radix
