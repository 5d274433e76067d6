import Mathlib

/-!
# Ring buffers over free-running counters

A ring keeps `head` and `tail` as counters that run freely modulo `2^w`; the
physical cell of a counter is its remainder modulo the capacity. The capacity
divides `2^w`, so a counter that wraps stays on its cell. `RingQueue.contents` is the
queue the ring stands for, and each operation is described by what it does to it.
-/

/-- Capacities for which wrapping counters keep their cells. -/
class RingShape (w cap : ℕ) : Prop where
  pos : 0 < cap
  lt : cap < 2^w
  dvd : cap ∣ 2^w

instance : RingShape 32 8192 := ⟨by decide,by decide,by decide⟩

instance : RingShape 8 64 := ⟨by decide,by decide,by decide⟩

/-- A bounded queue stored in a circular array. `count` tells a full ring from
an empty one; the two last fields exclude every other combination of counters. -/
structure RingQueue (w cap : ℕ) (α : Type) where
  cells : ℕ → α
  head : BitVec w
  tail : BitVec w
  count : BitVec w
  tail_eq : tail = head+count
  count_le : count.toNat ≤ cap

namespace RingQueue

open Function
open BitVec (toNat_add toNat_ofNat)
open List (ext_getElem getElem_map getElem_range)
open Nat (mod_eq_of_lt)

variable {w cap : ℕ} {α : Type}

/-- The cell `i` places after the counter `c`. -/
def cell (cap : ℕ) (c : BitVec w) (i : ℕ) : ℕ := (c+BitVec.ofNat w i).toNat%cap

/-- The queued elements, oldest first. -/
def contents (r : RingQueue w cap α) : List α :=
  (List.range r.count.toNat).map fun i => r.cells (cell cap r.head i)

@[simp] theorem length_contents (r : RingQueue w cap α) : r.contents.length = r.count.toNat := by
  simp [contents]

/-- No element queued; the cells keep what they held. -/
def empty (cells : ℕ → α) : RingQueue w cap α where
  cells := cells
  head := 0
  tail := 0
  count := 0
  tail_eq := by simp
  count_le := by simp

@[simp] theorem contents_empty (cells : ℕ → α) :
    (empty cells : RingQueue w cap α).contents = [] := by
  simp [contents,empty]

/-- Store the elements of a list in the cells from counter `c` on. -/
def writeCells (cap : ℕ) (cells : ℕ → α) (c : BitVec w) : List α → ℕ → α
  | [] => cells
  | x :: xs => writeCells cap (update cells (cell cap c 0) x) (c+1) xs

/-- The elements found in `n` cells from offset `off` after the head on. -/
def peek (r : RingQueue w cap α) (off n : ℕ) : List α :=
  (List.range n).map fun i => r.cells (cell cap r.head (off+i))

theorem peek_zero (r : RingQueue w cap α) (n : ℕ) (h : n ≤ r.count.toNat) :
    r.peek 0 n = r.contents.take n := by
  simp only [peek,contents,← List.map_take,List.take_range,Nat.min_eq_left h,Nat.zero_add]

theorem peek_eq (r : RingQueue w cap α) (off n : ℕ) (h : off+n ≤ r.count.toNat) :
    r.peek off n = (r.contents.drop off).take n := by
  apply ext_getElem
  · simp only [peek,List.length_map,List.length_range,List.length_take,List.length_drop,
      length_contents]
    omega
  · intro i _ _
    simp [peek,contents]

/-- Forget the `n` oldest elements. -/
def drop (r : RingQueue w cap α) (n : ℕ) (h : n ≤ r.count.toNat) : RingQueue w cap α where
  cells := r.cells
  head := r.head+BitVec.ofNat w n
  tail := r.tail
  count := r.count-BitVec.ofNat w n
  tail_eq := by
    rw [r.tail_eq,BitVec.add_assoc,BitVec.add_comm (BitVec.ofNat w n),BitVec.sub_add_cancel]
  count_le := by
    have hl := r.count.isLt
    have hc := r.count_le
    have hn : n < 2^w := by omega
    rw [BitVec.toNat_sub,toNat_ofNat,mod_eq_of_lt hn]
    have he : 2^w-n+r.count.toNat = 2^w+(r.count.toNat-n) := by omega
    rw [he,Nat.add_mod_left,mod_eq_of_lt (by omega)]
    omega

theorem count_drop (r : RingQueue w cap α) (n : ℕ) (h : n ≤ r.count.toNat) :
    (r.drop n h).count.toNat = r.count.toNat-n := by
  have hl := r.count.isLt
  have hn : n < 2^w := by omega
  simp only [drop,BitVec.toNat_sub,toNat_ofNat,mod_eq_of_lt hn]
  have he : 2^w-n+r.count.toNat = 2^w+(r.count.toNat-n) := by omega
  rw [he,Nat.add_mod_left,mod_eq_of_lt (by omega)]

/-- Overwrite the oldest element. -/
def setHead (r : RingQueue w cap α) (x : α) : RingQueue w cap α where
  cells := update r.cells (cell cap r.head 0) x
  head := r.head
  tail := r.tail
  count := r.count
  tail_eq := r.tail_eq
  count_le := r.count_le

@[simp] theorem count_setHead (r : RingQueue w cap α) (x : α) :
    (r.setHead x).count = r.count := rfl

/-- Remove the oldest element and overwrite its cell. -/
def pop (r : RingQueue w cap α) (blank : α) (h : 0 < r.count.toNat) : RingQueue w cap α :=
  (r.setHead blank).drop 1 (by rw [count_setHead]; exact h)

theorem count_pop (r : RingQueue w cap α) (blank : α) (h : 0 < r.count.toNat) :
    (r.pop blank h).count.toNat = r.count.toNat-1 := count_drop _ _ _

section Shape

variable [RingShape w cap]

theorem cell_eq (c : BitVec w) (i : ℕ) : cell cap c i = (c.toNat+i)%cap := by
  have hd : cap ∣ 2^w := RingShape.dvd
  simp only [cell,toNat_add,toNat_ofNat,Nat.add_mod_mod]
  exact Nat.mod_mod_of_dvd _ hd

theorem cell_add (c d : BitVec w) (i : ℕ) : cell cap (c+d) i = cell cap c (d.toNat+i) := by
  have hd : cap ∣ 2^w := RingShape.dvd
  rw [cell_eq,cell_eq,toNat_add,Nat.add_mod,Nat.mod_mod_of_dvd _ hd,← Nat.add_mod,
    Nat.add_assoc]

/-- Within one capacity no two places share a cell. -/
theorem cell_inj (c : BitVec w) {i j : ℕ} (hi : i < cap) (hj : j < cap)
    (h : cell cap c i = cell cap c j) : i = j := by
  rw [cell_eq,cell_eq] at h
  have h' : i ≡ j [MOD cap] := Nat.ModEq.add_left_cancel' _ h
  rwa [Nat.ModEq,mod_eq_of_lt hi,mod_eq_of_lt hj] at h'

omit [RingShape w cap] in
theorem one_toNat (cap : ℕ) [RingShape w cap] : (1 : BitVec w).toNat = 1 := by
  have hp : 0 < cap := RingShape.pos w
  have hl : cap < 2^w := RingShape.lt
  change (BitVec.ofNat w 1).toNat = 1
  rw [toNat_ofNat]
  exact mod_eq_of_lt (by omega)

theorem cell_succ (c : BitVec w) (i : ℕ) : cell cap (c+1) i = cell cap c (i+1) := by
  rw [cell_add,one_toNat cap,Nat.add_comm]

theorem writeCells_outside (cells : ℕ → α) (c : BitVec w) (xs : List α) (j : ℕ)
    (h : ∀ i < xs.length, cell cap c i ≠ j) : writeCells cap cells c xs j = cells j := by
  induction xs generalizing cells c with
  | nil => rfl
  | cons x xs ih =>
    rw [writeCells,ih]
    · exact update_of_ne (fun hj => h 0 (by simp) hj.symm) _ _
    · intro i hi
      rw [cell_succ]
      exact h (i+1) (by simpa using hi)

theorem writeCells_inside (cells : ℕ → α) (c : BitVec w) (xs : List α) (hl : xs.length ≤ cap)
    (i : ℕ) (hi : i < xs.length) : writeCells cap cells c xs (cell cap c i) = xs[i] := by
  induction xs generalizing cells c i with
  | nil => simp at hi
  | cons x xs ih =>
    simp only [List.length_cons] at hl hi
    cases i with
    | zero =>
      rw [writeCells,writeCells_outside]
      · simp
      · intro k hk hc
        rw [cell_succ] at hc
        exact absurd (cell_inj c (by omega) (by omega) hc) (by omega)
    | succ i =>
      rw [writeCells,← cell_succ,ih _ _ (by omega) i (by omega)]
      rfl

/-- Append a list that fits. -/
def write (r : RingQueue w cap α) (xs : List α) (h : r.count.toNat+xs.length ≤ cap) :
    RingQueue w cap α where
  cells := writeCells cap r.cells r.tail xs
  head := r.head
  tail := r.tail+BitVec.ofNat w xs.length
  count := r.count+BitVec.ofNat w xs.length
  tail_eq := by rw [r.tail_eq,BitVec.add_assoc]
  count_le := by
    have hl : cap < 2^w := RingShape.lt
    rw [toNat_add,toNat_ofNat,Nat.add_mod_mod,mod_eq_of_lt (by omega)]
    exact h

section

variable (r : RingQueue w cap α)
include r

theorem count_write (xs : List α) (h : r.count.toNat+xs.length ≤ cap) :
    (r.write xs h).count.toNat = r.count.toNat+xs.length := by
  have hl : cap < 2^w := RingShape.lt
  simp only [write,toNat_add,toNat_ofNat,Nat.add_mod_mod]
  exact mod_eq_of_lt (by omega)

@[simp] theorem contents_write (xs : List α)
    (h : r.count.toNat+xs.length ≤ cap) : (r.write xs h).contents = r.contents++xs := by
  have hcap := r.count_le
  apply ext_getElem
  · simp [count_write]
  · intro i h1 h2
    rw [length_contents,count_write] at h1
    simp only [contents,getElem_map,getElem_range]
    by_cases hi : i < r.count.toNat
    · rw [List.getElem_append_left (by simpa using hi)]
      simp only [getElem_map,getElem_range]
      apply writeCells_outside
      intro k hk hc
      rw [r.tail_eq,cell_add] at hc
      exact absurd (cell_inj r.head (by omega) (by omega) hc) (by omega)
    · rw [List.getElem_append_right (by simpa using hi)]
      have hc : cell cap r.head i = cell cap r.tail (i-r.count.toNat) := by
        have hadd : r.count.toNat+(i-r.count.toNat) = i := by omega
        rw [r.tail_eq,cell_add,hadd]
      have hxs : xs.length ≤ cap := by omega
      have hget := writeCells_inside r.cells r.tail xs hxs (i-r.count.toNat) (by omega)
      simpa only [write,hc,List.length_map,List.length_range] using hget

@[simp] theorem contents_drop (n : ℕ) (h : n ≤ r.count.toNat) :
    (r.drop n h).contents = r.contents.drop n := by
  have hl := r.count.isLt
  have hn : n < 2^w := by omega
  apply ext_getElem
  · simp [count_drop]
  · intro i _ _
    simp only [contents,getElem_map,getElem_range,List.getElem_drop]
    change r.cells (cell cap (r.head+BitVec.ofNat w n) i) = _
    rw [cell_add,toNat_ofNat,mod_eq_of_lt hn]

@[simp] theorem contents_setHead (x y : α) (ys : List α)
    (h : r.contents = y::ys) : (r.setHead x).contents = x::ys := by
  have hc := r.count_le
  have hlen : r.contents.length = ys.length+1 := by rw [h]; rfl
  rw [length_contents] at hlen
  apply ext_getElem
  · simp [setHead,hlen]
  · intro i h1 h2
    have hi : i < ys.length+1 := by simpa using h2
    have hget : ∀ hk : i < r.contents.length, r.contents[i] = (y::ys)[i] := by
      intro hk; simp only [h]
    have hold := hget (by rw [length_contents]; omega)
    simp only [contents,getElem_map,getElem_range] at hold
    simp only [contents,getElem_map,getElem_range,setHead]
    cases i with
    | zero => simp
    | succ i =>
      rw [update_of_ne,hold]
      · rfl
      · intro hc'
        exact absurd (cell_inj r.head (by omega) (by omega) hc') (by omega)

@[simp] theorem contents_pop (blank : α) (h : 0 < r.count.toNat) :
    (r.pop blank h).contents = r.contents.tail := by
  cases hc : r.contents with
  | nil =>
    have hlen := r.length_contents
    rw [hc] at hlen
    simp only [List.length_nil] at hlen
    omega
  | cons y ys => rw [pop,contents_drop,contents_setHead r blank y ys hc]; rfl

end

end Shape

theorem contents_eq_nil (r : RingQueue w cap α) : r.contents = [] ↔ r.count.toNat = 0 := by
  rw [← List.length_eq_zero_iff,length_contents]

/-- The oldest element is the one in the head cell. -/
theorem head?_contents (r : RingQueue w cap α) (h : 0 < r.count.toNat) :
    r.contents.head? = some (r.cells (cell cap r.head 0)) := by
  obtain ⟨n,hn⟩ := Nat.exists_eq_add_of_lt h
  simp [contents,hn,List.range_succ_eq_map]

end RingQueue
