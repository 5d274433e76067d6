import Mathlib

/-!
# Finite maps in a row of slots

Each of `n` slots is free or holds a key with its value, and no key is held twice. Keys are found
by a search through the slots.
-/

namespace SlotMap

open Function

variable {n : ℕ} {κ ν : Type} [DecidableEq κ] {s : Fin n → Option (κ × ν)} {i : Fin n}
  {a b : κ} {v w : ν}

/-- The first slot that holds the key. -/
def find (s : Fin n → Option (κ × ν)) (a : κ) : Option (Fin n) :=
  (List.finRange n).find? fun i => (s i).map Prod.fst = some a

def firstFree (s : Fin n → Option (κ × ν)) : Option (Fin n) :=
  (List.finRange n).find? fun i => (s i).isNone

def lookup (s : Fin n → Option (κ × ν)) (a : κ) : Option ν :=
  (find s a).bind fun i => (s i).map Prod.snd

/-- All keys, in the order of the slots. -/
def keys (s : Fin n → Option (κ × ν)) : List κ :=
  (List.finRange n).filterMap fun i => (s i).map Prod.fst

def Distinct (s : Fin n → Option (κ × ν)) : Prop :=
  ∀ i j a v w, s i = some (a,v) → s j = some (a,w) → i = j

omit [DecidableEq κ] in
theorem distinct_empty : Distinct (fun _ : Fin n => (none : Option (κ × ν))) := nofun

theorem find_eq_none : find s a = none ↔ ∀ i v, s i ≠ some (a,v) := by
  rw [find,List.find?_eq_none]
  simp

/-- A search finds the one slot of its key. -/
theorem find_eq_some (hs : Distinct s) : find s a = some i ↔ ∃ v, s i = some (a,v) := by
  constructor
  · intro h
    have hi := List.find?_some h
    simpa using hi
  · rintro ⟨v,hv⟩
    cases hf : find s a with
    | none => exact absurd hv (find_eq_none.mp hf i v)
    | some j =>
      have hj := List.find?_some hf
      obtain ⟨w,hw⟩ : ∃ w, s j = some (a,w) := by simpa using hj
      rw [hs j i a w v hw hv]

theorem lookup_eq_some (hs : Distinct s) : lookup s a = some v ↔ ∃ i, s i = some (a,v) := by
  rw [lookup,Option.bind_eq_some_iff]
  constructor
  · rintro ⟨i,hi,hv⟩
    obtain ⟨w,hw⟩ := (find_eq_some hs).mp hi
    rw [hw] at hv
    cases hv
    exact ⟨i,hw⟩
  · rintro ⟨i,hi⟩
    exact ⟨i,(find_eq_some hs).mpr ⟨v,hi⟩,by rw [hi]; rfl⟩

theorem lookup_eq_none : lookup s a = none ↔ find s a = none := by
  rw [lookup,Option.bind_eq_none_iff]
  constructor
  · intro h
    by_contra hne
    obtain ⟨i,hi⟩ := Option.ne_none_iff_exists'.mp hne
    have hnone := h i hi
    have hsome := List.find?_some hi
    simp_all
  · intro h i hi
    rw [h] at hi
    cases hi

/-- Two rows with the same entries apart from one key give the same map apart from that key. -/
theorem lookup_congr {s t : Fin n → Option (κ × ν)} (hs : Distinct s) (ht : Distinct t)
    (h : ∀ v, (∃ i, t i = some (b,v)) ↔ ∃ i, s i = some (b,v)) : lookup t b = lookup s b := by
  refine Option.ext fun v => ?_
  rw [lookup_eq_some ht,lookup_eq_some hs]
  exact h v

/-! ### Writing one slot -/

/-- The slot of a key, or a free slot if the key is new, may get any value for the key. -/
theorem Distinct.write (hs : Distinct s) (hi : find s a = some i ∨ find s a = none ∧ s i = none)
    (v : ν) : Distinct (update s i (some (a,v))) := by
  have hkey (j : Fin n) (w : ν) (hj : s j = some (a,w)) : j = i := by
    obtain hi | ⟨hi,-⟩ := hi
    · obtain ⟨u,hu⟩ := (find_eq_some hs).mp hi
      exact hs j i a w u hj hu
    · exact absurd hj (find_eq_none.mp hi j w)
  intro j k b u w hj hk
  by_cases hji : j = i
  · by_cases hki : k = i
    · rw [hji,hki]
    · rw [hji,update_self] at hj
      rw [update_of_ne hki] at hk
      cases hj
      exact absurd (hkey k w hk) hki
  · rw [update_of_ne hji] at hj
    by_cases hki : k = i
    · rw [hki,update_self] at hk
      cases hk
      exact absurd (hkey j u hj) hji
    · rw [update_of_ne hki] at hk
      exact hs j k b u w hj hk

theorem lookup_write_self (hs : Distinct s)
    (hi : find s a = some i ∨ find s a = none ∧ s i = none) (v : ν) :
    lookup (update s i (some (a,v))) a = some v :=
  (lookup_eq_some (hs.write hi v)).mpr ⟨i,update_self ..⟩

/-- Other keys do not change. -/
theorem lookup_write_of_ne (hs : Distinct s)
    (hi : find s a = some i ∨ find s a = none ∧ s i = none) (v : ν) (hb : b ≠ a) :
    lookup (update s i (some (a,v))) b = lookup s b := by
  refine lookup_congr hs (hs.write hi v) fun w => ⟨?_,?_⟩
  · rintro ⟨j,hj⟩
    have hji : j ≠ i := by
      rintro rfl
      rw [update_self] at hj
      cases hj
      exact hb rfl
    exact ⟨j,(update_of_ne hji ..).symm.trans hj⟩
  · rintro ⟨j,hj⟩
    have hji : j ≠ i := by
      rintro rfl
      obtain hi | ⟨-,hi⟩ := hi
      · obtain ⟨u,hu⟩ := (find_eq_some hs).mp hi
        rw [hu] at hj
        cases hj
        exact hb rfl
      · rw [hi] at hj
        cases hj
    exact ⟨j,(update_of_ne hji ..).trans hj⟩

omit [DecidableEq κ] in
theorem Distinct.clear (hs : Distinct s) (i : Fin n) : Distinct (update s i none) := by
  have hold (j : Fin n) (x : κ × ν) (hj : update s i none j = some x) : s j = some x := by
    by_cases hji : j = i
    · rw [hji,update_self] at hj
      cases hj
    · rwa [update_of_ne hji] at hj
  exact fun j k a v w hj hk => hs j k a v w (hold j _ hj) (hold k _ hk)

theorem lookup_clear_self (hs : Distinct s) (hi : find s a = some i) :
    lookup (update s i none) a = none := by
  refine lookup_eq_none.mpr (find_eq_none.mpr fun j w hj => ?_)
  by_cases hji : j = i
  · rw [hji,update_self] at hj
    cases hj
  · rw [update_of_ne hji] at hj
    obtain ⟨u,hu⟩ := (find_eq_some hs).mp hi
    exact hji (hs j i a w u hj hu)

theorem lookup_clear_of_ne (hs : Distinct s) (hi : find s a = some i) (hb : b ≠ a) :
    lookup (update s i none) b = lookup s b := by
  refine lookup_congr hs (hs.clear i) fun w => ⟨?_,?_⟩
  · rintro ⟨j,hj⟩
    have hji : j ≠ i := by
      rintro rfl
      rw [update_self] at hj
      cases hj
    exact ⟨j,(update_of_ne hji ..).symm.trans hj⟩
  · rintro ⟨j,hj⟩
    have hji : j ≠ i := by
      rintro rfl
      obtain ⟨u,hu⟩ := (find_eq_some hs).mp hi
      rw [hu] at hj
      cases hj
      exact hb rfl
    exact ⟨j,(update_of_ne hji ..).trans hj⟩

/-! ### Keys -/

theorem mem_keys (hs : Distinct s) : a ∈ keys s ↔ ∃ v, lookup s a = some v := by
  simp only [keys,List.mem_filterMap,List.mem_finRange,true_and,Option.map_eq_some_iff,
    lookup_eq_some hs]
  constructor
  · rintro ⟨i,⟨b,v⟩,hi,rfl⟩
    exact ⟨v,i,hi⟩
  · rintro ⟨v,i,hi⟩
    exact ⟨i,(a,v),hi,rfl⟩

omit [DecidableEq κ] in
theorem keys_nodup (hs : Distinct s) : (keys s).Nodup := by
  refine (List.nodup_finRange n).filterMap fun i j a hi hj => ?_
  obtain ⟨⟨b,v⟩,hsi,rfl⟩ := Option.map_eq_some_iff.mp hi
  obtain ⟨⟨c,w⟩,hsj,hc⟩ := Option.map_eq_some_iff.mp hj
  obtain rfl : c = b := hc
  exact hs i j c v w hsi hsj

omit [DecidableEq κ] in
/-- A free slot is found as long as there are fewer keys than slots. -/
theorem firstFree_eq_none : firstFree s = none ↔ (keys s).length = n := by
  have hlen : (keys s).length = n ↔ (keys s).length = (List.finRange n).length := by
    rw [List.length_finRange]
  rw [hlen,keys,List.filterMap_length_eq_length,firstFree,List.find?_eq_none]
  simp [Option.isSome_iff_ne_none]

omit [DecidableEq κ] in
theorem keys_length_le : (keys s).length ≤ n := by
  calc (keys s).length ≤ (List.finRange n).length := List.length_filterMap_le ..
    _ = n := List.length_finRange

omit [DecidableEq κ] in
theorem firstFree_some (h : firstFree s = some i) : s i = none := by
  have := List.find?_some h
  simpa using this

end SlotMap
