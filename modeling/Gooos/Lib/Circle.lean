import Mathlib

/-!
# The 32-bit sequence circle

Forward distances between 32-bit counters that wrap, and lists of half-open
arcs laid end to end on the circle. Nothing here knows what is being counted.
-/

namespace Circle

open UInt32 (toNat_inj toNat_sub)

/-- Forward distance from `a` to `b`: how often `a` is stepped to reach `b`. -/
def dist (a b : UInt32) : ℕ := (b-a).toNat

@[simp] theorem dist_self (a : UInt32) : dist a a = 0 := by simp [dist]

variable {a b c p q : UInt32}

theorem dist_eq_zero : dist a b = 0 ↔ a = b := by
  have ha := a.toNat_lt
  have hb := b.toNat_lt
  rw [dist,toNat_sub,← toNat_inj]
  omega

@[simp] theorem dist_add_right (a n : UInt32) : dist a (a+n) = n.toNat := by
  have : a+n-a = n := by grind
  rw [dist,this]

/-- Distances add up as long as the two legs stay within one turn. -/
theorem dist_trans (h : dist a b+dist b c < 2^32) : dist a c = dist a b+dist b c := by
  have ha := a.toNat_lt
  have hb := b.toNat_lt
  have hc := c.toNat_lt
  simp only [dist,toNat_sub] at *
  omega

/-- A point moved on by `n` is at most `n` further away. -/
theorem dist_add_le (a b : UInt32) (n : ℕ) : dist a (b+UInt32.ofNat n) ≤ dist a b+n := by
  have ha := a.toNat_lt
  have hb := b.toNat_lt
  simp only [dist,toNat_sub,UInt32.toNat_add,UInt32.toNat_ofNat']
  omega

/-- A point `b` on the way from `a` to `c` splits the distance. -/
theorem dist_split (h : dist a b ≤ dist a c) : dist a b+dist b c = dist a c := by
  have ha := a.toNat_lt
  have hb := b.toNat_lt
  have hc := c.toNat_lt
  simp only [dist,toNat_sub] at *
  omega

theorem dist_left_inj (h : dist a b = dist a c) : b = c := by
  have hb := dist_split (le_of_eq h)
  exact dist_eq_zero.mp (by omega)

/-- Two different points split the circle. -/
theorem dist_add_dist (h : a ≠ b) : dist a b+dist b a = 2^32 := by
  have hne : a.toNat ≠ b.toNat := fun hn => h (toNat_inj.mp hn)
  have ha := a.toNat_lt
  have hb := b.toNat_lt
  simp only [dist,toNat_sub]
  omega

/-- The difference read as a signed number is negative on the far half. -/
theorem toInt32_neg_iff (x : UInt32) : x.toInt32 < 0 ↔ 2^31 ≤ x.toNat := by
  have hx := x.toNat_lt
  rw [Int32.lt_iff_toInt_lt]
  change x.toBitVec.toInt < 0 ↔ _
  rw [BitVec.toInt_eq_toNat_cond]
  simp only [UInt32.toNat_toBitVec]
  split <;> omega

theorem toInt32_nonpos_iff (x : UInt32) : x.toInt32 ≤ 0 ↔ 2^31 ≤ x.toNat ∨ x = 0 := by
  have hx := x.toNat_lt
  rw [Int32.le_iff_toInt_le,← toNat_inj]
  change x.toBitVec.toInt ≤ 0 ↔ _
  rw [BitVec.toInt_eq_toNat_cond]
  simp only [UInt32.toNat_toBitVec,UInt32.toNat_zero]
  split <;> omega

/-- Signed comparison of `a-b`: `a` is strictly before `b`. -/
theorem sub_neg_iff (a b : UInt32) :
    (a-b).toInt32 < 0 ↔ 0 < dist a b ∧ dist a b ≤ 2^31 := by
  have ha := a.toNat_lt
  have hb := b.toNat_lt
  rw [toInt32_neg_iff]
  simp only [dist,toNat_sub]
  omega

theorem sub_nonpos_iff (a b : UInt32) : (a-b).toInt32 ≤ 0 ↔ dist a b ≤ 2^31 := by
  have ha := a.toNat_lt
  have hb := b.toNat_lt
  rw [toInt32_nonpos_iff,← toNat_inj]
  simp only [dist,toNat_sub,UInt32.toNat_zero]
  omega

section Arcs

variable {β : Type} (s e : β → UInt32) (m : ℕ)

/-- Arcs `[s x,e x)` laid end to end from `lo` to `hi`, each of length `1..m`. -/
def Tiles : UInt32 → UInt32 → List β → Prop
  | lo, hi, [] => lo = hi
  | lo, hi, x :: xs => s x = lo ∧ 0 < dist (s x) (e x) ∧ dist (s x) (e x) ≤ m ∧ Tiles (e x) hi xs

variable {s e m} {lo hi : UInt32} {xs : List β}

theorem Tiles.snoc {x : β} (h : Tiles s e m lo hi xs) (hs : s x = hi)
    (hp : 0 < dist (s x) (e x)) (hm : dist (s x) (e x) ≤ m) :
    Tiles s e m lo (e x) (xs++[x]) := by
  induction xs generalizing lo with
  | nil =>
    have hlo : lo = hi := h
    exact ⟨hs.trans hlo.symm,hp,hm,rfl⟩
  | cons y ys ih =>
    obtain ⟨hy,hpy,hmy,ht⟩ := h
    exact ⟨hy,hpy,hmy,ih ht⟩

/-- A tiling of few short arcs spans less than its arc count times `m`. -/
theorem Tiles.dist_le (h : Tiles s e m lo hi xs) (hc : m*xs.length < 2^32) :
    dist lo hi ≤ m*xs.length := by
  induction xs generalizing lo with
  | nil =>
    have hlo : lo = hi := h
    simp [hlo]
  | cons y ys ih =>
    obtain ⟨rfl,_,hmy,ht⟩ := h
    have hlen : m*(y::ys).length = m*ys.length+m := by simp [Nat.mul_add]
    have hrest := ih ht (by omega)
    have hsum := dist_trans (a := s y) (b := e y) (c := hi) (by omega)
    omega

/-- The first arc of a tiling ends no later than the tiling does. -/
theorem Tiles.head_le {y : β} {ys : List β} (h : Tiles s e m lo hi (y::ys))
    (hc : m*(y::ys).length < 2^32) : dist lo (e y)+dist (e y) hi = dist lo hi := by
  obtain ⟨rfl,_,hmy,ht⟩ := h
  have hlen : m*(y::ys).length = m*ys.length+m := by simp [Nat.mul_add]
  have hrest := ht.dist_le (by omega)
  exact (dist_trans (by omega)).symm

/-- `xs` tiles the arc up to `hi` and `p` lies in its first piece: every point
of `[p,hi)` is in exactly one piece, and nothing before `p`'s piece is left. -/
def Covers (s e : β → UInt32) (m : ℕ) (p hi : UInt32) (xs : List β) : Prop :=
  ∃ lo, Tiles s e m lo hi xs ∧ dist lo p ≤ dist lo hi ∧
    ∀ x ∈ xs.head?, dist lo p < dist lo (e x)

theorem Covers.nil_iff (h : Covers s e m p hi xs) (hc : m*xs.length < 2^32) :
    xs = [] ↔ p = hi := by
  obtain ⟨lo,ht,hle,hhead⟩ := h
  cases xs with
  | nil =>
    have hlo : lo = hi := ht
    subst hlo
    simp only [dist_self,Nat.le_zero] at hle
    simp [dist_eq_zero.mp hle]
  | cons y ys =>
    have hlt := hhead y (by simp)
    have hsum := ht.head_le hc
    refine ⟨fun hn => by simp at hn,fun hp => ?_⟩
    subst hp
    omega

theorem covers_nil (p : UInt32) : Covers s e m p p [] := ⟨p,rfl,by simp,by simp⟩

theorem Covers.snoc {x : β} (h : Covers s e m p hi xs)
    (hc : m*(xs.length+1) < 2^32) (hs : s x = hi)
    (hp : 0 < dist (s x) (e x)) (hm : dist (s x) (e x) ≤ m) :
    Covers s e m p (e x) (xs++[x]) := by
  obtain ⟨lo,ht,hle,hhead⟩ := h
  have hlen : m*(xs.length+1) = m*xs.length+m := Nat.mul_add_one _ _
  have hspan := ht.dist_le (by omega)
  rw [hs] at hp hm
  have hsum := dist_trans (a := lo) (b := hi) (c := e x) (by omega)
  refine ⟨lo,ht.snoc hs (hs ▸ hp) (hs ▸ hm),by omega,?_⟩
  cases xs with
  | nil =>
    intro y hy
    obtain rfl : x = y := by simpa using hy
    omega
  | cons y ys => simpa using hhead

/-- Dropping the pieces that end at or before `q` leaves a cover from `q`. -/
theorem Covers.dropWhile {keep : β → Bool} (h : Covers s e m p hi xs)
    (hc : m*xs.length < 2^31) (hq : dist p q ≤ dist p hi)
    (hk : ∀ x, keep x = true ↔ dist (e x) q ≤ 2^31) :
    Covers s e m q hi (xs.dropWhile keep) := by
  induction xs generalizing p with
  | nil =>
    obtain ⟨lo,ht,hle,_⟩ := h
    have hlo : lo = hi := ht
    subst hlo
    simp only [dist_self,Nat.le_zero] at hle
    obtain rfl := dist_eq_zero.mp hle
    simp only [dist_self,Nat.le_zero] at hq
    obtain rfl := dist_eq_zero.mp hq
    simpa using covers_nil lo
  | cons y ys ih =>
    obtain ⟨lo,ht,hle,hhead⟩ := h
    have hspan := ht.dist_le (by omega)
    have hsum := ht.head_le (by omega)
    have hlt := hhead y (by simp)
    have hpq := dist_split hle
    have hlq : dist lo q = dist lo p+dist p q := dist_trans (by omega)
    have hlen : m*(y::ys).length = m*ys.length+m := by simp [Nat.mul_add]
    by_cases hy : dist lo (e y) ≤ dist lo q
    · -- the first piece ends at or before `q`: it goes, and `q` is further on
      have hyq := dist_split hy
      have hkeep : keep y = true := (hk y).mpr (by omega)
      rw [List.dropWhile_cons_of_pos hkeep]
      obtain ⟨hs,hpos,hmy,ht'⟩ := ht
      have hys : Covers s e m (e y) hi ys := by
        refine ⟨e y,ht',by simp,?_⟩
        intro z hz
        cases ys with
        | nil => simp at hz
        | cons w ws =>
          obtain rfl : w = z := by simpa using hz
          obtain ⟨hw,hposw,_,_⟩ := ht'
          rw [hw] at hposw
          simpa using hposw
      exact ih hys (by omega) (by omega)
    · -- `q` is inside the first piece
      have hqy : dist lo q+dist q (e y) = dist lo (e y) := dist_split (by omega)
      have hback : 2^31 < dist (e y) q := by
        have hne : e y ≠ q := by rintro rfl; omega
        have hpos : dist (e y) q+dist q (e y) = 2^32 := by
          have ha := (e y).toNat_lt
          have hb := q.toNat_lt
          have hne' : (e y).toNat ≠ q.toNat := fun hn => hne (toNat_inj.mp hn)
          simp only [dist,toNat_sub]
          omega
        omega
      have hkeep : ¬keep y = true := by rw [hk]; omega
      rw [List.dropWhile_cons_of_neg hkeep]
      refine ⟨lo,ht,by omega,?_⟩
      intro z hz
      obtain rfl : y = z := by simpa using hz
      omega

/-- Outside its span no piece of a tiling is met. -/
theorem Tiles.countP_eq_zero (h : Tiles s e m lo hi xs) (hc : m*xs.length < 2^32)
    (hq : dist lo hi ≤ dist lo q) :
    xs.countP (fun x => decide (dist (s x) q < dist (s x) (e x))) = 0 := by
  induction xs generalizing lo with
  | nil => rfl
  | cons y ys ih =>
    have hsum := h.head_le hc
    obtain ⟨rfl,_,_,ht⟩ := h
    have hlen : m*(y::ys).length = m*ys.length+m := by simp [Nat.mul_add]
    have hsplit := dist_split (a := s y) (b := e y) (c := q) (by omega)
    have hrest := ih ht (by omega) (by omega)
    rw [List.countP_cons_of_neg (by simp; omega),hrest]

/-- Inside its span exactly one piece of a tiling is met. -/
theorem Tiles.countP_eq_one (h : Tiles s e m lo hi xs) (hc : m*xs.length < 2^32)
    (hq : dist lo q < dist lo hi) :
    xs.countP (fun x => decide (dist (s x) q < dist (s x) (e x))) = 1 := by
  induction xs generalizing lo with
  | nil =>
    have hlo : lo = hi := h
    rw [hlo,dist_self] at hq
    omega
  | cons y ys ih =>
    have hsum := h.head_le hc
    obtain ⟨rfl,_,hmy,ht⟩ := h
    have hlen : m*(y::ys).length = m*ys.length+m := by simp [Nat.mul_add]
    by_cases hy : dist (s y) q < dist (s y) (e y)
    · -- `q` is in the first piece, so it is past the end of the others
      have hback : dist (e y) hi ≤ dist (e y) q := by
        have hsplit := dist_split (a := s y) (b := q) (c := e y) (by omega)
        have hpos : dist (e y) q+dist q (e y) = 2^32 := by
          have hne : (e y).toNat ≠ q.toNat := by
            intro hn
            rw [toNat_inj.mp hn] at hy
            omega
          have ha := (e y).toNat_lt
          have hb := q.toNat_lt
          simp only [dist,toNat_sub]
          omega
        have hspan := ht.dist_le (by omega)
        omega
      rw [List.countP_cons_of_pos (by simpa using hy),ht.countP_eq_zero (by omega) hback]
    · have hsplit := dist_split (a := s y) (b := e y) (c := q) (by omega)
      rw [List.countP_cons_of_neg (by simpa using hy)]
      exact ih ht (by omega) (by omega)

/-- Every point from `p` up to `hi` lies in exactly one piece of a cover. -/
theorem Covers.countP_eq_one (h : Covers s e m p hi xs)
    (hc : m*xs.length < 2^31) (hq : dist p q < dist p hi) :
    xs.countP (fun x => decide (dist (s x) q < dist (s x) (e x))) = 1 := by
  obtain ⟨lo,ht,hle,_⟩ := h
  have hspan := ht.dist_le (by omega)
  have hsplit := dist_split hle
  have hpq : dist lo q = dist lo p+dist p q := dist_trans (by omega)
  exact ht.countP_eq_one (by omega) (by omega)

end Arcs

end Circle
