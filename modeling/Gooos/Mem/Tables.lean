import Gooos.Mem.Spawn

/-!
# Address spaces

The private part of a process's page tables as a tree of frames, and what the allocator and
the walks of `vm.go` do to it. Entries 0 and 3 of the PDP belong to the kernel; the tree says
nothing about what is below them.
-/

namespace Gooos.Mem

open Radix Function
open Option (getD_some some_inj)

/-- Paths through the entries that `newProcPML4` copies from the boot PDP. -/
def sharedPath : List ℕ → Bool
  | 0::0::_ => true
  | 0::3::_ => true
  | _ => false

/-- The indices of the four levels. -/
def vpath (v : ℕ) : List ℕ := [Vm.pml4Idx v,Vm.pdpIdx v,Vm.pdIdx v,Vm.ptIdx v]

theorem sharedPath_append {p q : List ℕ} (h : sharedPath (p++q) = false) : sharedPath p = false := by
  unfold sharedPath
  split
  · simp [sharedPath] at h
  · simp [sharedPath] at h
  · rfl

theorem sharedPath_singleton (i : ℕ) : sharedPath [i] = false := by
  cases i <;> rfl

/-! ### Entries of private tables -/

/-- The entry leads to a frame. The user bit may be missing while no page is mapped below. -/
def Links (e g : ℕ) : Prop := e ||| pageUser = entryOf g userFlags

namespace Links

variable {e g : ℕ}

theorem of_entryOf (g : ℕ) : Links (entryOf g userFlags) g := by
  rw [Links,entryOf,Nat.or_assoc]
  rfl

theorem or (h : Links e g) : Links (e ||| pageUser) g := by
  rw [Links,Nat.or_assoc]
  exact h

theorem frameOf (h : Links e g) : frameOf e = g := by
  rw [← frameOf_or_pageUser,h]
  exact frameOf_entryOf g (by decide)

theorem testBit (h : Links e g) {k : ℕ} (hk : k < 12) (hne : k ≠ 2) :
    e.testBit k = userFlags.testBit k := by
  rw [← testBit_or_pageUser e hne,h,testBit_entryOf g hk]

theorem present (h : Links e g) : present e = true := h.testBit (by decide) (by decide)

theorem writable (h : Links e g) : writable e = true := h.testBit (by decide) (by decide)

theorem not_huge (h : Links e g) : huge e = false := h.testBit (by decide) (by decide)

end Links

theorem user_or_pageUser (e : ℕ) : user (e ||| pageUser) = true := by
  rw [user,Nat.testBit_or]
  change (e.testBit 2 || (2^2).testBit 2) = true
  rw [Nat.testBit_two_pow_self,Bool.or_true]

theorem user_entryOf (g : ℕ) : user (entryOf g userFlags) = true :=
  testBit_entryOf g (by decide)

/-! ### The allocator -/

namespace Vm

variable {σ σ' : Vm} {f i e : ℕ}

def Free (σ : Vm) (f : ℕ) : Prop := f ∈ σ.freeStack ∨ σ.nextFreePage ≤ f

instance (σ : Vm) : DecidablePred σ.Free := fun f =>
  inferInstanceAs (Decidable (f ∈ σ.freeStack ∨ σ.nextFreePage ≤ f))

/-- A free frame is free once, and frame 0 never is. -/
structure Wf (σ : Vm) : Prop where
  nodup : σ.freeStack.Nodup
  below : ∀ f ∈ σ.freeStack, f < σ.nextFreePage
  zero : ¬σ.Free 0

theorem setCell_mem (σ : Vm) (f i e g j : ℕ) :
    (σ.setCell f i e).mem g j = if g = f ∧ j = i then e else σ.mem g j := by
  change update σ.mem f (update (σ.mem f) i e) g j = _
  by_cases hg : g = f
  · subst hg
    rw [update_self]
    by_cases hj : j = i
    · subst hj
      rw [update_self,if_pos ⟨rfl,rfl⟩]
    · rw [update_of_ne hj,if_neg fun h => hj h.2]
  · rw [update_of_ne hg,if_neg fun h => hg h.1]

theorem setCell_mem_of_ne (σ : Vm) {f g : ℕ} (i e : ℕ) (hg : g ≠ f) :
    (σ.setCell f i e).mem g = σ.mem g := update_of_ne hg ..

theorem Wf.setCell (h : σ.Wf) : (σ.setCell f i e).Wf := ⟨h.nodup,h.below,h.zero⟩

end Vm

/-- `f` is taken from the free frames and zeroed. -/
structure Allocs (σ : Vm) (f : ℕ) (σ' : Vm) : Prop where
  was : σ.Free f
  free : ∀ g, σ'.Free g ↔ σ.Free g ∧ g ≠ f
  mem : σ'.mem = update σ.mem f fun _ => 0
  wf : σ'.Wf

namespace Allocs

variable {σ σ' : Vm} {f g : ℕ}

theorem busy (h : Allocs σ f σ') : ¬σ'.Free f := fun hf => ((h.free f).mp hf).2 rfl

theorem mem_self (h : Allocs σ f σ') (i : ℕ) : σ'.mem f i = 0 := by
  rw [h.mem,update_self]

theorem mem_of_ne (h : Allocs σ f σ') (hg : g ≠ f) : σ'.mem g = σ.mem g := by
  rw [h.mem]
  exact update_of_ne hg ..

theorem mem_of_busy (h : Allocs σ f σ') (hg : ¬σ.Free g) : σ'.mem g = σ.mem g :=
  h.mem_of_ne fun heq : g = f => hg (heq ▸ h.was)

theorem ne_zero (h : Allocs σ f σ') (hwf : σ.Wf) : f ≠ 0 := by
  rintro rfl
  exact hwf.zero h.was

end Allocs

theorem Vm.Wf.allocPage {σ : Vm} (h : σ.Wf) : Allocs σ σ.allocPage.1 σ.allocPage.2 := by
  have hnodup := h.nodup
  have hbelow := h.below
  have hzero := h.zero
  rw [Vm.Free] at hzero
  rw [Vm.allocPage]
  cases hs : σ.freeStack with
  | nil =>
    refine ⟨.inr le_rfl,fun g => ?_,rfl,⟨?_,?_,?_⟩⟩
    · simp only [Vm.Free,Vm.clear,hs,List.not_mem_nil,false_or]
      omega
    · exact List.nodup_nil
    · intro g hg
      simp [Vm.clear] at hg
    · simp only [Vm.Free,Vm.clear,List.not_mem_nil,false_or] at hzero ⊢
      omega
  | cons f fs =>
    rw [hs] at hnodup hbelow hzero
    obtain ⟨hf,hfs⟩ := List.nodup_cons.mp hnodup
    have hlt := hbelow f (List.mem_cons_self ..)
    refine ⟨.inl (by rw [hs]; exact List.mem_cons_self ..),fun g => ?_,rfl,
      ⟨hfs,fun g hg => hbelow g (List.mem_cons_of_mem _ hg),?_⟩⟩
    · simp only [Vm.Free,Vm.clear,hs,List.mem_cons]
      constructor
      · rintro (hg | hg)
        · exact ⟨.inl (.inr hg),fun heq => hf (heq ▸ hg)⟩
        · exact ⟨.inr hg,by omega⟩
      · rintro ⟨(rfl | hg) | hg,hne⟩
        · exact absurd rfl hne
        · exact .inl hg
        · exact .inr hg
    · rintro (hg | hg)
      · exact hzero (.inl (List.mem_cons_of_mem _ hg))
      · exact hzero (.inr hg)

theorem bootVm_wf : bootVm.Wf := ⟨List.nodup_nil,fun _ hf => (by cases hf),by decide⟩

/-! ### Address spaces -/

/-- The tables below `root` are the tree `T`. On the way to a mapped page every entry
has the user bit. -/
structure Space (σ : Vm) (root : ℕ) (T : Tree ℕ ℕ) : Prop where
  wf : σ.Wf
  holds : Holds Links 0 (fun p => sharedPath p = false) 4 σ.mem T
  root : T [] = some root
  busy : ∀ p f, T p = some f → ¬σ.Free f ∧ f ≠ 0
  lit : ∀ q, q.length = 4 → T q ≠ none → ∀ p i f, p++[i] <+: q → T p = some f →
    user (σ.mem f i) = true

/-- From `σ` and `T` on, only tables of `T` and frames that were taken have changed, tables
have stayed where they were, the frames that joined the tree were free, and neither user bits
nor the kernel's entries were lost. Whether frame 0 is among the unchanged ones is up to `z`. -/
structure Grows (z : Prop) (σ : Vm) (T : Tree ℕ ℕ) (σ' : Vm) (T' : Tree ℕ ℕ) : Prop where
  free : ∀ f, σ'.Free f → σ.Free f
  idle : ∀ f, σ'.Free f → σ'.mem f = σ.mem f
  kept : ∀ f, ¬σ.Free f → (f = 0 → z) → (∀ p, T p = some f → p.length = 4) → σ'.mem f = σ.mem f
  tables : ∀ p f, T p = some f → p.length < 4 → T' p = some f
  fresh : ∀ p f, T' p = some f → T p = some f ∨ σ.Free f
  lit : ∀ p f i, T p = some f → p.length < 4 → user (σ.mem f i) = true →
    user (σ'.mem f i) = true
  shared : ∀ p f i, T p = some f → p.length < 4 → sharedPath (p++[i]) = true →
    σ'.mem f i = σ.mem f i

/-- The same without a word on the contents of pages: from `σ` and `T` on, what is neither in
the tree nor taken has not changed. -/
structure Touches (z : Prop) (σ : Vm) (T : Tree ℕ ℕ) (σ' : Vm) (T' : Tree ℕ ℕ) : Prop where
  free : ∀ f, σ'.Free f → σ.Free f
  idle : ∀ f, σ'.Free f → σ'.mem f = σ.mem f
  kept : ∀ f, ¬σ.Free f → (f = 0 → z) → (∀ p, T p ≠ some f) → σ'.mem f = σ.mem f
  tables : ∀ p f, T p = some f → p.length < 4 → T' p = some f
  fresh : ∀ p f, T' p = some f → T p = some f ∨ σ.Free f
  shared : ∀ p f i, T p = some f → p.length < 4 → sharedPath (p++[i]) = true →
    σ'.mem f i = σ.mem f i

section Space

variable {z : Prop} {σ σ' σ₁ σ₂ : Vm} {root : ℕ} {T T' T₁ T₂ : Tree ℕ ℕ} {p : List ℕ}
  {i t g : ℕ}

theorem Grows.refl (σ : Vm) (T : Tree ℕ ℕ) : Grows z σ T σ T :=
  ⟨fun _ h => h,fun _ _ => rfl,fun _ _ _ _ => rfl,fun _ _ h _ => h,fun _ _ h => .inl h,
    fun _ _ _ _ _ h => h,
    fun _ _ _ _ _ _ => rfl⟩

theorem Grows.trans (h₁ : Grows z σ T σ₁ T₁) (h₂ : Grows z σ₁ T₁ σ₂ T₂) : Grows z σ T σ₂ T₂ where
  free f hf := h₁.free f (h₂.free f hf)
  idle f hf := by rw [h₂.idle f hf,h₁.idle f (h₂.free f hf)]
  kept f hf hz hleaf := by
    rw [h₂.kept f (fun hf₁ => hf (h₁.free f hf₁)) hz ?_,h₁.kept f hf hz hleaf]
    intro p hp
    obtain hp | hfree := h₁.fresh p f hp
    · exact hleaf p hp
    · exact absurd hfree hf
  tables p f hp hlen := h₂.tables p f (h₁.tables p f hp hlen) hlen
  fresh p f hp := by
    obtain hp | hfree := h₂.fresh p f hp
    · exact h₁.fresh p f hp
    · exact .inr (h₁.free f hfree)
  lit p f i hp hlen hu := h₂.lit p f i (h₁.tables p f hp hlen) hlen (h₁.lit p f i hp hlen hu)
  shared p f i hp hlen hs := by
    rw [h₂.shared p f i (h₁.tables p f hp hlen) hlen hs,h₁.shared p f i hp hlen hs]

theorem Grows.touches (h : Grows z σ T σ' T') : Touches z σ T σ' T' where
  free := h.free
  idle := h.idle
  kept f hf hz hnot := h.kept f hf hz fun p hp => absurd hp (hnot p)
  tables := h.tables
  fresh := h.fresh
  shared := h.shared

theorem Touches.trans (h₁ : Touches z σ T σ₁ T₁) (h₂ : Touches z σ₁ T₁ σ₂ T₂) :
    Touches z σ T σ₂ T₂ where
  free f hf := h₁.free f (h₂.free f hf)
  idle f hf := by rw [h₂.idle f hf,h₁.idle f (h₂.free f hf)]
  kept f hf hz hnot := by
    rw [h₂.kept f (fun hf₁ => hf (h₁.free f hf₁)) hz ?_,h₁.kept f hf hz hnot]
    intro p hp
    obtain hp | hfree := h₁.fresh p f hp
    · exact hnot p hp
    · exact hf hfree
  tables p f hp hlen := h₂.tables p f (h₁.tables p f hp hlen) hlen
  fresh p f hp := by
    obtain hp | hfree := h₂.fresh p f hp
    · exact h₁.fresh p f hp
    · exact .inr (h₁.free f hfree)
  shared p f i hp hlen hs := by
    rw [h₂.shared p f i (h₁.tables p f hp hlen) hlen hs,h₁.shared p f i hp hlen hs]

section

variable (h : Space σ root T)
include h

/-- Taking a free frame concerns no tree. -/
theorem Space.alloc (ha : Allocs σ g σ') : Space σ' root T where
  wf := ha.wf
  holds := h.holds.congr fun p f i hp _ _ => by rw [ha.mem_of_busy (h.busy p f hp).1]
  root := h.root
  busy p f hp := ⟨fun hf => (h.busy p f hp).1 ((ha.free f).mp hf).1,(h.busy p f hp).2⟩
  lit q hlen hq p i f hpre hp := by
    rw [ha.mem_of_busy (h.busy p f hp).1]
    exact h.lit q hlen hq p i f hpre hp

theorem Grows.alloc (ha : Allocs σ g σ') : Grows z σ T σ' T where
  free f hf := ((ha.free f).mp hf).1
  idle f hf := ha.mem_of_ne ((ha.free f).mp hf).2
  kept f hf _ _ := ha.mem_of_busy hf
  tables _ _ hp _ := hp
  fresh _ _ hp := .inl hp
  lit p f i hp _ hu := by rwa [ha.mem_of_busy (h.busy p f hp).1]
  shared p f i hp _ _ := by rw [ha.mem_of_busy (h.busy p f hp).1]

/-- An allocated frame is not in the tree. -/
theorem Space.not_mem_of_allocs (ha : Allocs σ g σ') (q : List ℕ) :
    T q ≠ some g := fun hq => (h.busy q g hq).1 ha.was

/-- A private entry is not one of the kernel's. -/
theorem Space.setCell_shared (hp : T p = some t)
    (ho : sharedPath (p++[i]) = false) {q : List ℕ} {f j e : ℕ} (hq : T q = some f)
    (hs : sharedPath (q++[j]) = true) : (σ.setCell t i e).mem f j = σ.mem f j := by
  rw [Vm.setCell_mem,if_neg]
  rintro ⟨rfl,rfl⟩
  rw [h.holds.inj q p f hq hp,ho] at hs
  cases hs

/-- Setting the user bit of an entry. -/
theorem Space.relink (hp : T p = some t) (hg : T (p++[i]) = some g) :
    Space (σ.setCell t i (σ.mem t i ||| pageUser)) root T where
  wf := h.wf.setCell
  holds := h.holds.relink fun q f j hq _ _ => by
    rw [Vm.setCell_mem]
    by_cases hcell : f = t ∧ j = i
    · obtain ⟨rfl,rfl⟩ := hcell
      obtain rfl := h.holds.inj q p f hq hp
      rw [if_pos ⟨rfl,rfl⟩]
      exact .inr ⟨g,hg,(h.holds.linked q j f g hq hg).or⟩
    · exact .inl (if_neg hcell)
  root := h.root
  busy := h.busy
  lit q hlen hq p' j f hpre hp' := by
    rw [Vm.setCell_mem]
    split
    · exact user_or_pageUser _
    · exact h.lit q hlen hq p' j f hpre hp'

theorem Grows.relink (hp : T p = some t) (hd : p.length < 4) (ho : sharedPath (p++[i]) = false) :
    Grows z σ T (σ.setCell t i (σ.mem t i ||| pageUser)) T where
  free _ hf := hf
  idle f hf := Vm.setCell_mem_of_ne σ i _ fun heq => (h.busy p t hp).1 (heq ▸ hf)
  kept f _ _ hleaf := by
    refine Vm.setCell_mem_of_ne σ i _ ?_
    rintro rfl
    have := hleaf p hp
    omega
  tables _ _ hp _ := hp
  fresh _ _ hp := .inl hp
  lit q f j _ _ hu := by
    rw [Vm.setCell_mem]
    split
    · exact user_or_pageUser _
    · exact hu
  shared q f j hq _ hs := h.setCell_shared hp ho hq hs

/-- The kernel's entries are no part of the tree. -/
theorem Space.setShared (hp : T p = some t) {e : ℕ}
    (hs : sharedPath (p++[i]) = true) : Space (σ.setCell t i e) root T := by
  have hcell {q : List ℕ} {f j : ℕ} (hq : T q = some f) (ho : sharedPath (q++[j]) = false) :
      (σ.setCell t i e).mem f j = σ.mem f j := by
    rw [Vm.setCell_mem,if_neg]
    rintro ⟨rfl,rfl⟩
    obtain rfl := h.holds.inj q p f hq hp
    rw [hs] at ho
    cases ho
  refine ⟨h.wf.setCell,h.holds.congr fun q f j hq _ ho => hcell hq ho,h.root,h.busy,?_⟩
  rintro q hlen hq p' j f ⟨r,rfl⟩ hp'
  rw [hcell hp' (sharedPath_append (h.holds.inside _ hq).1)]
  exact h.lit _ hlen hq p' j f ⟨r,rfl⟩ hp'

/-- A new entry: for a blank table where there was none, or for a page, whose way must
have its user bits. -/
theorem Space.graft (hp : T p = some t) (hd : p.length < 4)
    (ho : sharedPath (p++[i]) = false) (hg : ∀ q, T q ≠ some g) (hbusy : ¬σ.Free g ∧ g ≠ 0)
    (hnew : T (p++[i]) = none ∨ p.length+1 = 4) (hzero : p.length+1 < 4 → ∀ j, σ.mem g j = 0)
    (hlit : p.length+1 = 4 → ∀ q j f, q++[j] <+: p → T q = some f →
      user (σ.mem f j) = true) :
    Space (σ.setCell t i (entryOf g userFlags)) root (update T (p++[i]) (some g)) := by
  have hne : ([] : List ℕ) ≠ p++[i] := by simp
  have htg : g ≠ t := fun heq => hg p (heq ▸ hp)
  have hother {q : List ℕ} (hq : q ≠ p++[i]) : update T (p++[i]) (some g) q = T q :=
    update_of_ne hq ..
  refine ⟨h.wf.setCell,?_,?_,?_,?_⟩
  · refine h.holds.graft hp hd ho hg hnew ?_ ?_ ?_
    · rw [Vm.setCell_mem,if_pos ⟨rfl,rfl⟩]
      exact Links.of_entryOf g
    · intro hlen j
      rw [Vm.setCell_mem_of_ne σ i _ htg]
      exact hzero hlen j
    · intro q f j _ _ hcell
      rw [Vm.setCell_mem,if_neg hcell]
  · rw [hother hne]
    exact h.root
  · intro q f hq
    by_cases hqp : q = p++[i]
    · rw [hqp,update_self,some_inj] at hq
      exact hq ▸ hbusy
    · rw [hother hqp] at hq
      exact h.busy q f hq
  · intro q hlen hq p' j f hpre hp'
    rw [Vm.setCell_mem]
    split
    · exact user_entryOf g
    · rename_i hcell
      -- nothing of full length goes through the new frame
      have hp'ne : p' ≠ p++[i] := by
        rintro rfl
        have hle := hpre.length_le
        simp only [List.length_append,List.length_singleton] at hle
        obtain ⟨r,rfl⟩ := hpre
        have hqne : p++[i]++[j]++r ≠ p++[i] := by
          intro heq
          have := congrArg List.length heq
          simp only [List.length_append,List.length_singleton] at this
          omega
        rw [hother hqne,List.append_assoc (p++[i])] at hq
        obtain hnew | hnew := hnew
        · exact h.holds.of_append hq hnew
        · omega
      rw [hother hp'ne] at hp'
      by_cases hqp : q = p++[i]
      · subst hqp
        obtain heq | hpre := List.prefix_concat_iff.mp hpre
        · obtain ⟨rfl,hj⟩ := List.append_inj' heq rfl
          rw [hp] at hp'
          exact absurd ⟨(some_inj.mp hp').symm,by simpa using hj⟩ hcell
        · exact hlit (by simpa using hlen) p' j f hpre hp'
      · rw [hother hqp] at hq
        exact h.lit q hlen hq p' j f hpre hp'

end

theorem Grows.graft (h : Grows z σ₁ T₁ σ T) (hs : Space σ root T) (hp : T p = some t)
    (hd : p.length < 4) (ho : sharedPath (p++[i]) = false) (hfree : σ₁.Free g)
    (hnew : T (p++[i]) = none ∨ p.length+1 = 4) :
    Grows z σ₁ T₁ (σ.setCell t i (entryOf g userFlags)) (update T (p++[i]) (some g)) where
  free f hf := h.free f hf
  idle f hf := by
    have hne : f ≠ t := fun heq => (hs.busy p t hp).1 (heq ▸ hf)
    rw [Vm.setCell_mem_of_ne σ i _ hne,h.idle f hf]
  kept f hf hz hleaf := by
    rw [Vm.setCell_mem_of_ne σ i _ ?_,h.kept f hf hz hleaf]
    rintro rfl
    obtain hp | hfree := h.fresh p f hp
    · have := hleaf p hp
      omega
    · exact hf hfree
  tables q f hq hlen := by
    have hq' := h.tables q f hq hlen
    rw [update_of_ne ?_]
    · exact hq'
    · rintro rfl
      obtain hnew | hnew := hnew
      · rw [hnew] at hq'
        cases hq'
      · rw [List.length_append,List.length_singleton] at hlen
        omega
  fresh q f hq := by
    by_cases hqp : q = p++[i]
    · rw [hqp,update_self,some_inj] at hq
      exact .inr (hq ▸ hfree)
    · rw [update_of_ne hqp] at hq
      exact h.fresh q f hq
  lit q f j hq hlen hu := by
    rw [Vm.setCell_mem]
    split
    · exact user_entryOf g
    · exact h.lit q f j hq hlen hu
  shared q f j hq hlen hsh := by
    rw [hs.setCell_shared hp ho (h.tables q f hq hlen) hsh,h.shared q f j hq hlen hsh]

/-! ### Walks -/

/-- One level down: the table that is there, or a new one. -/
theorem Space.walkOrCreate (h : Space σ root T) (hp : T p = some t) (hd : p.length+1 < 4)
    (ho : sharedPath (p++[i]) = false) :
    ∃ T', Space (σ.walkOrCreate t i userFlags).2 root T' ∧
      Grows z σ T (σ.walkOrCreate t i userFlags).2 T' ∧
      T' (p++[i]) = some (σ.walkOrCreate t i userFlags).1 ∧
      user ((σ.walkOrCreate t i userFlags).2.mem t i) = true ∧ ∀ q, q ≠ p++[i] → T' q = T q := by
  cases hg : T (p++[i]) with
  | some g =>
    have hlink := h.holds.linked p i t g hp hg
    have hwalk : σ.walkOrCreate t i userFlags =
        (frameOf (σ.mem t i ||| pageUser),σ.setCell t i (σ.mem t i ||| pageUser)) := by
      simp [Vm.walkOrCreate,hlink.present,show user userFlags = true by decide]
    rw [hwalk,frameOf_or_pageUser,hlink.frameOf]
    refine ⟨T,h.relink hp hg,Grows.relink h hp (by omega) ho,hg,?_,fun _ _ => rfl⟩
    rw [Vm.setCell_mem,if_pos ⟨rfl,rfl⟩]
    exact user_or_pageUser _
  | none =>
    have hzero := h.holds.empty p i t hp hg (by omega) ho
    have hwalk : σ.walkOrCreate t i userFlags =
        (σ.allocPage.1,σ.allocPage.2.setCell t i (entryOf σ.allocPage.1 userFlags)) := by
      simp [Vm.walkOrCreate,hzero,present,show user userFlags = true by decide]
      rfl
    have ha := h.wf.allocPage
    rw [hwalk]
    refine ⟨update T (p++[i]) (some σ.allocPage.1),?_,
      (Grows.alloc h ha).graft (h.alloc ha) hp (by omega) ho ha.was (.inl hg),update_self ..,?_,
      fun q hq => update_of_ne hq ..⟩
    · exact (h.alloc ha).graft hp (by omega) ho (h.not_mem_of_allocs ha)
        ⟨ha.busy,ha.ne_zero h.wf⟩ (.inl hg) (fun _ => ha.mem_self) (by omega)
    · rw [Vm.setCell_mem,if_pos ⟨rfl,rfl⟩]
      exact user_entryOf _

/-- The steps on the way to a page table. -/
theorem concat_isPrefix_three {q : List ℕ} {j a b c : ℕ} (h : q++[j] <+: [a,b,c]) :
    q = [] ∧ j = a ∨ q = [a] ∧ j = b ∨ q = [a,b] ∧ j = c := by
  obtain ⟨r,hr⟩ := h
  obtain _ | ⟨x,_ | ⟨y,_ | ⟨z,q⟩⟩⟩ := q
  · simp_all
  · simp_all
  · simp_all
  · simp at hr

/-- A free frame `g` is now the page at `v`, and no other page has changed. -/
structure Maps (z : Prop) (σ : Vm) (T : Tree ℕ ℕ) (v g : ℕ) (σ' : Vm) (T' : Tree ℕ ℕ) : Prop where
  grows : Grows z σ T σ' T'
  was : σ.Free g
  page : T' (vpath v) = some g
  blank : ∀ i, σ'.mem g i = 0
  leaves : ∀ q, q.length = 4 → q ≠ vpath v → T' q = T q
  nodes : ∀ q, T' q ≠ none → T q ≠ none ∨ q <+: vpath v

/-- `allocPage` followed by `mapPageInto`. -/
theorem Space.mapPageInto (h : Space σ root T) (ha : Allocs σ g σ') {v : ℕ}
    (hv : sharedPath (vpath v) = false) :
    ∃ T', Space (σ'.mapPageInto root v g userFlags) root T' ∧
      Maps z σ T v g (σ'.mapPageInto root v g userFlags) T' := by
  rw [Vm.mapPageInto]
  have hsh {p q : List ℕ} (hpq : p++q = vpath v) : sharedPath p = false :=
    sharedPath_append (hpq ▸ hv)
  have h0 := h.alloc ha
  have hg0 := Grows.alloc (z := z) h ha
  -- down the three levels of tables
  obtain ⟨T₁,h1,hg1,hpdp,hu1,ho1⟩ := h0.walkOrCreate (z := z) (p := []) (i := Vm.pml4Idx v) h0.root
    (by decide) (hsh (q := [Vm.pdpIdx v,Vm.pdIdx v,Vm.ptIdx v]) rfl)
  generalize σ'.walkOrCreate root (Vm.pml4Idx v) userFlags = w1 at h1 hg1 hpdp hu1
  obtain ⟨pdp,σ₁⟩ := w1
  obtain ⟨T₂,h2,hg2,hpd,hu2,ho2⟩ := h1.walkOrCreate (z := z) (i := Vm.pdpIdx v) hpdp (by simp)
    (hsh (q := [Vm.pdIdx v,Vm.ptIdx v]) rfl)
  dsimp only at hpd h2 hg2 hu2 ⊢
  generalize σ₁.walkOrCreate pdp (Vm.pdpIdx v) userFlags = w2 at h2 hg2 hpd hu2
  obtain ⟨pd,σ₂⟩ := w2
  obtain ⟨T₃,h3,hg3,hpt,hu3,ho3⟩ := h2.walkOrCreate (z := z) (i := Vm.pdIdx v) hpd (by simp)
    (hsh (q := [Vm.ptIdx v]) rfl)
  generalize σ₂.walkOrCreate pd (Vm.pdIdx v) userFlags = w3 at h3 hg3 hpt hu3
  obtain ⟨pt,σ₃⟩ := w3
  dsimp only [List.nil_append,List.cons_append] at *
  have hgt := hg1.trans (hg2.trans hg3)
  have hnot (q : List ℕ) : T₃ q ≠ some g := by
    intro hq
    obtain hq | hq := hgt.fresh q g hq
    · exact h.not_mem_of_allocs ha q hq
    · exact ha.busy hq
  refine ⟨update T₃ (vpath v) (some g),?_,?_⟩
  · refine h3.graft (p := [Vm.pml4Idx v,Vm.pdpIdx v,Vm.pdIdx v]) hpt (by simp) hv hnot
      ⟨fun hf => ha.busy (hgt.free g hf),ha.ne_zero h.wf⟩ (.inr rfl) (by simp) ?_
    -- the user bits set on the way are still there
    have hu1 := hg3.lit [] root _ h2.root (by decide) (hg2.lit [] root _ h1.root (by decide) hu1)
    have hu2 := hg3.lit _ pdp _ (hg2.tables _ _ hpdp (by simp)) (by simp) hu2
    intro _ q j f hpre hq
    obtain ⟨rfl,rfl⟩ | ⟨rfl,rfl⟩ | ⟨rfl,rfl⟩ := concat_isPrefix_three hpre
    · rw [h3.root,some_inj] at hq
      exact hq ▸ hu1
    · rw [hg3.tables _ _ (hg2.tables _ _ hpdp (by simp)) (by simp),some_inj] at hq
      exact hq ▸ hu2
    · rw [hg3.tables _ _ hpd (by simp),some_inj] at hq
      exact hq ▸ hu3
  · have hne : g ≠ pt := fun heq => hnot _ (heq ▸ hpt)
    refine ⟨(hg0.trans hgt).graft h3 hpt (by simp) hv ha.was (.inr rfl),ha.was,update_self ..,
      ?_,?_,?_⟩
    · intro i
      rw [Vm.setCell_mem_of_ne σ₃ _ _ hne,hgt.kept g ha.busy (absurd · (ha.ne_zero h.wf)) ?_,
        ha.mem_self]
      exact fun q hq => absurd hq (h.not_mem_of_allocs ha q)
    · intro q hlen hq
      have hshort {p : List ℕ} (hp : p.length < 4) : q ≠ p := by
        rintro rfl
        omega
      rw [update_of_ne hq,ho3 q (hshort (by simp)),ho2 q (hshort (by simp)),
        ho1 q (hshort (by simp))]
    · intro q hq
      by_cases hv4 : q = vpath v
      · exact .inr (hv4 ▸ List.prefix_rfl)
      rw [update_of_ne hv4] at hq
      by_cases hv3 : q = [Vm.pml4Idx v,Vm.pdpIdx v,Vm.pdIdx v]
      · exact .inr ⟨[Vm.ptIdx v],hv3 ▸ rfl⟩
      rw [ho3 q hv3] at hq
      by_cases hv2 : q = [Vm.pml4Idx v,Vm.pdpIdx v]
      · exact .inr ⟨[Vm.pdIdx v,Vm.ptIdx v],hv2 ▸ rfl⟩
      rw [ho2 q hv2] at hq
      by_cases hv1 : q = [Vm.pml4Idx v]
      · exact .inr ⟨[Vm.pdpIdx v,Vm.pdIdx v,Vm.ptIdx v],hv1 ▸ rfl⟩
      rw [ho1 q hv1] at hq
      exact .inl hq

/-! ### Looking up an address -/

theorem Space.walkExisting (h : Space σ root T) (hp : T p = some t) (hd : p.length < 4)
    (ho : sharedPath (p++[i]) = false) : σ.walkExisting t i = (T (p++[i])).getD 0 := by
  rw [Vm.walkExisting]
  cases hg : T (p++[i]) with
  | none =>
    rw [h.holds.empty p i t hp hg hd ho]
    rfl
  | some g =>
    have hlink := h.holds.linked p i t g hp hg
    rw [if_pos hlink.present,hlink.frameOf]
    rfl

/-- How far the way to an address goes. -/
theorem Space.levels (h : Space σ root T) (v : ℕ) :
    (T (vpath v) = none ∧ T [Vm.pml4Idx v] = none) ∨ ∃ pdp, T [Vm.pml4Idx v] = some pdp ∧
      ((T (vpath v) = none ∧ T [Vm.pml4Idx v,Vm.pdpIdx v] = none) ∨
        ∃ pd, T [Vm.pml4Idx v,Vm.pdpIdx v] = some pd ∧
          ((T (vpath v) = none ∧ T [Vm.pml4Idx v,Vm.pdpIdx v,Vm.pdIdx v] = none) ∨
            ∃ pt, T [Vm.pml4Idx v,Vm.pdpIdx v,Vm.pdIdx v] = some pt)) := by
  have hnone {q r : List ℕ} (hq : T q = none) (hqr : q++r = vpath v) : T (vpath v) = none := by
    by_contra hne
    exact h.holds.of_append (hqr ▸ hne) hq
  cases hpdp : T [Vm.pml4Idx v] with
  | none => exact .inl ⟨hnone (r := [Vm.pdpIdx v,Vm.pdIdx v,Vm.ptIdx v]) hpdp rfl,rfl⟩
  | some pdp =>
    refine .inr ⟨pdp,rfl,?_⟩
    cases hpd : T [Vm.pml4Idx v,Vm.pdpIdx v] with
    | none => exact .inl ⟨hnone (r := [Vm.pdIdx v,Vm.ptIdx v]) hpd rfl,rfl⟩
    | some pd =>
      refine .inr ⟨pd,rfl,?_⟩
      cases hpt : T [Vm.pml4Idx v,Vm.pdpIdx v,Vm.pdIdx v] with
      | none => exact .inl ⟨hnone (r := [Vm.ptIdx v]) hpt rfl,rfl⟩
      | some pt => exact .inr ⟨pt,rfl⟩

/-- The software walk finds the page's frame, or 0. -/
theorem Space.walkAndGetPaddrIn (h : Space σ root T) {v : ℕ} (hv : sharedPath (vpath v) = false) :
    σ.walkAndGetPaddrIn root v = (T (vpath v)).getD 0 := by
  have hsh {p q : List ℕ} (hpq : p++q = vpath v) : sharedPath p = false :=
    sharedPath_append (hpq ▸ hv)
  have h1 : σ.walkExisting root (Vm.pml4Idx v) = (T [Vm.pml4Idx v]).getD 0 :=
    h.walkExisting h.root (by decide) (hsh (q := [Vm.pdpIdx v,Vm.pdIdx v,Vm.ptIdx v]) rfl)
  rw [Vm.walkAndGetPaddrIn,h1]
  obtain ⟨hn,h1⟩ | ⟨pdp,hpdp,hrest⟩ := h.levels v
  · simp [hn,h1]
  have h2 : σ.walkExisting pdp (Vm.pdpIdx v) = (T [Vm.pml4Idx v,Vm.pdpIdx v]).getD 0 :=
    h.walkExisting hpdp (by simp) (hsh (q := [Vm.pdIdx v,Vm.ptIdx v]) rfl)
  rw [hpdp,getD_some,if_neg (h.busy _ _ hpdp).2,h2]
  obtain ⟨hn,h2⟩ | ⟨pd,hpd,hrest⟩ := hrest
  · simp [hn,h2]
  have h3 : σ.walkExisting pd (Vm.pdIdx v) = (T [Vm.pml4Idx v,Vm.pdpIdx v,Vm.pdIdx v]).getD 0 :=
    h.walkExisting hpd (by simp) (hsh (q := [Vm.ptIdx v]) rfl)
  rw [hpd,getD_some,if_neg (h.busy _ _ hpd).2,h3]
  obtain ⟨hn,h3⟩ | ⟨pt,hpt⟩ := hrest
  · simp [hn,h3]
  rw [hpt,getD_some,if_neg (h.busy _ _ hpt).2]
  exact h.walkExisting hpt (by simp) hv

/-- The processor finds the same frame, with all rights. -/
theorem Space.translate (h : Space σ root T) {v : ℕ} (hv : sharedPath (vpath v) = false)
    (hc : canonical v = true) :
    σ.translate root v = (T (vpath v)).map fun f => ⟨f,true,true⟩ := by
  have hsh {p q : List ℕ} (hpq : p++q = vpath v) : sharedPath p = false :=
    sharedPath_append (hpq ▸ hv)
  have hblank : present 0 = false := rfl
  rw [Vm.translate]
  obtain ⟨hn,h1⟩ | ⟨pdp,hpdp,hrest⟩ := h.levels v
  · have e1 := h.holds.empty [] (Vm.pml4Idx v) root h.root h1 (by decide)
      (hsh (q := [Vm.pdpIdx v,Vm.pdIdx v,Vm.ptIdx v]) rfl)
    simp [hn,e1,hblank]
  have l1 := h.holds.linked [] (Vm.pml4Idx v) root pdp h.root hpdp
  obtain ⟨hn,h2⟩ | ⟨pd,hpd,hrest⟩ := hrest
  · have e2 := h.holds.empty _ (Vm.pdpIdx v) pdp hpdp h2 (by simp)
      (hsh (q := [Vm.pdIdx v,Vm.ptIdx v]) rfl)
    simp [hn,l1.frameOf,e2,hblank]
  have l2 := h.holds.linked [Vm.pml4Idx v] (Vm.pdpIdx v) pdp pd hpdp hpd
  obtain ⟨hn,h3⟩ | ⟨pt,hpt⟩ := hrest
  · have e3 := h.holds.empty _ (Vm.pdIdx v) pd hpd h3 (by simp) (hsh (q := [Vm.ptIdx v]) rfl)
    simp [hn,l1.frameOf,l2.frameOf,l2.not_huge,e3,hblank]
  have l3 := h.holds.linked [Vm.pml4Idx v,Vm.pdpIdx v] (Vm.pdIdx v) pd pt hpd hpt
  cases hf : T (vpath v) with
  | none =>
    have e4 := h.holds.empty _ (Vm.ptIdx v) pt hpt hf (by simp) hv
    simp [l1.frameOf,l2.frameOf,l3.frameOf,l2.not_huge,l3.not_huge,e4,hblank]
  | some f =>
    have l4 := h.holds.linked [Vm.pml4Idx v,Vm.pdpIdx v,Vm.pdIdx v] (Vm.ptIdx v) pt f hpt hf
    have hlit := h.lit (vpath v) rfl (by simp [hf])
    have u1 := hlit [] _ root ⟨[Vm.pdpIdx v,Vm.pdIdx v,Vm.ptIdx v],rfl⟩ h.root
    have u2 := hlit _ _ pdp ⟨[Vm.pdIdx v,Vm.ptIdx v],rfl⟩ hpdp
    have u3 := hlit _ _ pd ⟨[Vm.ptIdx v],rfl⟩ hpd
    have u4 := hlit _ _ pt ⟨[],rfl⟩ hpt
    simp [hc,l1.frameOf,l2.frameOf,l3.frameOf,l4.frameOf,l1.present,l2.present,l3.present,
      l4.present,l2.not_huge,l3.not_huge,l1.writable,l2.writable,l3.writable,l4.writable,
      u1,u2,u3,u4]

/-! ### A new address space -/

def noTree : Tree ℕ ℕ := fun _ => none

/-- The tree of a PML4 with one PDP. -/
def rootTree (pml4 pdp : ℕ) : Tree ℕ ℕ :=
  update (update noTree [] (some pml4)) [0] (some pdp)

theorem rootTree_eq_none {pml4 pdp : ℕ} {q : List ℕ} (h₁ : q ≠ []) (h₂ : q ≠ [0]) :
    rootTree pml4 pdp q = none := by
  rw [rootTree,update_of_ne h₂,update_of_ne h₁]
  rfl

/-- A zeroed frame is an empty address space. -/
theorem Allocs.space (ha : Allocs σ root σ') (hwf : σ.Wf) :
    Space σ' root (update noTree [] (some root)) := by
  have htree {q : List ℕ} {f : ℕ} (hq : update noTree [] (some root) q = some f) :
      q = [] ∧ f = root := by
    by_cases hq0 : q = []
    · rw [hq0,update_self,some_inj] at hq
      exact ⟨hq0,hq.symm⟩
    · rw [update_of_ne hq0] at hq
      cases hq
  have hnil {q : List ℕ} (hq : update noTree [] (some root) q ≠ none) : q = [] := by
    obtain ⟨f,hf⟩ := Option.ne_none_iff_exists'.mp hq
    exact (htree hf).1
  have hconcat {q : List ℕ} {j f : ℕ} (hq : update noTree [] (some root) (q++[j]) = some f) :
      False := by
    have := (htree hq).1
    simp at this
  refine ⟨ha.wf,⟨?_,?_,?_,?_,?_⟩,update_self ..,?_,?_⟩
  · intro q j hq
    exact absurd (hnil hq) (by simp)
  · intro p q f hp hq
    rw [(htree hp).1,(htree hq).1]
  · intro q hq
    rw [hnil hq]
    exact ⟨rfl,Nat.zero_le _⟩
  · intro q j f g _ hg
    exact absurd hg hconcat
  · intro q j f hq _ _ _
    rw [(htree hq).2]
    exact ha.mem_self j
  · intro q f hq
    rw [(htree hq).2]
    exact ⟨ha.busy,ha.ne_zero hwf⟩
  · intro q hlen hq
    rw [hnil hq] at hlen
    cases hlen

/-- What `newProcPML4` builds: the kernel's entries are copied, the rest is empty, and no
frame that was in use has changed. -/
structure Newborn (z : Prop) (k : Boot) (σ : Vm) (pml4 pdp : ℕ) (σ' : Vm) : Prop where
  space : Space σ' pml4 (rootTree pml4 pdp)
  grows : Grows z σ noTree σ' (rootTree pml4 pdp)
  shared0 : σ'.mem pdp 0 = k.pml4SharedKernelPDP0
  shared3 : ¬σ.Free k.bootKernelPDP → present (σ'.mem pdp 3) = true →
    σ'.mem pdp 3 = σ.mem k.bootKernelPDP 3

theorem Vm.Wf.newProcPML4 (k : Boot) (hwf : σ.Wf) :
    Newborn z k σ (σ.newProcPML4 k).1 σ.allocPage.2.allocPage.1 (σ.newProcPML4 k).2 := by
  rw [Vm.newProcPML4]
  have ha := hwf.allocPage
  generalize σ.allocPage = w at ha
  obtain ⟨pml4,σ₁⟩ := w
  have hb := ha.wf.allocPage
  dsimp only at ha hb ⊢
  generalize σ₁.allocPage = w at hb
  obtain ⟨pdp,σ₂⟩ := w
  have h1 := ha.space hwf
  have hne : pdp ≠ pml4 := fun heq => ha.busy (heq ▸ hb.was)
  have hroot : update noTree [] (some pml4) [] = some pml4 := update_self ..
  -- the PDP below entry 0
  have h3 : Space (σ₂.setCell pml4 0 (entryOf pdp userFlags)) pml4 (rootTree pml4 pdp) :=
    (h1.alloc hb).graft (p := []) (i := 0) hroot (by decide) rfl (h1.not_mem_of_allocs hb)
      ⟨hb.busy,hb.ne_zero ha.wf⟩ (.inl rfl) (fun _ => hb.mem_self) (by simp)
  have hpdp : rootTree pml4 pdp [0] = some pdp := update_self ..
  have h4 := h3.setShared (i := 0) (e := k.pml4SharedKernelPDP0) hpdp rfl
  have hmem (f : ℕ) (hf : ¬σ.Free f) : σ₂.mem f = σ.mem f := by
    rw [hb.mem_of_busy fun hf₁ => hf ((ha.free f).mp hf₁).1,ha.mem_of_busy hf]
  have hbusy {f : ℕ} (hf : ¬σ.Free f) : f ≠ pml4 ∧ f ≠ pdp :=
    ⟨fun heq => hf (heq ▸ ha.was),fun heq => hf ((ha.free _).mp (heq ▸ hb.was)).1⟩
  generalize hσ₄ : (σ₂.setCell pml4 0 (entryOf pdp userFlags)).setCell pdp 0
    k.pml4SharedKernelPDP0 = σ₄ at h4
  have hkept (f : ℕ) (hf : ¬σ.Free f) : σ₄.mem f = σ.mem f := by
    rw [← hσ₄,Vm.setCell_mem_of_ne _ _ _ (hbusy hf).2,Vm.setCell_mem_of_ne _ _ _ (hbusy hf).1,
      hmem f hf]
  have hcell (i : ℕ) : σ₄.mem pdp i = if i = 0 then k.pml4SharedKernelPDP0 else 0 := by
    rw [← hσ₄,Vm.setCell_mem,Vm.setCell_mem_of_ne _ _ _ hne,hb.mem_self]
    simp
  have hfree (f : ℕ) (hf : σ₄.Free f) : σ.Free f ∧ f ≠ pml4 ∧ f ≠ pdp := by
    rw [← hσ₄] at hf
    obtain ⟨hf₁,hpdpne⟩ := (hb.free f).mp hf
    obtain ⟨hf₀,hpml4ne⟩ := (ha.free f).mp hf₁
    exact ⟨hf₀,hpml4ne,hpdpne⟩
  have hgrows : Grows z σ noTree σ₄ (rootTree pml4 pdp) := by
    refine ⟨fun f hf => (hfree f hf).1,?_,fun f hf _ _ => hkept f hf,fun _ _ hp => (by cases hp),?_,
      fun _ _ _ hp => (by cases hp),fun _ _ _ hp => (by cases hp)⟩
    · intro f hf
      obtain ⟨-,h1,h2⟩ := hfree f hf
      rw [← hσ₄,Vm.setCell_mem_of_ne _ _ _ h2,Vm.setCell_mem_of_ne _ _ _ h1,hb.mem_of_ne h2,
        ha.mem_of_ne h1]
    · intro q f hq
      refine .inr ?_
      by_cases hq0 : q = [0]
      · rw [hq0,hpdp,some_inj] at hq
        exact hq ▸ ((ha.free _).mp hb.was).1
      · by_cases hqn : q = []
        · rw [hqn,rootTree,update_of_ne (by simp),hroot,some_inj] at hq
          exact hq ▸ ha.was
        · rw [rootTree_eq_none hqn hq0] at hq
          cases hq
  by_cases hp3 : present (σ₄.mem k.bootKernelPDP 3) = true
  · simp only [show pagePresent ||| pageWrite ||| pageUser = userFlags from rfl,hσ₄,hp3,if_true]
    refine ⟨h4.setShared (i := 3) hpdp rfl,?_,?_,?_⟩
    · refine ⟨hgrows.free,fun f hf => ?_,fun f hf _ _ => ?_,hgrows.tables,hgrows.fresh,
        fun _ _ _ hp => (by cases hp),fun _ _ _ hp => (by cases hp)⟩
      · rw [Vm.setCell_mem_of_ne _ _ _ (hfree f hf).2.2]
        exact hgrows.idle f hf
      · rw [Vm.setCell_mem_of_ne _ _ _ (hbusy hf).2]
        exact hkept f hf
    · rw [Vm.setCell_mem,if_neg (by simp),hcell,if_pos rfl]
    · intro hboot _
      rw [Vm.setCell_mem,if_pos ⟨rfl,rfl⟩,hkept _ hboot]
  · simp only [show pagePresent ||| pageWrite ||| pageUser = userFlags from rfl,hσ₄,hp3]
    refine ⟨h4,hgrows,by rw [if_neg (by simp),hcell,if_pos rfl],?_⟩
    intro _ hpres
    rw [if_neg (by simp),hcell,if_neg (by decide)] at hpres
    cases hpres

end Space

end Gooos.Mem
