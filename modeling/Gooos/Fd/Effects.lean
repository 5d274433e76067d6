import Gooos.Fd.Pipes

/-!
# What the calls do to the tables

The slots that each call changes, with everything else as it was.
-/

namespace Gooos.Fd

open Function

namespace Kernel

variable {ρ : Type} {closeSocket : ℕ → ρ → ρ} {k : Kernel ρ} {i : ℕ}

/-- The table of a process. -/
def tab (k : Kernel ρ) (i : ℕ) : Slot → Option FileDesc := fun a => k.fds (i,a)

theorem tab_update (f : ℕ × Slot → Option FileDesc) (i : ℕ) (a : Slot) (d : Option FileDesc) :
    (fun b => update f (i,a) d (i,b)) = update (fun b => f (i,b)) a d := by
  funext b
  by_cases hb : b = a
  · rw [hb,update_self,update_self]
  · rw [update_of_ne hb,update_of_ne (by simpa using hb)]

/-- The lowest free slot, and that there is none. -/
theorem freeSlot_eq_some {a : Slot} :
    k.freeSlot i = some a ↔ k.tab i a = none ∧ ∀ b < a, k.tab i b ≠ none := by
  rw [freeSlot,List.find?_eq_some_iff_getElem]
  simp only [Option.isNone_iff_eq_none,List.getElem_finRange,List.length_finRange,Fin.cast_mk]
  constructor
  · rintro ⟨ha,n,hn,rfl,hlt⟩
    refine ⟨ha,fun b hb hnone => ?_⟩
    have := hlt b.val hb
    simp_all [tab]
  · rintro ⟨ha,hlt⟩
    refine ⟨ha,a.val,a.isLt,rfl,fun j hj => ?_⟩
    have := hlt ⟨j,hj.trans a.isLt⟩ hj
    simpa [tab,Option.isSome_iff_ne_none] using this

theorem freeSlot_eq_none : k.freeSlot i = none ↔ ∀ a, k.tab i a ≠ none := by
  rw [freeSlot,List.find?_eq_none]
  simp [tab]

theorem install_fds (x : ℕ × Slot) (d : FileDesc) :
    (k.install closeSocket x d).fds = update k.fds x (some d) := by
  rw [install_eq,(fdAddRef_frame _ d).1,setFd_fds,drop_fds,update_idem]

theorem procDup2_slots (a b : Slot) :
    k.procDup2 closeSocket i a.val b.val = match k.fds (i,a) with
      | none => (none,k)
      | some d => if a = b then (some b,k) else (some b,k.install closeSocket (i,b) d) := by
  cases hd : k.fds (i,a) with
  | none | some => simp only [procDup2,slot?_val,hd]

theorem procDup2_fds (a b : Slot) : (k.procDup2 closeSocket i a.val b.val).2.fds =
    if k.tab i a = none then k.fds else update k.fds (i,b) (k.tab i a) := by
  rw [procDup2_slots,tab]
  cases hd : k.fds (i,a) with
  | none => rfl
  | some d =>
    rw [if_neg (by simp)]
    dsimp only
    split
    · rename_i hab
      rw [← hab,← hd,update_eq_self]
    · exact install_fds _ _

theorem procDup2_isSome (a b : Slot) :
    (k.procDup2 closeSocket i a.val b.val).1.isSome = (k.tab i a).isSome := by
  rw [procDup2_slots,tab]
  cases hd : k.fds (i,a) with
  | none => rfl
  | some d =>
    dsimp only
    split <;> rfl

theorem procClose_fds (a : Slot) :
    (k.procClose closeSocket i a.val).2.fds = update k.fds (i,a) none := by
  rw [procClose,slot?_val]
  exact drop_fds _

theorem procDup2_nProcs (a b : Slot) :
    (k.procDup2 closeSocket i a.val b.val).2.nProcs = k.nProcs := by
  rw [procDup2_slots]
  split
  · rfl
  · split
    · rfl
    · rw [install_eq]
      exact (fdAddRef_frame _ _).2.1.trans (drop_slots _)

theorem procClose_nProcs (a : Slot) : (k.procClose closeSocket i a.val).2.nProcs = k.nProcs := by
  rw [procClose,slot?_val]
  exact drop_slots _

theorem procAllocFD_nProcs (d : FileDesc) : (k.procAllocFD i d).2.nProcs = k.nProcs := by
  rw [procAllocFD]
  split <;> rfl

theorem sysPipe_nProcs : (k.sysPipe closeSocket i).2.nProcs = k.nProcs := by
  obtain ⟨k₁,hk₁⟩ : ∃ k₁ : Kernel ρ, k₁ =
      { k with pipe := update k.pipe k.nPipes .new, nPipes := k.nPipes+1 } := ⟨_,rfl⟩
  have hprocs : k₁.nProcs = k.nProcs := by rw [hk₁]
  rw [sysPipe,← hk₁,procAllocFD]
  cases k₁.freeSlot i with
  | none => exact hprocs
  | some r =>
    dsimp only
    rw [procAllocFD]
    cases (k₁.setFd (i,r) (some (.pipeReader k.nPipes))).freeSlot i with
    | none => exact (procClose_nProcs r).trans hprocs
    | some w => exact hprocs

/-- The child has what its parent has, sockets apart. -/
theorem inherits_fds (k : Kernel ρ) {parent child : ℕ} (hne : parent ≠ child) (as : List Slot)
    (x : ℕ × Slot) : (as.foldl (inherit parent child) k).fds x =
      if x.1 = child ∧ x.2 ∈ as then (k.fds (parent,x.2)).filter (!·.isSocket) else k.fds x := by
  induction as generalizing k with
  | nil => simp
  | cons a as ih =>
    have hstep : (inherit parent child k a).fds =
        update k.fds (child,a) ((k.fds (parent,a)).filter (!·.isSocket)) := by
      rw [inherit]
      cases hd : k.fds (parent,a) with
      | none => rfl
      | some d =>
        dsimp only
        split
        · rename_i hs
          simp [Option.filter,hs]
        · rename_i hs
          rw [(fdAddRef_frame _ d).1,setFd_fds]
          simp [Option.filter,hs]
    obtain ⟨j,b⟩ := x
    have hparent : (parent,b) ≠ (child,a) := fun heq => hne (congrArg Prod.fst heq)
    rw [List.foldl_cons,ih,hstep,update_of_ne hparent]
    by_cases hj : j = child
    · subst hj
      by_cases hb : b = a
      · subst hb
        simp
      · simp [hb]
    · simp [hj]

theorem elfSpawn_fds (hi : i < k.nProcs) (x : ℕ × Slot) : (k.elfSpawn i).fds x =
    if x.1 = k.nProcs then (k.tab i x.2).filter (!·.isSocket) else k.fds x := by
  rw [elfSpawn,inherits_fds _ (Nat.ne_of_lt hi)]
  simp [tab]

theorem elfSpawn_nProcs : (k.elfSpawn i).nProcs = k.nProcs+1 := by
  have hall (as : List Slot) (k : Kernel ρ) (j : ℕ) :
      (as.foldl (inherit i j) k).nProcs = k.nProcs := by
    induction as generalizing k with
    | nil => rfl
    | cons a as ih =>
      rw [List.foldl_cons,ih,inherit]
      split
      · rfl
      · split
        · rfl
        · exact (fdAddRef_frame _ _).2.1
  exact hall _ _ _

theorem procCloseAll_fds (k : Kernel ρ) (j : ℕ) {x : ℕ × Slot} (hx : x.1 ≠ j) :
    (k.procCloseAll closeSocket j).fds x = k.fds x := by
  have hall (as : List Slot) (k : Kernel ρ) :
      (as.foldl (fun k a => k.drop closeSocket (j,a)) k).fds x = k.fds x := by
    induction as generalizing k with
    | nil => rfl
    | cons a as ih =>
      rw [List.foldl_cons,ih,drop_fds,update_of_ne fun heq => hx (by rw [heq])]
  exact hall _ _

/-- A pipe takes the two lowest free slots, or the tables stay as they are. -/
theorem sysPipe_cases (closeSocket : ℕ → ρ → ρ) (k : Kernel ρ) (i : ℕ) :
    ((k.sysPipe closeSocket i).1 = none ∧ (k.sysPipe closeSocket i).2.fds = k.fds ∧
      ∀ a b, k.tab i a = none → k.tab i b = none → a = b) ∨
    ∃ r w, (k.sysPipe closeSocket i).1 = some (r,w) ∧ r < w ∧ k.freeSlot i = some r ∧
      k.tab i w = none ∧ (∀ b < w, b ≠ r → k.tab i b ≠ none) ∧
      (k.sysPipe closeSocket i).2.fds = update (update k.fds (i,r)
        (some (.pipeReader k.nPipes))) (i,w) (some (.pipeWriter k.nPipes)) := by
  obtain ⟨k₁,hk₁⟩ : ∃ k₁ : Kernel ρ, k₁ =
      { k with pipe := update k.pipe k.nPipes .new, nPipes := k.nPipes+1 } := ⟨_,rfl⟩
  have hfds : k₁.fds = k.fds := by rw [hk₁]
  have hfree : k₁.freeSlot i = k.freeSlot i := by rw [hk₁]; rfl
  rw [sysPipe,← hk₁,procAllocFD,hfree]
  cases hr : k.freeSlot i with
  | none =>
    refine .inl ⟨rfl,hfds,fun a b ha => ?_⟩
    exact absurd ha (freeSlot_eq_none.mp hr a)
  | some r =>
    obtain ⟨hr₁,hr₂⟩ := freeSlot_eq_some.mp hr
    have htab : (k₁.setFd (i,r) (some (.pipeReader k.nPipes))).tab i =
        update (k.tab i) r (some (.pipeReader k.nPipes)) := by
      rw [hk₁]
      exact tab_update ..
    dsimp only
    rw [procAllocFD]
    cases hw : (k₁.setFd (i,r) (some (.pipeReader k.nPipes))).freeSlot i with
    | none =>
      have hfull := freeSlot_eq_none.mp hw
      rw [htab] at hfull
      have hone (a : Slot) (ha : k.tab i a = none) : a = r := by
        by_contra har
        exact hfull a (by rw [update_of_ne har,ha])
      refine .inl ⟨rfl,?_,fun a b ha hb => (hone a ha).trans (hone b hb).symm⟩
      dsimp only
      rw [procClose,slot?_val]
      dsimp only
      rw [drop_fds,setFd_fds,update_idem,hfds]
      exact (congrArg _ hr₁.symm).trans (update_eq_self ..)
    | some w =>
      obtain ⟨hw₁,hw₂⟩ := freeSlot_eq_some.mp hw
      rw [htab] at hw₁ hw₂
      have hwr : w ≠ r := by
        rintro rfl
        rw [update_self] at hw₁
        cases hw₁
      rw [update_of_ne hwr] at hw₁
      have hlt : r < w := by
        by_contra hge
        exact hr₂ w (lt_of_le_of_ne (not_lt.mp hge) hwr) hw₁
      refine .inr ⟨r,w,rfl,hlt,rfl,hw₁,fun b hb hbr => ?_,?_⟩
      · have := hw₂ b hb
        rwa [update_of_ne hbr] at this
      · change update (update k₁.fds _ _) _ _ = _
        rw [hfds]

end Kernel

end Gooos.Fd
