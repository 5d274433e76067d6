import Gooos.Fd.Table
import Gooos.Lib.Tally

/-!
# Reference counts of pipes

The counts of a pipe that some slot holds are the numbers of slots that hold its ends.
-/

namespace Gooos.Fd

open Tally Function
open Option (some_inj)

/-- A pipe whose counts and flags say that `w` slots hold its write end and `r` its read end. -/
structure Pipe.Counts (x : Pipe) (w r : ℕ) : Prop where
  wrRefs : x.wrRefs = w
  rdRefs : x.rdRefs = r
  wrClosed : x.wrClosed = true ↔ w = 0
  rdClosed : x.rdClosed = true ↔ r = 0

namespace Pipe.Counts

variable {x : Pipe} {w r : ℕ}

/-- The last writer closes the channel. -/
theorem closeWriter (h : x.Counts (w+1) r) : x.closeWriter.Counts w r := by
  have hopen : ¬x.wrClosed = true := fun hc => absurd (h.wrClosed.mp hc) (Nat.succ_ne_zero w)
  rw [Pipe.closeWriter,if_neg hopen,h.wrRefs]
  exact ⟨rfl,h.rdRefs,decide_eq_true_iff,h.rdClosed⟩

theorem closeReader (h : x.Counts w (r+1)) : x.closeReader.Counts w r := by
  have hopen : ¬x.rdClosed = true := fun hc => absurd (h.rdClosed.mp hc) (Nat.succ_ne_zero r)
  rw [Pipe.closeReader,if_neg hopen,h.rdRefs]
  exact ⟨h.wrRefs,rfl,h.wrClosed,decide_eq_true_iff⟩

/-- One more slot for an end that is held already. -/
theorem addWriter (h : x.Counts w r) (hw : 0 < w) :
    Counts { x with wrRefs := x.wrRefs+1 } (w+1) r :=
  ⟨by rw [h.wrRefs],h.rdRefs,h.wrClosed.trans (by omega),h.rdClosed⟩

theorem addReader (h : x.Counts w r) (hr : 0 < r) :
    Counts { x with rdRefs := x.rdRefs+1 } w (r+1) :=
  ⟨h.wrRefs,by rw [h.rdRefs],h.wrClosed,h.rdClosed.trans (by omega)⟩

theorem new : Pipe.new.Counts 1 1 := ⟨rfl,rfl,by decide,by decide⟩

end Pipe.Counts

namespace Kernel

variable {ρ : Type} {closeSocket : ℕ → ρ → ρ} {k k' : Kernel ρ} {x : ℕ × Slot} {d : FileDesc} {p : ℕ}

/-- The slots of all processes. -/
def slots (k : Kernel ρ) : Finset (ℕ × Slot) := Finset.range k.nProcs ×ˢ Finset.univ

theorem mem_slots : x ∈ k.slots ↔ x.1 < k.nProcs := by
  simp [slots]

/-- The number of slots that hold a descriptor. -/
def holders (k : Kernel ρ) (d : FileDesc) : ℕ := tally k.slots k.fds (some d)

/-- Some slot holds an end of the pipe. -/
def Reachable (k : Kernel ρ) (p : ℕ) : Prop := ∃ x, k.fds x = some (.pipeWriter p) ∨
  k.fds x = some (.pipeReader p)

/-- The counts and flags of the pipe are those of the tables. -/
def Exact (k : Kernel ρ) (p : ℕ) : Prop :=
  (k.pipe p).Counts (k.holders (.pipeWriter p)) (k.holders (.pipeReader p))

/-- Reachable pipes are counted exactly and have been made; there are no descriptors outside
the processes. -/
structure Counted (k : Kernel ρ) : Prop where
  exact : ∀ p, k.Reachable p → k.Exact p
  made : ∀ p, k.Reachable p → p < k.nPipes
  outside : ∀ x, x ∉ k.slots → k.fds x = none

/-! ### Parts of an operation -/

theorem holders_congr (hfds : k'.fds = k.fds) (hprocs : k'.nProcs = k.nProcs) (d : FileDesc) :
    k'.holders d = k.holders d := by
  rw [holders,holders,slots,slots,hfds,hprocs]

theorem holders_setFd (hx : x ∈ k.slots) (e : Option FileDesc) (d : FileDesc) :
    (k.setFd x e).holders d+(if k.fds x = some d then 1 else 0) =
      k.holders d+(if e = some d then 1 else 0) :=
  tally_update hx e (some d)

theorem Counted.mem_slots (h : k.Counted) (hd : k.fds x = some d) : x ∈ k.slots := by
  by_contra hx
  rw [h.outside x hx] at hd
  cases hd

theorem Counted.holders_pos (h : k.Counted) (hd : k.fds x = some d) : 0 < k.holders d :=
  tally_pos.mpr ⟨x,h.mem_slots hd,hd⟩

theorem Counted.outside_write (h : k.Counted) (hx : x ∈ k.slots) {e : Option FileDesc}
    (hfds : k'.fds = update k.fds x e) (hprocs : k'.nProcs = k.nProcs) (y : ℕ × Slot)
    (hy : y ∉ k'.slots) : k'.fds y = none := by
  rw [Kernel.mem_slots,hprocs] at hy
  have hyx : y ≠ x := by
    rintro rfl
    exact hy (Kernel.mem_slots.mp hx)
  rw [hfds,update_of_ne hyx]
  exact h.outside y fun hmem => hy (Kernel.mem_slots.mp hmem)

/-- Closing a descriptor changes at most the pipe it is an end of. -/
theorem close_pipe (closeSocket : ℕ → ρ → ρ) (k : Kernel ρ) (d : FileDesc) (q : ℕ) :
    (k.close closeSocket d).pipe q =
      if d = .pipeWriter q then (k.pipe q).closeWriter
      else if d = .pipeReader q then (k.pipe q).closeReader else k.pipe q := by
  cases d with
  | pipeWriter p | pipeReader p =>
    by_cases hq : q = p
    · subst hq
      simp [close,setPipe]
    · simp [close,setPipe,hq,Ne.symm hq]
  | consoleStdin | consoleStdout | fileFd | socketFd => simp [close]

theorem close_frame (closeSocket : ℕ → ρ → ρ) (k : Kernel ρ) (d : FileDesc) :
    (k.close closeSocket d).fds = k.fds ∧ (k.close closeSocket d).nProcs = k.nProcs ∧
      (k.close closeSocket d).nPipes = k.nPipes := by
  cases d <;> exact ⟨rfl,rfl,rfl⟩

theorem fdAddRef_pipe (k : Kernel ρ) (d : FileDesc) (q : ℕ) :
    (k.fdAddRef d).pipe q =
      if d = .pipeWriter q then { k.pipe q with wrRefs := (k.pipe q).wrRefs+1 }
      else if d = .pipeReader q then { k.pipe q with rdRefs := (k.pipe q).rdRefs+1 }
      else k.pipe q := by
  cases d with
  | pipeWriter p | pipeReader p =>
    by_cases hq : q = p
    · subst hq
      simp [fdAddRef,setPipe]
    · simp [fdAddRef,setPipe,hq,Ne.symm hq]
  | consoleStdin | consoleStdout | fileFd | socketFd => simp [fdAddRef]

theorem fdAddRef_frame (k : Kernel ρ) (d : FileDesc) :
    (k.fdAddRef d).fds = k.fds ∧ (k.fdAddRef d).nProcs = k.nProcs ∧
      (k.fdAddRef d).nPipes = k.nPipes := by
  cases d <;> exact ⟨rfl,rfl,rfl⟩

/-- Taking a descriptor out of its slot and closing it. -/
theorem Counted.drop (h : k.Counted) (x : ℕ × Slot) : (k.drop closeSocket x).Counted := by
  rw [Kernel.drop]
  cases hd : k.fds x with
  | none => exact h
  | some d =>
    have hx := h.mem_slots hd
    obtain ⟨hfds,hprocs,hpipes⟩ := close_frame closeSocket (k.setFd x none) d
    have hpipe := close_pipe closeSocket (k.setFd x none) d
    have hh (e : FileDesc) : ((k.setFd x none).close closeSocket d).holders e+
        (if d = e then 1 else 0) = k.holders e := by
      have hset := holders_setFd hx none e
      simp only [hd,some_inj,reduceCtorEq,if_false,Nat.add_zero] at hset
      rw [holders_congr hfds hprocs]
      exact hset
    dsimp only
    generalize (k.setFd x none).close closeSocket d = k' at *
    have hreach (p : ℕ) (hp : k'.Reachable p) : k.Reachable p := by
      obtain ⟨y,hy⟩ := hp
      have hyx : y ≠ x := by
        rintro rfl
        rw [hfds] at hy
        simp [setFd] at hy
      rw [hfds,setFd_fds,update_of_ne hyx] at hy
      exact ⟨y,hy⟩
    refine ⟨fun p hp => ?_,fun p hp => hpipes ▸ h.made p (hreach p hp),
      h.outside_write hx hfds hprocs⟩
    have hex := h.exact p (hreach p hp)
    rw [Exact,← hh,← hh] at hex
    rw [Exact,hpipe]
    by_cases hdw : d = .pipeWriter p
    · subst hdw
      simp only [if_true,reduceCtorEq,if_false,Nat.add_zero] at hex ⊢
      exact hex.closeWriter
    by_cases hdr : d = .pipeReader p
    · subst hdr
      simp only [if_true,reduceCtorEq,if_false,Nat.add_zero] at hex ⊢
      exact hex.closeReader
    · simp only [if_neg hdw,if_neg hdr,Nat.add_zero] at hex ⊢
      exact hex

/-- Writing a descriptor to an empty slot and counting the reference. A pipe end is one that
some slot holds already. -/
theorem Counted.share (h : k.Counted) (hx : x ∈ k.slots) (hnone : k.fds x = none)
    (hheld : ∀ p, d = .pipeWriter p ∨ d = .pipeReader p → ∃ y, k.fds y = some d) :
    ((k.setFd x (some d)).fdAddRef d).Counted := by
  obtain ⟨hfds,hprocs,hpipes⟩ := fdAddRef_frame (k.setFd x (some d)) d
  have hpipe := fdAddRef_pipe (k.setFd x (some d)) d
  have hh (e : FileDesc) : ((k.setFd x (some d)).fdAddRef d).holders e =
      k.holders e+(if d = e then 1 else 0) := by
    have hset := holders_setFd hx (some d) e
    simp only [hnone,some_inj,reduceCtorEq,if_false,Nat.add_zero] at hset
    rw [holders_congr hfds hprocs]
    exact hset
  generalize (k.setFd x (some d)).fdAddRef d = k' at *
  have hreach (p : ℕ) (hp : k'.Reachable p) : k.Reachable p := by
    obtain ⟨y,hy⟩ := hp
    by_cases hyx : y = x
    · rw [hfds,hyx,setFd_fds,update_self,some_inj,some_inj] at hy
      obtain ⟨z,hz⟩ := hheld p hy
      obtain rfl | rfl := hy
      · exact ⟨z,.inl hz⟩
      · exact ⟨z,.inr hz⟩
    · rw [hfds,setFd_fds,update_of_ne hyx] at hy
      exact ⟨y,hy⟩
  refine ⟨fun p hp => ?_,fun p hp => hpipes ▸ h.made p (hreach p hp),
    h.outside_write hx hfds hprocs⟩
  have hex := h.exact p (hreach p hp)
  rw [Exact,hh,hh,hpipe]
  by_cases hdw : d = .pipeWriter p
  · obtain ⟨y,hy⟩ := hheld p (.inl hdw)
    subst hdw
    simp only [if_true,reduceCtorEq,if_false,Nat.add_zero]
    exact hex.addWriter (h.holders_pos hy)
  by_cases hdr : d = .pipeReader p
  · obtain ⟨y,hy⟩ := hheld p (.inr hdr)
    subst hdr
    simp only [if_true,reduceCtorEq,if_false,Nat.add_zero]
    exact hex.addReader (h.holders_pos hy)
  · simp only [if_neg hdw,if_neg hdr,Nat.add_zero]
    exact hex

/-- Pipes that no slot holds may be anything, and there may be more of them. -/
theorem Counted.congr (h : k.Counted) (hfds : k'.fds = k.fds) (hprocs : k'.nProcs = k.nProcs)
    (hpipes : k.nPipes ≤ k'.nPipes) (hpipe : ∀ p, k.Reachable p → k'.pipe p = k.pipe p) :
    k'.Counted := by
  have hreach (p : ℕ) (hp : k'.Reachable p) : k.Reachable p := by
    rwa [Reachable,hfds] at hp
  refine ⟨fun p hp => ?_,fun p hp => (h.made p (hreach p hp)).trans_le hpipes,fun x hx => ?_⟩
  · rw [Exact,hpipe p (hreach p hp),holders_congr hfds hprocs,holders_congr hfds hprocs]
    exact h.exact p (hreach p hp)
  · rw [hfds]
    refine h.outside x fun hmem => hx (Kernel.mem_slots.mpr ?_)
    rw [hprocs]
    exact Kernel.mem_slots.mp hmem

/-! ### Operations -/

theorem freeSlot_some {i : ℕ} {a : Slot} (h : k.freeSlot i = some a) : k.fds (i,a) = none := by
  have := List.find?_some h
  simpa using this

theorem drop_eq (closeSocket : ℕ → ρ → ρ) (hd : k.fds x = some d) :
    k.drop closeSocket x = (k.setFd x none).close closeSocket d := by
  rw [drop,hd]

theorem drop_slots (x : ℕ × Slot) : (k.drop closeSocket x).nProcs = k.nProcs := by
  rw [drop]
  split
  · rfl
  · exact (close_frame closeSocket _ _).2.1

theorem drop_fds (x : ℕ × Slot) :
    (k.drop closeSocket x).fds = update k.fds x none := by
  rw [drop]
  split
  · rename_i hnone
    rw [← hnone,update_eq_self]
  · exact (close_frame closeSocket _ _).1

/-- Overwriting a slot is emptying it and then writing. -/
theorem install_eq (x : ℕ × Slot) (d : FileDesc) :
    k.install closeSocket x d = ((k.drop closeSocket x).setFd x (some d)).fdAddRef d := by
  rw [install,drop]
  cases k.fds x with
  | none => rfl
  | some old =>
    refine congrArg (fdAddRef · d) ?_
    cases old <;> simp [close,setFd,setPipe]

theorem Counted.procDup2 (h : k.Counted) (i : ℕ) (oldfd newfd : ℤ) :
    (k.procDup2 closeSocket i oldfd newfd).2.Counted := by
  rw [Kernel.procDup2]
  split
  · rename_i a b _ _
    cases hd : k.fds (i,a) with
    | none => exact h
    | some d =>
      dsimp only
      split
      · exact h
      · rename_i hab
        have hne : (i,a) ≠ (i,b) := fun heq => hab (congrArg Prod.snd heq)
        have hx : (i,b) ∈ (k.drop closeSocket (i,b)).slots := by
          have hi : i < k.nProcs := Kernel.mem_slots.mp (h.mem_slots hd)
          rw [Kernel.mem_slots,drop_slots]
          exact hi
        rw [install_eq]
        refine (h.drop (i,b)).share hx ?_ fun _ _ => ⟨(i,a),?_⟩
        · rw [drop_fds,update_self]
        · rw [drop_fds,update_of_ne hne,hd]
  · exact h

theorem Counted.setOther (h : k.Counted) {i : ℕ} (a : Slot) (hi : i < k.nProcs)
    (hnone : k.fds (i,a) = none) (hd : ∀ p, d ≠ .pipeReader p ∧ d ≠ .pipeWriter p) :
    (k.setFd (i,a) (some d)).Counted := by
  have hshare := h.share (d := d) (Kernel.mem_slots.mpr hi) hnone fun p hp =>
    (hp.elim (hd p).2 (hd p).1).elim
  have href : (k.setFd (i,a) (some d)).fdAddRef d = k.setFd (i,a) (some d) := by
    cases d with
    | pipeReader p => exact absurd rfl (hd p).1
    | pipeWriter p => exact absurd rfl (hd p).2
    | consoleStdin | consoleStdout | fileFd | socketFd => rfl
  rwa [href] at hshare

theorem Counted.procAllocFD (h : k.Counted) {i : ℕ} (hi : i < k.nProcs)
    (hd : ∀ p, d ≠ .pipeReader p ∧ d ≠ .pipeWriter p) : (k.procAllocFD i d).2.Counted := by
  rw [Kernel.procAllocFD]
  cases ha : k.freeSlot i with
  | none => exact h
  | some a => exact h.setOther a hi (freeSlot_some ha) hd

theorem slot?_val (a : Slot) : slot? (a.val : ℤ) = some a := by
  rw [slot?,dif_pos ⟨by omega,by omega⟩]
  rfl

theorem holders_eq_zero (hp : ¬k.Reachable p) :
    k.holders (.pipeWriter p) = 0 ∧ k.holders (.pipeReader p) = 0 :=
  ⟨tally_eq_zero.mpr fun x _ hx => hp ⟨x,.inl hx⟩,tally_eq_zero.mpr fun x _ hx => hp ⟨x,.inr hx⟩⟩

/-- A new pipe gets a slot for each of its ends. -/
theorem Counted.bothEnds (h : k.Counted) {i : ℕ} {a b : Slot} (hi : i < k.nProcs)
    (hp : ¬k.Reachable p) (hlt : p < k.nPipes) (hnew : k.pipe p = .new) (ha : k.fds (i,a) = none)
    (hb : (k.setFd (i,a) (some (.pipeReader p))).fds (i,b) = none) :
    ((k.setFd (i,a) (some (.pipeReader p))).setFd (i,b) (some (.pipeWriter p))).Counted := by
  have hx : (i,a) ∈ k.slots := Kernel.mem_slots.mpr hi
  have hy : (i,b) ∈ (k.setFd (i,a) (some (.pipeReader p))).slots := Kernel.mem_slots.mpr hi
  have hh (d : FileDesc) :
      ((k.setFd (i,a) (some (.pipeReader p))).setFd (i,b) (some (.pipeWriter p))).holders d =
        k.holders d+(if FileDesc.pipeReader p = d then 1 else 0)+
          (if FileDesc.pipeWriter p = d then 1 else 0) := by
    have h₁ := holders_setFd hx (some (.pipeReader p)) d
    have h₂ := holders_setFd hy (some (.pipeWriter p)) d
    rw [ha] at h₁
    rw [hb] at h₂
    simp only [some_inj,reduceCtorEq,if_false,Nat.add_zero] at h₁ h₂
    rw [h₂,h₁]
  have hreach (q : ℕ) (hq : ((k.setFd (i,a) (some (.pipeReader p))).setFd (i,b)
      (some (.pipeWriter p))).Reachable q) : q = p ∨ k.Reachable q := by
    obtain ⟨y,hy⟩ := hq
    rw [setFd_fds,setFd_fds] at hy
    by_cases hyb : y = (i,b)
    · subst hyb
      simp at hy
      exact .inl hy.symm
    rw [update_of_ne hyb] at hy
    by_cases hya : y = (i,a)
    · subst hya
      simp at hy
      exact .inl hy.symm
    rw [update_of_ne hya] at hy
    exact .inr ⟨y,hy⟩
  refine ⟨fun q hq => ?_,fun q hq => ?_,fun y hy => ?_⟩
  · rw [Exact,hh,hh]
    change (k.pipe q).Counts _ _
    by_cases hqp : q = p
    · subst hqp
      obtain ⟨hw,hr⟩ := holders_eq_zero hp
      simp only [hw,hr,reduceCtorEq,if_true,if_false,hnew]
      exact .new
    · have hother := h.exact q ((hreach q hq).resolve_left hqp)
      simp only [FileDesc.pipeReader.injEq,FileDesc.pipeWriter.injEq,reduceCtorEq,if_false,
        Ne.symm hqp,Nat.add_zero]
      exact hother
  · obtain rfl | hq := hreach q hq
    · exact hlt
    · exact h.made q hq
  · have hyi : y.1 ≠ i := by
      rintro rfl
      exact hy (Kernel.mem_slots.mpr hi)
    have hne (c : Slot) : y ≠ (i,c) := fun heq => hyi (by rw [heq])
    rw [setFd_fds,setFd_fds,update_of_ne (hne b),update_of_ne (hne a)]
    exact h.outside y hy

theorem Counted.sysPipe (h : k.Counted) {i : ℕ} (hi : i < k.nProcs) :
    (k.sysPipe closeSocket i).2.Counted := by
  have hfresh : ¬k.Reachable k.nPipes := fun hp => absurd (h.made _ hp) (Nat.lt_irrefl _)
  -- the pipe object alone
  obtain ⟨k₁,hk₁⟩ : ∃ k₁ : Kernel ρ, k₁ =
      { k with pipe := update k.pipe k.nPipes .new, nPipes := k.nPipes+1 } := ⟨_,rfl⟩
  have h₁ : k₁.Counted := by
    rw [hk₁]
    refine h.congr rfl rfl (Nat.le_succ _) fun p hp => update_of_ne ?_ ..
    rintro rfl
    exact hfresh hp
  have hp₁ : ¬k₁.Reachable k.nPipes := by rwa [hk₁]
  have hnew : k₁.pipe k.nPipes = .new := by rw [hk₁]; exact update_self ..
  rw [Kernel.sysPipe,← hk₁,Kernel.procAllocFD]
  cases ha : k₁.freeSlot i with
  | none => exact h₁
  | some a =>
    have hnone := freeSlot_some ha
    dsimp only
    rw [Kernel.procAllocFD]
    cases hb : (k₁.setFd (i,a) (some (.pipeReader k.nPipes))).freeSlot i with
    | some b =>
      exact h₁.bothEnds (by rw [hk₁]; exact hi) hp₁ (by rw [hk₁]; exact Nat.lt_succ_self _) hnew hnone
        (freeSlot_some hb)
    | none =>
      -- the read end is closed again, and nothing holds the pipe
      dsimp only
      rw [procClose,slot?_val]
      dsimp only
      have hdrop := drop_eq closeSocket (k := k₁.setFd (i,a) (some (.pipeReader k.nPipes)))
        (x := (i,a)) (by rw [setFd_fds,update_self])
      refine h₁.congr ?_ (drop_slots _) ?_ fun p hp => ?_
      · rw [drop_fds,setFd_fds,update_idem,← hnone,update_eq_self]
      · rw [hdrop]
        rfl
      · rw [hdrop,close_pipe,if_neg (by simp),if_neg]
        · rfl
        · rintro ⟨⟩
          exact hp₁ hp

/-- A number for one more process. -/
theorem Counted.grow (h : k.Counted) : Counted { k with nProcs := k.nProcs+1 } := by
  have hsub : k.slots ⊆ slots { k with nProcs := k.nProcs+1 } := fun x hx =>
    Kernel.mem_slots.mpr (Nat.lt_succ_of_lt (Kernel.mem_slots.mp hx))
  have hholders (d : FileDesc) : holders { k with nProcs := k.nProcs+1 } d = k.holders d :=
    tally_of_subset hsub fun x _ hx => by rw [h.outside x hx]; simp
  refine ⟨fun p hp => ?_,h.made,fun x hx => h.outside x fun hmem => hx (hsub hmem)⟩
  rw [Exact,hholders,hholders]
  exact h.exact p hp

/-- The inheritance loop, with the slots of the child that are still to come. -/
theorem Counted.inherits {parent child : ℕ} {as : List Slot} (has : as.Nodup)
    (h : k.Counted) (hchild : child < k.nProcs) (hnone : ∀ a ∈ as, k.fds (child,a) = none) :
    (as.foldl (inherit parent child) k).Counted := by
  induction as generalizing k with
  | nil => exact h
  | cons a as ih =>
    obtain ⟨ha,has⟩ := List.nodup_cons.mp has
    have hself := hnone a (List.mem_cons_self ..)
    have hsame : k.setFd (child,a) none = k := by
      rw [setFd,← hself,update_eq_self]
    have hrest (b : Slot) (hb : b ∈ as) : (child,b) ≠ (child,a) := by
      rintro ⟨⟩
      exact ha hb
    have hstep : (inherit parent child k a).Counted ∧
        (inherit parent child k a).nProcs = k.nProcs ∧
        ∀ b ∈ as, (inherit parent child k a).fds (child,b) = none := by
      have hidle : k.Counted ∧ k.nProcs = k.nProcs ∧ ∀ b ∈ as, k.fds (child,b) = none :=
        ⟨h,rfl,fun b hb => hnone b (List.mem_cons_of_mem _ hb)⟩
      rw [inherit]
      cases hd : k.fds (parent,a) with
      | none =>
        rwa [hsame]
      | some d =>
        dsimp only
        split
        · rwa [hsame]
        · obtain ⟨hfds,hprocs,-⟩ := fdAddRef_frame (k.setFd (child,a) (some d)) d
          refine ⟨h.share (Kernel.mem_slots.mpr hchild) hself fun _ _ => ⟨_,hd⟩,hprocs,
            fun b hb => ?_⟩
          rw [hfds,setFd_fds,update_of_ne (hrest b hb)]
          exact hnone b (List.mem_cons_of_mem _ hb)
    exact ih has hstep.1 (hstep.2.1 ▸ hchild) hstep.2.2

theorem Counted.elfSpawn (h : k.Counted) (parent : ℕ) :
    (k.elfSpawn parent).Counted := by
  refine h.grow.inherits (List.nodup_finRange _) (Nat.lt_succ_self _)
    fun a _ => h.outside _ fun hmem => ?_
  exact absurd (Kernel.mem_slots.mp hmem) (Nat.lt_irrefl _)

theorem Counted.launch (h : k.Counted) : k.launch.Counted := by
  have hnone (a : Slot) : k.fds (k.nProcs,a) = none := h.outside _ fun hmem =>
    absurd (Kernel.mem_slots.mp hmem) (Nat.lt_irrefl _)
  have h₀ := h.grow.setOther 0 (Nat.lt_succ_self _) (hnone 0) (d := .consoleStdin) (by simp)
  have hne {a b : Slot} (hab : a ≠ b) : (k.nProcs,a) ≠ (k.nProcs,b) := fun heq =>
    hab (congrArg Prod.snd heq)
  have h₁ := h₀.setOther 1 (Nat.lt_succ_self _) (d := .consoleStdout true)
    (by rw [setFd_fds,update_of_ne (hne (by decide))]; exact hnone 1) (by simp)
  refine h₁.setOther 2 (Nat.lt_succ_self _) (d := .consoleStdout false) ?_ (by simp)
  rw [setFd_fds,setFd_fds,update_of_ne (hne (by decide)),
    update_of_ne (hne (by decide))]
  exact hnone 2

theorem Counted.drops (h : k.Counted) (xs : List (ℕ × Slot)) :
    (xs.foldl (fun k x => k.drop closeSocket x) k).Counted := by
  induction xs generalizing k with
  | nil => exact h
  | cons x xs ih => exact ih (h.drop x)

theorem Counted.step (h : k.Counted) (e : Ev ρ) : (k.step closeSocket e).1.Counted := by
  cases e with
  | pipe i =>
    rw [Kernel.step]
    split
    · exact h.sysPipe ‹_›
    · exact h
  | dup2 i oldfd newfd =>
    rw [Kernel.step]
    split
    · exact h.procDup2 i oldfd newfd
    · exact h
  | close i fd =>
    rw [Kernel.step]
    split
    · rw [procClose]
      split
      · exact h
      · exact h.drop _
    · exact h
  | openFd i d hd =>
    rw [Kernel.step]
    split
    · exact h.procAllocFD ‹_› hd
    · exact h
  | spawn i =>
    rw [Kernel.step]
    split
    · exact h.elfSpawn i
    · exact h
  | launch => exact h.launch
  | exit i =>
    rw [Kernel.step]
    split
    · rw [procCloseAll,← List.foldl_map (f := fun a : Slot => (i,a))
        (g := fun k x => Kernel.drop closeSocket k x)]
      exact h.drops _
    · exact h
  | other f => exact h.congr rfl rfl le_rfl fun _ _ => rfl

theorem counted_boot (r : ρ) : (boot r).Counted := by
  have hnone (p : ℕ) : ¬(empty r).Reachable p := by
    rintro ⟨x,hx | hx⟩
    · cases hx
    · cases hx
  have hempty : (empty r).Counted :=
    ⟨fun p hp => (hnone p hp).elim,fun p hp => (hnone p hp).elim,fun _ _ => rfl⟩
  exact hempty.launch

end Kernel

/-- After any calls, a pipe that some slot holds has its counts and flags right. -/
theorem pipe_refs_exact {ρ : Type} (closeSocket : ℕ → ρ → ρ) (r : ρ) (es : List (Ev ρ)) (p : ℕ)
    (x : ℕ × Slot) :
    let k := Trace.exec (Kernel.step closeSocket) (Kernel.boot r) es
    k.fds x = some (.pipeWriter p) ∨ k.fds x = some (.pipeReader p) →
      (k.pipe p).wrRefs = k.holders (.pipeWriter p) ∧ (k.pipe p).rdRefs = k.holders (.pipeReader p) ∧
      ((k.pipe p).wrClosed = true ↔ ∀ y, k.fds y ≠ some (.pipeWriter p)) ∧
      ((k.pipe p).rdClosed = true ↔ ∀ y, k.fds y ≠ some (.pipeReader p)) := by
  intro k hx
  have hk : k.Counted := Trace.Meets.inv (G := fun _ _ => True) (I := Kernel.Counted)
    (fun k e h _ => h.step e) (Kernel.counted_boot r) (Trace.meets_of_forall (fun _ _ => trivial) _ es)
  have hnone (d : FileDesc) : k.holders d = 0 ↔ ∀ y, k.fds y ≠ some d := by
    constructor
    · intro hzero y hy
      have := hk.holders_pos hy
      omega
    · exact fun h => tally_eq_zero.mpr fun y _ => h y
  have hex := hk.exact p ⟨x,hx⟩
  exact ⟨hex.wrRefs,hex.rdRefs,hex.wrClosed.trans (hnone _),hex.rdClosed.trans (hnone _)⟩

/-- A pipe whose write end goes to descriptor 1 and to a child before the parent closes it. -/
theorem pipe_refs_exact_shared :
    let k := Trace.exec (Kernel.step fun _ r => r) (Kernel.boot ())
      [.pipe 0,.dup2 0 4 1,.spawn 0,.close 0 4]
    (k.pipe 0).wrRefs = k.holders (.pipeWriter 0) ∧ (k.pipe 0).rdRefs = k.holders (.pipeReader 0) ∧
      ((k.pipe 0).wrClosed = true ↔ ∀ y, k.fds y ≠ some (.pipeWriter 0)) ∧
      ((k.pipe 0).rdClosed = true ↔ ∀ y, k.fds y ≠ some (.pipeReader 0)) :=
  pipe_refs_exact (fun _ r => r) () [.pipe 0,.dup2 0 4 1,.spawn 0,.close 0 4] 0 (1,4)
    (.inl (by decide))

end Gooos.Fd
