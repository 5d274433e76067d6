import Gooos.Lib.Trace

/-!
# Who owns the keyboard

`processWait` hands the keyboard to the child and gives it back to the owner it found before;
`consoleStdin.Read` looks at the owner once and then reads a line. Each access to
`foregroundProc` is a step of its own.
-/

namespace Gooos.Console

open Function

/-- Where a process is in the kernel. -/
inductive Pc where
  | user
  /-- `processWait(c)` is about to look who owns the keyboard -/
  | save (c : ℕ)
  /-- it found `prev` and is about to hand the keyboard to `c` -/
  | give (c prev : ℕ)
  | poll (c prev : ℕ)
  /-- `c` has exited: about to give the keyboard back -/
  | take (c prev : ℕ)
  | reap (c : ℕ)
  /-- in `readKeyboardLine` -/
  | reading
  deriving DecidableEq, Repr

/-- The child of a `processWait` in progress. -/
def Pc.waitsFor : Pc → Option ℕ
  | .save c | .give c _ | .poll c _ | .take c _ | .reap c => some c
  | .user | .reading => none

/-- Between the two hand-overs: the child, and who gets the keyboard back. -/
def Pc.frame : Pc → Option (ℕ × ℕ)
  | .poll c prev | .take c prev => some (c,prev)
  | _ => none

variable {pc : Pc} {L : List ℕ}

theorem Pc.waitsFor_of_frame {c prev : ℕ} (h : pc.frame = some (c,prev)) :
    pc.waitsFor = some c := by
  cases pc <;> simp_all [Pc.frame,Pc.waitsFor]

structure State where
  pc : ℕ → Pc
  exited : ℕ → Bool
  parent : ℕ → Option ℕ
  /-- `procByPID` has the process -/
  byPID : ℕ → Bool
  nProcs : ℕ
  foregroundProc : ℕ

/-- The boot shell is process 0. -/
def boot : State where
  pc _ := .user
  exited _ := false
  parent _ := none
  byPID _ := false
  nProcs := 1
  foregroundProc := 0

inductive Ev where
  | spawn (i : ℕ)
  | exec (i : ℕ)
  | wait (i c : ℕ)
  | waitpid (i c : ℕ)
  | exit (i : ℕ)
  | read (i : ℕ)
  /-- the line that process `i` reads is complete -/
  | line (i : ℕ)
  /-- process `i` goes on in `processWait` -/
  | run (i : ℕ)
  deriving DecidableEq, Repr

namespace State

def setPc (k : State) (i : ℕ) (pc : Pc) : State := { k with pc := update k.pc i pc }

theorem setPc_self (k : State) (i : ℕ) (pc : Pc) : (k.setPc i pc).pc i = pc :=
  update_self ..

theorem setPc_of_ne (k : State) {i j : ℕ} (pc : Pc) (h : j ≠ i) : (k.setPc i pc).pc j = k.pc j :=
  update_of_ne h ..

def setForegroundProc (k : State) (p : ℕ) : State := { k with foregroundProc := p }

/-- The process is in user mode, so it may make a call. -/
def Idle (k : State) (i : ℕ) : Prop := i < k.nProcs ∧ k.pc i = .user ∧ k.exited i = false

instance (k : State) (i : ℕ) : Decidable (k.Idle i) := by
  unfold Idle
  infer_instance

def elfSpawn (k : State) (i : ℕ) : State :=
  { k with
    parent := update k.parent k.nProcs (some i)
    byPID := update k.byPID k.nProcs true
    nProcs := k.nProcs+1 }

/-- The next access of a `processWait` to the shared state. -/
def processWait (k : State) (i : ℕ) : State :=
  match k.pc i with
  | .save c => k.setPc i (.give c k.foregroundProc)
  | .give c prev => (k.setPc i (.poll c prev)).setForegroundProc c
  | .poll c prev => if k.exited c then k.setPc i (.take c prev) else k
  | .take c prev => (k.setPc i (.reap c)).setForegroundProc prev
  | .reap c => { k.setPc i .user with byPID := update k.byPID c false }
  | .user | .reading => k

def step (k : State) : Ev → State × List Unit
  | .spawn i => (if k.Idle i then k.elfSpawn i else k,[])
  | .exec i => (if k.Idle i then (k.elfSpawn i).setPc i (.save k.nProcs) else k,[])
  | .wait i c =>
    (if k.Idle i ∧ k.byPID c = true ∧ k.parent c = some i then k.setPc i (.save c) else k,[])
  | .waitpid i c =>
    (if k.Idle i ∧ k.byPID c = true ∧ k.parent c = some i ∧ k.exited c = true then
      { k with byPID := update k.byPID c false } else k,[])
  | .exit i => (if k.Idle i then { k with exited := update k.exited i true } else k,[])
  | .read i => (if k.Idle i ∧ k.foregroundProc = i then k.setPc i .reading else k,[])
  | .line i => (if k.pc i = .reading then k.setPc i .user else k,[])
  | .run i => (k.processWait i,[])

/-- Hand-overs nest: the keyboard goes to a child while the owner is still the one that was saved
and nobody reads a line, and comes back from that child; and the boot shell stays. -/
def Nested (k : State) : Ev → Prop
  | .run i =>
    match k.pc i with
    | .give _ prev => k.foregroundProc = prev ∧ ∀ j < k.nProcs, k.pc j ≠ .reading
    | .take c _ => k.foregroundProc = c
    | _ => True
  | .exit i => i ≠ 0
  | _ => True

instance (k : State) (e : Ev) : Decidable (k.Nested e) := by
  cases e with
  | run i => simp only [Nested]; split <;> infer_instance
  | spawn | exec | wait | waitpid | read | line => exact .isTrue trivial
  | exit => exact instDecidableNot

/-! ### Waits in progress as a stack -/

/-- The waiters from the owner `f` down to the boot shell. -/
def Chain (pc : ℕ → Pc) : ℕ → List ℕ → Prop
  | f, [] => f = 0
  | f, i::L => ∃ prev, (pc i).frame = some (f,prev) ∧ Chain pc prev L

theorem Chain.congr {pc pc' : ℕ → Pc} {f : ℕ} (h : Chain pc f L)
    (heq : ∀ i ∈ L, (pc' i).frame = (pc i).frame) : Chain pc' f L := by
  induction L generalizing f with
  | nil => exact h
  | cons i L ih =>
    obtain ⟨prev,hi,hL⟩ := h
    exact ⟨prev,(heq i (List.mem_cons_self ..)).trans hi,
      ih hL fun j hj => heq j (List.mem_cons_of_mem _ hj)⟩

theorem Chain.frame_ne_none {pc : ℕ → Pc} {f i : ℕ} (h : Chain pc f L) (hi : i ∈ L) :
    (pc i).frame ≠ none := by
  induction L generalizing f with
  | nil => cases hi
  | cons j L ih =>
    obtain ⟨prev,hj,hL⟩ := h
    obtain rfl | hi := List.mem_cons.mp hi
    · rw [hj]
      exact Option.some_ne_none _
    · exact ih hL hi

structure Nests (k : State) (L : List ℕ) : Prop where
  chain : Chain k.pc k.foregroundProc L
  complete : ∀ i, (k.pc i).frame ≠ none → i ∈ L
  nodup : L.Nodup

/-- Parents and children, and what processes do that have exited or are yet to come. -/
structure Family (k : State) : Prop where
  parents : ∀ i c, (k.pc i).waitsFor = some c → k.parent c = some i
  orphan : k.parent 0 = none
  alive : k.exited 0 = false
  fresh : ∀ n, k.nProcs ≤ n → k.pc n = .user ∧ k.parent n = none
  gone : ∀ i c prev, k.pc i = .take c prev → k.exited c = true
  idle : ∀ i, k.exited i = true → k.pc i = .user

structure Inv (k : State) : Prop where
  family : k.Family
  nests : ∃ L, k.Nests L
  /-- who reads a line owns the keyboard all the time -/
  reader : ∀ i, k.pc i = .reading → k.foregroundProc = i

theorem inv_boot : boot.Inv :=
  ⟨⟨nofun,rfl,rfl,fun _ _ => ⟨rfl,rfl⟩,nofun,nofun⟩,
    ⟨[],rfl,fun _ h => absurd rfl h,List.nodup_nil⟩,nofun⟩

variable {k : State} {i c prev : ℕ}

/-- A process changes its place outside the hand-overs. -/
theorem Nests.setPc (h : k.Nests L) (hpc : pc.frame = (k.pc i).frame) :
    (k.setPc i pc).Nests L := by
  have hframe (j : ℕ) : ((k.setPc i pc).pc j).frame = (k.pc j).frame := by
    by_cases hj : j = i
    · rw [hj,setPc_self,hpc]
    · rw [setPc_of_ne k pc hj]
  exact ⟨h.chain.congr fun j _ => hframe j,fun j hj => h.complete j fun hnone => hj
    ((hframe j).trans hnone),h.nodup⟩

/-- The child gets the keyboard. -/
theorem Nests.give (h : k.Nests L) (hpc : k.pc i = .give c k.foregroundProc) :
    ((k.setPc i (.poll c k.foregroundProc)).setForegroundProc c).Nests (i::L) := by
  have hi : i ∉ L := fun hmem => h.chain.frame_ne_none hmem (by rw [hpc]; rfl)
  refine ⟨⟨k.foregroundProc,?_,h.chain.congr fun j hj => ?_⟩,fun j hj => ?_,
    List.nodup_cons.mpr ⟨hi,h.nodup⟩⟩
  · exact congrArg Pc.frame (setPc_self ..)
  · have hji : j ≠ i := fun heq => hi (heq ▸ hj)
    exact congrArg Pc.frame (setPc_of_ne _ _ hji)
  · by_cases hji : j = i
    · exact List.mem_cons.mpr (.inl hji)
    · refine List.mem_cons_of_mem _ (h.complete j fun hnone => hj ?_)
      exact (congrArg Pc.frame (setPc_of_ne _ _ hji)).trans hnone

/-- It comes back from the last one who got it. -/
theorem Nests.take (h : k.Nests L) (hk : k.Family) (hpc : k.pc i = .take k.foregroundProc prev) :
    ∃ L', ((k.setPc i (.reap k.foregroundProc)).setForegroundProc prev).Nests L' := by
  have hframe : (k.pc i).frame = some (k.foregroundProc,prev) := by rw [hpc]; rfl
  have hparent := hk.parents i _ (Pc.waitsFor_of_frame hframe)
  obtain ⟨hchain,hcomplete,hnodup⟩ := h
  cases L with
  | nil => exact absurd (hcomplete i (by rw [hframe]; exact Option.some_ne_none _)) List.not_mem_nil
  | cons j L =>
    obtain ⟨prev',hj,hL⟩ := hchain
    -- a child has one parent, so the top of the stack is this wait
    have hji : j = i := Option.some.inj ((hk.parents j _ (Pc.waitsFor_of_frame hj)).symm.trans hparent)
    subst hji
    obtain ⟨hjL,hnodup⟩ := List.nodup_cons.mp hnodup
    obtain rfl : prev' = prev := by
      rw [hframe] at hj
      exact (Prod.mk.inj (Option.some.inj hj)).2.symm
    refine ⟨L,hL.congr fun m hm => ?_,fun m hm => ?_,hnodup⟩
    · have hmj : m ≠ j := fun heq => hjL (heq ▸ hm)
      exact congrArg Pc.frame (setPc_of_ne _ _ hmj)
    · have hmj : m ≠ j := by
        rintro rfl
        exact hm (congrArg Pc.frame (setPc_self ..))
      have hm' : (k.pc m).frame ≠ none := fun hnone => hm
        ((congrArg Pc.frame (setPc_of_ne _ _ hmj)).trans hnone)
      exact (List.mem_cons.mp (hcomplete m hm')).resolve_left hmj

/-- What a process is found to do after a change of place. -/
theorem setPc_cases (P : Pc → Prop) (j : ℕ) (h : P ((k.setPc i pc).pc j)) :
    j = i ∧ P pc ∨ j ≠ i ∧ P (k.pc j) := by
  by_cases hj : j = i
  · subst hj
    rw [setPc_self] at h
    exact .inl ⟨rfl,h⟩
  · rw [setPc_of_ne _ _ hj] at h
    exact .inr ⟨hj,h⟩

theorem Family.setPc (hk : k.Family) (pc : Pc) (hi : i < k.nProcs)
    (hparent : ∀ c, pc.waitsFor = some c → k.parent c = some i)
    (hgone : ∀ c prev, pc = .take c prev → k.exited c = true)
    (halive : k.exited i = false) : (k.setPc i pc).Family := by
  refine ⟨fun j c h => ?_,hk.orphan,hk.alive,fun n hn => ⟨?_,(hk.fresh n hn).2⟩,
    fun j c prev h => ?_,fun j h => ?_⟩
  · obtain ⟨hj,h⟩ | ⟨-,h⟩ := setPc_cases (·.waitsFor = some c) j h
    · rw [hj]
      exact hparent c h
    · exact hk.parents j c h
  · exact (setPc_of_ne _ _ (Nat.ne_of_gt (hi.trans_le hn))).trans (hk.fresh n hn).1
  · obtain ⟨-,h⟩ | ⟨-,h⟩ := setPc_cases (· = .take c prev) j h
    · exact hgone c prev h
    · exact hk.gone j c prev h
  · have hj : j ≠ i := by
      rintro rfl
      exact absurd (halive.symm.trans h) Bool.false_ne_true
    exact (setPc_of_ne _ _ hj).trans (hk.idle j h)

theorem Family.lt_nProcs (hk : k.Family) (h : k.pc i ≠ .user) : i < k.nProcs := by
  by_contra hge
  exact h (hk.fresh i (not_lt.mp hge)).1

theorem Family.not_exited (hk : k.Family) (h : k.pc i ≠ .user) : k.exited i = false := by
  by_contra hx
  exact h (hk.idle i (Bool.eq_true_of_not_eq_false hx))

theorem Family.elfSpawn (hk : k.Family) (hi : i < k.nProcs) : (k.elfSpawn i).Family := by
  have h0 : (0 : ℕ) ≠ k.nProcs := by omega
  refine ⟨fun j c h => ?_,?_,hk.alive,fun n hn => ?_,hk.gone,hk.idle⟩
  · have hc : c ≠ k.nProcs := by
      rintro rfl
      have := hk.parents j _ h
      rw [(hk.fresh _ le_rfl).2] at this
      cases this
    exact (update_of_ne hc ..).trans (hk.parents j c h)
  · exact (update_of_ne h0 ..).trans hk.orphan
  · have hn : k.nProcs+1 ≤ n := hn
    exact ⟨(hk.fresh n (by omega)).1,(update_of_ne (by omega) ..).trans
      (hk.fresh n (by omega)).2⟩

/-- A process changes its place outside the hand-overs. -/
theorem Inv.setPc (hk : k.Inv) (pc : Pc) (hpc : pc.frame = (k.pc i).frame) (hi : i < k.nProcs)
    (hparent : ∀ c, pc.waitsFor = some c → k.parent c = some i)
    (hgone : ∀ c prev, pc = .take c prev → k.exited c = true)
    (hreader : pc = .reading → k.foregroundProc = i) (halive : k.exited i = false) :
    (k.setPc i pc).Inv := by
  obtain ⟨L,hL⟩ := hk.nests
  refine ⟨hk.family.setPc pc hi hparent hgone halive,⟨L,hL.setPc hpc⟩,fun j h => ?_⟩
  obtain ⟨hj,h⟩ | ⟨-,h⟩ := setPc_cases (· = .reading) j h
  · rw [hj]
    exact hreader h
  · exact hk.reader j h

theorem Inv.elfSpawn (hk : k.Inv) (hi : i < k.nProcs) : (k.elfSpawn i).Inv := by
  obtain ⟨L,hL⟩ := hk.nests
  exact ⟨hk.family.elfSpawn hi,⟨L,hL.chain,hL.complete,hL.nodup⟩,hk.reader⟩

/-- One access of a `processWait`. -/
theorem Inv.processWait (hk : k.Inv) (hg : k.Nested (.run i)) : (k.processWait i).Inv := by
  have hthere (h : k.pc i ≠ .user) := hk.family.lt_nProcs h
  have halive (h : k.pc i ≠ .user) := hk.family.not_exited h
  have hparent := hk.family.parents i
  rw [Nested] at hg
  rw [State.processWait]
  cases hpc : k.pc i with
  | user | reading => exact hk
  | save c =>
    rw [hpc] at hthere halive hparent
    exact hk.setPc _ (by rw [hpc]; rfl) (hthere nofun) hparent nofun nofun (halive nofun)
  | poll c prev =>
    rw [hpc] at hthere halive hparent
    dsimp only
    split
    · rename_i hgone
      refine hk.setPc _ (by rw [hpc]; rfl) (hthere nofun) hparent ?_ nofun (halive nofun)
      rintro _ _ ⟨⟩
      exact hgone
    · exact hk
  | reap c =>
    rw [hpc] at hthere halive hparent
    have h := hk.setPc .user (by rw [hpc]; rfl) (hthere nofun) nofun nofun nofun (halive nofun)
    obtain ⟨L,hL⟩ := h.nests
    obtain ⟨h₁,h₂,h₃,h₄,h₅,h₆⟩ := h.family
    exact ⟨⟨h₁,h₂,h₃,h₄,h₅,h₆⟩,⟨L,hL.chain,hL.complete,hL.nodup⟩,h.reader⟩
  | give c prev =>
    rw [hpc] at hthere halive hparent hg
    obtain ⟨rfl,hnone⟩ := hg
    obtain ⟨L,hL⟩ := hk.nests
    have hfamily := hk.family.setPc (.poll c k.foregroundProc) (hthere nofun) hparent nofun
      (halive nofun)
    obtain ⟨h₁,h₂,h₃,h₄,h₅,h₆⟩ := hfamily
    refine ⟨⟨h₁,h₂,h₃,h₄,h₅,h₆⟩,⟨_,hL.give hpc⟩,fun j hj => ?_⟩
    obtain ⟨-,h⟩ | ⟨-,h⟩ := setPc_cases (· = .reading) j hj
    · cases h
    · exact absurd h (hnone j (hk.family.lt_nProcs (by rw [h]; exact nofun)))
  | take c prev =>
    rw [hpc] at hthere halive hparent hg
    obtain rfl : k.foregroundProc = c := hg
    obtain ⟨L,hL⟩ := hk.nests
    have hfamily := hk.family.setPc (.reap k.foregroundProc) (hthere nofun) hparent nofun
      (halive nofun)
    obtain ⟨h₁,h₂,h₃,h₄,h₅,h₆⟩ := hfamily
    refine ⟨⟨h₁,h₂,h₃,h₄,h₅,h₆⟩,hL.take hk.family hpc,fun j hj => ?_⟩
    -- the owner has exited, so it does not read
    obtain ⟨-,h⟩ | ⟨-,h⟩ := setPc_cases (· = .reading) j hj
    · cases h
    · have hj := hk.reader j h
      have := hk.family.idle j (hj ▸ hk.family.gone i _ _ hpc)
      rw [h] at this
      cases this

theorem Inv.step (hk : k.Inv) (e : Ev) (hg : k.Nested e) : (k.step e).1.Inv := by
  cases e with
  | run i => exact hk.processWait hg
  | spawn i =>
    rw [State.step]
    split
    · rename_i hidle
      exact hk.elfSpawn hidle.1
    · exact hk
  | exec i =>
    rw [State.step]
    split
    · rename_i hidle
      obtain ⟨hi,hpc,halive⟩ := hidle
      refine (hk.elfSpawn hi).setPc _ ?_ (Nat.lt_succ_of_lt hi) ?_ nofun nofun halive
      · exact (congrArg Pc.frame hpc).symm
      · rintro c ⟨⟩
        exact update_self ..
    · exact hk
  | wait i c =>
    rw [State.step]
    split
    · rename_i h
      obtain ⟨⟨hi,hpc,halive⟩,-,hparent⟩ := h
      refine hk.setPc _ ?_ hi ?_ nofun nofun halive
      · exact (congrArg Pc.frame hpc).symm
      · rintro _ ⟨⟩
        exact hparent
    · exact hk
  | waitpid i c =>
    rw [State.step]
    split
    · obtain ⟨L,hL⟩ := hk.nests
      obtain ⟨h₁,h₂,h₃,h₄,h₅,h₆⟩ := hk.family
      exact ⟨⟨h₁,h₂,h₃,h₄,h₅,h₆⟩,⟨L,hL.chain,hL.complete,hL.nodup⟩,hk.reader⟩
    · exact hk
  | exit i =>
    rw [State.step]
    split
    · rename_i h
      obtain ⟨-,hpc,-⟩ := h
      obtain ⟨L,hL⟩ := hk.nests
      obtain ⟨h₁,h₂,h₃,h₄,h₅,h₆⟩ := hk.family
      have hmore (c : ℕ) (hc : k.exited c = true) : update k.exited i true c = true := by
        by_cases hci : c = i
        · rw [hci,update_self]
        · rw [update_of_ne hci,hc]
      refine ⟨⟨h₁,h₂,?_,h₄,fun j c prev hj => hmore c (h₅ j c prev hj),fun j hj => ?_⟩,
        ⟨L,hL.chain,hL.complete,hL.nodup⟩,hk.reader⟩
      · exact (update_of_ne (Ne.symm hg) ..).trans h₃
      · by_cases hji : j = i
        · rw [hji]
          exact hpc
        · exact h₆ j ((update_of_ne hji ..).symm.trans hj)
    · exact hk
  | read i =>
    rw [State.step]
    split
    · rename_i h
      obtain ⟨⟨hi,hpc,halive⟩,hfg⟩ := h
      exact hk.setPc _ (congrArg Pc.frame hpc).symm hi nofun nofun (fun _ => hfg) halive
    · exact hk
  | line i =>
    rw [State.step]
    split
    · rename_i hpc
      have hbusy : k.pc i ≠ .user := by
        rw [hpc]
        exact nofun
      exact hk.setPc _ (congrArg Pc.frame hpc).symm (hk.family.lt_nProcs hbusy) nofun nofun nofun
        (hk.family.not_exited hbusy)
    · exact hk

end State

/-- If every `processWait` in progress waits for a process that has not exited, the owner of the
keyboard has not exited; without one, and with the boot shell there, it is the boot shell; and at
most one process reads a line. -/
def State.Owned (k : State) : Prop :=
  ((∀ i c, (k.pc i).waitsFor = some c → k.exited c = false) → k.exited k.foregroundProc = false) ∧
    (k.exited 0 = false → (∀ i, (k.pc i).waitsFor = none) → k.foregroundProc = 0) ∧
    ∀ i j, k.pc i = .reading → k.pc j = .reading → i = j

theorem State.Inv.owned {k : State} (hk : k.Inv) : k.Owned := by
  obtain ⟨L,hL⟩ := hk.nests
  refine ⟨fun h => ?_,fun _ h => ?_,fun i j hi hj => (hk.reader i hi).symm.trans (hk.reader j hj)⟩
  · cases L with
    | nil =>
      rw [show k.foregroundProc = 0 from hL.chain]
      exact hk.family.alive
    | cons i L =>
      obtain ⟨prev,hi,-⟩ := hL.chain
      exact h i _ (Pc.waitsFor_of_frame hi)
  · cases L with
    | nil => exact hL.chain
    | cons i L =>
      obtain ⟨prev,hi,-⟩ := hL.chain
      have := Pc.waitsFor_of_frame hi
      rw [h i] at this
      cases this

/-- The keyboard has its right owner in every state of a run whose hand-overs nest. -/
theorem keyboard_owned (es : List Ev) (hg : Trace.Meets State.step State.Nested boot es) :
    (Trace.exec State.step boot es).Owned :=
  (Trace.Meets.inv (G := State.Nested) (I := State.Inv) (fun _ e hk hg => hk.step e hg)
    State.inv_boot hg).owned

/-- A shell in a shell: the inner one runs a command and then exits. -/
theorem keyboard_owned_inner :
    (Trace.exec State.step boot
      [.exec 0,.run 0,.run 0,.exec 1,.run 1,.run 1,.read 2,.line 2,.exit 2,.run 1,.run 1,.run 1,
        .exit 1,.run 0,.run 0,.run 0,.read 0]).Owned :=
  keyboard_owned [.exec 0,.run 0,.run 0,.exec 1,.run 1,.run 1,.read 2,.line 2,.exit 2,.run 1,.run 1,
    .run 1,.exit 1,.run 0,.run 0,.run 0,.read 0] (by decide)

/-- A background job runs a command (process 2) while the boot shell runs another one (process 3):
in the end no wait is in progress and the owner is process 2, which has exited. And if the boot
shell reads a line when the job starts its command, both read. -/
theorem waits_do_not_nest :
    (let k := Trace.exec State.step boot
      [.spawn 0,.exec 1,.run 1,.run 1,.exec 0,.run 0,.run 0,.exit 2,.run 1,.run 1,.run 1,.exit 3,
        .run 0,.run 0,.run 0]
    k.exited 0 = false ∧ (∀ i < 4, (k.pc i).waitsFor = none) ∧ k.foregroundProc = 2 ∧
      k.exited 2 = true) ∧
    ¬(Trace.exec State.step boot [.spawn 0,.read 0,.exec 1,.run 1,.run 1,.read 2]).Owned := by
  refine ⟨by decide,fun h => ?_⟩
  have := h.2.2 0 2 (by decide) (by decide)
  omega

end Gooos.Console
