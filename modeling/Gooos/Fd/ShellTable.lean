import Gooos.Fd.Shell

/-!
# The shell's table after a command

While a pipeline runs, the shell's input and output are kept in two slots and the ends of the
pipes are in slots that were free; at the end the table is what it was.
-/

namespace Gooos.Fd

open Function (update update_self update_of_ne update_idem update_eq_self)
open Finset (mem_filter)

/-- There is an input and an output, and the slots to keep them are free. -/
structure Ready (T : Slot → Option FileDesc) : Prop where
  stdin : T 0 ≠ none
  stdout : T 1 ≠ none
  savedStdin : T savedStdinFD = none
  savedStdout : T savedStdoutFD = none

/-- A table `t` on the way: `T` has its input and output kept, and `P` are slots in use. -/
structure Saved (T t : Slot → Option FileDesc) (P : List Slot) : Prop where
  savedStdin : t savedStdinFD = T 0
  savedStdout : t savedStdoutFD = T 1
  stdin : t 0 ≠ none
  stdout : t 1 ≠ none
  inUse : ∀ a ∈ P, T a = none ∧ a < savedStdinFD
  rest : ∀ a, a ∉ P → a ≠ 0 → a ≠ 1 → a ≠ savedStdinFD → a ≠ savedStdoutFD → t a = T a

variable {b : Slot} {background : Bool} {c : CmdLine}

namespace Saved

variable {T t : Slot → Option FileDesc} {P : List Slot} {a : Slot}

/-- Input and output may become anything. -/
theorem std (h : Saved T t P) (hb : b = 0 ∨ b = 1) (d : FileDesc) :
    Saved T (update t b (some d)) P := by
  have h10 : savedStdinFD ≠ b := by obtain rfl | rfl := hb <;> decide
  have h11 : savedStdoutFD ≠ b := by obtain rfl | rfl := hb <;> decide
  have hne (c : Slot) (hc : t c ≠ none) : update t b (some d) c ≠ none := by
    by_cases hcb : c = b
    · rw [hcb,update_self]
      exact Option.some_ne_none d
    · rwa [update_of_ne hcb]
  refine ⟨?_,?_,hne 0 h.stdin,hne 1 h.stdout,h.inUse,fun a ha h0 h1 h2 h3 => ?_⟩
  · rw [update_of_ne h10,h.savedStdin]
  · rw [update_of_ne h11,h.savedStdout]
  · have hab : a ≠ b := by obtain rfl | rfl := hb <;> assumption
    rw [update_of_ne hab,h.rest a ha h0 h1 h2 h3]

theorem closeFirst (hT : Ready T) (h : Saved T t (a::P)) : Saved T (update t a none) P := by
  obtain ⟨hnone,hlt⟩ := h.inUse a (List.mem_cons_self ..)
  have h0 : (0 : Slot) ≠ a := fun heq => hT.stdin (heq ▸ hnone)
  have h1 : (1 : Slot) ≠ a := fun heq => hT.stdout (heq ▸ hnone)
  have h10 : savedStdinFD ≠ a := hlt.ne'
  have h11 : savedStdoutFD ≠ a := (hlt.trans (by decide)).ne'
  refine ⟨?_,?_,?_,?_,fun b hb => h.inUse b (List.mem_cons_of_mem _ hb),fun b hb hb0 hb1 hb2 hb3 => ?_⟩
  · rw [update_of_ne h10,h.savedStdin]
  · rw [update_of_ne h11,h.savedStdout]
  · rw [update_of_ne h0]
    exact h.stdin
  · rw [update_of_ne h1]
    exact h.stdout
  · by_cases hba : b = a
    · rw [hba,update_self,hnone]
    · rw [update_of_ne hba]
      refine h.rest b (fun hmem => ?_) hb0 hb1 hb2 hb3
      obtain hmem | hmem := List.mem_cons.mp hmem
      · exact hba hmem
      · exact hb hmem

/-- Slots that are free are not among those that matter. -/
theorem ne_of_free (hT : Ready T) (h : Saved T t P) (ha : t a = none) :
    a ≠ 0 ∧ a ≠ 1 ∧ a ≠ savedStdinFD ∧ a ≠ savedStdoutFD := by
  refine ⟨?_,?_,?_,?_⟩
  · rintro rfl
    exact h.stdin ha
  · rintro rfl
    exact h.stdout ha
  · rintro rfl
    exact hT.stdin (h.savedStdin.symm.trans ha)
  · rintro rfl
    exact hT.stdout (h.savedStdout.symm.trans ha)

end Saved

namespace Sh

variable {ρ : Type} {closeSocket : ℕ → ρ → ρ} {i : ℕ} {s s' : Sh ρ}
  {T : Slot → Option FileDesc} {P : List Slot}

/-- A copy onto the input or the output. -/
theorem saved_dup2 (h : Saved T (s.tab i) P) (a : Slot) (hb : b = 0 ∨ b = 1) :
    Saved T ((s.dup2 closeSocket i a b).2.tab i) P := by
  rw [dup2_tab]
  cases ha : s.tab i a with
  | none => exact h
  | some d => exact h.std hb d

theorem saved_redirect (hT : Ready T) (h : Saved T (s.tab i) P) (path : String)
    (hb : b = 0 ∨ b = 1) : Saved T ((s.redirect closeSocket i path b).2.tab i) P := by
  rw [redirect]
  split
  · exact h
  obtain ⟨hnone,htab⟩ | ⟨a,f,hsome,hfree,htab⟩ := openFile_cases (i := i) s path
  · cases hs : s.openFile i path with
    | mk r s₁ =>
      rw [hs] at hnone htab
      cases hnone
      exact htab ▸ h
  · cases hs : s.openFile i path with
    | mk r s₁ =>
      rw [hs] at hsome htab
      cases hsome
      have hab : b ≠ a := by
        obtain ⟨h0,h1,-,-⟩ := h.ne_of_free hT hfree
        obtain rfl | rfl := hb
        · exact h0.symm
        · exact h1.symm
      -- the slot of the file is free again after the copy
      have hnet : ((s₁.dup2 closeSocket i a b).2.close closeSocket i a).tab i =
          update (s.tab i) b (some (.fileFd f)) := by
        rw [close_tab,dup2_tab,htab,update_self,if_neg (Option.some_ne_none _),
          Function.update_comm hab,update_idem,← hfree,update_eq_self]
      rw [hnet]
      exact h.std hb _

theorem restoreStdio_tab (hT : Ready T) (h : Saved T (s.tab i) []) :
    (s.restoreStdio closeSocket i true).tab i = T := by
  have h10 : s.tab i savedStdinFD ≠ none := by rw [h.savedStdin]; exact hT.stdin
  rw [restoreStdio,if_pos rfl]
  rw [close_tab,dup2_tab,close_tab,dup2_tab,if_neg h10,update_of_ne (by decide),
    update_of_ne (by decide),h.savedStdin,h.savedStdout,if_neg hT.stdout]
  funext a
  by_cases h11 : a = savedStdoutFD
  · rw [h11,update_self,hT.savedStdout]
  by_cases h1 : a = 1
  · rw [h1,update_of_ne (by decide),update_self]
  by_cases h10 : a = savedStdinFD
  · rw [h10,update_of_ne (by decide),update_of_ne (by decide),update_self,hT.savedStdin]
  by_cases h0 : a = 0
  · rw [h0,update_of_ne (by decide),update_of_ne (by decide),update_of_ne (by decide),update_self]
  · rw [update_of_ne h11,update_of_ne h1,update_of_ne h10,update_of_ne h0]
    exact h.rest a (List.not_mem_nil) h0 h1 h10 h11

theorem dispatch_tab (hi : i < s.k.nProcs) {cmd : String}
    (h : s.dispatch closeSocket i background cmd = some s') : s'.tab i = s.tab i := by
  rw [dispatch] at h
  split at h
  · cases h
    exact spawn_tab hi
  rw [runCommand] at h
  split at h
  · cases h
  split at h
  · cases h
    rfl
  · cases h
    exact exec_tab hi

theorem later_redirect (s : Sh ρ) (path : String) (b : Slot) :
    Later i s (s.redirect closeSocket i path b).2 := by
  rw [redirect]
  split
  · exact .refl i s
  have h : Later i s (s.openFile i path).2 := later_openFile s path
  split
  · rename_i s₁ hs
    rwa [hs] at h
  · rename_i fd s₁ hs
    rw [hs] at h
    exact (h.trans (later_dup2 s₁ fd b)).trans (later_close _ fd)

theorem runRedirected_tab (hT : Ready T) (h : Saved T (s.tab i) []) (hi : i < s.k.nProcs)
    (hc : c.needRestore = true)
    (hr : s.runRedirected closeSocket i background c = some s') : s'.tab i = T := by
  have h₁ : Saved T ((s.redirect closeSocket i c.stdinFile 0).2.tab i) [] :=
    saved_redirect hT h _ (.inl rfl)
  have hl₁ : Later i s (s.redirect closeSocket i c.stdinFile 0).2 := later_redirect s _ _
  rw [runRedirected,hc] at hr
  split at hr
  · rename_i s₁ hs₁
    rw [hs₁] at h₁
    cases hr
    exact restoreStdio_tab hT h₁
  · rename_i s₁ hs₁
    rw [hs₁] at h₁ hl₁
    have h₂ : Saved T ((s₁.redirect closeSocket i c.stdoutFile 1).2.tab i) [] :=
      saved_redirect hT h₁ _ (.inr rfl)
    have hl₂ : Later i s₁ (s₁.redirect closeSocket i c.stdoutFile 1).2 := later_redirect s₁ _ _
    split at hr
    · rename_i s₂ hs₂
      rw [hs₂] at h₂
      cases hr
      exact restoreStdio_tab hT h₂
    · rename_i s₂ hs₂
      rw [hs₂] at h₂ hl₂
      obtain ⟨s₃,hs₃,rfl⟩ := Option.map_eq_some_iff.mp hr
      have htab := dispatch_tab (hi.trans_le (hl₁.trans hl₂).procs) hs₃
      exact restoreStdio_tab hT (htab ▸ h₂)

/-- Without redirections there is nothing to undo. -/
theorem executeCmdLine_plain (hc : c.needRestore = false) :
    s.executeCmdLine closeSocket i background c = s.dispatch closeSocket i background c.cmd := by
  have hfiles : c.stdinFile = "" ∧ c.stdoutFile = "" := by
    simpa [CmdLine.needRestore] using hc
  have hid : restoreStdio closeSocket i false = (id : Sh ρ → Sh ρ) :=
    funext fun _ => if_neg Bool.false_ne_true
  rw [executeCmdLine,runRedirected,hfiles.1]
  rw [hfiles.2]
  rw [hc,hid,Option.map_id]
  rfl

/-- Input and output are kept while slots that were free are in use. -/
theorem saveStdio_saved (closeSocket : ℕ → ρ → ρ) (hT : Ready T)
    (hP : ∀ a ∈ P, T a = none ∧ a < savedStdinFD)
    (hrest : ∀ a, a ∉ P → s.tab i a = T a) :
    (s.saveStdio closeSocket i).1 = true ∧ Saved T ((s.saveStdio closeSocket i).2.tab i) P := by
  have h0 : s.tab i 0 = T 0 := hrest 0 fun hmem => hT.stdin (hP 0 hmem).1
  have h1 : s.tab i 1 = T 1 := hrest 1 fun hmem => hT.stdout (hP 1 hmem).1
  have hsome : (s.dup2 closeSocket i 0 savedStdinFD).1.isSome = true := by
    rw [dup2_isSome,h0]
    exact Option.isSome_iff_ne_none.mpr hT.stdin
  have htab : (s.dup2 closeSocket i 0 savedStdinFD).2.tab i =
      update (s.tab i) savedStdinFD (T 0) := by
    rw [dup2_tab,h0,if_neg hT.stdin]
  rw [saveStdio]
  split
  · rename_i s₁ hs₁
    rw [hs₁] at hsome
    cases hsome
  · rename_i b s₁ hs₁
    rw [hs₁] at htab
    have h1' : s₁.tab i 1 = T 1 := by rw [htab,update_of_ne (by decide),h1]
    have htab₂ : (s₁.dup2 closeSocket i 1 savedStdoutFD).2.tab i =
        update (update (s.tab i) savedStdinFD (T 0)) savedStdoutFD (T 1) := by
      rw [dup2_tab,h1',if_neg hT.stdout,htab]
    refine ⟨?_,?_⟩
    · dsimp only
      rw [dup2_isSome,h1']
      exact Option.isSome_iff_ne_none.mpr hT.stdout
    · rw [htab₂]
      refine ⟨?_,update_self ..,?_,?_,hP,fun a ha _ _ h10 h11 => ?_⟩
      · rw [update_of_ne (by decide),update_self]
      · rw [update_of_ne (by decide),update_of_ne (by decide),h0]
        exact hT.stdin
      · rw [update_of_ne (by decide),update_of_ne (by decide),h1]
        exact hT.stdout
      · rw [update_of_ne h11,update_of_ne h10]
        exact hrest a ha

/-- The ends of pipes, in the order in which the loop closes them. -/
def ends (qs : List (Slot × Slot)) : List Slot := qs.flatMap fun q => [q.2,q.1]

/-- A stage that redirects nothing in the shell itself leaves the shell's table alone. -/
theorem runStage_tab (hi : i < s.k.nProcs)
    (hc : isBuiltin c.cmd = true → c.needRestore = false) {pid : Option ℕ}
    (hr : s.runStage closeSocket i c = some (pid,s')) :
    s'.tab i = s.tab i ∧ i < s'.k.nProcs := by
  rw [runStage] at hr
  split at hr
  · rename_i hb
    rw [executeCmdLine_plain (hc hb),dispatch,runCommand,hb] at hr
    simp only [Bool.not_true,Bool.and_false,Bool.false_eq_true,if_false,if_true] at hr
    split at hr
    · cases hr
    · cases hr
      exact ⟨rfl,hi⟩
  · obtain rfl : s' = (s.spawn i).2 := (congrArg Prod.snd (Option.some.inj hr)).symm
    exact ⟨spawn_tab hi,hi.trans_le (later_spawn hi).procs⟩

/-- The loop gives back every slot that the pipes took. -/
theorem runStages_saved (hT : Ready T) {before : Option Slot} {pipes : List (Slot × Slot)}
    {cs : List CmdLine} (hlen : cs.length = pipes.length+1)
    (hcs : ∀ c ∈ cs, isBuiltin c.cmd = true → c.needRestore = false)
    (h : Saved T (s.tab i) (before.toList++ends pipes)) (hi : i < s.k.nProcs)
    {pids : List (Option ℕ)} (hr : s.runStages closeSocket i before pipes cs = some (pids,s')) :
    Saved T (s'.tab i) [] := by
  induction cs generalizing before pipes s pids with
  | nil => cases hlen
  | cons c cs ih =>
    obtain ⟨s₁,hs₁⟩ : ∃ s₁, s₁ = (s.dup2 closeSocket i (before.getD savedStdinFD) 0).2 := ⟨_,rfl⟩
    obtain ⟨s₂,hs₂⟩ : ∃ s₂, s₂ = (s₁.dup2 closeSocket i
      ((pipes.head?.map Prod.snd).getD savedStdoutFD) 1).2 := ⟨_,rfl⟩
    have h₁ : Saved T (s₁.tab i) (before.toList++ends pipes) :=
      hs₁ ▸ saved_dup2 h _ (.inl rfl)
    have h₂ : Saved T (s₂.tab i) (before.toList++ends pipes) :=
      hs₂ ▸ saved_dup2 h₁ _ (.inr rfl)
    have hi₂ : i < s₂.k.nProcs := by
      rw [hs₂,hs₁]
      exact hi.trans_le ((later_dup2 s _ _).trans (later_dup2 _ _ _)).procs
    rw [runStages,← hs₁] at hr
    rw [← hs₂] at hr
    cases hst : s₂.runStage closeSocket i c with
    | none => simp [hst] at hr
    | some r =>
      obtain ⟨pid,s₃⟩ := r
      rw [hst] at hr
      dsimp only at hr
      obtain ⟨htab,hi₃⟩ := runStage_tab hi₂ (hcs c (List.mem_cons_self ..)) hst
      rw [← htab] at h₂
      -- the read end that this stage took
      obtain ⟨s₄,hs₄⟩ : ∃ s₄, s₄ = before.elim s₃ (s₃.close closeSocket i) := ⟨_,rfl⟩
      have h₄ : Saved T (s₄.tab i) (ends pipes) ∧ i < s₄.k.nProcs := by
        rw [hs₄]
        cases before with
        | none => exact ⟨h₂,hi₃⟩
        | some r =>
          refine ⟨?_,hi₃.trans_le (later_close s₃ r).procs⟩
          change Saved T ((s₃.close closeSocket i r).tab i) _
          rw [close_tab]
          exact h₂.closeFirst hT
      rw [← hs₄] at hr
      obtain ⟨⟨pids',s₆⟩,hs₆,heq⟩ := Option.map_eq_some_iff.mp hr
      cases heq
      cases pipes with
      | nil =>
        cases cs with
        | cons => simp at hlen
        | nil =>
          cases hs₆
          exact h₄.1
      | cons q qs =>
        -- and its write end
        refine ih (by simpa using hlen) (fun c hc => hcs c (List.mem_cons_of_mem _ hc)) ?_ ?_ hs₆
        · change Saved T ((s₄.close closeSocket i q.2).tab i) (q.1::ends qs)
          rw [close_tab]
          exact h₄.1.closeFirst hT
        · exact h₄.2.trans_le (later_close s₄ q.2).procs

/-- The free slots below those that keep input and output. -/
def freeBelow (T : Slot → Option FileDesc) : Finset Slot :=
  Finset.univ.filter fun a => a < savedStdinFD ∧ T a = none

/-- With room below the slots for input and output, all pipes are made there. -/
theorem makePipes_spec (closeSocket : ℕ → ρ → ρ) (n : ℕ) (hroom : 2*n ≤ (freeBelow (s.tab i)).card) :
    ∃ qs, (s.makePipes closeSocket i n).1 = some qs ∧ qs.length = n ∧
      (∀ a ∈ ends qs, s.tab i a = none ∧ a < savedStdinFD) ∧
      (∀ a, a ∉ ends qs → (s.makePipes closeSocket i n).2.tab i a = s.tab i a) ∧
      Later i s (s.makePipes closeSocket i n).2 := by
  induction n generalizing s with
  | zero => exact ⟨[],rfl,rfl,nofun,fun _ _ => rfl,.refl i s⟩
  | succ n ih =>
    have hlater : Later i s (s.pipe closeSocket i).2 := later_pipe s
    obtain ⟨-,-,-,hfull⟩ | ⟨r,w,hsome,hlt,hr,hw,hlow,htab⟩ := pipe_cases closeSocket i s
    · have hone : (freeBelow (s.tab i)).card ≤ 1 := Finset.card_le_one.mpr fun a ha b hb =>
        hfull a b (mem_filter.mp ha).2.2 (mem_filter.mp hb).2.2
      omega
    -- both ends are below: there are two free slots there, and `w` is the second lowest
    have hw10 : w < savedStdinFD := by
      by_contra hge
      have hone : (freeBelow (s.tab i)).card ≤ 1 := Finset.card_le_one.mpr fun a ha b hb => by
        have hall (c : Slot) (hc : c ∈ freeBelow (s.tab i)) : c = r := by
          by_contra hcr
          obtain ⟨-,hc10,hcnone⟩ := mem_filter.mp hc
          exact hlow c (hc10.trans_le (not_lt.mp hge)) hcr hcnone
        rw [hall a ha,hall b hb]
      omega
    have hr10 : r < savedStdinFD := hlt.trans hw10
    cases hp : s.pipe closeSocket i with
    | mk q s₁ =>
    rw [hp] at hsome htab hlater
    cases hsome
    have hother (a : Slot) (har : a ≠ r) (haw : a ≠ w) : s₁.tab i a = s.tab i a := by
      rw [htab,update_of_ne haw,update_of_ne har]
    have hroom₁ : 2*n ≤ (freeBelow (s₁.tab i)).card := by
      have hsub : ((freeBelow (s.tab i)).erase r).erase w ⊆ freeBelow (s₁.tab i) := by
        intro a ha
        obtain ⟨haw,ha⟩ := Finset.mem_erase.mp ha
        obtain ⟨har,ha⟩ := Finset.mem_erase.mp ha
        obtain ⟨-,ha10,hnone⟩ := mem_filter.mp ha
        exact mem_filter.mpr ⟨Finset.mem_univ a,ha10,(hother a har haw).trans hnone⟩
      have h₁ := Finset.pred_card_le_card_erase (s := freeBelow (s.tab i)) (a := r)
      have h₂ := Finset.pred_card_le_card_erase (s := (freeBelow (s.tab i)).erase r) (a := w)
      have h₃ := Finset.card_le_card hsub
      omega
    obtain ⟨qs,hqs,hlen,hends,hrest,hlater'⟩ := ih hroom₁
    have hmk : s.makePipes closeSocket i (n+1) =
        (some ((r,w)::qs),(s₁.makePipes closeSocket i n).2) := by
      rw [makePipes,hp]
      dsimp only
      cases hm : s₁.makePipes closeSocket i n with
      | mk qs' s₂ =>
        rw [hm] at hqs
        cases hqs
        rfl
    rw [hmk]
    refine ⟨(r,w)::qs,rfl,by rw [List.length_cons,hlen],fun a ha => ?_,fun a ha => ?_,
      hlater.trans hlater'⟩
    · have ha : a = w ∨ a = r ∨ a ∈ ends qs := by simpa [ends] using ha
      obtain rfl | rfl | ha := ha
      · exact ⟨hw,hw10⟩
      · exact ⟨hr,hr10⟩
      · obtain ⟨hnone,ha10⟩ := hends a ha
        have haw : a ≠ w := by
          rintro rfl
          rw [htab,update_self] at hnone
          cases hnone
        have har : a ≠ r := by
          rintro rfl
          rw [htab,update_of_ne haw,update_self] at hnone
          cases hnone
        exact ⟨(hother a har haw).symm.trans hnone,ha10⟩
    · have ha : a ≠ w ∧ a ≠ r ∧ a ∉ ends qs := by simpa [ends] using ha
      exact (hrest a ha.2.2).trans (hother a ha.2.1 ha.1)

/-- What a pipeline needs so that the shell gets its table back. -/
def Safe (T : Slot → Option FileDesc) : List CmdLine → Prop
  | [] => True
  | [c] => c.needRestore = false ∨ T 0 = none ∨ T 1 = none ∧ T savedStdinFD = T 0 ∨ Ready T
  | cs => (∀ a b, T a = none → T b = none → a = b) ∨
    Ready T ∧ 2*(cs.length-1) ≤ (freeBelow T).card ∧
      ∀ c ∈ cs, isBuiltin c.cmd = true → c.needRestore = false

/-- Input and output that are not there are not kept, and nothing is changed on the way. -/
theorem saveStdio_bails (closeSocket : ℕ → ρ → ρ)
    (h : s.tab i 0 = none ∨ s.tab i 1 = none ∧ s.tab i savedStdinFD = s.tab i 0) :
    (s.saveStdio closeSocket i).1 = false ∧
      (s.saveStdio closeSocket i).2.tab i = s.tab i := by
  have hsome : (s.dup2 closeSocket i 0 savedStdinFD).1.isSome = _ := dup2_isSome 0 savedStdinFD
  have htab : (s.dup2 closeSocket i 0 savedStdinFD).2.tab i = _ := dup2_tab 0 savedStdinFD
  rw [saveStdio]
  split
  · rename_i s₁ hs₁
    rw [hs₁] at hsome htab
    have h0 : s.tab i 0 = none := by
      rw [← Option.not_isSome_iff_eq_none,← hsome]
      exact Bool.false_ne_true
    rw [if_pos h0] at htab
    exact ⟨rfl,htab⟩
  · rename_i b s₁ hs₁
    rw [hs₁] at hsome htab
    have h0 : s.tab i 0 ≠ none := Option.isSome_iff_ne_none.mp hsome.symm
    obtain ⟨h1,h10⟩ := h.resolve_left h0
    rw [if_neg h0,← h10,update_eq_self] at htab
    rw [← htab] at h1
    refine ⟨?_,?_⟩
    · dsimp only
      rw [dup2_isSome,h1]
      rfl
    · rw [dup2_tab,if_pos h1,htab]

theorem executeCmdLine_tab (hsafe : Safe (s.tab i) [c]) (hi : i < s.k.nProcs)
    (hr : s.executeCmdLine closeSocket i background c = some s') :
    s'.tab i = s.tab i := by
  cases hc : c.needRestore with
  | false =>
    rw [executeCmdLine_plain hc] at hr
    exact dispatch_tab hi hr
  | true =>
    have hlater : Later i s (s.saveStdio closeSocket i).2 := later_saveStdio s
    rw [executeCmdLine,if_pos hc] at hr
    have hsave : s.tab i 0 = none ∨ s.tab i 1 = none ∧ s.tab i savedStdinFD = s.tab i 0 ∨
        Ready (s.tab i) := hsafe.resolve_left (by rw [hc]; exact Bool.noConfusion)
    obtain hbail | hT := or_assoc.mpr hsave
    · obtain ⟨hfalse,htab⟩ := saveStdio_bails closeSocket hbail
      cases hs : s.saveStdio closeSocket i with
      | mk b s₁ =>
        rw [hs] at hfalse htab hr
        cases hfalse
        cases hr
        exact htab
    · obtain ⟨htrue,hsaved⟩ := saveStdio_saved closeSocket (P := []) hT nofun
        fun _ _ => rfl
      cases hs : s.saveStdio closeSocket i with
      | mk b s₁ =>
        rw [hs] at htrue hsaved hr hlater
        cases htrue
        exact runRedirected_tab hT hsaved (hi.trans_le hlater.procs) hc hr

theorem executeConcurrentPipe_tab {cs : List CmdLine} (hcs : 2 ≤ cs.length)
    (hsafe : Safe (s.tab i) cs) (hi : i < s.k.nProcs) {pids : List (Option ℕ)}
    (hr : s.executeConcurrentPipe closeSocket i cs = some (pids,s')) : s'.tab i = s.tab i := by
  obtain ⟨c₀,c₁,cs,rfl⟩ : ∃ c₀ c₁ cs', cs = c₀::c₁::cs' := by
    match cs, hcs with
    | c₀::c₁::cs, _ => exact ⟨c₀,c₁,cs,rfl⟩
  rw [executeConcurrentPipe] at hr
  obtain hfull | ⟨hT,hroom,hplain⟩ := hsafe
  · -- the first pipe cannot be made
    obtain ⟨hnone,htab,-,-⟩ | ⟨r,w,-,hlt,hr₁,hw₁,-⟩ := pipe_cases closeSocket i s
    · cases hp : s.pipe closeSocket i with
      | mk q s₁ =>
        rw [hp] at hnone htab
        cases hnone
        have hmk : s.makePipes closeSocket i (cs.length+1) = (none,s₁) := by
          rw [makePipes,hp]
        rw [show (c₀::c₁::cs).length-1 = cs.length+1 from rfl,hmk] at hr
        cases hr
        exact htab
    · exact absurd (hfull r w hr₁ hw₁) hlt.ne
  · obtain ⟨qs,hqs,hlen,hends,hrest,hlater⟩ := makePipes_spec closeSocket _ hroom
    cases hm : s.makePipes closeSocket i ((c₀::c₁::cs).length-1) with
    | mk qs' s₁ =>
      rw [hm] at hqs hrest hlater hr
      cases hqs
      dsimp only at hrest hlater hr
      obtain ⟨htrue,hsaved⟩ := saveStdio_saved closeSocket hT hends hrest
      have hlater₂ : Later i s₁ (s₁.saveStdio closeSocket i).2 := later_saveStdio s₁
      cases hs : s₁.saveStdio closeSocket i with
      | mk b s₂ =>
        rw [hs] at htrue hsaved hr hlater₂
        cases htrue
        obtain ⟨⟨pids',s₃⟩,hs₃,heq⟩ := Option.map_eq_some_iff.mp hr
        cases heq
        refine restoreStdio_tab hT (runStages_saved hT ?_ hplain hsaved ?_ hs₃)
        · rw [hlen]
          rfl
        · exact hi.trans_le (hlater.trans hlater₂).procs

end Sh

/-- The shell has its table back after every pipeline that meets the condition, and with it no end
of a pipe that was made on the way. -/
theorem shell_table_kept {ρ : Type} (closeSocket : ℕ → ρ → ρ) (r : ρ) (es : List (Ev ρ))
    (s s' : Sh ρ) (hs : s.k = Trace.exec (Kernel.step closeSocket) (Kernel.boot r) es) (i : ℕ)
    (hi : i < s.k.nProcs) (p : Pipeline) (hsafe : Sh.Safe (s.tab i) p.stages)
    (hr : s.executePipeline closeSocket i p = some s') :
    (∀ a, s'.tab i a = s.tab i a) ∧
      ∀ a q, s.k.nPipes ≤ q →
        s'.tab i a ≠ some (.pipeReader q) ∧ s'.tab i a ≠ some (.pipeWriter q) := by
  have hk : s.k.Counted := hs ▸ Trace.Meets.inv (G := fun _ _ => True) (I := Kernel.Counted)
    (fun k e h _ => h.step e) (Kernel.counted_boot r) (Trace.meets_of_forall (fun _ _ => trivial) _ es)
  have htab : s'.tab i = s.tab i := by
    rw [Sh.executePipeline] at hr
    split at hr
    · cases hr
      rfl
    · rename_i c hstages
      rw [hstages] at hsafe
      exact Sh.executeCmdLine_tab hsafe hi hr
    · rename_i hnil hone
      obtain ⟨⟨pids,s₁⟩,hs₁,rfl⟩ := Option.map_eq_some_iff.mp hr
      refine Sh.executeConcurrentPipe_tab ?_ hsafe hi hs₁
      match hp : p.stages with
      | [] => exact absurd hp hnil
      | [c] => exact absurd hp (hone c)
      | c₀::c₁::cs => simp
  refine ⟨congrFun htab,fun a q hq => ?_⟩
  rw [htab]
  constructor
  · intro hd
    exact absurd (hk.made q ⟨(i,a),.inr hd⟩) (Nat.not_lt.mpr hq)
  · intro hd
    exact absurd (hk.made q ⟨(i,a),.inl hd⟩) (Nat.not_lt.mpr hq)

/-- The boot shell runs `cat | wc`. -/
theorem shell_table_kept_two :
    let s : Sh Unit := ⟨Kernel.boot (),[],fun _ => "",0,false⟩
    let p : Pipeline := ⟨[⟨["cat"],"","",by decide⟩,⟨["wc"],"","",by decide⟩],false⟩
    ∃ s', s.executePipeline (fun _ r => r) 0 p = some s' ∧ (∀ a, s'.tab 0 a = s.tab 0 a) ∧
      ∀ a q, s.k.nPipes ≤ q →
        s'.tab 0 a ≠ some (.pipeReader q) ∧ s'.tab 0 a ≠ some (.pipeWriter q) := by
  intro s p
  have hsafe : Sh.Safe (s.tab 0) p.stages :=
    .inr ⟨⟨by decide,by decide,by decide,by decide⟩,by decide,by decide⟩
  obtain ⟨s',hs'⟩ := Option.isSome_iff_exists.mp
    (by decide : (s.executePipeline (fun _ r => r) 0 p).isSome = true)
  exact ⟨s',hs',shell_table_kept (fun _ r => r) () [] s s' rfl 0 (by decide) p hsafe hs'⟩

/-- The boot shell runs `echo hi > f | wc`: the redirection of the builtin gives up the slots that
keep the shell's own input and output, and its input stays the read end of the pipe. -/
theorem builtin_loses_stdin :
    let s : Sh Unit := ⟨Kernel.boot (),[],fun _ => "",0,false⟩
    let p : Pipeline := ⟨[⟨["echo","hi"],"","f",by decide⟩,⟨["wc"],"","",by decide⟩],false⟩
    s.tab 0 0 = some .consoleStdin ∧
      (s.executePipeline (fun _ r => r) 0 p).map (fun s' => s'.tab 0 0) =
        some (some (.pipeReader 0)) := by
  decide

end Gooos.Fd
