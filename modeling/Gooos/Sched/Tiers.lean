import Mathlib
import Gooos.Sched.Hosting

/-!
# Tiers

A thread that hosts a process is linked only on the Ring-3 queues, a service only on the
BSP's service queue, and a CPU polls every queue that is in use. A preemption between the
point where `processExit` clears the side table and `kschedExit` puts the thread on the
service queue of its CPU, which no AP polls.
-/

namespace Gooos.Ksched

open Sched Places Trace Function

/-- No preemption takes the CPU from a thread that has already given up its process. -/
def keepsHost (σ : Sched) (e : ℕ × Act) : Bool :=
  match (σ.cpu e.1).ctx with
  | .boot _ => true
  | .thread t _ => !(decide (e.2 = .irq .preempt) && decide ((σ.th t).entry = .ring3WrapperKT)
      && (σ.th t).hosted.isNone
      && (σ.enter e.1 t .preempt (.irq (σ.th t).pc)).preemptYields e.1)

def hostKept (m : Machine) (σ : Sched) (e : ℕ × Act) : Bool := orderly m σ e && keepsHost σ e

/-- What is on a ready queue, and what may get there from a wait list. -/
structure Tiered (σ : Sched) : Prop where
  ready : ∀ k d t, t ∈ σ.ready k d → k = (σ.th t).entry.tier ∧
    ((σ.th t).entry = .ring3WrapperKT → (σ.th t).hosted ≠ none)
  parked : ∀ t, (σ.th t).used = true → (σ.th t).state = .parked →
    (σ.th t).entry = .ring3WrapperKT → (σ.th t).hosted ≠ none

variable {m : Machine} {σ σ' : Sched} {c : ℕ} {t : Tid} {l : Loop} {a : Act} {obs : List Obs}

theorem tiered_boot : Tiered boot := ⟨nofun,nofun⟩

theorem tierOf_eq (h : Hosts (σ.th t)) (hused : (σ.th t).used = true)
    (hring3 : (σ.th t).entry = .ring3WrapperKT → (σ.th t).hosted ≠ none) :
    tierOf (σ.th t) = (σ.th t).entry.tier := by
  cases hentry : (σ.th t).entry with
  | service =>
    rw [tierOf,h.service hused hentry]
    rfl
  | ring3WrapperKT => exact if_pos (Option.isSome_iff_ne_none.mpr (hring3 hentry))

variable {j k : Tier} {d e : ℕ}

theorem mem_kschedPush {u v : Tid} (hd : d < m.numCoresOnline)
    (hv : v ∈ (σ.kschedPush k u d).ready j e) : v ∈ σ.ready j e ∨ v = u ∧ j = k ∧ e = d := by
  rw [kschedPush_eq hd] at hv
  by_cases hje : j = k ∧ e = d
  · obtain ⟨rfl,rfl⟩ := hje
    rw [setReady_self] at hv
    obtain hv | hv := List.mem_append.mp hv
    · exact .inl hv
    · exact .inr ⟨List.mem_singleton.mp hv,rfl,rfl⟩
  · rw [setReady_of_ne hje] at hv
    exact .inl hv

theorem mem_of_popped {u v : Tid} {ts : List Tid}
    (hready : σ.ready k d = u::ts) (hv : v ∈ (σ.setReady k d ts).ready j e) : v ∈ σ.ready j e := by
  by_cases hje : j = k ∧ e = d
  · obtain ⟨rfl,rfl⟩ := hje
    rw [setReady_self] at hv
    rw [hready]
    exact List.mem_cons_of_mem _ hv
  · rwa [setReady_of_ne hje] at hv

/-- The ways on to a ready queue. -/
theorem Does.ready_of (h : Does m σ c a σ' obs) (hs : Sound m σ) (ht : t ∈ σ'.ready j e) :
    t ∈ σ.ready j e ∨ (σ.cpu c).ctx = .boot (.spawning t j e) ∨
    (∃ u l, (σ.cpu c).ctx = .thread u l ∧ (σ.th u).pc = .spawning t j e) ∨
    (∃ u l us, (σ.cpu c).ctx = .thread u l ∧ (σ.th u).pc = .waking (t::us) ∧
      j = tierOf (σ.th t) ∧ e = (σ.th t).ownerCPU) ∨
    ∃ l, (σ.cpu c).ctx = .thread t l ∧ j = tierOf (σ.th t) ∧ e = c ∧
      (σ'.th t).hosted = (σ.th t).hosted ∧ ((σ.th t).pc.left = false ∨ a = .irq .preempt ∧
        (σ.enter c t .preempt (.irq (σ.th t).pc)).preemptYields c = true) := by
  cases h with
  | boot hctx h =>
    cases h with
    | pop hpolls hready | steal hi hsrc hready => exact .inl (mem_of_popped hready ht)
    | reap =>
      rw [kthreadPoolFree] at ht
      split at ht <;> exact .inl ht
    | @back u l =>
      obtain ⟨-,-,heq⟩ | ⟨-,heq⟩ := returnStep_cases σ c u l
      · rw [heq] at ht
        rw [kthreadPoolFree] at ht
        split at ht <;> exact .inl ht
      · rw [heq] at ht
        exact .inl ht
    | made _ hspawn =>
      obtain ⟨x,hb⟩ := hspawn.built
      left
      rw [← hb.ready]
      exact ht
    | @push u k d =>
      have hd := ((hs.homed.housed c).aims d (by rw [hctx]; exact List.mem_cons_self)).2
      obtain hold | ⟨rfl,rfl,rfl⟩ := mem_kschedPush hd ht
      · exact .inl hold
      · exact .inr (.inl hctx)
    | _ => exact .inl ht
  | @thread u l hctx h =>
    have hc : c < m.numCoresOnline := by
      rw [← (hs.placed.exec c u (.intro hctx)).2.2]
      exact hs.placed.small u
    cases h with
    | alone h =>
      obtain ⟨x,y,ho⟩ := h.own
      rw [ho.lists.1] at ht
      exact .inl ht
    | @wake v vs hpc =>
      rw [kschedWake] at ht
      split at ht
      · obtain hold | ⟨rfl,rfl,rfl⟩ := mem_kschedPush (hs.placed.small v) ht
        · exact .inl hold
        · exact .inr (.inr (.inr (.inl ⟨u,l,vs,hctx,hpc,rfl,rfl⟩)))
      · exact .inl ht
    | @push v k d hpc =>
      have hd : d < m.numCoresOnline :=
        hs.homed.targets u d (by rw [hpc]; exact List.mem_cons_self)
      obtain hold | ⟨rfl,rfl,rfl⟩ := mem_kschedPush hd ht
      · exact .inl hold
      · exact .inr (.inr (.inl ⟨u,l,hctx,hpc⟩))
    | made _ hspawn =>
      obtain ⟨x,hb⟩ := hspawn.built
      left
      rw [← hb.ready]
      exact ht
    | yield hpc =>
      obtain hold | ⟨rfl,rfl,rfl⟩ := mem_kschedPush hc ht
      · exact .inl hold
      · refine .inr (.inr (.inr (.inr ⟨l,hctx,rfl,rfl,?_,.inl (by rw [hpc]; rfl)⟩)))
        rw [kschedYield_th hc,update_self]
    | preempt hmask hyields =>
      have hth : (σ.enter c u .preempt (.irq (σ.th u).pc)).th u =
          { σ.th u with frames := .preempt::(σ.th u).frames, pc := .irq (σ.th u).pc } :=
        update_self ..
      obtain hold | ⟨rfl,hj,rfl⟩ := mem_kschedPush hc ht
      · exact .inl hold
      · refine .inr (.inr (.inr (.inr ⟨l,hctx,?_,rfl,?_,.inr ⟨rfl,hyields⟩⟩)))
        · rw [hj,hth]
          rfl
        · rw [kschedYield_th hc,update_self,hth]
    | _ => exact .inl ht

theorem hosted_of_keepsHost (h : keepsHost σ (c,.irq .preempt) = true)
    (hctx : (σ.cpu c).ctx = .thread t l)
    (hyields : (σ.enter c t .preempt (.irq (σ.th t).pc)).preemptYields c = true)
    (hentry : (σ.th t).entry = .ring3WrapperKT) : (σ.th t).hosted ≠ none := by
  intro hnone
  simp [keepsHost,hctx,hyields,hentry,hnone] at h

/-- What a thread hosts across a move, unless it is executed and on no list. -/
theorem Does.hosted_eq (hdoes : Does m σ c a σ' obs) (hs : Sound m σ) (hh : Hosting m σ)
    (hused : (σ.th t).used = true)
    (hpub : Executes σ c t → (σ.th t).pc.published = true) :
    (σ'.th t).entry = (σ.th t).entry ∧ (σ'.th t).hosted = (σ.th t).hosted := by
  by_cases hrun : Executes σ c t
  · have hpub := hpub hrun
    obtain ⟨l,hctx⟩ := hrun
    obtain hturn | ⟨u,k,d,σ₁,hspawn,-,-,hpc,-,-⟩ := hdoes.turn hs.placed hctx
      ((hh.hosts t).service hused)
    · refine ⟨hturn.entry,?_⟩
      obtain ⟨hhost,-⟩ | ⟨-,-,hno⟩ := hturn.host
      · exact hhost
      · rw [hpub] at hno
        cases hno
    · rw [hpc] at hpub
      cases hpub
  · obtain hu | ⟨k,d,σ₁,hspawn,-⟩ := hdoes.others (u := t) fun l hctx => hrun ⟨l,hctx⟩
    · exact ⟨hu.entry,hu.hosted⟩
    · rw [hspawn.free] at hused
      cases hused

section Step

variable (h : Tiered σ) (hs : Sound m σ) (hh : Hosting m σ) (hdoes : Does m σ c a σ' obs)
include h hs hh hdoes

theorem Tiered.ready_step (hkeeps : keepsHost σ (c,a) = true)
    (ht : t ∈ σ'.ready k d) : k = (σ'.th t).entry.tier ∧
      ((σ'.th t).entry = .ring3WrapperKT → (σ'.th t).hosted ≠ none) := by
  -- a thread of the right tier that keeps its process across the move
  have hkept (hused : (σ.th t).used = true) (hpub : Executes σ c t → (σ.th t).pc.published = true)
      (hring3 : (σ.th t).entry = .ring3WrapperKT → (σ.th t).hosted ≠ none)
      (hk : k = (σ.th t).entry.tier) : k = (σ'.th t).entry.tier ∧
        ((σ'.th t).entry = .ring3WrapperKT → (σ'.th t).hosted ≠ none) := by
    obtain ⟨hentry,hhost⟩ := hdoes.hosted_eq hs hh hused hpub
    rw [hentry,hhost]
    exact ⟨hk,hring3⟩
  have hnew (hused : (σ.th t).used = true) (hidle : ∀ c, ¬Executes σ c t)
      (hr : Routed m (σ.th t) k d) : k = (σ'.th t).entry.tier ∧
        ((σ'.th t).entry = .ring3WrapperKT → (σ'.th t).hosted ≠ none) := by
    refine hkept hused (fun hrun => absurd hrun (hidle c)) (fun hentry hnone => ?_) hr.tier
    have hleft := (hh.hosts t).ring3 hused hentry hnone
    rw [hr.live] at hleft
    cases hleft
  obtain hold | hctx | ⟨u,l,hctx,hpc⟩ | ⟨u,l,us,hctx,hpc,hk,-⟩ | ⟨l,hctx,hk,-,hhost,hyield⟩ :=
    hdoes.ready_of hs ht
  · have hused := hs.placed.used (.ready k d) t hold
    refine hkept hused (fun hrun => ?_) (h.ready k d t hold).2 (h.ready k d t hold).1
    by_contra hpub
    exact (hs.placed.out c t hrun (by simpa using hpub)).1 (.ready k d) hold
  · obtain ⟨hused,-,hidle⟩ := hs.placed.idle_of_boot hctx
    exact hnew hused hidle (hh.boots c t k d hctx)
  · have haim : (σ.th u).pc.aim = some (t,k,d) := by
      rw [hpc]
      rfl
    obtain ⟨hused,-,hidle⟩ := hs.placed.idle_of_aim haim
    exact hnew hused hidle (hh.aims u t k d haim)
  · have hin : t ∈ members σ (.waking u) := by
      show t ∈ (σ.th u).pc.wakes
      rw [hpc]
      exact List.mem_cons_self
    have htu : t ≠ u := hs.placed.ne_of_mem hctx (by rw [hpc]; rfl) hin
    have hused := hs.placed.used _ t hin
    have hring3 := h.parked t hused (hs.placed.state _ t hin)
    refine hkept hused (fun ⟨l',hctx'⟩ => ?_) hring3 (hk.trans (tierOf_eq (hh.hosts t) hused hring3))
    rw [hctx] at hctx'
    cases hctx'
    exact absurd rfl htu
  · have hused := (hs.placed.exec c t (.intro hctx)).1
    have hring3 : (σ.th t).entry = .ring3WrapperKT → (σ.th t).hosted ≠ none := by
      intro hentry
      obtain hlive | ⟨rfl,hyields⟩ := hyield
      · intro hnone
        have hleft := (hh.hosts t).ring3 hused hentry hnone
        rw [hlive] at hleft
        cases hleft
      · exact hosted_of_keepsHost hkeeps hctx hyields hentry
    have hentry : (σ'.th t).entry = (σ.th t).entry := by
      obtain hturn | ⟨u,k,d,σ₁,hspawn,-,-,-,hut,rfl⟩ := hdoes.turn hs.placed hctx
        ((hh.hosts t).service hused)
      · exact hturn.entry
      · rw [setPc_self,hspawn.th_of_ne hut.symm]
    rw [hentry,hhost]
    exact ⟨hk.trans (tierOf_eq (hh.hosts t) hused hring3),hring3⟩

theorem Tiered.parked_step (hh' : Hosts (σ'.th t)) (hused' : (σ'.th t).used = true)
    (hparked : (σ'.th t).state = .parked) (hentry' : (σ'.th t).entry = .ring3WrapperKT) :
    (σ'.th t).hosted ≠ none := by
  -- if it was parked before, it is on a list or about to be switched out
  have hold (hused : (σ.th t).used = true) (hwas : (σ.th t).state = .parked) :
      (σ'.th t).hosted ≠ none := by
    obtain ⟨hentry,hhost⟩ := hdoes.hosted_eq hs hh hused fun hrun => by
      by_contra hpub
      have hstate := (hs.placed.out c t hrun (by simpa using hpub)).2
      rw [hwas] at hstate
      split at hstate <;> cases hstate
    rw [hhost]
    exact h.parked t hused hwas (hentry.symm.trans hentry')
  by_cases hrun : Executes σ c t
  · obtain ⟨l,hctx⟩ := hrun
    have hused := (hs.placed.exec c t (.intro hctx)).1
    obtain hturn | ⟨u,k,d,σ₁,hspawn,-,-,hpc,hut,rfl⟩ := hdoes.turn hs.placed hctx
      ((hh.hosts t).service hused)
    · obtain hwas | hleft := hturn.parks hparked
      · exact hold hused hwas
      · intro hnone
        rw [hh'.ring3 hused' hentry' hnone] at hleft
        cases hleft
    · intro hnone
      have hleft := hh'.ring3 hused' hentry' hnone
      rw [setPc_self] at hleft
      cases hleft
  · have hne (l : Loop) : (σ.cpu c).ctx ≠ .thread t l := fun hctx => hrun ⟨l,hctx⟩
    have hwas := ((hdoes.spared hs hne).state_eq (.inr hparked)).trans hparked
    obtain hu | ⟨k,d,σ₁,hspawn,hth⟩ := hdoes.others (u := t) hne
    · exact hold (hu.used hused') hwas
    · obtain ⟨x,hb⟩ := hspawn.built
      rw [hth,hb.th,update_self,hb.state] at hparked
      cases hparked

end Step

theorem Tiered.step (h : Tiered σ) (hs : Sound m σ) (hh : Hosting m σ) (e : ℕ × Act)
    (hord : orderly m σ e = true) (hkeeps : keepsHost σ e = true) : Tiered (σ.step m e).1 := by
  obtain heq | ⟨-,hdoes⟩ := hs.does e hord
  · rw [heq]
    exact h
  · exact ⟨fun k d t ht => h.ready_step hs hh hdoes hkeeps ht,
      fun t => h.parked_step hs hh hdoes ((hh.step hs e hord).hosts t)⟩

/-- What holds in every state of a run without such preemptions. -/
theorem tiered_of_hostKept {es : List (ℕ × Act)}
    (hrun : Meets (Sched.step m) (fun σ e => hostKept m σ e = true) boot es) :
    Sound m (exec (Sched.step m) boot es) ∧ Hosting m (exec (Sched.step m) boot es) ∧
      Tiered (exec (Sched.step m) boot es) := by
  refine hrun.inv (I := fun σ => Sound m σ ∧ Hosting m σ ∧ Tiered σ) (fun σ e h hok => ?_)
    ⟨sound_boot m,hosting_boot m,tiered_boot⟩
  obtain ⟨hs,hh,ht⟩ := h
  obtain ⟨hord,hkeeps⟩ := Bool.and_eq_true_iff.mp hok
  exact ⟨hs.step e hord,hh.step hs e hord,ht.step hs hh e hord hkeeps⟩

/-- A queue of the right tier on a CPU that is online is polled there, on the BSP as long
as the boot shell lives. -/
theorem polled (hk : k = .service → d = 0) (halive : d = 0 → (σ.proc shellProc).exited = false) :
    ∃ l : Loop, l.tier = k ∧ σ.polls d l = true := by
  by_cases hd : d = 0
  · cases k with
    | service => exact ⟨.kschedLoopOnce,rfl,by simp [polls,hd,halive hd]⟩
    | ring3 => exact ⟨.kschedLoopRing3OnlyOnce,rfl,by simp [polls,hd,halive hd]⟩
  · cases k with
    | service => exact absurd (hk rfl) hd
    | ring3 => exact ⟨.kschedLoopRing3Only,rfl,by simp [polls,hd]⟩

/-- In an orderly run in which no thread is preempted after it has given up its process,
a thread is linked only on a queue of its tier, a service only on that of the BSP and a
Ring-3 thread only while it hosts its process; a CPU polls that queue; and the boot
shell's thread is executed only by CPU 0. -/
theorem ready_polled_of_hostKept (m : Machine) (es : List (ℕ × Act))
    (hrun : Meets (Sched.step m) (fun σ e => hostKept m σ e = true) boot es) :
    (∀ k d t, t ∈ (exec (Sched.step m) boot es).ready k d →
      k = ((exec (Sched.step m) boot es).th t).entry.tier ∧
      (((exec (Sched.step m) boot es).th t).entry = .service → d = 0) ∧
      (((exec (Sched.step m) boot es).th t).entry = .ring3WrapperKT →
        ((exec (Sched.step m) boot es).th t).hosted ≠ none) ∧
      d < m.numCoresOnline ∧
      ((d = 0 → ((exec (Sched.step m) boot es).proc shellProc).exited = false) →
        ∃ l : Loop, l.tier = k ∧ (exec (Sched.step m) boot es).polls d l = true)) ∧
    ∀ c t, Executes (exec (Sched.step m) boot es) c t →
      ((exec (Sched.step m) boot es).th t).hosted = some shellProc → c = 0 := by
  obtain ⟨hs,hh,ht⟩ := tiered_of_hostKept hrun
  generalize exec (Sched.step m) boot es = σ at hs hh ht ⊢
  refine ⟨fun k d t hin => ?_,fun c t hexec hshell => ?_⟩
  · have hused := hs.placed.used (.ready k d) t hin
    have howner := hs.placed.owner k d t hin
    obtain ⟨hk,hring3⟩ := ht.ready k d t hin
    have hservice (hentry : (σ.th t).entry = .service) : d = 0 :=
      howner.symm.trans (hh.pinned t hused (.inl hentry))
    refine ⟨hk,hservice,hring3,howner ▸ hs.placed.small t,polled fun htier => hservice ?_⟩
    cases hentry : (σ.th t).entry with
    | service => rfl
    | ring3WrapperKT =>
      rw [hk,hentry] at htier
      cases htier
  · obtain ⟨hused,-,howner⟩ := hs.placed.exec c t hexec
    exact howner.symm.trans (hh.pinned t hused (.inr hshell))

/-- The child on the AP yields in a system call, and waits to be picked up again. -/
def childYields : List (ℕ × Act) :=
  childOnAp++[(1,.syscall),(1,.yield),(1,.go),(1,.go),(1,.go),(1,.go)]

theorem ready_polled_of_hostKept_child :
    1 ∈ (exec (Sched.step threeCores) boot childYields).ready .ring3 1 ∧
    ∃ l : Loop, l.tier = .ring3 ∧
      (exec (Sched.step threeCores) boot childYields).polls 1 l = true :=
  ⟨by decide +kernel,
    ((ready_polled_of_hostKept threeCores childYields (by decide +kernel)).1 .ring3 1 1
      (by decide +kernel)).2.2.2.2 (by nofun)⟩

/-- The child exits, and is preempted on the AP once `processExit` has cleared the side
table. -/
def preemptedExit : List (ℕ × Act) :=
  childOnAp++
    [(1,.syscall),(1,.exit)]++List.replicate 7 (1,.go)++[(1,.irq .preempt),(1,.go),(1,.go)]

/-- Its thread is then on the service queue of the AP, which the AP does not poll. -/
theorem exit_preempted_strands :
    (exec (Sched.step threeCores) boot preemptedExit).ready .service 1 = [1] ∧
    ((exec (Sched.step threeCores) boot preemptedExit).th 1).entry = .ring3WrapperKT ∧
    ¬∃ l : Loop, l.tier = .service ∧
      (exec (Sched.step threeCores) boot preemptedExit).polls 1 l = true := by
  refine ⟨by decide +kernel,by decide +kernel,?_⟩
  rintro ⟨l,hl,hpolls⟩
  rw [polls,if_neg Nat.one_ne_zero,decide_eq_true_eq] at hpolls
  rw [hpolls] at hl
  cases hl

end Gooos.Ksched
