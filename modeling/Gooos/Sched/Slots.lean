import Mathlib
import Gooos.Sched.Orderly

/-!
# Slot conservation

A used slot belongs to a thread that is on a list, in somebody's hand, executed, or
exiting with its dispatcher about to free it, provided threads exit only under a loop
that reclaims. Under `kschedLoopRing3Only` they do not get their slot back.
-/

namespace Gooos.Ksched

open Sched Places Trace Function

/-- The thread is on a list, in a dispatcher's hand, or with the thread that wakes or
built it. -/
def Somewhere (σ : Sched) (t : Tid) : Prop := ∃ p, t ∈ members σ p

/-- The dispatcher the thread has come back to is about to free its slot. -/
def Doomed (σ : Sched) (t : Tid) : Prop :=
  ∃ c l, (σ.cpu c).ctx = .boot (.returned t l) ∧ l.reclaims = true ∧ (σ.th t).state = .exiting ∧
    (σ.th t).pc = .dead

/-- A thread that is off its CPU, or about to be, can be found again; a free slot holds on
to no other thread. -/
structure Settled (σ : Sched) (t : Tid) : Prop where
  found : (σ.th t).used = true → (σ.th t).saved = true ∨ (σ.th t).pc.published = true →
    Somewhere σ t ∨ Doomed σ t
  quiet : (σ.th t).used = false → (σ.th t).pc.wakes = [] ∧ (σ.th t).pc.makes = []

/-- What finding a thread depends on. -/
structure Same (x y : KThread) : Prop where
  used : y.used = x.used
  saved : y.saved = x.saved
  state : y.state = x.state
  pc : y.pc = x.pc

theorem Same.refl (x : KThread) : Same x x := ⟨rfl,rfl,rfl,rfl⟩

def Kept (σ : Sched) : Prop := ∀ t, Settled σ t

variable {m : Machine} {σ σ' : Sched} {c : ℕ} {t : Tid} {l : Loop}

theorem Kept.frame (h : Kept σ) (hth : ∀ v, Same (σ.th v) (σ'.th v) ∨ Settled σ' v)
    (hplaces : ∀ v, Somewhere σ v → Somewhere σ' v ∨ Settled σ' v)
    (hdoom : ∀ v d l, (σ.cpu d).ctx = .boot (.returned v l) → l.reclaims = true →
      (σ.th v).state = .exiting → (σ'.cpu d).ctx = (σ.cpu d).ctx ∨ Settled σ' v) : Kept σ' := by
  intro v
  obtain hsame | hset := hth v
  · constructor
    · intro hused hoff
      rw [hsame.used] at hused
      rw [hsame.saved,hsame.pc] at hoff
      obtain hin | ⟨d,l,hctx,hl,hstate,hpc⟩ := (h v).found hused hoff
      · obtain hin | hset := hplaces v hin
        · exact .inl hin
        · exact hset.found (by rw [hsame.used,hused]) (by rwa [hsame.saved,hsame.pc])
      · obtain hd | hset := hdoom v d l hctx hl hstate
        · exact .inr ⟨d,l,hd.trans hctx,hl,hsame.state.trans hstate,hsame.pc.trans hpc⟩
        · exact hset.found (by rw [hsame.used,hused]) (by rwa [hsame.saved,hsame.pc])
    · intro hfree
      rw [hsame.used] at hfree
      rw [hsame.pc]
      exact (h v).quiet hfree
  · exact hset

variable {u v : Tid} {q : Place} {x : KThread} {k : Tier} {d : ℕ} {pc : Dpc}

theorem Somewhere.congr (h : Somewhere σ v) (hmem : ∀ r, members σ' r = members σ r) :
    Somewhere σ' v := by
  obtain ⟨r,hr⟩ := h
  exact ⟨r,by rwa [hmem]⟩

theorem Enters.entered (h : Enters σ σ' t q) : Somewhere σ' t :=
  ⟨q,h.dest.mem_iff.mpr List.mem_cons_self⟩

theorem Enters.somewhere (h : Enters σ σ' t q) (hv : Somewhere σ v) : Somewhere σ' v := by
  obtain ⟨r,hr⟩ := hv
  by_cases hrq : r = q
  · subst hrq
    exact ⟨r,h.dest.mem_iff.mpr (List.mem_cons_of_mem _ hr)⟩
  · exact ⟨r,by rwa [h.rest r hrq]⟩

theorem Goes.arrived {p q : Place} (h : Goes σ σ' t p q) : Somewhere σ' t :=
  ⟨q,h.dest.mem_iff.mpr List.mem_cons_self⟩

theorem Goes.somewhere {p q : Place} (h : Goes σ σ' t p q) (hv : Somewhere σ v) :
    Somewhere σ' v := by
  obtain ⟨r,hr⟩ := hv
  by_cases hrp : r = p
  · subst hrp
    rw [h.start] at hr
    obtain rfl | hr := List.mem_cons.mp hr
    · exact h.arrived
    · exact ⟨r,hr⟩
  · by_cases hrq : r = q
    · subst hrq
      exact ⟨r,h.dest.mem_iff.mpr (List.mem_cons_of_mem _ hr)⟩
    · exact ⟨r,by rwa [h.rest r hrp hrq]⟩

/-- A slot that holds on to nobody is rid of nobody. -/
theorem Appears.enters (h : Appears σ σ' t q)
    (hquiet : (σ.th t).pc.wakes = [] ∧ (σ.th t).pc.makes = []) : Enters σ σ' t q := by
  refine ⟨h.dest,fun r hr => ?_⟩
  obtain heq | ⟨hnil,rfl | rfl⟩ := h.rest r hr
  · exact heq
  · rw [hnil]
    exact hquiet.1.symm
  · rw [hnil]
    exact hquiet.2.symm

/-- A thread a reclaiming dispatcher has left is not executed. -/
theorem Sound.not_doomed (hs : Sound m σ) (hexec : Executes σ c t) : ¬Doomed σ t := by
  rintro ⟨d,l,hctx,hl,-⟩
  have ht : t ∈ (σ.cpu d).ctx.looksAt := by
    rw [hctx,Ctx.looksAt,if_pos hl]
    exact List.mem_cons_self
  exact hs.homed.idle_of_looksAt hs.placed ht c hexec

/-- A thread that has handed itself on is on a list. -/
theorem Kept.somewhere_of_published (h : Kept σ) (hs : Sound m σ) (hexec : Executes σ c t)
    (hpub : (σ.th t).pc.published = true) : Somewhere σ t :=
  ((h t).found (hs.placed.exec c t hexec).1 (.inr hpub)).resolve_right (hs.not_doomed hexec)

section Cases

variable (h : Kept σ) (hs : Sound m σ)
include h hs

section

variable (hctx : (σ.cpu c).ctx = .thread t l)
include hctx

/-- Steps of a running thread: it may move itself, and the threads it has in hand. -/
theorem Kept.thread
    (hctx' : ∀ d, d ≠ c → (σ'.cpu d).ctx = (σ.cpu d).ctx) (hused : (σ'.th t).used = true)
    (hth : ∀ v, v ≠ t → Same (σ.th v) (σ'.th v) ∨ (σ'.th v).used = true ∧ Somewhere σ' v)
    (hplaces : ∀ v, Somewhere σ v → Somewhere σ' v)
    (ht : (σ'.th t).saved = true ∨ (σ'.th t).pc.published = true →
      (σ.th t).pc.published = true ∨ Somewhere σ' t ∨ Doomed σ' t) : Kept σ' := by
  have hself : Settled σ' t := by
    constructor
    · intro _ hoff
      obtain hpub | hdone := ht hoff
      · exact .inl (hplaces t (h.somewhere_of_published hs (.intro hctx) hpub))
      · exact hdone
    · intro hfree
      rw [hused] at hfree
      cases hfree
  refine h.frame (fun v => ?_) (fun v hv => .inl (hplaces v hv)) (fun v d l' hd hl hstate => ?_)
  · by_cases hv : v = t
    · rw [hv]
      exact .inr hself
    · refine (hth v hv).imp_right fun hin => ⟨fun _ _ => .inl hin.2,fun hfree => ?_⟩
      rw [hin.1] at hfree
      cases hfree
  · refine .inl (hctx' d fun hdc => ?_)
    rw [hdc,hctx] at hd
    cases hd

/-- The same where only the running thread's own record changes. -/
theorem Kept.update (hth : σ'.th = Function.update σ.th t x)
    (hctx' : ∀ d, d ≠ c → (σ'.cpu d).ctx = (σ.cpu d).ctx) (hused : x.used = (σ.th t).used)
    (hplaces : ∀ v, Somewhere σ v → Somewhere σ' v)
    (ht : x.saved = true ∨ x.pc.published = true →
      (σ.th t).pc.published = true ∨ Somewhere σ' t ∨ Doomed σ' t) : Kept σ' := by
  have hself : σ'.th t = x := by rw [hth,update_self]
  have hne {v : Tid} (hv : v ≠ t) : σ'.th v = σ.th v := by rw [hth,update_of_ne hv]
  refine h.thread hs hctx hctx' ?_ (fun v hv => .inl (hne hv ▸ .refl _)) hplaces ?_
  · rw [hself,hused]
    exact (hs.placed.exec c t (.intro hctx)).1
  · rwa [hself]

/-- The running thread pushes one it has in hand. -/
theorem Kept.push {p : Tpc}
    (hut : u ≠ t) (hd : d < m.numCoresOnline)
    (hused : (σ.th u).used = true) (hp : p.published = false)
    (hg : Goes σ ((σ.kschedPush k u d).setPc t p) u q (.ready k d)) :
    Kept ((σ.kschedPush k u d).setPc t p) := by
  have hself := push_th_self (σ := σ) (k := k) (d := d) (p := p) hut
  obtain ⟨hmine,hsaved,-⟩ := hs.placed.exec c t (.intro hctx)
  refine h.thread hs hctx (fun e _ => ?_) ?_ (fun v hv => ?_) (fun v => hg.somewhere) ?_
  · rfl
  · rw [hself]
    exact hmine
  · by_cases hvu : v = u
    · subst hvu
      refine .inr ⟨?_,hg.arrived⟩
      rw [push_th_pushed hut hd]
      exact hused
    · rw [push_th_of_ne hvu hv]
      exact .inl (.refl _)
  · rw [hself]
    rw [hsaved,hp]
    nofun

/-- The running thread yields. -/
theorem Kept.yield {next : Tpc}
    (hwakes : next.wakes = (σ.th t).pc.wakes) (hmakes : next.makes = (σ.th t).pc.makes) :
    Kept (σ.kschedYield c t t next) := by
  obtain ⟨-,-,howner⟩ := hs.placed.exec c t (.intro hctx)
  have hc : c < m.numCoresOnline := howner ▸ hs.placed.small t
  have henters := yield_enters hc hwakes hmakes
  exact h.update hs hctx (kschedYield_th hc) (fun _ _ => rfl) rfl (fun v => henters.somewhere)
    (fun _ => .inr (.inl henters.entered))

theorem Kept.made {σ₁ : Sched}
    (hpc : (σ.th t).pc = .run) (hb : Built m σ u d σ₁ x) :
    Kept (σ₁.setPc t (.spawning u k d)) := by
  obtain ⟨hmine,hsaved,-⟩ := hs.placed.exec c t (.intro hctx)
  have hut := hb.ne_running hs.placed hctx
  have hself : (σ₁.setPc t (.spawning u k d)).th t = _ := hb.setPc_self hut
  have hne {v : Tid} (hvt : v ≠ t) : (σ₁.setPc t (.spawning u k d)).th v = _ :=
    hb.setPc_of_ne hvt
  -- the free slot held on to nobody
  have henters : Enters σ (σ₁.setPc t (.spawning u k d)) u _ :=
    (hb.made_appears hut hpc).enters ((h u).quiet hb.free)
  refine h.thread hs hctx (fun e _ => ?_) ?_ (fun v hv => ?_) (fun v => henters.somewhere) ?_
  · show (σ₁.cpu e).ctx = _
    rw [hb.cpu]
  · rw [hself]
    exact hmine
  · rw [hne hv]
    split
    · rename_i hvu
      rw [hvu]
      exact .inr ⟨hb.used,henters.entered⟩
    · exact .inl (.refl _)
  · rw [hself]
    rw [hsaved]
    nofun

end

omit hs in
/-- A dispatcher goes on: it may put a thread it had in hand elsewhere. -/
theorem Kept.boot (hctx : (σ.cpu c).ctx = .boot pc)
    (hfrom : ∀ v l, pc ≠ .returned v l) (hctx' : ∀ d, d ≠ c → (σ'.cpu d).ctx = (σ.cpu d).ctx)
    (hth : ∀ v, Same (σ.th v) (σ'.th v) ∨ Settled σ' v)
    (hplaces : ∀ v, Somewhere σ v → Somewhere σ' v ∨ Settled σ' v) : Kept σ' := by
  refine h.frame hth hplaces (fun v d l' hd _ _ => .inl (hctx' d fun hdc => ?_))
  rw [hdc,hctx] at hd
  cases hd
  exact hfrom v l' rfl

omit hs in
theorem Kept.look {pc pc' : Dpc} (hctx : (σ.cpu c).ctx = .boot pc) (hheld : pc.held = [])
    (hfrom : ∀ t l, pc ≠ .returned t l) (hheld' : pc'.held = []) : Kept (σ.setCtx c (.boot pc')) := by
  refine h.boot hctx hfrom (fun d hd => congrArg CPU.ctx (setCtx_of_ne hd)) (fun v => .inl (.refl _))
    (fun v hv => .inl (hv.congr (members_setCpu ?_)))
  rw [hctx]
  exact hheld'.trans hheld.symm

omit hs in
theorem Kept.pop {ts : List Tid} (hctx : (σ.cpu c).ctx = .boot pc)
    (hheld : pc.held = []) (hfrom : ∀ t l, pc ≠ .returned t l) (hready : σ.ready k d = t::ts) :
    Kept ((σ.setReady k d ts).setCtx c (.boot (.popped t l))) := by
  exact h.boot hctx hfrom (fun e he => congrArg CPU.ctx (setCtx_of_ne he)) (fun v => .inl (.refl _))
    (fun v hv => .inl ((pop_goes hctx hheld hready).somewhere hv))

theorem Kept.dispatch (hctx : (σ.cpu c).ctx = .boot (.popped t l)) : Kept (σ.dispatch c t l) := by
  have hin : t ∈ members σ (.hand c) := mem_hand hctx rfl
  have hcalm := hs.placed.calm t (hs.placed.held _ t rfl hin)
  have hself : (σ.dispatch c t l).th t =
      { σ.th t with state := .running, ownerCPU := c, saved := false } := update_self ..
  have hne {v : Tid} (hv : v ≠ t) : (σ.dispatch c t l).th v = σ.th v := update_of_ne hv ..
  have hctx' (e : ℕ) (he : e ≠ c) : ((σ.dispatch c t l).cpu e).ctx = (σ.cpu e).ctx := by
    show (Function.update σ.cpu c _ e).ctx = _
    rw [update_of_ne he]
  -- the dispatched thread is off no CPU
  have hset : Settled (σ.dispatch c t l) t := by
    constructor
    · intro _ hoff
      rw [hself] at hoff
      obtain hoff | hoff := hoff
      · cases hoff
      · rw [hcalm.1] at hoff
        cases hoff
    · intro hfree
      rw [hself] at hfree
      have hused := hs.placed.used _ t hin
      rw [show (σ.th t).used = false from hfree] at hused
      cases hused
  refine h.boot hctx (by nofun) hctx' (fun v => ?_) (fun v hv => ?_)
  · by_cases hv : v = t
    · rw [hv]
      exact .inr hset
    · rw [hne hv]
      exact .inl (.refl _)
  · by_cases hvt : v = t
    · rw [hvt]
      exact .inr hset
    · obtain ⟨r,hr⟩ := hv
      by_cases hrc : r = .hand c
      · rw [hrc] at hr
        have hr : v ∈ (σ.cpu c).ctx.held := hr
        rw [hctx] at hr
        exact absurd (List.mem_singleton.mp hr) hvt
      · exact .inl ⟨r,by rwa [(dispatch_members σ c t l).2 r hrc]⟩

theorem Kept.bootPush (hctx : (σ.cpu c).ctx = .boot (.spawning u k d)) :
    Kept ((σ.kschedPush k u d).setCtx c (.boot .idle)) := by
  have hd := ((hs.homed.housed c).aims d (by rw [hctx]; exact List.mem_cons_self)).2
  have hpush := kschedPush_eq (σ := σ) (k := k) (u := u) hd
  have hg := bootPush_goes hctx hd
  have hused := hs.placed.used _ u (mem_hand hctx rfl)
  refine h.boot hctx (by nofun) (fun e he => ?_) (fun v => ?_) (fun v hv => .inl (hg.somewhere hv))
  · rw [setCtx_of_ne he]
    rfl
  · by_cases hv : v = u
    · subst hv
      refine .inr ⟨fun _ _ => .inl hg.arrived,fun hfree => ?_⟩
      have hth : ((σ.kschedPush k v d).setCtx c (.boot .idle)).th v =
          { σ.th v with state := .runnable, ownerCPU := d } := by
        rw [hpush]
        exact update_self ..
      rw [hth] at hfree
      rw [show (σ.th v).used = false from hfree] at hused
      cases hused
    · have hth : ((σ.kschedPush k u d).setCtx c (.boot .idle)).th v = σ.th v := by
        exact update_of_ne hv ..
      rw [hth]
      exact .inl (.refl _)

omit hs in
theorem Kept.bootMade {σ₁ : Sched}
    (hctx : (σ.cpu c).ctx = .boot .idle) (hb : Built m σ u d σ₁ x) :
    Kept (σ₁.setCtx c (.boot (.spawning u k d))) := by
  have henters : Enters σ (σ₁.setCtx c (.boot (.spawning u k d))) u _ :=
    (hb.boot_appears hctx).enters ((h u).quiet hb.free)
  have hth (v : Tid) : (σ₁.setCtx c (.boot (.spawning u k d))).th v = if v = u then x else σ.th v := by
    show σ₁.th v = _
    rw [hb.th,update_apply]
  refine h.boot hctx (by nofun) (fun e he => ?_) (fun v => ?_)
    (fun v hv => .inl (henters.somewhere hv))
  · rw [setCtx_of_ne he,hb.cpu]
  · by_cases hv : v = u
    · refine .inr ⟨fun _ _ => .inl (hv ▸ henters.entered),fun hfree => ?_⟩
      rw [hth,if_pos hv,hb.used] at hfree
      cases hfree
    · rw [hth,if_neg hv]
      exact .inl (.refl _)

omit h hs in
theorem kthreadPoolFree_members (r : Place) : members (σ.kthreadPoolFree t) r = members σ r := by
  refine members_eq r (fun k d _ => ?_) (fun w _ => ?_) (fun u _ => by rw [kthreadPoolFree_pc])
    (fun u _ => by rw [kthreadPoolFree_pc]) (fun d _ => by rw [kthreadPoolFree_cpu])
  · rw [kthreadPoolFree]
    split <;> rfl
  · rw [kthreadPoolFree]
    split <;> rfl

/-- A dispatcher looks at the thread that has come back, and frees an exiting one. -/
theorem Kept.back (hctx : (σ.cpu c).ctx = .boot (.returned t l)) :
    Kept (σ.returnStep c t l) := by
  obtain ⟨hl,hstate,heq⟩ | ⟨hno,heq⟩ := returnStep_cases σ c t l
  · have ht : t ∈ (σ.cpu c).ctx.looksAt := by
      rw [hctx,Ctx.looksAt,if_pos hl]
      exact List.mem_cons_self
    obtain ⟨hused,hsaved,-⟩ := (hs.homed.housed c).back t ht
    have hdead : (σ.th t).pc = .dead := by
      obtain ⟨p,hp⟩ | ⟨-,-,-,-,-,hdead⟩ := (h t).found hused (.inl hsaved)
      · exact absurd hp (hs.placed.nowhere_of_exiting hstate p)
      · exact hdead
    rw [heq]
    set τ : Sched := (σ.kthreadPoolFree t).setCpu c _ with hτ
    have hpc (u : Tid) : (τ.th u).pc = (σ.th u).pc := kthreadPoolFree_pc σ t u
    have hcpu (d : ℕ) (hd : d ≠ c) : (τ.cpu d).ctx = (σ.cpu d).ctx := by
      show (Function.update (σ.kthreadPoolFree t).cpu c _ d).ctx = _
      rw [update_of_ne hd,kthreadPoolFree_cpu]
    have hfree : (τ.th t).used = false := by
      show ((σ.kthreadPoolFree t).th t).used = false
      rw [kthreadPoolFree,if_pos hused]
      show (Function.update σ.th t _ t).used = false
      rw [update_self]
    have hmem (r : Place) : members τ r = members σ r := by
      rw [members_setCpu]
      · exact kthreadPoolFree_members r
      · rw [kthreadPoolFree_cpu,hctx]
        rfl
    have hset : Settled τ t := by
      constructor
      · intro hu
        rw [hfree] at hu
        cases hu
      · intro _
        rw [hpc,hdead]
        exact ⟨rfl,rfl⟩
    refine h.frame (fun v => ?_) (fun v hv => .inl (hv.congr hmem)) (fun v d l' hd _ _ => ?_)
    · by_cases hv : v = t
      · rw [hv]
        exact .inr hset
      · have hth : τ.th v = σ.th v := kthreadPoolFree_of_ne hv
        rw [hth]
        exact .inl (.refl _)
    · by_cases hdc : d = c
      · rw [hdc,hctx] at hd
        cases hd
        exact .inr hset
      · exact .inl (hcpu d hdc)
  · rw [heq]
    set τ : Sched := σ.setCpu c _ with hτ
    have hcpu (d : ℕ) (hd : d ≠ c) : (τ.cpu d).ctx = (σ.cpu d).ctx := by
      show (Function.update σ.cpu c _ d).ctx = _
      rw [update_of_ne hd]
    refine h.frame (fun v => .inl (.refl _)) (fun v hv => .inl (hv.congr (members_setCpu ?_)))
      (fun v d l' hd hl hstate => ?_)
    · rw [hctx]
      rfl
    · by_cases hdc : d = c
      · rw [hdc,hctx] at hd
        cases hd
        exact absurd ⟨hl,hstate⟩ hno
      · exact .inl (hcpu d hdc)

/-- Threads are taken off a wait list. -/
theorem Kept.take {w : WaitList} {n : ℕ} {flag : ℕ → Bool} {count : ℕ → ℕ}
    (hctx : (σ.cpu c).ctx = .thread t l)
    (hpc : (σ.th t).pc = .run ∨ ∃ o, (σ.th t).pc = .retry o) :
    Kept { σ.take t w n with flag := flag, count := count } := by
  obtain ⟨-,hsaved,-⟩ := hs.placed.exec c t (.intro hctx)
  obtain ⟨hwakes,hmakes,-⟩ := quiet_of_start hpc
  let τ : Sched := { σ.take t w n with flag := flag, count := count }
  have htaken : Taken σ τ t w n := take_taken hmakes
  have hth : τ.th = Function.update σ.th t { σ.th t with pc := .waking ((σ.waiters w).take n) } := rfl
  refine h.update hs hctx hth (fun _ _ => rfl) rfl (fun v hv => ?_) ?_
  · obtain ⟨r,hr⟩ := hv
    by_cases hrw : r = .wait w
    · subst hrw
      have hr : v ∈ σ.waiters w := hr
      rw [← List.take_append_drop n (σ.waiters w)] at hr
      obtain hr | hr := List.mem_append.mp hr
      · exact ⟨.waking t,by rwa [htaken.waking]⟩
      · exact ⟨.wait w,by rwa [htaken.wait]⟩
    · refine ⟨r,?_⟩
      rw [htaken.rest r hrw]
      · exact hr
      · rintro rfl
        have hr : v ∈ (σ.th t).pc.wakes := hr
        rw [hwakes] at hr
        cases hr
  · rw [hsaved]
    nofun

theorem Kept.switchOut {next : Tpc} (hctx : (σ.cpu c).ctx = .thread t l)
    (hwakes : next.wakes = (σ.th t).pc.wakes) (hmakes : next.makes = (σ.th t).pc.makes)
    (ht : (σ.th t).pc.published = true ∨ Doomed (σ.switchOut c t l next) t) :
    Kept (σ.switchOut c t l next) :=
  h.update hs hctx rfl (fun _ hd => congrArg CPU.ctx (setCtx_of_ne hd)) rfl
    (fun _ hv => hv.congr (switchOut_members hctx hwakes hmakes)) (fun _ => ht.imp_right .inr)

end Cases

/-- No thread makes its last switch under a loop that does not look for exiting
threads. -/
def reclaiming (σ : Sched) (e : ℕ × Act) : Bool :=
  match (σ.cpu e.1).ctx with
  | .boot _ => true
  | .thread t l => decide ((σ.th t).pc ≠ .exitSwitch) || l.reclaims

/-- The running thread goes on, on its own. -/
theorem Kept.own {y : CPU} (h : Kept σ) (hs : Sound m σ) (hctx : (σ.cpu c).ctx = .thread t l)
    (ho : Own σ c t σ' x y) : Kept σ' := by
  obtain ⟨⟨hwakes,hmakes,hpub,-⟩,-⟩ := ho.kept (hs.placed.ok t)
  obtain ⟨hused,-,-,hsaved,-⟩ := ho.keeps
  have hmem := members_thread ho.th ho.lists.1 ho.lists.2 (fun d => by rw [(ho.cpus d).1]) hwakes
    hmakes
  refine h.update hs hctx ho.th (fun d _ => (ho.cpus d).1) hused (fun v hv => hv.congr hmem) ?_
  rw [hsaved,(hs.placed.exec c t (.intro hctx)).2.1,hpub]
  rintro (hno | hpub)
  · cases hno
  · exact .inl hpub

theorem kept_boot : Kept boot := by
  intro t
  constructor
  · nofun
  · exact fun _ => ⟨rfl,rfl⟩

theorem Kept.move {a : Act} {obs : List Obs} (h : Kept σ) (hs : Sound m σ)
    (hlast : ∀ t l, (σ.cpu c).ctx = .thread t l → (σ.th t).pc = .exitSwitch → l.reclaims = true)
    (hdoes : Does m σ c a σ' obs) : Kept σ' := by
  -- the counters of a CPU change, and nothing else
  have hcounters {pc : Dpc} {x : CPU} (hctx : (σ.cpu c).ctx = .boot pc) (hx : x.ctx = .boot pc) :
      Kept (σ.setCpu c x) := by
    have hsame : ∀ d, ((σ.setCpu c x).cpu d).ctx = (σ.cpu d).ctx := setCpu_ctx (hx.trans hctx.symm)
    refine h.frame (fun v => .inl (.refl _)) (fun v hv => .inl (hv.congr (members_setCpu ?_)))
      (fun v d _ _ _ _ => .inl (hsame d))
    rw [hx,hctx]
  cases hdoes with
  | boot hctx hdoes =>
    cases hdoes with
    | stay => exact h
    | irq | iret => exact hcounters hctx hctx
    | pop _ hready | steal _ _ hready => exact h.pop hctx rfl (by nofun) hready
    | look hheld hfrom hheld' => exact h.look hctx hheld hfrom hheld'
    | reap hstate => exact absurd hstate (hs.placed.not_reaped hctx)
    | dispatch => exact h.dispatch hs hctx
    | back => exact h.back hs hctx
    | made hc0 hspawn =>
      obtain ⟨x,hb⟩ := hspawn.built
      exact h.bootMade hctx hb
    | push => exact h.bootPush hs hctx
  | @thread t l hctx hdoes =>
    cases hdoes with
    | alone halone =>
      obtain ⟨x,y,ho⟩ := halone.own
      exact h.own hs hctx ho
    | @park _ w o hpc =>
      obtain ⟨hwakes,hmakes,-⟩ := quiet_of_start hpc
      have henters := park_enters (w := w) (o := o) hwakes hmakes
      exact h.update hs hctx rfl (fun _ _ => rfl) rfl (fun v => henters.somewhere)
        (fun _ => .inr (.inl henters.entered))
    | take hpc => exact h.take hs hctx hpc
    | @wake u us hpc =>
      obtain ⟨hut,hin,hparked⟩ := hs.placed.first_waking hctx hpc
      have hd := hs.placed.small u
      rw [kschedWake,if_pos hparked]
      exact h.push hs hctx hut hd (hs.placed.used _ u hin) rfl (hs.placed.wake_goes hctx hpc hd)
    | @push u k d hpc =>
      obtain ⟨hut,hin⟩ := hs.placed.made_in_hand hctx hpc
      have hd : d < m.numCoresOnline := hs.homed.targets t d (by rw [hpc]; exact List.mem_cons_self)
      exact h.push hs hctx hut hd (hs.placed.used _ u hin) rfl (hs.placed.made_goes hctx hpc hd)
    | made hpc hspawn =>
      obtain ⟨x,hb⟩ := hspawn.built
      exact h.made hs hctx hpc hb
    | yield hpc => exact h.yield hs hctx (by rw [hpc]; rfl) (by rw [hpc]; rfl)
    | preempt =>
      obtain ⟨x,y,ho⟩ := own_enter (σ := σ) (c := c) (t := t) (v := .preempt) (.irq _)
      refine (h.own hs hctx ho).yield (hs.enter hctx) ((enter_ctx c).trans hctx) ?_ ?_
      · rw [enter_pc]
      · rw [enter_pc]
    | switch hpc =>
      exact h.switchOut hs hctx (by rw [hpc]; rfl) (by rw [hpc]; rfl) (.inl (by rw [hpc]; rfl))
    | last hpc =>
      refine h.switchOut hs hctx (by rw [hpc]; rfl) (by rw [hpc]; rfl) (.inr ?_)
      have hself : (σ.switchOut c t l .dead).th t = { σ.th t with saved := true, pc := .dead } :=
        update_self ..
      refine ⟨c,l,setCtx_self _,hlast t l hctx hpc,?_,by rw [hself]⟩
      rw [hself]
      rw [(hs.placed.out c t (.intro hctx) (by rw [hpc]; rfl)).2,hpc]
      rfl
    | ending hpc =>
      obtain ⟨-,hsaved,-⟩ := hs.placed.exec c t (.intro hctx)
      have hth := congrArg Sched.th (kschedExit_own σ t)
      have hmem : ∀ r, members (σ.kschedExit t t) r = members σ r :=
        members_thread hth rfl rfl (fun _ => rfl) (by rw [hpc]; rfl) (by rw [hpc]; rfl)
      refine h.update hs hctx hth (fun _ _ => rfl) rfl (fun v hv => hv.congr hmem) ?_
      rw [hsaved]
      rintro (h | h) <;> cases h

/-- The condition on the steps of a run: orderly, and exits only where they are seen. -/
def tidy (m : Machine) (σ : Sched) (e : ℕ × Act) : Bool := orderly m σ e && reclaiming σ e

/-- What holds in every state a tidy run reaches. -/
structure Conserved (m : Machine) (σ : Sched) : Prop where
  sound : Sound m σ
  kept : Kept σ

theorem Conserved.step (h : Conserved m σ) (e : ℕ × Act) (htidy : tidy m σ e = true) :
    Conserved m (σ.step m e).1 := by
  obtain ⟨hord,hrec⟩ := Bool.and_eq_true_iff.mp htidy
  refine ⟨h.sound.step e hord,?_⟩
  obtain heq | ⟨-,hdoes⟩ := h.sound.does e hord
  · rw [heq]
    exact h.kept
  · refine h.kept.move h.sound (fun t l hctx hpc => ?_) hdoes
    simpa [reclaiming,hctx,hpc] using hrec

theorem conserved_of_tidy {es : List (ℕ × Act)}
    (hrun : Meets (Sched.step m) (fun σ e => tidy m σ e = true) boot es) :
    Conserved m (exec (Sched.step m) boot es) :=
  hrun.inv (fun _ e h htidy => h.step e htidy) ⟨sound_boot m,kept_boot⟩

/-- The next step of the dispatcher frees the slot. -/
theorem Conserved.freed (h : Conserved m σ) (hc : c < m.numCoresOnline)
    (hctx : (σ.cpu c).ctx = .boot (.returned t l)) (hl : l.reclaims = true)
    (hstate : (σ.th t).state = .exiting) : ((σ.step m (c,.go)).1.th t).used = false := by
  have hframes : (σ.cpu c).frames = [] := by
    by_contra hf
    rw [h.sound.coherent.idle c hf] at hctx
    cases hctx
  have hstep : (σ.step m (c,.go)).1 = σ.returnStep c t l := by
    rw [Sched.step,if_pos hc,hctx]
    simp only [stepBoot,hframes]
  obtain ⟨-,-,heq⟩ | ⟨hno,-⟩ := returnStep_cases σ c t l
  · rw [hstep,heq]
    show ((σ.kthreadPoolFree t).th t).used = false
    rw [kthreadPoolFree]
    split
    · show (Function.update σ.th t _ t).used = false
      rw [update_self]
    · rename_i hfree
      simpa using hfree
  · exact absurd ⟨hl,hstate⟩ hno

/-- The allocator fails only when every slot is used. -/
theorem used_of_kthreadPoolAlloc_none (h : σ.kthreadPoolAlloc = none) (t : Tid) :
    (σ.th t).used = true := by
  have hall := List.find?_eq_none.mp h
  -- the scan starts at the hint and goes once around
  have hin : t ∈ (List.range kthreadPoolCap).map fun i =>
      (⟨(σ.poolHint+i)%kthreadPoolCap,Nat.mod_lt _ (by decide)⟩ : Tid) := by
    have hpos : 0 < kthreadPoolCap := by decide
    refine List.mem_map.mpr
      ⟨(t+(kthreadPoolCap-σ.poolHint%kthreadPoolCap))%kthreadPoolCap,?_,?_⟩
    · exact List.mem_range.mpr (Nat.mod_lt _ hpos)
    · ext
      show (σ.poolHint+(t+(kthreadPoolCap-σ.poolHint%kthreadPoolCap))%kthreadPoolCap)%kthreadPoolCap
        = t
      unfold kthreadPoolCap at *
      omega
  simpa using hall t hin

/-- The thread is in one place, on one CPU, or about to be freed. -/
def Accounted (σ : Sched) (t : Tid) : Prop :=
  (∃ p, t ∈ members σ p ∧ ∀ q, t ∈ members σ q → q = p) ∨
  (∃ c, Executes σ c t ∧ ∀ d, Executes σ d t → d = c) ∨ Doomed σ t

/-- In a tidy run every used slot belongs to a thread that is somewhere, once; an exiting
thread's slot is free after the next step of the dispatcher it has come back to; and
`kthreadPoolAlloc` fails only when all slots belong to such threads. -/
theorem slots_accounted_of_tidy (m : Machine) (es : List (ℕ × Act))
    (hrun : Meets (Sched.step m) (fun σ e => tidy m σ e = true) boot es) :
    (∀ t, ((exec (Sched.step m) boot es).th t).used = true →
      Accounted (exec (Sched.step m) boot es) t) ∧
    (∀ t, ((exec (Sched.step m) boot es).th t).used = true →
      ((exec (Sched.step m) boot es).th t).state = .exiting →
      ((exec (Sched.step m) boot es).th t).saved = true →
      ∃ c l, ((exec (Sched.step m) boot es).cpu c).ctx = .boot (.returned t l) ∧
        (((exec (Sched.step m) boot es).step m (c,.go)).1.th t).used = false) ∧
    ((exec (Sched.step m) boot es).kthreadPoolAlloc = none →
      ∀ t, Accounted (exec (Sched.step m) boot es) t) := by
  have h := conserved_of_tidy hrun
  generalize exec (Sched.step m) boot es = σ at h
  have hacc (t : Tid) (hused : (σ.th t).used = true) : Accounted σ t := by
    by_cases hsaved : (σ.th t).saved = true
    · obtain ⟨p,hp⟩ | hdoom := (h.kept t).found hused (.inl hsaved)
      · exact .inl ⟨p,hp,fun q hq => h.sound.placed.apart.one q p t hq hp⟩
      · exact .inr (.inr hdoom)
    · have hexec := h.sound.placed.gone t (by simpa using hsaved)
      exact .inr (.inl ⟨_,hexec,fun d hd => (h.sound.placed.exec d t hd).2.2.symm⟩)
  refine ⟨hacc,fun t hused hstate hsaved => ?_,
    fun hnone t => hacc t (used_of_kthreadPoolAlloc_none hnone t)⟩
  obtain ⟨p,hp⟩ | ⟨c,l,hctx,hl,-⟩ := (h.kept t).found hused (.inl hsaved)
  · exact absurd hp (h.sound.placed.nowhere_of_exiting hstate p)
  · have ht : t ∈ (σ.cpu c).ctx.looksAt := by
      rw [hctx,Ctx.looksAt,if_pos hl]
      exact List.mem_cons_self
    have hc : c < m.numCoresOnline := by
      rw [(h.sound.homed.housed c).bsp ht]
      exact m.pos
    exact ⟨c,l,hctx,h.freed hc hctx hl hstate⟩

/-- A service and the boot shell run under the BSP's pump. The service waits for an event
and then exits; the shell has signalled it in a system call, and started a child that an
AP takes over and another one steals. -/
def serviceExit : List (ℕ × Act) :=
  [(0,.spawnService),(0,.go),(0,.poll .kschedLoopOnce),(0,.go),(0,.op (.wait 5)),(0,.go),(0,.go),
   (0,.spawnShell),(0,.go)]++(0,.poll .kschedLoopRing3OnlyOnce)::List.replicate 7 (0,.go)++
  [(0,.syscall),(0,.spawnRing3),(0,.go),(0,.op (.signal 5)),(0,.go),(0,.go),(0,.yield)]++
  List.replicate 5 (0,.go)++(1,.poll .kschedLoopRing3Only)::List.replicate 7 (1,.go)++
  [(1,.syscall),(1,.yield),(1,.go),(1,.go),(1,.go),(1,.go),
   (2,.poll .kschedLoopRing3Only),(2,.go),(2,.go),(2,.go)]++
  (0,.poll .kschedLoopOnce)::List.replicate 5 (0,.go)++[(0,.exit)]++List.replicate 4 (0,.go)

theorem slots_accounted_of_tidy_service :
    ((exec (Sched.step threeCores) boot serviceExit).cpu 2).ctx = .thread 2 .kschedLoopRing3Only ∧
    Accounted (exec (Sched.step threeCores) boot serviceExit) 1 ∧
    Accounted (exec (Sched.step threeCores) boot serviceExit) 2 ∧
    ∃ c l, ((exec (Sched.step threeCores) boot serviceExit).cpu c).ctx = .boot (.returned 0 l) ∧
      (((exec (Sched.step threeCores) boot serviceExit).step threeCores (c,.go)).1.th 0).used =
        false := by
  obtain ⟨hacc,hfreed,-⟩ := slots_accounted_of_tidy threeCores serviceExit (by decide +kernel)
  exact ⟨by decide +kernel,hacc 1 (by decide +kernel),hacc 2 (by decide +kernel),
    hfreed 0 (by decide +kernel) (by decide +kernel) (by decide +kernel)⟩

/-- The child on the first AP exits, and its dispatcher looks for work again. -/
def exitOnAp : List (ℕ × Act) :=
  childOnAp++[(1,.syscall),(1,.exit)]++List.replicate 12 (1,.go)++
    [(1,.poll .kschedLoopRing3Only),(1,.go),(1,.go),(1,.go)]

/-- Its slot stays used, and nobody has the thread any more. -/
theorem exit_on_ap_leaks :
    ((exec (Sched.step threeCores) boot exitOnAp).cpu 1).ctx = .boot .idle ∧
    ((exec (Sched.step threeCores) boot exitOnAp).th 1).used = true ∧
    ¬Accounted (exec (Sched.step threeCores) boot exitOnAp) 1 := by
  have hsound : Sound threeCores (exec (Sched.step threeCores) boot exitOnAp) :=
    sound_of_orderly (by decide +kernel)
  have hend : ((exec (Sched.step threeCores) boot exitOnAp).cpu 1).ctx = .boot .idle ∧
      ((exec (Sched.step threeCores) boot exitOnAp).th 1).used = true ∧
      ((exec (Sched.step threeCores) boot exitOnAp).th 1).state = .exiting ∧
      ((exec (Sched.step threeCores) boot exitOnAp).th 1).saved = true ∧
      ((exec (Sched.step threeCores) boot exitOnAp).cpu 0).ctx =
        .thread 0 .kschedLoopRing3OnlyOnce := by
    decide +kernel
  generalize exec (Sched.step threeCores) boot exitOnAp = σ at hsound hend
  obtain ⟨hctx,hused,hstate,hsaved,hbsp⟩ := hend
  refine ⟨hctx,hused,?_⟩
  rintro (⟨p,hp,-⟩ | ⟨c,hc,-⟩ | ⟨c,l,hback,hl,-⟩)
  · exact hsound.placed.nowhere_of_exiting hstate p hp
  · rw [(hsound.placed.exec c 1 hc).2.1] at hsaved
    cases hsaved
  · -- only the BSP reclaims, and it runs the shell
    have hin : 1 ∈ (σ.cpu c).ctx.looksAt := by
      rw [hback,Ctx.looksAt,if_pos hl]
      exact List.mem_cons_self
    rw [(hsound.homed.housed c).bsp hin,hbsp] at hback
    cases hback

end Gooos.Ksched
