import Mathlib
import Gooos.Sched.Homed

/-!
# Orderly runs

In a run without early steals, without preemptions in the switch gap and without CPU
numbers used on another CPU, a CPU switches only into threads whose context is stored, no
thread runs on two CPUs and none is on two lists.
-/

namespace Gooos.Ksched

open Sched Places Trace Function

variable {m : Machine} {σ σ' : Sched} {c : ℕ} {t : Tid} {l : Loop}

/-- The invariant of orderly runs. -/
structure Sound (m : Machine) (σ : Sched) : Prop where
  placed : Placed m σ
  homed : Homed m σ
  coherent : Coherent σ

theorem sound_boot (m : Machine) : Sound m boot where
  placed :=
    { apart := ⟨fun p => by cases p <;> exact List.nodup_nil,fun p q t hp => by cases p <;> cases hp⟩
      used := fun p t hp => by cases p <;> cases hp
      state := fun p t hp => by cases p <;> cases hp
      owner := nofun
      held := fun p t _ hp => by cases p <;> cases hp
      exec := nofun
      out := nofun
      gone := nofun
      small := fun _ => m.pos
      calm := fun _ _ => ⟨rfl,rfl⟩
      ok := fun _ => trivial }
  homed :=
    { targets := nofun
      housed := fun c => .of_free (show (boot.cpu c).ctx = .boot .idle from rfl) rfl (by nofun)
        (by nofun) }
  coherent := coherent_boot

theorem saved_of_orderly {i : ℕ} {ts : List Tid} (h : orderly m σ (c,.go) = true)
    (hctx : (σ.cpu c).ctx = .boot (.stealing i)) (hi : i < m.numCoresOnline)
    (hsrc : (c+i)%m.numCoresOnline ≠ 0)
    (hready : σ.ready .ring3 ((c+i)%m.numCoresOnline) = t::ts) : (σ.th t).saved = true := by
  have hall : (stolen m σ c i).all (fun t => (σ.th t).saved) = true := by
    have hsteal := (Bool.and_eq_true_iff.mp h).2
    simpa [hctx] using hsteal
  rw [stolen,if_pos ⟨hi,hsrc⟩,hready] at hall
  simpa using hall

theorem calm_of_orderly (h : orderly m σ (c,.irq .preempt) = true)
    (hctx : (σ.cpu c).ctx = .thread t l) (hmask : (σ.th t).pc.masked = false)
    (hyields : (σ.enter c t .preempt (.irq (σ.th t).pc)).preemptYields c = true) :
    (σ.th t).pc.calm := by
  have hgap : (σ.th t).pc.gap = false := by
    have hpreempt := (Bool.and_eq_true_iff.mp h).2
    simpa [hctx,hyields] using hpreempt
  exact (gap_iff_of_unmasked hmask).mp hgap

/-- A thread on the queue its own dispatcher polls has been switched out. -/
theorem Placed.saved_of_ready {pc : Dpc} {k : Tier} (h : Placed m σ)
    (hctx : (σ.cpu c).ctx = .boot pc) (ht : t ∈ σ.ready k c) : (σ.th t).saved = true := by
  by_contra hs
  obtain ⟨l,hl⟩ := h.gone t (by simpa using hs)
  rw [h.owner k c t ht,hctx] at hl
  cases hl

theorem Placed.runnable_of_popped {d : ℕ} (h : Placed m σ)
    (hpop : (σ.cpu d).ctx = .boot (.popped t l)) :
    (σ.th t).used = true ∧ (σ.th t).state = .runnable ∧ (σ.th t).saved = true := by
  have hin : t ∈ members σ (.hand d) := mem_hand hpop rfl
  exact ⟨h.used _ t hin,h.state _ t hin,h.held (.hand d) t rfl hin⟩

theorem Placed.not_reaped (h : Placed m σ) (hpop : (σ.cpu c).ctx = .boot (.popped t l)) :
    (σ.th t).state ≠ .exiting := by
  rw [(h.runnable_of_popped hpop).2.1]
  nofun

variable {v : Vec} {next p : Tpc} {u : Tid}

theorem enter_ctx (d : ℕ) : ((σ.enter c t v p).cpu d).ctx = (σ.cpu d).ctx := by
  refine setCpu_ctx (σ := σ.setTh t _) ?_ d
  rfl

/-- On its own a thread passes on with what it had in hand. -/
theorem Passes.kept {x : KThread} {q : Tpc} (h : Passes c t x q p) (hok : q.Ok) :
    (p.wakes = q.wakes ∧ p.makes = q.makes ∧ p.published = q.published ∧ p.ending = q.ending) ∧
      p.targets = q.targets ∧ p.Ok := by
  cases h with
  | hop h =>
    cases h with
    | stay | cpu | thread => exact ⟨⟨rfl,rfl,rfl,rfl⟩,rfl,hok⟩
    | _ => exact ⟨⟨rfl,rfl,rfl,rfl⟩,rfl,trivial⟩
  | resume => exact ⟨⟨rfl,rfl,hok.1.1,hok.1.2⟩,rfl,hok.2⟩
  | bind => exact ⟨⟨rfl,rfl,rfl,rfl⟩,rfl,⟨rfl,rfl⟩,trivial⟩
  | exitMark => exact ⟨⟨rfl,rfl,rfl,rfl⟩,rfl,trivial⟩
  | exits hp hq =>
    obtain rfl | rfl := hp <;> obtain rfl | rfl := hq <;> exact ⟨⟨rfl,rfl,rfl,rfl⟩,rfl,trivial⟩
  | irq | iret => exact ⟨⟨rfl,rfl,rfl,rfl⟩,rfl,hok⟩

/-- A thread that goes to its end has nothing in hand. -/
theorem Ends.quiet (h : Ends c t p) :
    (p.wakes = [] ∧ p.makes = [] ∧ p.published = false ∧ p.ending = false) ∧ p.targets = [] := by
  cases h with
  | service | unhosted => exact ⟨⟨rfl,rfl,rfl,rfl⟩,rfl⟩
  | exits hp => obtain rfl | rfl := hp <;> exact ⟨⟨rfl,rfl,rfl,rfl⟩,rfl⟩

theorem Own.kept {x : KThread} {y : CPU} (ho : Own σ c t σ' x y) (hok : (σ.th t).pc.Ok) :
    (x.pc.wakes = (σ.th t).pc.wakes ∧ x.pc.makes = (σ.th t).pc.makes ∧
      x.pc.published = (σ.th t).pc.published ∧ x.pc.ending = (σ.th t).pc.ending) ∧
    x.pc.targets = (σ.th t).pc.targets ∧ x.pc.Ok := by
  obtain ⟨hp,-⟩ | ⟨hp,heq,-⟩ := ho.pc
  · exact hp.kept hok
  · obtain ⟨⟨hwakes,hmakes,hpub,hend⟩,htargets⟩ := hp.quiet
    rw [heq,hwakes,hmakes,hpub,hend,htargets]
    exact ⟨⟨rfl,rfl,rfl,rfl⟩,rfl,trivial⟩

/-- What is read off the running thread right after the entry of a preemption. -/
theorem enter_pc : ((σ.enter c t v p).th t).pc = p := by
  show (update σ.th t _ t).pc = _
  rw [update_self]

section Moves

variable (h : Sound m σ)
include h

/-- The counters of a CPU change, and nothing else. -/
theorem Sound.counters {pc : Dpc} {x : CPU} (hctx : (σ.cpu c).ctx = .boot pc)
    (hx : x.ctx = .boot pc) : Placed m (σ.setCpu c x) ∧ Homed m (σ.setCpu c x) := by
  have hsame : ∀ d, ((σ.setCpu c x).cpu d).ctx = (σ.cpu d).ctx := setCpu_ctx (hx.trans hctx.symm)
  refine ⟨h.placed.look hctx hx rfl,h.homed.targets,fun d => ?_⟩
  have hold := h.homed.housed d
  constructor
  · rw [hsame]
    exact hold.aims
  · rw [hsame]
    exact hold.loop
  · rw [hsame]
    exact hold.steals
  · rw [hsame]
    exact hold.home
  · rw [hsame]
    exact hold.back

section

variable (hctx : (σ.cpu c).ctx = .thread t l)
include hctx

/-- The running thread goes on, on its own. -/
theorem Sound.own {x : KThread} {y : CPU} (ho : Own σ c t σ' x y) : Placed m σ' ∧ Homed m σ' := by
  obtain ⟨⟨hwakes,hmakes,hpub,hend⟩,htargets,hok⟩ := ho.kept (h.placed.ok t)
  obtain ⟨hused,hstate,howner,hsaved,-⟩ := ho.keeps
  have hctx' (d : ℕ) := (ho.cpus d).1
  exact ⟨h.placed.thread ho.th ho.lists.1 ho.lists.2 hctx' ⟨hused,hstate,howner,hsaved,hpub,hend⟩
      ⟨hwakes,hmakes⟩ hok,
    h.homed.thread h.placed hctx hctx' ho.th ⟨howner,hused,hsaved⟩
      (fun u hu => by rwa [hmakes] at hu) (fun d hd => by rwa [htargets] at hd)⟩

theorem Sound.switchOut
    (hwakes : next.wakes = (σ.th t).pc.wakes) (hmakes : next.makes = (σ.th t).pc.makes)
    (htargets : next.targets = (σ.th t).pc.targets) (hnext : next.calm ∧ next.Ok) :
    Placed m (σ.switchOut c t l next) ∧ Homed m (σ.switchOut c t l next) :=
  ⟨h.placed.switchOut hctx hwakes hmakes hnext,
    h.homed.switchOut h.placed hctx (fun u hu => by rwa [hmakes] at hu)
      (fun d hd => by rwa [htargets] at hd)⟩

theorem Sound.wake {us : List Tid} (hpc : (σ.th t).pc = .waking (u::us)) :
    Placed m ((σ.kschedWake u).setPc t (.waking us)) ∧
      Homed m ((σ.kschedWake u).setPc t (.waking us)) := by
  refine ⟨h.placed.wake hctx hpc,?_⟩
  obtain ⟨hut,-,hparked⟩ := h.placed.first_waking hctx hpc
  rw [kschedWake,if_pos hparked]
  exact h.homed.push h.placed hctx hut (h.placed.small u) (.inl rfl) ⟨rfl,rfl⟩

theorem Sound.push {k : Tier} {d : ℕ} (hpc : (σ.th t).pc = .spawning u k d) :
    Placed m ((σ.kschedPush k u d).setPc t .run) ∧ Homed m ((σ.kschedPush k u d).setPc t .run) := by
  have hd : d < m.numCoresOnline := by
    refine h.homed.targets t d ?_
    rw [hpc]
    exact List.mem_cons_self
  obtain ⟨hut,hin⟩ := h.placed.made_in_hand hctx hpc
  exact ⟨h.placed.pushMade hctx hpc hd,h.homed.push h.placed hctx hut hd (.inr hin) ⟨rfl,rfl⟩⟩

end

/-- The entry of an interrupt on the running thread. -/
theorem Sound.enter (hctx : (σ.cpu c).ctx = .thread t l) :
    Sound m (σ.enter c t v (.irq (σ.th t).pc)) := by
  obtain ⟨x,y,ho⟩ := own_enter (σ := σ) (c := c) (t := t) (v := v) (.irq _)
  obtain ⟨hplaced,hhomed⟩ := h.own hctx ho
  refine ⟨hplaced,hhomed,fun d => ?_,fun d u l' => ?_⟩
  · rw [(ho.cpus d).1,(ho.cpus d).2.1]
    exact h.coherent.idle d
  · rw [(ho.cpus d).1,(ho.cpus d).2.2]
    exact h.coherent.runs d u l'

/-- The running thread yields, to go on at `next`. -/
theorem Sound.yield (hctx : (σ.cpu c).ctx = .thread t l)
    (hcalm : (σ.th t).pc.published = false) (hwakes : next.wakes = (σ.th t).pc.wakes)
    (hmakes : next.makes = (σ.th t).pc.makes) (htargets : next.targets = (σ.th t).pc.targets)
    (hnext : next.calm ∧ next.Ok) :
    Placed m (σ.kschedYield c t t next) ∧ Homed m (σ.kschedYield c t t next) :=
  ⟨h.placed.yield hctx hcalm hwakes hmakes hnext,
    h.homed.yield h.placed hctx (fun u hu => by rwa [hmakes] at hu)
      (fun d hd => by rwa [htargets] at hd)⟩

/-- Every orderly move keeps each thread in its place. -/
theorem Sound.move {a : Act} {obs : List Obs} (hc : c < m.numCoresOnline)
    (hord : orderly m σ (c,a) = true) (hdoes : Does m σ c a σ' obs) :
    Placed m σ' ∧ Homed m σ' := by
  cases hdoes with
  | boot hctx hdoes =>
    cases hdoes with
    | stay => exact ⟨h.placed,h.homed⟩
    | irq | iret => exact h.counters hctx hctx
    | @pop l t ts hpolls hready =>
      have hin : t ∈ σ.ready l.tier c := by
        rw [hready]
        exact List.mem_cons_self
      have hl : l = .kschedLoopRing3Only ↔ c ≠ 0 := by
        rw [polls] at hpolls
        split at hpolls
        · rename_i hc0
          simp only [Bool.and_eq_true,decide_eq_true_eq] at hpolls
          exact iff_of_false hpolls.1 (not_not.mpr hc0)
        · rename_i hc0
          exact iff_of_true (by simpa using hpolls) hc0
      exact ⟨h.placed.pop hctx rfl hready (h.placed.saved_of_ready hctx hin),
        h.homed.pop h.placed hready id hl⟩
    | steal hi hsrc hready =>
      have hc0 := (h.homed.housed c).steals (by rw [hctx]; rfl)
      exact ⟨h.placed.pop hctx rfl hready (saved_of_orderly hord hctx hi hsrc hready),
        h.homed.pop h.placed hready (fun h0 => absurd h0 hsrc) (iff_of_true rfl hc0)⟩
    | look hheld hfrom hheld' hto hsteal =>
      refine ⟨h.placed.look hctx rfl (hheld'.trans hheld.symm),
        h.homed.look h.placed rfl hheld' hto fun i hi => ?_⟩
      obtain hc0 | ⟨j,hj⟩ := hsteal i hi
      · exact hc0
      · exact (h.homed.housed c).steals (by rw [hctx,hj]; rfl)
    | reap hstate => exact absurd hstate (h.placed.not_reaped hctx)
    | dispatch => exact ⟨h.placed.dispatch hc hctx,h.homed.dispatch h.placed hctx⟩
    | back => exact ⟨h.placed.back h.homed hctx,h.homed.back h.placed hctx⟩
    | made hc0 hspawn =>
      obtain ⟨x,hb⟩ := hspawn.built
      exact ⟨h.placed.bootMade hctx hb,h.homed.bootMade h.placed hc0 hb⟩
    | @push u k d =>
      have hd := ((h.homed.housed c).aims d (by rw [hctx]; exact List.mem_cons_self)).2
      exact ⟨h.placed.bootPush hctx hd,h.homed.bootPush h.placed hctx⟩
  | @thread t l hctx hdoes =>
    have hok := h.placed.ok t
    cases hdoes with
    | alone halone =>
      obtain ⟨x,y,ho⟩ := halone.own
      exact h.own hctx ho
    | park hpc =>
      exact ⟨h.placed.park hctx hpc,h.homed.thread h.placed hctx (fun _ => rfl) rfl ⟨rfl,rfl,rfl⟩
        (fun _ hu => by cases hu) (fun _ hd => by cases hd)⟩
    | take hpc =>
      exact ⟨h.placed.take hpc,h.homed.thread h.placed hctx (fun _ => rfl) rfl ⟨rfl,rfl,rfl⟩
        (fun _ hu => by cases hu) (fun _ hd => by cases hd)⟩
    | wake hpc => exact h.wake hctx hpc
    | push hpc => exact h.push hctx hpc
    | made hpc hspawn =>
      obtain ⟨x,hb⟩ := hspawn.built
      exact ⟨h.placed.made hctx hpc hb,h.homed.made h.placed hctx hb⟩
    | yield hpc =>
      exact h.yield hctx (by rw [hpc]; rfl) (by rw [hpc]; rfl) (by rw [hpc]; rfl)
        (by rw [hpc]; rfl) ⟨⟨rfl,rfl⟩,trivial⟩
    | preempt hmask hyields =>
      have hcalm := calm_of_orderly hord hctx hmask hyields
      refine (h.enter hctx).yield ((enter_ctx c).trans hctx) ?_ ?_ ?_ ?_ ⟨hcalm,hok⟩
      · rw [enter_pc]
        exact hcalm.1
      · rw [enter_pc]
      · rw [enter_pc]
      · rw [enter_pc]
    | switch hpc =>
      rw [hpc] at hok
      exact h.switchOut hctx (by rw [hpc]; rfl) (by rw [hpc]; rfl) (by rw [hpc]; rfl)
        ⟨⟨rfl,rfl⟩,hok⟩
    | last hpc =>
      exact h.switchOut hctx (by rw [hpc]; rfl) (by rw [hpc]; rfl) (by rw [hpc]; rfl)
        ⟨⟨rfl,rfl⟩,trivial⟩
    | ending hpc =>
      exact ⟨h.placed.ending hctx (by rw [hpc]; exact ⟨rfl,rfl,rfl⟩),
        h.homed.thread h.placed hctx (fun _ => rfl) (congrArg Sched.th (kschedExit_own σ t))
          ⟨rfl,rfl,rfl⟩ (fun _ hu => by cases hu) (fun _ hd => by cases hd)⟩

/-- Every orderly step is one of the moves, of a CPU that is online. -/
theorem Sound.does (e : ℕ × Act) (hord : orderly m σ e = true) : (σ.step m e = (σ,[])) ∨
    e.1 < m.numCoresOnline ∧ Does m σ e.1 e.2 (σ.step m e).1 (σ.step m e).2 :=
  h.coherent.does e (fresh_of_orderly hord)

theorem Sound.step (e : ℕ × Act) (hord : orderly m σ e = true) : Sound m (σ.step m e).1 := by
  have hco := h.coherent.step (m := m) e (fresh_of_orderly hord)
  obtain heq | ⟨hc,hdoes⟩ := h.does e hord
  · rw [heq]
    exact h
  · obtain ⟨hplaced,hhomed⟩ := h.move hc hord hdoes
    exact ⟨hplaced,hhomed,hco⟩

end Moves

/-- The invariant holds in every state an orderly run reaches. -/
theorem sound_of_orderly {es : List (ℕ × Act)}
    (hrun : Meets (Sched.step m) (fun σ e => orderly m σ e = true) boot es) :
    Sound m (exec (Sched.step m) boot es) :=
  hrun.inv (fun _ e h hord => h.step e hord) (sound_boot m)

/-- A dispatch in an orderly run finds the context stored. -/
theorem Sound.switchIn (h : Sound m σ) (e : ℕ × Act) (hord : orderly m σ e = true)
    {d : ℕ} {b : Bool} (hobs : .switchIn d u b ∈ (σ.step m e).2) : b = true := by
  obtain ⟨c,a⟩ := e
  obtain heq | ⟨-,hdoes⟩ := h.does (c,a) hord
  · rw [heq] at hobs
    cases hobs
  · generalize σ.step m (c,a) = r at hobs hdoes
    obtain ⟨σ',obs⟩ := r
    cases hdoes with
    | boot hctx hdoes =>
      cases hdoes with
      | @dispatch t l hstate =>
        obtain ⟨-,rfl,rfl⟩ : d = c ∧ u = t ∧ b = (σ.th t).saved := by simpa using hobs
        refine h.placed.held (.hand c) u rfl ?_
        show u ∈ (σ.cpu c).ctx.held
        rw [hctx]
        exact List.mem_cons_self
      | _ => cases hobs
    | thread hctx hdoes =>
      cases hdoes with
      | alone halone =>
        cases halone with
        | irq hv hmask hskip hobs' =>
          subst hobs'
          split at hobs <;> simp at hobs
        | _ => cases hobs
      | preempt => simp at hobs
      | _ => cases hobs

/-- The lists a thread can be linked on through `WakeLink`. -/
def Place.linked : Place → Bool
  | .ready _ _ => true
  | .wait _ => true
  | _ => false

/-- In an orderly run a CPU switches only into threads whose context has been stored, no
thread is executed by two CPUs, and none is linked twice. -/
theorem switchIn_stored_of_orderly (m : Machine) (es : List (ℕ × Act))
    (hrun : Meets (Sched.step m) (fun σ e => orderly m σ e = true) boot es) :
    (∀ c t b, .switchIn c t b ∈ outs (Sched.step m) boot es → b = true) ∧
    (∀ c d t, Executes (exec (Sched.step m) boot es) c t →
      Executes (exec (Sched.step m) boot es) d t → c = d) ∧
    (∀ p, p.linked = true → (members (exec (Sched.step m) boot es) p).Nodup) ∧
    ∀ p q t, p.linked = true → q.linked = true → t ∈ members (exec (Sched.step m) boot es) p →
      t ∈ members (exec (Sched.step m) boot es) q → p = q := by
  have hsound := sound_of_orderly hrun
  refine ⟨fun c t b hobs => ?_,fun c d t hc hd => ?_,fun p _ => hsound.placed.apart.nodup p,
    fun p q t _ _ hp hq => hsound.placed.apart.one p q t hp hq⟩
  · let P : Obs → Prop := fun o => ∀ c t b, o = .switchIn c t b → b = true
    have hall : ∀ o ∈ outs (Sched.step m) boot es, P o := by
      refine hrun.all_outs (fun _ e h hord => h.step e hord) (fun σ e h hord o ho => ?_)
        (sound_boot m)
      rintro c t b rfl
      exact h.switchIn e hord ho
    exact hall _ hobs c t b rfl
  · exact (hsound.placed.exec c t hc).2.2.symm.trans (hsound.placed.exec d t hd).2.2

/-- One BSP and two APs. -/
def threeCores : Machine := ⟨3,by decide,by decide⟩

/-- The boot shell starts a child on the first AP. -/
def childOnAp : List (ℕ × Act) :=
  [(0,.spawnShell),(0,.go)]++(0,.poll .kschedLoopRing3OnlyOnce)::List.replicate 7 (0,.go)++
  [(0,.syscall),(0,.spawnRing3),(0,.go)]++
  (1,.poll .kschedLoopRing3Only)::List.replicate 7 (1,.go)

/-- The child yields and is switched out, and then the other AP steals it. -/
def lateSteal : List (ℕ × Act) :=
  childOnAp++
    [(1,.syscall),(1,.yield),(1,.go),(1,.go),(1,.go),(1,.go),
     (2,.poll .kschedLoopRing3Only),(2,.go),(2,.go),(2,.go)]

theorem switchIn_stored_of_orderly_steal :
    .switchIn 2 1 true ∈ outs (Sched.step threeCores) boot lateSteal ∧
    (members (exec (Sched.step threeCores) boot lateSteal) (.ready .ring3 1)).Nodup :=
  ⟨by decide +kernel,
    (switchIn_stored_of_orderly threeCores lateSteal (by decide +kernel)).2.2.1 (.ready .ring3 1) rfl⟩

/-- The child puts itself on the ready queue, and the other AP steals it and switches into
it before the first AP has stored its context. -/
def earlySteal : List (ℕ × Act) :=
  childOnAp++
    [(1,.syscall),(1,.yield),(1,.go),(1,.go),(1,.go),
     (2,.poll .kschedLoopRing3Only),(2,.go),(2,.go),(2,.go)]

/-- Both APs then execute the child. -/
theorem steal_before_store :
    .switchIn 2 1 false ∈ outs (Sched.step threeCores) boot earlySteal ∧
    ((exec (Sched.step threeCores) boot earlySteal).cpu 1).ctx = .thread 1 .kschedLoopRing3Only ∧
    ((exec (Sched.step threeCores) boot earlySteal).cpu 2).ctx = .thread 1 .kschedLoopRing3Only := by
  decide +kernel

end Gooos.Ksched
