import Mathlib.Data.List.Nodup

/-!
# The ready queue as a linked list

`kschedPushLocked` and `kschedPopLocked` of `kthread_sched.go`. The `WakeLink` field is also used
by other lists while a thread is not on this one.
-/

namespace Gooos.Ksched.Link

open Function

variable {T : Type} [DecidableEq T]

/-- `kschedReadyQueue` and the link fields of all threads. -/
structure ReadyQueue (T : Type) where
  head : Option T
  tail : Option T
  wakeLink : T → Option T

def kschedPushLocked (q : ReadyQueue T) (t : T) : ReadyQueue T :=
  let wakeLink := update q.wakeLink t none
  match q.tail with
  | none => ⟨some t,some t,wakeLink⟩
  | some last => ⟨q.head,some t,update wakeLink last (some t)⟩

def kschedPopLocked (q : ReadyQueue T) : Option T × ReadyQueue T :=
  match q.head with
  | none => (none,q)
  | some t =>
    let head := q.wakeLink t
    (some t,⟨head,if head = none then none else q.tail,update q.wakeLink t none⟩)

inductive Op (T : Type) where
  | push (t : T)
  | pop
  | elsewhere (t : T) (link : Option T)

def step (q : ReadyQueue T) : Op T → ReadyQueue T
  | .push t => kschedPushLocked q t
  | .pop => (kschedPopLocked q).2
  | .elsewhere t link => { q with wakeLink := update q.wakeLink t link }

/-- The threads pushed and not yet popped, in push order. -/
def fifo (l : List T) : Op T → List T
  | .push t => l++[t]
  | .pop => l.tail
  | .elsewhere .. => l

/-- Only threads that are not on the list are pushed, or linked elsewhere. -/
def Fresh (l : List T) : List (Op T) → Prop
  | [] => True
  | op::ops =>
    (match op with
      | .push t | .elsewhere t _ => t ∉ l
      | .pop => True) ∧ Fresh (fifo l op) ops

/-- Each thread's link is the next thread, and the last one has none. -/
def Linked (wakeLink : T → Option T) : List T → Prop
  | [] => True
  | t::ts => wakeLink t = ts.head? ∧ Linked wakeLink ts

section Linked

variable {f : T → Option T} {l : List T} {t last : T} (h : Linked f l)
include h

theorem Linked.update_of_notMem (ht : t ∉ l) (link : Option T) : Linked (update f t link) l := by
  induction l with
  | nil => trivial
  | cons x xs ih =>
    obtain ⟨hx,hxs⟩ := not_or.mp (List.mem_cons.not.mp ht)
    exact ⟨(update_of_ne (Ne.symm hx) ..).trans h.1,ih h.2 hxs⟩

theorem Linked.snoc (hl : l.Nodup) (ht : t ∉ l) (hlast : l.getLast? = some last) (hnone : f t = none) :
    Linked (update f last (some t)) (l++[t]) := by
  have htl : t ≠ last := fun heq => ht (heq ▸ List.mem_of_getLast? hlast)
  induction l with
  | nil => cases hlast
  | cons x xs ih =>
    obtain ⟨hx,hxs⟩ := List.nodup_cons.mp hl
    cases xs with
    | nil =>
      obtain rfl : x = last := by simpa using hlast
      exact ⟨update_self ..,(update_of_ne htl ..).trans hnone,trivial⟩
    | cons y ys =>
      rw [List.getLast?_cons_cons] at hlast
      have hxl : x ≠ last := fun heq => hx (by rw [heq]; exact List.mem_of_getLast? hlast)
      exact ⟨(update_of_ne hxl ..).trans h.1,
        ih h.2 hxs (fun hmem => ht (List.mem_cons_of_mem _ hmem)) hlast⟩

end Linked

structure Holds (q : ReadyQueue T) (l : List T) : Prop where
  head : q.head = l.head?
  tail : q.tail = l.getLast?
  linked : Linked q.wakeLink l
  nodup : l.Nodup

namespace Holds

variable {q : ReadyQueue T} {l : List T} (h : Holds q l)
include h

theorem push {t : T} (ht : t ∉ l) : Holds (kschedPushLocked q t) (l++[t]) := by
  have hnodup : (l++[t]).Nodup := by
    rw [← List.concat_eq_append]
    exact h.nodup.concat ht
  have hlinked := h.linked.update_of_notMem ht none
  rw [kschedPushLocked,h.tail]
  cases hlast : l.getLast? with
  | none =>
    obtain rfl := List.getLast?_eq_none_iff.mp hlast
    exact ⟨rfl,rfl,⟨update_self ..,trivial⟩,hnodup⟩
  | some last =>
    refine ⟨?_,by simp,hlinked.snoc h.nodup ht hlast (update_self ..),hnodup⟩
    rw [List.head?_append_of_ne_nil _ (by rintro rfl; cases hlast),h.head]

theorem pop : (kschedPopLocked q).1 = l.head? ∧ Holds (kschedPopLocked q).2 l.tail ∧
    ∀ t ∈ l.head?, (kschedPopLocked q).2.wakeLink t = none := by
  obtain ⟨hhead,htail,hlinked,hnodup⟩ := h
  cases l with
  | nil =>
    rw [kschedPopLocked,hhead]
    exact ⟨rfl,⟨hhead,htail,hlinked,hnodup⟩,nofun⟩
  | cons t ts =>
    obtain ⟨ht,hts⟩ := List.nodup_cons.mp hnodup
    rw [kschedPopLocked,hhead]
    refine ⟨rfl,⟨hlinked.1,?_,hlinked.2.update_of_notMem ht none,hts⟩,?_⟩
    · change (if q.wakeLink t = none then none else q.tail) = ts.getLast?
      rw [hlinked.1,htail]
      cases ts <;> simp
    · rintro _ ⟨⟩
      exact update_self ..

theorem run {ops : List (Op T)} (hops : Fresh l ops) : Holds (ops.foldl step q) (ops.foldl fifo l) := by
  induction ops generalizing q l with
  | nil => exact h
  | cons op ops ih =>
    obtain ⟨hop,hops⟩ := hops
    cases op with
    | push t => exact ih (h.push hop) hops
    | pop => exact ih h.pop.2.1 hops
    | elsewhere t link =>
      exact ih ⟨h.head,h.tail,h.linked.update_of_notMem hop link,h.nodup⟩ hops

end Holds

/-- After any calls that push threads only while they are on no list, the queue is the linked list
of the threads in it, in push order; a thread that is popped has no link. -/
theorem ready_queue_list (f : T → Option T) (ops : List (Op T)) (hops : Fresh [] ops) :
    let q := ops.foldl step ⟨none,none,f⟩
    let l := ops.foldl fifo []
    q.head = l.head? ∧ Linked q.wakeLink l ∧ q.tail = l.getLast? ∧ l.Nodup ∧
      (q.head = none ↔ q.tail = none) ∧ (kschedPopLocked q).1 = l.head? ∧
      ∀ t ∈ (kschedPopLocked q).1, (kschedPopLocked q).2.wakeLink t = none := by
  intro q l
  have hempty : Holds ⟨none,none,f⟩ [] := ⟨rfl,rfl,trivial,List.nodup_nil⟩
  have h : Holds q l := hempty.run hops
  obtain ⟨hpop,-,hnone⟩ := h.pop
  rw [h.head,h.tail,hpop]
  exact ⟨rfl,h.linked,rfl,h.nodup,by simp,rfl,hnone⟩

theorem ready_queue_list_two :
    let ops := [.push 1,.push 2,.pop]
    Fresh [] ops ∧ (ops.foldl step ⟨none,none,fun _ => none⟩).head = (ops.foldl fifo []).head? :=
  have hops : Fresh [] [.push 1,.push 2,.pop] := by simp [Fresh,fifo]
  ⟨hops,(ready_queue_list _ _ hops).1⟩

end Gooos.Ksched.Link
