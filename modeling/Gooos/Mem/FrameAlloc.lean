import Gooos.Mem.Tables

/-!
# Histories of the frame allocator

Any calls of `allocPage`, `allocPagesContig` and `freePage` in which only live pages are freed, with
any writes to live pages between them.
-/

namespace Gooos.Mem

open Finset (Ico)

def Vm.allocPagesContig (σ : Vm) (n : ℕ) : ℕ × Vm :=
  let base := σ.nextFreePage
  (base,{ σ with
    nextFreePage := base+n
    mem := fun f => if f ∈ Ico base (base+n) then fun _ => 0 else σ.mem f })

/-- What each allocation still holds. -/
abbrev Live := List (Finset ℕ)

def Live.Has (L : Live) (f : ℕ) : Prop := ∃ b ∈ L, f ∈ b

inductive Reaches : Vm → Live → Prop
  | init {σ : Vm} (hstack : σ.freeStack = []) (hnext : σ.nextFreePage ≠ 0) : Reaches σ []
  | alloc {σ : Vm} {L : Live} (h : Reaches σ L) : Reaches σ.allocPage.2 ({σ.allocPage.1}::L)
  -- the end of the block is an address: `uintptr(n)*pageSize` does not wrap
  | contig {σ : Vm} {L : Live} (h : Reaches σ L) {n : ℕ} (hn : σ.nextFreePage+n < 2^52) :
    Reaches (σ.allocPagesContig n).2 (Ico σ.nextFreePage (σ.nextFreePage+n)::L)
  | free {σ : Vm} {L : Live} (h : Reaches σ L) {f : ℕ} (hf : L.Has f) :
    Reaches (σ.freePage f) (L.map (·.erase f))
  | write {σ : Vm} {L : Live} (h : Reaches σ L) {f : ℕ} (hf : L.Has f) (i e : ℕ) :
    Reaches (σ.setCell f i e) L

/-- The free frames and the live allocations lie apart. -/
structure Apart (σ : Vm) (L : Live) : Prop where
  wf : σ.Wf
  apart : L.Pairwise Disjoint
  busy : ∀ f, L.Has f → ¬σ.Free f

namespace Apart

variable {σ σ' : Vm} {L : Live} (h : Apart σ L)
include h

/-- Free frames become a new allocation. -/
theorem take {b : Finset ℕ} (hb : ∀ f ∈ b, σ.Free f) (hwf : σ'.Wf)
    (hfree : ∀ f, σ'.Free f → σ.Free f ∧ f ∉ b) : Apart σ' (b::L) where
  wf := hwf
  apart := List.pairwise_cons.mpr ⟨fun b' hb' => Finset.disjoint_left.mpr fun f hf hf' =>
    h.busy f ⟨b',hb',hf'⟩ (hb f hf),h.apart⟩
  busy := by
    rintro f ⟨b',hb',hf⟩ hf'
    obtain ⟨hold,hnot⟩ := hfree f hf'
    obtain rfl | hb' := List.mem_cons.mp hb'
    · exact hnot hf
    · exact h.busy f ⟨b',hb',hf⟩ hold

theorem freePage {f : ℕ} (hf : L.Has f) : Apart (σ.freePage f) (L.map (·.erase f)) := by
  have hapart : (L.map (·.erase f)).Pairwise Disjoint :=
    h.apart.map _ fun b b' hbb => hbb.mono (Finset.erase_subset ..) (Finset.erase_subset ..)
  have hbusy : ∀ g, Live.Has (L.map (·.erase f)) g → g ≠ f ∧ ¬σ.Free g := by
    rintro g ⟨_,hmem,hg⟩
    obtain ⟨b,hb,rfl⟩ := List.mem_map.mp hmem
    obtain ⟨hne,hg⟩ := Finset.mem_erase.mp hg
    exact ⟨hne,h.busy g ⟨b,hb,hg⟩⟩
  have hused := h.busy f hf
  obtain ⟨hnodup,hbelow,hzero⟩ := h.wf
  rw [Vm.Free,not_or,not_le] at hused hzero
  rw [Vm.freePage]
  split
  · exact ⟨h.wf,hapart,fun g hg => (hbusy g hg).2⟩
  split
  · refine ⟨⟨List.nodup_cons.mpr ⟨hused.1,hnodup⟩,?_,?_⟩,hapart,fun g hg hfree => ?_⟩
    · exact List.forall_mem_cons.mpr ⟨hused.2,hbelow⟩
    · rintro (hmem | hle)
      · exact (List.mem_cons.mp hmem).elim (fun heq => ‹f ≠ 0› heq.symm) hzero.1
      · exact absurd hle (not_le.mpr hzero.2)
    · obtain ⟨hne,hnot⟩ := hbusy g hg
      exact hnot (hfree.imp_left fun hmem => (List.mem_cons.mp hmem).resolve_left hne)
  · exact ⟨⟨hnodup,hbelow,h.wf.zero⟩,hapart,fun g hg => (hbusy g hg).2⟩

end Apart

theorem Reaches.apart {σ : Vm} {L : Live} (h : Reaches σ L) : Apart σ L := by
  induction h with
  | init hstack hnext =>
    refine ⟨⟨hstack ▸ List.nodup_nil,by simp [hstack],?_⟩,.nil,by rintro f ⟨b,hb,-⟩; cases hb⟩
    simp [Vm.Free,hstack,hnext]
  | @alloc σ L _ ih =>
    have ha := ih.wf.allocPage
    refine ih.take (fun f hf => Finset.mem_singleton.mp hf ▸ ha.was) ha.wf fun f hf => ?_
    rw [Finset.mem_singleton]
    exact (ha.free f).mp hf
  | @contig σ L _ n _ ih =>
    obtain ⟨hnodup,hbelow,hzero⟩ := ih.wf
    refine ih.take (fun f hf => .inr (Finset.mem_Ico.mp hf).1) ⟨hnodup,fun f hf => ?_,?_⟩
      fun f hf => ?_
    · exact (hbelow f hf).trans_le (Nat.le_add_right ..)
    · exact fun hf => hzero (hf.imp_right fun hle => (Nat.le_add_right ..).trans hle)
    · rw [Finset.mem_Ico]
      obtain hf | hf := hf
      · exact ⟨.inl hf,fun hin => absurd hin.1 (not_le.mpr (hbelow f hf))⟩
      · exact ⟨.inr ((Nat.le_add_right ..).trans hf),fun hin => absurd hin.2 (not_lt.mpr hf)⟩
  | free _ hf ih => exact ih.freePage hf
  | write _ _ _ _ ih => exact ⟨ih.wf.setCell,ih.apart,ih.busy⟩

/-- The live frames and blocks lie apart, and what is handed out next is in none of them; a page is
handed out zeroed. -/
theorem frame_allocator_safe {σ : Vm} {L : Live} (h : Reaches σ L) :
    L.Pairwise Disjoint ∧ (∀ i, σ.allocPage.2.mem σ.allocPage.1 i = 0) ∧
      ¬L.Has σ.allocPage.1 ∧ ∀ n, σ.nextFreePage+n < 2^52 →
        ∀ f < n, ¬L.Has ((σ.allocPagesContig n).1+f) := by
  obtain ⟨hwf,hapart,hbusy⟩ := h.apart
  have ha := hwf.allocPage
  exact ⟨hapart,ha.mem_self,fun hf => hbusy _ hf ha.was,
    fun n _ f hf hlive => hbusy _ hlive (.inr (Nat.le_add_right ..))⟩

/-- A page and a block of two; the page is freed and handed out again. -/
theorem frame_allocator_safe_boot :
    let σ := (bootVm.allocPage.2.allocPagesContig 2).2.freePage bootVm.allocPage.1
    σ.allocPage.1 = bootVm.allocPage.1 ∧
      ¬Live.Has ({σ.allocPage.1}::[Ico 1025 1027,{1024}].map (·.erase 1024))
        σ.allocPage.2.allocPage.1 := by
  have hinit : Reaches bootVm [] := .init rfl (by decide)
  have hblock := hinit.alloc.contig (n := 2) (by decide)
  have hfree := hblock.free (f := 1024) ⟨{1024},by decide,by decide⟩
  exact ⟨by decide,(frame_allocator_safe hfree.alloc).2.2.1⟩

end Gooos.Mem
