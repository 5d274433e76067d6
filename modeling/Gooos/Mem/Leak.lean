import Gooos.Mem.Isolation

/-!
# Frames over a process's lifetime

`processExit` frees the recorded pages and then what hangs below entries 1 to 511 of the
PML4. Entry 0, with the PDP that `newProcPML4` took and all tables of the user window, is passed
over, so that no lifetime gives back all it has taken.
-/

namespace Gooos.Mem

open Radix Function

/-- Neither on the free stack nor beyond the bump pointer. -/
def Vm.InUse (σ : Vm) (f : ℕ) : Prop := f < σ.nextFreePage ∧ f ∉ σ.freeStack

/-- The same frames are in use. -/
def Conserved (σ σ' : Vm) : Prop := ∀ f, σ'.InUse f ↔ σ.InUse f

/-- The segment lies in the user window. -/
def Elf64Phdr.InWindow (ph : Elf64Phdr) : Prop :=
  userAddrMin ≤ ph.vaddr ∧ ph.vaddr+max ph.memsz ph.filesz ≤ userAddrMax

/-- A sequence of `sys_sbrk` calls. -/
def sbrks (k : Boot) : List ℕ → Vm × Process → Res (Vm × Process)
  | [], s => .ok s
  | increment::increments, s => do
    let r ← sysSbrk k increment s
    sbrks k increments r.2

theorem Vm.inUse_iff (σ : Vm) (f : ℕ) : σ.InUse f ↔ ¬σ.Free f := by
  rw [Vm.InUse,Vm.Free,not_or,Nat.not_le,and_comm]

/-! ### Segments of the window -/

theorem Elf64Phdr.InWindow.pages {ph : Elf64Phdr} (h : ph.InWindow) {a : ℕ} (ha : a ∈ ph.pages) :
    inWindow a := by
  obtain ⟨hlo,hhi⟩ := h
  obtain ⟨hle,hlt,-⟩ := mem_pages.mp ha
  simp only [inWindow,pageAlign,pageSize,userAddrMin,userAddrMax] at *
  omega

theorem Elf64Phdr.InWindow.userSegment {ph : Elf64Phdr} (h : ph.InWindow) : UserSegment ph where
  pages _ ha := userPage_of_inWindow (h.pages ha)
  bytes j hj := by
    obtain ⟨hlo,hhi⟩ := h
    have hin : inWindow ((ph.vaddr+j)%2^64) := by
      simp only [inWindow,userAddrMin,userAddrMax] at *
      omega
    rw [vpath_of_inWindow hin]
    rfl

/-! ### Frames that lead nowhere else -/

/-- The frames in `S`, and the PML4 but for its entry 0, lead to frames in `S` only; the PDP is
not one of them and in use. -/
structure Sealed (S : ℕ → Prop) (pml4 pdp : ℕ) (σ : Vm) : Prop where
  links : ∀ f i, S f ∨ f = pml4 ∧ i ≠ 0 → present (σ.mem f i) = true → S (frameOf (σ.mem f i))
  apart : ¬S pdp
  kept : ¬σ.Free pdp

section Freeing

variable {S : ℕ → Prop} {pml4 pdp : ℕ} {σ : Vm}

theorem Sealed.clear (h : Sealed S pml4 pdp σ) (f : ℕ) : Sealed S pml4 pdp (σ.clear f) := by
  refine ⟨fun g i hg hp => ?_,h.apart,h.kept⟩
  by_cases hgf : g = f
  · subst hgf
    have hcell : (σ.clear g).mem g i = 0 := congrFun (update_self g _ σ.mem) i
    rw [hcell] at hp
    cases hp
  · have hmem : (σ.clear f).mem g = σ.mem g := update_of_ne hgf ..
    rw [hmem] at hp ⊢
    exact h.links g i hg hp

theorem Sealed.freePage (h : Sealed S pml4 pdp σ) {f : ℕ} (hf : f ≠ pdp) :
    Sealed S pml4 pdp (σ.freePage f) := by
  have hclear := h.clear f
  rw [Vm.freePage]
  split
  · exact h
  split
  · refine ⟨hclear.links,h.apart,?_⟩
    rintro (hmem | hle)
    · obtain rfl | hmem := List.mem_cons.mp hmem
      · exact hf rfl
      · exact h.kept (.inl hmem)
    · exact h.kept (.inr hle)
  · exact hclear

/-- Freeing a table: the frames it leads to, then itself. -/
theorem Sealed.freeTable {below : Vm → ℕ → Vm}
    (hbelow : ∀ σ g, S g → Sealed S pml4 pdp σ → Sealed S pml4 pdp (below σ g))
    {indices : List ℕ} {table : ℕ} (htable : table ≠ pdp)
    (hind : ∀ i ∈ indices, S table ∨ table = pml4 ∧ i ≠ 0) (h : Sealed S pml4 pdp σ) :
    Sealed S pml4 pdp (Vm.freeTable below indices σ table) := by
  refine Sealed.freePage ?_ htable
  induction indices generalizing σ with
  | nil => exact h
  | cons i indices ih =>
    refine ih (fun j hj => hind j (List.mem_cons_of_mem _ hj)) ?_
    dsimp only
    split
    · rename_i hp
      exact hbelow _ _ (h.links _ _ (hind i (List.mem_cons_self ..)) hp) h
    · exact h

theorem Sealed.freeProcPML4 (h : Sealed S pml4 pdp σ) (hne : pml4 ≠ pdp) :
    Sealed S pml4 pdp (σ.freeProcPML4 pml4) := by
  have hS {g : ℕ} (hg : S g) : g ≠ pdp := fun heq => h.apart (heq ▸ hg)
  rw [Vm.freeProcPML4]
  split
  · exact h
  -- from the tables at the bottom up
  · have hPD (σ : Vm) (g : ℕ) (hg : S g) (h : Sealed S pml4 pdp σ) :
        Sealed S pml4 pdp (σ.freePD g) :=
      Sealed.freeTable (S := S) (fun _ g hg h => h.freePage (hS hg)) (hS hg) (fun _ _ => .inl hg) h
    have hPDP (σ : Vm) (g : ℕ) (hg : S g) (h : Sealed S pml4 pdp σ) :
        Sealed S pml4 pdp (σ.freePDP g) :=
      h.freeTable hPD (hS hg) fun _ _ => .inl hg
    refine h.freeTable hPDP hne fun i hi => .inr ⟨rfl,?_⟩
    have := (List.mem_range'_1.mp hi).1
    omega

theorem Sealed.freePages (h : Sealed S pml4 pdp σ) {ups : List (ℕ × ℕ)}
    (hups : ∀ page ∈ ups, page.2 ≠ pdp) :
    Sealed S pml4 pdp (ups.foldl (fun σ page => σ.freePage page.2) σ) := by
  induction ups generalizing σ with
  | nil => exact h
  | cons page ups ih =>
    exact ih (h.freePage (hups page (List.mem_cons_self ..)))
      fun p hp => hups p (List.mem_cons_of_mem _ hp)

end Freeing

/-! ### Growing the heap through any tables -/

/-- Since `base` only frames that were free have been linked to, by the PML4's other entries
or by each other. -/
structure Grown (base : Vm) (pml4 pdp : ℕ) (σ : Vm) : Prop where
  wf : σ.Wf
  free : ∀ f, σ.Free f → base.Free f
  sealed : Sealed (fun f => base.Free f ∧ ¬σ.Free f) pml4 pdp σ

section Growing

variable {base σ σ' : Vm} {pml4 pdp g : ℕ}

theorem Grown.alloc (h : Grown base pml4 pdp σ) (ha : Allocs σ g σ') :
    Grown base pml4 pdp σ' where
  wf := ha.wf
  free f hf := h.free f ((ha.free f).mp hf).1
  sealed := by
    have hkept {f : ℕ} (hf : ¬σ.Free f) : ¬σ'.Free f := fun hf' => hf ((ha.free f).mp hf').1
    refine ⟨fun f i hf hp => ?_,fun hpdp => h.sealed.apart ⟨hpdp.1,h.sealed.kept⟩,
      hkept h.sealed.kept⟩
    by_cases hfg : f = g
    · subst hfg
      rw [ha.mem_self] at hp
      cases hp
    · rw [ha.mem_of_ne hfg] at hp ⊢
      have hold : (base.Free f ∧ ¬σ.Free f) ∨ f = pml4 ∧ i ≠ 0 := by
        obtain ⟨hb,hf⟩ | hf := hf
        · exact .inl ⟨hb,fun hfree => hf ((ha.free f).mpr ⟨hfree,hfg⟩)⟩
        · exact .inr hf
      obtain ⟨hb,hf⟩ := h.sealed.links f i hold hp
      exact ⟨hb,hkept hf⟩

/-- An entry may be written anywhere if it leads to a frame that was free. -/
theorem Grown.setCell (h : Grown base pml4 pdp σ) {t i e : ℕ}
    (he : frameOf e = frameOf (σ.mem t i) ∧ present e = present (σ.mem t i) ∨
      base.Free (frameOf e) ∧ ¬σ.Free (frameOf e)) : Grown base pml4 pdp (σ.setCell t i e) where
  wf := h.wf.setCell
  free := h.free
  sealed := by
    refine ⟨fun f j hf hp => ?_,h.sealed.apart,h.sealed.kept⟩
    rw [Vm.setCell_mem] at hp ⊢
    by_cases hcell : f = t ∧ j = i
    · rw [if_pos hcell] at hp ⊢
      obtain ⟨rfl,rfl⟩ := hcell
      obtain ⟨hframe,hpresent⟩ | hfree := he
      · rw [hframe]
        exact h.sealed.links f j hf (hpresent ▸ hp)
      · exact hfree
    · rw [if_neg hcell] at hp ⊢
      exact h.sealed.links f j hf hp

theorem Grown.walkOrCreate (h : Grown base pml4 pdp σ) (t i : ℕ) :
    Grown base pml4 pdp (σ.walkOrCreate t i userFlags).2 := by
  rw [Vm.walkOrCreate]
  split
  · exact h.setCell (.inl ⟨frameOf_or_pageUser _,present_or_pageUser _⟩)
  · have ha := h.wf.allocPage
    refine (h.alloc ha).setCell (.inr ?_)
    have hframe : frameOf (entryOf σ.allocPage.1 userFlags) = σ.allocPage.1 :=
      frameOf_entryOf _ (by decide)
    change base.Free (frameOf (entryOf σ.allocPage.1 userFlags)) ∧
      ¬σ.allocPage.2.Free (frameOf (entryOf σ.allocPage.1 userFlags))
    rw [hframe]
    exact ⟨h.free _ ha.was,ha.busy⟩

theorem Grown.free_walkOrCreate (h : Grown base pml4 pdp σ) {t i f : ℕ}
    (hf : (σ.walkOrCreate t i userFlags).2.Free f) : σ.Free f := by
  rw [Vm.walkOrCreate] at hf
  split at hf
  · exact hf
  · exact ((h.wf.allocPage.free f).mp hf).1

theorem Grown.mapFresh {s : Vm × Process} (h : Grown base pml4 pdp s.1) (root v : ℕ) :
    Grown base pml4 pdp (mapFresh root v s).1 := by
  have ha := h.wf.allocPage
  have h0 := h.alloc ha
  rw [Mem.mapFresh]
  dsimp only [Vm.mapPageInto]
  have h1 := h0.walkOrCreate root (Vm.pml4Idx v)
  generalize hw1 : s.1.allocPage.2.walkOrCreate root (Vm.pml4Idx v) userFlags = w1 at h1
  have h2 := h1.walkOrCreate w1.1 (Vm.pdpIdx v)
  generalize hw2 : w1.2.walkOrCreate w1.1 (Vm.pdpIdx v) userFlags = w2 at h2
  have h3 := h2.walkOrCreate w2.1 (Vm.pdIdx v)
  refine h3.setCell (.inr ?_)
  have hframe : frameOf (entryOf s.1.allocPage.1 userFlags) = s.1.allocPage.1 :=
    frameOf_entryOf _ (by decide)
  rw [hframe]
  refine ⟨h.free _ ha.was,fun hf => ha.busy ?_⟩
  have hf2 := h2.free_walkOrCreate hf
  rw [← hw2] at hf2
  have hf1 := h1.free_walkOrCreate hf2
  rw [← hw1] at hf1
  exact h0.free_walkOrCreate hf1

end Growing

/-! ### A whole lifetime -/

/-- A process that has grown since `base` and has not recorded its PDP. -/
structure Living (base : Vm) (pml4 pdp : ℕ) (s : Vm × Process) : Prop where
  grown : Grown base pml4 pdp s.1
  pages : ∀ page ∈ s.2.userPages, page.2 ≠ pdp
  pml4 : s.2.pml4 = pml4

section Lifetime

variable {base : Vm} {pml4 pdp : ℕ} {s : Vm × Process} {k : Boot}

theorem processRecordPage_pml4 (proc : Process) (v g : ℕ) :
    (processRecordPage proc v g).pml4 = proc.pml4 := by
  rw [processRecordPage]
  split <;> rfl

theorem Living.mapFresh (h : Living base pml4 pdp s) (root v : ℕ) :
    Living base pml4 pdp (mapFresh root v s) where
  grown := h.grown.mapFresh root v
  pages page hpage := by
    obtain hpage | rfl := mem_processRecordPage hpage
    · exact h.pages page hpage
    · intro heq
      have hwas := h.grown.wf.allocPage.was
      exact h.grown.sealed.kept (heq ▸ hwas)
  pml4 := (processRecordPage_pml4 ..).trans h.pml4

theorem Living.sysSbrk (h : Living base pml4 pdp s) {increment : ℕ} {r : ℕ × Vm × Process}
    (hok : sysSbrk k increment s = .ok r) : Living base pml4 pdp r.2 := by
  rw [Mem.sysSbrk] at hok
  split at hok
  · cases hok
    exact h
  dsimp only at hok
  split at hok
  · cases hok
    exact h
  · obtain ⟨s',hloop,hok⟩ := Res.bind_eq_ok.mp hok
    have hs' : Living base pml4 pdp s' :=
      forPages_inv (fun a _ h => h.mapFresh (s.2.cr3 k) a) h hloop
    cases hok
    exact ⟨hs'.grown,hs'.pages,hs'.pml4⟩

theorem Living.sbrks (h : Living base pml4 pdp s) {increments : List ℕ} {s' : Vm × Process}
    (hok : sbrks k increments s = .ok s') : Living base pml4 pdp s' := by
  induction increments generalizing s with
  | nil =>
    cases hok
    exact h
  | cons increment increments ih =>
    obtain ⟨r,hr,hok⟩ := Res.bind_eq_ok.mp hok
    exact ih (h.sysSbrk hr) hok

/-- Exit frees the recorded pages, the PML4 and what was linked since: not the PDP. -/
theorem Living.processExit (h : Living base pml4 pdp s) (hne : pml4 ≠ pdp) (code : ℕ) :
    ¬(processExit k code s).1.Free pdp := by
  have hpages := h.grown.sealed.freePages h.pages
  rw [Mem.processExit]
  split
  · rw [h.pml4]
    exact (hpages.freeProcPML4 hne).kept
  · exact hpages.kept

end Lifetime

/-- The tables of the window hang below entry 0 of the PML4. -/
theorem Spawned.living {z : Prop} {k : Boot} {σ σ' σ₁ : Vm} {data args : List UInt8} {entry pdp : ℕ}
    {phdrs : List Elf64Phdr} {child proc : Process} {T : Tree ℕ ℕ}
    (h : Spawned z inWindow k σ data args entry phdrs child σ' pdp σ₁ proc T) :
    Living σ' child.pml4 pdp (σ',child) ∧ child.pml4 ≠ pdp ∧ σ.Free pdp := by
  have hload := h.loaded
  have hroot : rootTree child.pml4 pdp [0] = some pdp := update_self ..
  have hpdp : T [0] = some pdp := hload.touches.tables [0] pdp hroot (by decide)
  have hbusy := h.newborn.space.busy [0] pdp hroot
  have hpages : child.userPages = proc.userPages := by
    rw [h.child,setEntry,setHeap]
    split <;> rfl
  refine ⟨⟨⟨hload.space.wf,fun _ hf => hf,⟨?_,fun hS => hS.2 hS.1,(hload.space.busy _ _ hpdp).1⟩⟩,
    ?_,rfl⟩,?_,?_⟩
  · rintro f i (⟨hf,hnf⟩ | ⟨rfl,hi⟩) hp
    · exact absurd hf hnf
    · have hnone : T [i] = none := by
        by_contra hne
        obtain hold | ⟨a,ha,hpre⟩ := hload.nodes [i] hne
        · exact hold (rootTree_eq_none (by simp) (by simpa using hi))
        · rw [vpath_of_inWindow ha] at hpre
          exact hi (List.cons_prefix_cons.mp hpre).1
      rw [hload.space.holds.empty [] i _ hload.space.root hnone (by decide)
        (sharedPath_singleton i)] at hp
      cases hp
  · intro page hpage heq
    rw [hpages] at hpage
    obtain hold | hfree := hload.pages page hpage
    · cases hold
    · exact hbusy.1 (heq ▸ hfree)
  · intro heq
    have hroot := hload.space.root
    rw [heq] at hroot
    cases hload.space.holds.inj [] [0] pdp hroot hpdp
  · obtain hold | hfree := h.newborn.grows.fresh [0] pdp hroot
    · cases hold
    · exact hfree

theorem elfSpawn_window {k : Boot} {σ σ' : Vm} {data args : List UInt8} {entry : ℕ}
    {phdrs : List Elf64Phdr} {child : Process} (hwf : σ.Wf)
    (hparse : elfParse data = .ok (some (entry,phdrs))) (hwin : ∀ ph ∈ phdrs, ph.InWindow)
    (hok : elfSpawn k (some data) args σ = .ok (some child,σ')) :
    ∃ σ₁ proc T, Spawned False inWindow k σ data args entry phdrs child σ'
      σ.allocPage.2.allocPage.1 σ₁ proc T :=
  elfSpawn_spec False inWindow hwf hparse
    (fun ph hph => ⟨(hwin ph hph).userSegment.offKernel,
      fun _ ha => (hwin ph hph).pages (mem_pages_of_visited ha)⟩)
    (fun _ ha => inWindow_of_fixedPage ha) (fun hz => hz.elim) hok

theorem not_conserved {σ σ' : Vm} {f : ℕ} (hfree : σ.Free f) (hkept : ¬σ'.Free f) :
    ¬Conserved σ σ' := by
  intro hcons
  have hiff := hcons f
  rw [Vm.inUse_iff,Vm.inUse_iff] at hiff
  exact hiff.mp hkept hfree

/-- No lifetime of a process whose segments lie in the user window gives back the frames it
has taken. -/
theorem not_conserved_of_exit {k : Boot} {σ σ' : Vm} {data args : List UInt8} {entry : ℕ}
    {phdrs : List Elf64Phdr} {child : Process} {increments : List ℕ} {s : Vm × Process} (hwf : σ.Wf)
    (hparse : elfParse data = .ok (some (entry,phdrs))) (hwin : ∀ ph ∈ phdrs, ph.InWindow)
    (hok : elfSpawn k (some data) args σ = .ok (some child,σ'))
    (hsbrk : sbrks k increments (σ',child) = .ok s) (code : ℕ) :
    ¬Conserved σ (processExit k code s).1 := by
  obtain ⟨σ₁,proc,T,hspawn⟩ := elfSpawn_window hwf hparse hwin hok
  obtain ⟨hliving,hne,hfree⟩ := hspawn.living
  exact not_conserved hfree ((hliving.sbrks hsbrk).processExit hne code)

theorem tinyFile_inWindow : ∀ ph ∈ [loadPhdr 120 0x40100000 1 1], ph.InWindow := by
  intro ph hph
  rw [List.mem_singleton.mp hph]
  exact ⟨by decide,by decide⟩

theorem not_conserved_of_exit_tiny : ∃ child σ' s,
    elfSpawn bootKernel (some tinyFile) [] bootVm = .ok (some child,σ') ∧
      sbrks bootKernel [4096] (σ',child) = .ok s ∧
      ¬Conserved bootVm (processExit bootKernel 0 s).1 := by
  obtain ⟨child,σ',hok,-⟩ := tinyFile_spawns
  have hgrow : (spawned (elfSpawn bootKernel (some tinyFile) [] bootVm)).map (fun r =>
      (sbrks bootKernel [4096] (r.2,r.1)).isOk) = some true := by
    decide +kernel
  simp only [hok,spawned,Option.map_some,Option.some_inj] at hgrow
  obtain ⟨s,hs⟩ := Res.exists_of_isOk hgrow
  exact ⟨child,σ',s,hok,hs,
    not_conserved_of_exit bootVm_wf tinyFile_parse tinyFile_inWindow hok hs 0⟩

/-- Spawn and exit without a system call: the second frame taken, the PDP, stays in use. -/
theorem pdp_stays_in_use : ∃ child σ',
    elfSpawn bootKernel (some tinyFile) [] bootVm = .ok (some child,σ') ∧ bootVm.Free 1025 ∧
      ¬(processExit bootKernel 0 (σ',child)).1.Free 1025 ∧
      ¬Conserved bootVm (processExit bootKernel 0 (σ',child)).1 := by
  obtain ⟨child,σ',hok,-⟩ := tinyFile_spawns
  obtain ⟨σ₁,proc,T,hspawn⟩ := elfSpawn_window bootVm_wf tinyFile_parse tinyFile_inWindow hok
  obtain ⟨hliving,hne,hwas⟩ := hspawn.living
  have hkept := hliving.processExit (k := bootKernel) hne 0
  exact ⟨child,σ',hok,hwas,hkept,not_conserved hwas hkept⟩

end Gooos.Mem
