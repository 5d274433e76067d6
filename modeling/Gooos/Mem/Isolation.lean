import Gooos.Mem.LoadedImage

/-!
# What a file can reach through the loader

`elfParse` does not look at the addresses of a header. Headers whose pages are in the user
window and whose file bytes fall on mapped pages leave the kernel alone; others make the walk
take a huge page of the identity map for a page table, map a page somewhere else, or write to
frame 0. The walks ignore bits 48 to 63 of an address.
-/

namespace Gooos.Mem

open Radix

def inWindow (v : ℕ) : Prop := userAddrMin ≤ v ∧ v < userAddrMax

instance : DecidablePred inWindow := fun v =>
  inferInstanceAs (Decidable (userAddrMin ≤ v ∧ v < userAddrMax))

/-- The loop over a segment in `phdrs` visits the page that a walk finds for `v`. -/
def Covered (phdrs : List Elf64Phdr) (v : ℕ) : Prop :=
  ∃ ph ∈ phdrs, ∃ a ∈ ph.visited, vpath v = vpath a

instance (phdrs : List Elf64Phdr) (v : ℕ) : Decidable (Covered phdrs v) :=
  inferInstanceAs (Decidable (∃ ph ∈ phdrs, ∃ a ∈ ph.visited, vpath v = vpath a))

/-- After the segments `done`: the next ones map pages of the window, and copy to pages that
are mapped by then. -/
def Confined (done : List Elf64Phdr) : List Elf64Phdr → Prop
  | [] => True
  | ph::phs => (∀ a ∈ ph.visited, inWindow (a%2^48)) ∧
      (∀ j < ph.filesz, Covered (done++[ph]) ((ph.vaddr+j)%2^64)) ∧ Confined (done++[ph]) phs

/-- The kernel's entries of a PDP are closed to Ring 3. -/
structure KernelEntries (k : Boot) (σ : Vm) : Prop where
  busy : ¬σ.Free k.bootKernelPDP
  user0 : user k.pml4SharedKernelPDP0 = false
  user3 : user (σ.mem k.bootKernelPDP 3) = false

/-- Only frames taken for the child have changed, its PDP has the kernel's entries, and
Ring 3 reaches nothing outside the window. -/
structure Isolated (k : Boot) (σ : Vm) (child : Process) (σ' : Vm) : Prop where
  frames : ∀ f, σ'.mem f ≠ σ.mem f → σ.Free f ∧ ¬σ'.Free f
  entry0 : σ'.mem (frameOf (σ'.mem child.pml4 0)) 0 = k.pml4SharedKernelPDP0
  entry3 : present (σ'.mem (frameOf (σ'.mem child.pml4 0)) 3) = true →
    σ'.mem (frameOf (σ'.mem child.pml4 0)) 3 = σ.mem k.bootKernelPDP 3
  window : ∀ v l, σ'.translate child.pml4 v = some l → l.user = true → inWindow v

/-! ### Paths of the window -/

variable {a v : ℕ} {done phs : List Elf64Phdr} {ph : Elf64Phdr} {data : List UInt8} {σ : Vm}

theorem vpath_of_inWindow (h : inWindow v) : vpath v = [0,1,Vm.pdIdx v,Vm.ptIdx v] := by
  have h4 : Vm.pml4Idx v = 0 := by
    simp only [inWindow,userAddrMin,userAddrMax,Vm.pml4Idx] at *
    omega
  have h3 : Vm.pdpIdx v = 1 := by
    simp only [inWindow,userAddrMin,userAddrMax,Vm.pdpIdx] at *
    omega
  rw [vpath,h4,h3]

theorem userPage_of_inWindow (h : inWindow v) : userPage v = true := by
  rw [userPage_iff,vpath_of_inWindow h]
  refine ⟨.inl ?_,rfl⟩
  have := h.2
  simp only [userAddrMax] at this
  omega

/-- The walks see 48 bits of an address. -/
theorem vpath_mod (v : ℕ) : vpath (v%2^48) = vpath v := by
  simp only [vpath,Vm.pml4Idx,Vm.pdpIdx,Vm.pdIdx,Vm.ptIdx,List.cons.injEq,and_true]
  omega

theorem vpath_of_inWindow_mod (h : inWindow (v%2^48)) :
    vpath v = [0,1,Vm.pdIdx (v%2^48),Vm.ptIdx (v%2^48)] :=
  (vpath_mod v).symm.trans (vpath_of_inWindow h)

theorem inWindow_of_vpath (hv : canonical v = true) (ha : inWindow (a%2^48))
    (h : vpath v = vpath a) : inWindow v := by
  have hcanon : canonical (a%2^48) = true := by
    have := ha.2
    rw [canonical_iff]
    simp only [userAddrMax] at this
    omega
  have hdiv := div_eq_of_vpath hv hcanon (h.trans (vpath_mod a).symm)
  simp only [inWindow,userAddrMin,userAddrMax,pageSize] at *
  omega

/-- The address through which the processor sees a page. -/
theorem exists_canonical (a : ℕ) : ∃ v, canonical v = true ∧ vpath v = vpath a ∧
    (inWindow v → inWindow (a%2^48)) := by
  obtain hlow | hhigh := lt_or_ge (a%2^48) (2^47)
  · exact ⟨a%2^48,canonical_iff.mpr (.inl hlow),vpath_mod a,id⟩
  · refine ⟨a%2^48+(2^64-2^48),canonical_iff.mpr (.inr (by omega)),?_,fun h => ?_⟩
    · rw [← vpath_mod (_+_),← vpath_mod a]
      refine congrArg vpath ?_
      omega
    · have := h.2
      simp only [userAddrMax] at this
      omega

theorem inWindow_of_fixedPage (h : fixedPage a) : inWindow a := by
  obtain rfl | ⟨i,hi,rfl⟩ := h
  · decide
  · decide +revert

theorem inWindow_mod_of_fixedPage (h : fixedPage a) : inWindow (a%2^48) := by
  have hin := inWindow_of_fixedPage h
  have hlt := hin.2
  simp only [userAddrMax] at hlt
  rwa [Nat.mod_eq_of_lt (by omega)]

/-! ### Confined headers -/

theorem Confined.visited (h : Confined done phs)
    (hph : ph ∈ phs) (ha : a ∈ ph.visited) : inWindow (a%2^48) := by
  induction phs generalizing done with
  | nil => cases hph
  | cons q phs ih =>
    obtain rfl | hph := List.mem_cons.mp hph
    · exact h.1 a ha
    · exact ih h.2.2 hph

/-- File bytes of confined headers are on pages of the window. -/
theorem Confined.bytes (h : Confined done phs)
    (hdone : ∀ q ∈ done, ∀ a ∈ q.visited, inWindow (a%2^48)) (hph : ph ∈ phs) {j : ℕ}
    (hj : j < ph.filesz) : ∃ a, inWindow (a%2^48) ∧ vpath ((ph.vaddr+j)%2^64) = vpath a := by
  induction phs generalizing done with
  | nil => cases hph
  | cons q phs ih =>
    have hnext : ∀ r ∈ done++[q], ∀ a ∈ r.visited, inWindow (a%2^48) := by
      intro r hr
      obtain hr | hr := List.mem_append.mp hr
      · exact hdone r hr
      · rw [List.mem_singleton.mp hr]
        exact h.1
    obtain rfl | hph := List.mem_cons.mp hph
    · obtain ⟨r,hr,a,ha,hpath⟩ := h.2.1 j hj
      exact ⟨a,hnext r hr a ha,hpath⟩
    · exact ih h.2.2 hnext hph

theorem Confined.offKernel (h : Confined [] phs) (hph : ph ∈ phs) : OffKernel ph where
  visited a ha := by
    rw [vpath_of_inWindow_mod (h.visited hph ha)]
    rfl
  bytes j hj := by
    obtain ⟨a,ha,hpath⟩ := h.bytes (fun _ hq => by cases hq) hph hj
    rw [hpath,vpath_of_inWindow_mod ha]
    rfl

theorem covered_concat : Covered (done++[ph]) v ↔
    Covered done v ∨ ∃ a ∈ ph.visited, vpath v = vpath a := by
  simp only [Covered,List.mem_append,List.mem_singleton,or_and_right,exists_or,exists_eq_left]

/-- Where a segment has been loaded, every address of its pages is mapped. -/
theorem isSome_loadSegment {I : Image} (hI : I.Uniform)
    (hdone : ∀ v, Covered done v → (I v).isSome) (ph : Elf64Phdr)
    (hv : Covered (done++[ph]) v) : (I.fill ph.visited v).isSome ∧
      (Image.loadSegment data I ph v).isSome := by
  have hfill : (I.fill ph.visited v).isSome := by
    by_cases hsome : (I v).isSome
    · rwa [hI.fill_of_isSome hsome]
    · obtain hv | ⟨a,ha,hpath⟩ := covered_concat.mp hv
      · exact absurd (hdone v hv) hsome
      · rw [hI.fill_of_mem ha hpath (Option.not_isSome_iff_eq_none.mp hsome)]
        rfl
  refine ⟨hfill,?_⟩
  rw [Image.loadSegment,Image.copy_isSome]
  exact hfill

theorem Confined.covers (h : Confined done phs)
    {I : Image} (hI : I.Uniform) (hdone : ∀ v, Covered done v → (I v).isSome) :
    Image.Covers data phs I := by
  induction phs generalizing done I with
  | nil => trivial
  | cons ph phs ih =>
    have hph (v : ℕ) (hv : Covered (done++[ph]) v) :
        (I.fill ph.visited v).isSome ∧ (Image.loadSegment data I ph v).isSome :=
      isSome_loadSegment hI hdone ph hv
    refine ⟨fun j hj => (hph _ (h.2.1 j hj)).1,?_⟩
    exact ih h.2.2 ((hI.fill _).copy ph data _ _) fun v hv => (hph v hv).2

/-! ### Visited pages stay mapped -/

theorem isSome_loadSegments {I : Image} (hI : I.Uniform)
    (hdone : ∀ v, Covered done v → (I v).isSome) (hv : Covered (done++phs) v) :
    (Image.loadSegments data phs I v).isSome := by
  induction phs generalizing done I with
  | nil =>
    rw [List.append_nil] at hv
    exact hdone v hv
  | cons ph phs ih =>
    rw [List.append_cons] at hv
    exact ih ((hI.fill _).copy ph data _ _)
      (fun w hw => (isSome_loadSegment hI hdone ph hw).2) hv

theorem isSome_blankPage {I : Image} (h : (I v).isSome) (a : ℕ) : (I.blankPage a v).isSome := by
  rw [Image.blankPage]
  split
  · rfl
  · exact h

theorem isSome_putBytes {I : Image} (bs : List UInt8) (h : (I v).isSome) (a : ℕ) :
    (Image.putBytes a bs I v).isSome := by
  induction bs generalizing a I with
  | nil => exact h
  | cons b bs ih => exact ih (by rwa [Image.store_isSome]) (a+1)

theorem isSome_mapStack {I : Image} (h : (I v).isSome) : (I.mapStack v).isSome :=
  List.foldlRecOn (List.range 4) _ (motive := fun I : Image => (I v).isSome) h
    fun _ hI _ _ => isSome_blankPage hI _

theorem isSome_spawn (args : List UInt8) (hv : Covered phs v) :
    (Image.spawn data args phs v).isSome := by
  have hload : (Image.loadSegments data phs noImage v).isSome := by
    have hnone (w : ℕ) (hw : Covered [] w) : (noImage w).isSome := by
      obtain ⟨_,hq,-⟩ := hw
      cases hq
    exact isSome_loadSegments (fun _ _ _ => rfl) hnone hv
  exact isSome_mapStack (isSome_putBytes _ (isSome_blankPage hload _) _)

/-! ### Isolation -/

/-- A page is open to Ring 3 only if its PDP entry is. -/
theorem pdp_of_translate {root v : ℕ} {l : Leaf} (h : σ.translate root v = some l)
    (hu : l.user = true) :
    present (σ.mem (frameOf (σ.mem root (Vm.pml4Idx v))) (Vm.pdpIdx v)) = true ∧
      user (σ.mem (frameOf (σ.mem root (Vm.pml4Idx v))) (Vm.pdpIdx v)) = true := by
  rw [Vm.translate] at h
  split at h
  · cases h
  rename_i hcond
  simp only [Bool.or_eq_true,Bool.not_eq_true',not_or,Bool.not_eq_false] at hcond
  refine ⟨hcond.2,?_⟩
  split at h
  · cases h
    simp only [Bool.and_eq_true] at hu
    exact hu.2
  split at h
  · cases h
  split at h
  · cases h
    simp only [Bool.and_eq_true] at hu
    exact hu.1.2
  split at h
  · cases h
  · cases h
    simp only [Bool.and_eq_true] at hu
    exact hu.1.1.2

theorem canonical_of_translate {root v : ℕ} {l : Leaf} (h : σ.translate root v = some l) :
    canonical v = true := by
  by_contra hc
  simp [Vm.translate,hc] at h

theorem sharedPath_vpath (h : sharedPath (vpath v) = true) :
    Vm.pml4Idx v = 0 ∧ (Vm.pdpIdx v = 0 ∨ Vm.pdpIdx v = 3) := by
  rw [vpath] at h
  unfold sharedPath at h
  split at h
  · rename_i heq
    simp only [List.cons.injEq] at heq
    exact ⟨heq.1,.inl heq.2.1⟩
  · rename_i heq
    simp only [List.cons.injEq] at heq
    exact ⟨heq.1,.inr heq.2.1⟩
  · cases h

/-- Loading confined headers touches nothing of the kernel. -/
theorem Confined.isolated {k : Boot} {σ σ' : Vm} {data args : List UInt8} {entry : ℕ}
    {phdrs : List Elf64Phdr} {child : Process} (hconf : Confined [] phdrs) (hwf : σ.Wf)
    (hk : KernelEntries k σ) (hparse : elfParse data = .ok (some (entry,phdrs)))
    (hok : elfSpawn k (some data) args σ = .ok (some child,σ')) : Isolated k σ child σ' := by
  obtain ⟨σ₁,proc,T,hspawn⟩ := elfSpawn_spec True (fun a => inWindow (a%2^48)) hwf hparse
    (fun ph hph => ⟨hconf.offKernel hph,fun a ha => hconf.visited hph ha⟩)
    (fun a ha => inWindow_mod_of_fixedPage ha)
    (fun _ => hconf.covers (fun _ _ _ => rfl) fun v hv => by
      obtain ⟨_,hq,-⟩ := hv
      cases hq) hok
  generalize σ.allocPage.2.allocPage.1 = pdp at hspawn
  have hnew := hspawn.newborn
  have hload := hspawn.loaded
  have htouches := hnew.grows.touches.trans hload.touches
  have hpdp : T [0] = some pdp :=
    hload.touches.tables [0] pdp (Function.update_self ..) (by decide)
  have hlink := hload.space.holds.linked [] 0 _ pdp hload.space.root hpdp
  -- the kernel's entries are as `newProcPML4` has left them
  have hentry (i : ℕ) (hi : sharedPath [0,i] = true) : σ'.mem pdp i = σ₁.mem pdp i :=
    hload.touches.shared [0] pdp i (Function.update_self ..) (by decide) hi
  refine ⟨?_,?_,?_,?_⟩
  · intro f hf
    by_contra hnot
    refine hf ?_
    by_cases hfree : σ.Free f
    · exact htouches.idle f (by_contra fun h => hnot ⟨hfree,h⟩)
    · exact htouches.kept f hfree (fun _ => trivial) fun _ hp => (by cases hp)
  · rw [hlink.frameOf,hentry 0 rfl,hnew.shared0]
  · rw [hlink.frameOf,hentry 3 rfl]
    exact hnew.shared3 hk.busy
  · intro v l hl hu
    have hc := canonical_of_translate hl
    cases hs : sharedPath (vpath v) with
    | true =>
      obtain ⟨h4,h3⟩ := sharedPath_vpath hs
      obtain ⟨hpresent,huser⟩ := pdp_of_translate hl hu
      rw [h4,hlink.frameOf] at hpresent huser
      obtain h3 | h3 := h3
      · rw [h3,hentry 0 rfl,hnew.shared0,hk.user0] at huser
        cases huser
      · rw [h3,hentry 3 rfl] at hpresent huser
        rw [hnew.shared3 hk.busy hpresent,hk.user3] at huser
        cases huser
    | false =>
      rw [hload.space.translate hs hc] at hl
      cases hf : T (vpath v) with
      | none =>
        rw [hf] at hl
        cases hl
      | some f =>
        obtain hroot | ⟨a,ha,hpre⟩ := hload.nodes (vpath v) (by simp [hf])
        · exact absurd (rootTree_leaf _ _ _ rfl) hroot
        · exact inWindow_of_vpath hc ha (hpre.eq_of_length rfl)

/-- Off the kernel's entries an isolated child has only pages of the window. -/
theorem Isolated.inWindow {k : Boot} {σ σ' : Vm} {data args : List UInt8} {entry : ℕ}
    {phdrs : List Elf64Phdr} {child : Process} (h : Isolated k σ child σ') (hwf : σ.Wf)
    (hparse : elfParse data = .ok (some (entry,phdrs))) (hoff : ∀ ph ∈ phdrs, OffKernel ph)
    (hok : elfSpawn k (some data) args σ = .ok (some child,σ')) (hph : ph ∈ phdrs)
    (ha : a ∈ ph.visited) : inWindow (a%2^48) := by
  obtain ⟨σ₁,proc,T,hspawn⟩ := elfSpawn_spec False (fun _ => True) hwf hparse
    (fun ph hph => ⟨hoff ph hph,fun _ _ => trivial⟩) (fun _ _ => trivial) (fun hz => hz.elim) hok
  obtain ⟨v,hc,hpath,hin⟩ := exists_canonical a
  have hsome : (image σ' T v).isSome := by
    have himage : image σ' T = Image.spawn data args phdrs := hspawn.loaded.image
    rw [himage]
    exact isSome_spawn args ⟨ph,hph,a,ha,hpath⟩
  rw [image_isSome] at hsome
  obtain ⟨f,hf⟩ := Option.isSome_iff_exists.mp hsome
  have hs : sharedPath (vpath v) = false := by
    rw [hpath]
    exact (hoff ph hph).visited a ha
  have hleaf := hspawn.loaded.space.translate hs hc
  rw [hf] at hleaf
  exact hin (h.window v _ hleaf rfl)

/-- Without a child nothing has changed. A child of confined headers is isolated, and one of
headers off the kernel's entries only if its pages are in the window. -/
theorem isolated_of_confined {k : Boot} {σ σ' : Vm} {data args : List UInt8} {r : Option Process}
    (hwf : σ.Wf) (hk : KernelEntries k σ)
    (hok : elfSpawn k (some data) args σ = .ok (r,σ')) :
    (r = none → σ' = σ) ∧ ∀ child entry phdrs, r = some child →
      elfParse data = .ok (some (entry,phdrs)) →
      (Confined [] phdrs → Isolated k σ child σ') ∧
      (Isolated k σ child σ' → (∀ ph ∈ phdrs, OffKernel ph) →
        ∀ ph ∈ phdrs, ∀ a ∈ ph.visited, inWindow (a%2^48)) := by
  constructor
  · rintro rfl
    obtain ⟨parsed,-,hok⟩ := Res.bind_eq_ok.mp hok
    cases parsed with
    | none =>
      cases hok
      rfl
    | some parsed =>
      obtain ⟨s,-,hok⟩ := Res.bind_eq_ok.mp hok
      cases hok
  · rintro child entry phdrs rfl hparse
    exact ⟨fun hconf => hconf.isolated hwf hk hparse hok,
      fun h hoff ph hph a ha => h.inWindow hwf hparse hoff hok hph ha⟩

theorem tinyFile_confined : Confined [] [loadPhdr 120 0x40100000 1 1] :=
  ⟨by decide +kernel,by decide +kernel,trivial⟩

theorem isolated_of_confined_tiny : ∃ child σ',
    elfSpawn bootKernel (some tinyFile) [] bootVm = .ok (some child,σ') ∧
      Isolated bootKernel bootVm child σ' := by
  obtain ⟨child,σ',hok,-⟩ := tinyFile_spawns
  have hk : KernelEntries bootKernel bootVm := ⟨by decide,by decide +kernel,by decide +kernel⟩
  exact ⟨child,σ',hok,((isolated_of_confined bootVm_wf hk hok).2 child _ _ rfl tinyFile_parse).1
    tinyFile_confined⟩

-- A header whose end wraps around to below its start has no page mapped.
example : Confined [] [{ loadPhdr 120 0x40100000 0 0 with memsz := 2^64-0x100000 }] :=
  ⟨by decide +kernel,by decide +kernel,trivial⟩

/-- A segment without file bytes over the second 2 MiB of the identity map. -/
def fileOverKernel : List UInt8 := elfFile 0x40100000 [loadPhdr 120 0x200000 0 1] []

/-- The kernel's 2 MiB from `0x200000` on are open to the child. -/
theorem kernel_page_opened : ∃ child σ',
    elfSpawn bootKernel (some fileOverKernel) [] bootVm = .ok (some child,σ') ∧
      ¬bootVm.Free 3 ∧ bootVm.mem 3 1 = entryOf 512 0x83 ∧ σ'.mem 3 1 = entryOf 512 0x87 ∧
      σ'.translate child.pml4 0x200000 = some ⟨512,true,true⟩ ∧
      ¬Isolated bootKernel bootVm child σ' := by
  obtain ⟨child,σ',hok⟩ := exists_of_spawned
    (r := elfSpawn bootKernel (some fileOverKernel) [] bootVm) (by decide +kernel)
  have hrun : (spawned (elfSpawn bootKernel (some fileOverKernel) [] bootVm)).map
      (fun r => (r.2.mem 3 1,r.2.translate r.1.pml4 0x200000)) =
        some (entryOf 512 0x87,some ⟨512,true,true⟩) := by
    decide +kernel
  rw [hok] at hrun
  obtain ⟨hcell,hopen⟩ := Prod.mk.injEq .. ▸ Option.some_inj.mp hrun
  refine ⟨child,σ',hok,by decide,by decide +kernel,hcell,hopen,fun h => ?_⟩
  exact absurd (h.window _ _ hopen rfl) (by decide)

end Gooos.Mem
