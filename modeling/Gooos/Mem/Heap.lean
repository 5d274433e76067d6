import Gooos.Lib.Trace
import Gooos.Mem.LoadedImage

/-!
# Growing the heap

`sysSbrkHandler` takes any 64-bit increment. It keeps the heap in its bounds and off the pages
that are mapped already as long as the break stays above where it was at first, pages are mapped
above the highest break there has been, and none of them holds something else.
-/

namespace Gooos.Mem

open Radix
open Trace (exec)

/-- The pages that a new process has. The boot shell has no argument page. -/
def loadedPage (pml4 : ℕ) (phdrs : List Elf64Phdr) (a : ℕ) : Prop :=
  OnSegment phdrs a ∨ (∃ i < 4, a = userStackBase+i*pageSize) ∨ pml4 ≠ 0 ∧ a = argPageVaddr

instance (pml4 : ℕ) (phdrs : List Elf64Phdr) : DecidablePred (loadedPage pml4 phdrs) := fun a =>
  inferInstanceAs (Decidable (OnSegment phdrs a ∨ (∃ i < 4, a = userStackBase+i*pageSize) ∨
    pml4 ≠ 0 ∧ a = argPageVaddr))

/-- A process that grows its heap, with its first and its highest break so far. `stuck` says that
a call has not returned. -/
structure Growing where
  vm : Vm
  proc : Process
  first : ℕ
  top : ℕ
  stuck : Bool

/-- A call as seen from outside. -/
structure SbrkCall where
  before : Vm × Process
  increment : ℕ
  result : Res (ℕ × Vm × Process)

namespace Growing

def start (σ : Vm) (proc : Process) : Growing where
  vm := σ
  proc := proc
  first := proc.heapBreak
  top := proc.heapBreak
  stuck := false

def newBreak (g : Growing) (increment : ℕ) : ℕ := (g.proc.heapBreak+increment)%2^64

def step (k : Boot) (g : Growing) (increment : ℕ) : Growing × List SbrkCall :=
  if g.stuck then
    (g,[])
  else match sysSbrk k increment (g.vm,g.proc) with
    | .ok r => ({ g with vm := r.2.1, proc := r.2.2, top := max g.top r.2.2.heapBreak },
        [⟨(g.vm,g.proc),increment,.ok r⟩])
    | r => ({ g with stuck := true },[⟨(g.vm,g.proc),increment,r⟩])

theorem step_eq {k : Boot} {g : Growing} {increment : ℕ} {r : ℕ × Vm × Process}
    (hlive : g.stuck = false) (hok : sysSbrk k increment (g.vm,g.proc) = .ok r) :
    g.step k increment = ({ g with vm := r.2.1, proc := r.2.2, top := max g.top r.2.2.heapBreak },
      [⟨(g.vm,g.proc),increment,.ok r⟩]) := by
  rw [step,if_neg (by rw [hlive]; decide),hok]

/-- A call that moves the break leaves it above the first one, and maps pages from the highest
break on, off the kernel's entries and off the loaded pages `R`. -/
def Upward (R : ℕ → Prop) (g : Growing) (increment : ℕ) : Prop :=
  increment ≠ 0 → g.newBreak increment ≤ g.proc.heapLimit → g.first ≤ g.newBreak increment ∧
    ∀ a ∈ pages (pageStart g.proc.heapBreak) (g.newBreak increment),
      g.top ≤ a ∧ userPage a = true ∧ ¬R a

instance (R : ℕ → Prop) [DecidablePred R] (g : Growing) (increment : ℕ) :
    Decidable (g.Upward R increment) :=
  inferInstanceAs (Decidable (increment ≠ 0 → g.newBreak increment ≤ g.proc.heapLimit →
    g.first ≤ g.newBreak increment ∧
      ∀ a ∈ pages (pageStart g.proc.heapBreak) (g.newBreak increment),
        g.top ≤ a ∧ userPage a = true ∧ ¬R a))

end Growing

/-- The break is in its bounds, and what is below it may be written by Ring 3. -/
structure HeapMapped (k : Boot) (first : ℕ) (s : Vm × Process) : Prop where
  above : first ≤ s.2.heapBreak
  below : s.2.heapBreak ≤ s.2.heapLimit
  mapped : ∀ v, first ≤ v → v < s.2.heapBreak →
    ∃ f, s.1.translate (s.2.cr3 k) v = some ⟨f,true,true⟩

/-- The call returns, replaces no page of the process, and changes nothing if it fails. -/
def SbrkCall.Safe (k : Boot) (c : SbrkCall) : Prop :=
  ∃ rax s, c.result = .ok (rax,s) ∧
    (∀ v l, sharedPath (vpath v) = false → c.before.1.translate (c.before.2.cr3 k) v = some l →
      s.1.translate (s.2.cr3 k) v = some l) ∧ (rax = 2^64-1 → s = c.before)

/-! ### Mapping a list of pages -/

section MapAll

variable {root : ℕ} {T : Tree ℕ ℕ} {s : Vm × Process}

/-- New pages at `as`; the leaves of `T` are where they were. -/
structure MapsAll (T : Tree ℕ ℕ) (as : List ℕ) (T' : Tree ℕ ℕ) : Prop where
  old : ∀ q, q.length = 4 → T q ≠ none → T' q = T q
  pages : ∀ a ∈ as, T' (vpath a) ≠ none
  only : ∀ q, q.length = 4 → T' q ≠ none → T q ≠ none ∨ ∃ a ∈ as, q = vpath a

theorem processRecordPage_heap (proc : Process) (v g : ℕ) :
    (processRecordPage proc v g).pml4 = proc.pml4 ∧
      (processRecordPage proc v g).heapLimit = proc.heapLimit := by
  rw [processRecordPage]
  split <;> exact ⟨rfl,rfl⟩

theorem Space.mapAll (h : Space s.1 root T) {as : List ℕ}
    (hshared : ∀ a ∈ as, sharedPath (vpath a) = false) (hnew : ∀ a ∈ as, T (vpath a) = none)
    (hne : as.Pairwise fun a b => vpath a ≠ vpath b) :
    ∃ T', Space (as.foldl (fun s a => mapFresh root a s) s).1 root T' ∧ MapsAll T as T' ∧
      (as.foldl (fun s a => mapFresh root a s) s).2.pml4 = s.2.pml4 ∧
      (as.foldl (fun s a => mapFresh root a s) s).2.heapLimit = s.2.heapLimit := by
  induction as generalizing s T with
  | nil => exact ⟨T,h,⟨fun _ _ _ => rfl,fun _ ha => (by cases ha),fun _ _ hq => .inl hq⟩,rfl,rfl⟩
  | cons a as ih =>
    obtain ⟨hfirst,hne⟩ := List.pairwise_cons.mp hne
    have ha := h.wf.allocPage
    obtain ⟨T₁,hspace,hmaps⟩ := h.mapPageInto (z := False) ha (hshared a (List.mem_cons_self ..))
    have hkeep (b : ℕ) (hb : b ∈ as) : T₁ (vpath b) = none := by
      rw [hmaps.leaves _ rfl (hfirst b hb).symm]
      exact hnew b (List.mem_cons_of_mem _ hb)
    obtain ⟨T₂,hspace₂,hall,hpml4,hlimit⟩ := ih (s := mapFresh root a s) hspace
      (fun b hb => hshared b (List.mem_cons_of_mem _ hb)) hkeep hne
    have hrec := processRecordPage_heap s.2 a s.1.allocPage.1
    refine ⟨T₂,hspace₂,⟨?_,?_,?_⟩,hpml4.trans hrec.1,hlimit.trans hrec.2⟩
    · intro q hq hT
      have hqa : q ≠ vpath a := by
        rintro rfl
        exact hT (hnew a (List.mem_cons_self ..))
      have hT₁ := hmaps.leaves q hq hqa
      rw [hall.old q hq (hT₁ ▸ hT),hT₁]
    · intro b hb
      obtain rfl | hb := List.mem_cons.mp hb
      · rw [hall.old _ rfl (by simp [hmaps.page]),hmaps.page]
        simp
      · exact hall.pages b hb
    · intro q hq hT
      obtain hT | ⟨b,hb,rfl⟩ := hall.only q hq hT
      · by_cases hqa : q = vpath a
        · exact .inr ⟨a,List.mem_cons_self ..,hqa⟩
        · exact .inl (hmaps.leaves q hq hqa ▸ hT)
      · exact .inr ⟨b,List.mem_cons_of_mem _ hb,rfl⟩

end MapAll

/-! ### One call -/

/-- Aligned user pages with one path are the same page. -/
theorem userPage_inj {a b : ℕ} (ha : userPage a = true) (hb : userPage b = true)
    (ha0 : pageSize ∣ a) (hb0 : pageSize ∣ b) (h : vpath a = vpath b) : a = b := by
  refine eq_of_vpath ?_ ?_ h ?_
  · rwa [pageAlign_of_dvd ha0]
  · rwa [pageAlign_of_dvd hb0]
  · rw [Nat.mod_eq_zero_of_dvd ha0,Nat.mod_eq_zero_of_dvd hb0]

theorem vpath_pageAlign (v : ℕ) : vpath v = vpath (pageAlign v) := by
  refine vpath_congr ?_
  rw [pageAlign,Nat.mul_div_cancel _ (by decide)]

theorem pages_nodup (addr endAddr : ℕ) : (pages addr endAddr).Nodup := by
  refine List.Nodup.map (fun i j hij => ?_) List.nodup_range
  dsimp only [pageSize] at hij
  omega

/-- What the process has mapped: the pages `R` and the heap up to the highest break. -/
structure HeapInv (k : Boot) (R : ℕ → Prop) (g : Growing) (T : Tree ℕ ℕ) : Prop where
  space : Space g.vm (g.proc.cr3 k) T
  leaves : ∀ v, T (vpath v) ≠ none →
    ∃ a, pageSize ∣ a ∧ userPage a = true ∧ vpath v = vpath a ∧ (R a ∨ a < g.top)
  heap : ∀ v, g.first ≤ v → v < g.top → T (vpath v) ≠ none ∧ userPage (pageAlign v) = true
  above : g.first ≤ g.proc.heapBreak
  top : g.proc.heapBreak ≤ g.top
  limit : g.top ≤ g.proc.heapLimit
  bound : g.proc.heapLimit+pageSize ≤ 2^64
  first : pageSize ∣ g.first
  live : g.stuck = false

section Step

variable {k : Boot} {R : ℕ → Prop} {g : Growing} {T : Tree ℕ ℕ} {increment : ℕ}

section

variable (h : HeapInv k R g T)
include h

theorem HeapInv.mapped : HeapMapped k g.first (g.vm,g.proc) := by
  refine ⟨h.above,h.top.trans h.limit,fun v hv hlt => ?_⟩
  obtain ⟨hT,huser⟩ := h.heap v hv (lt_of_lt_of_le hlt h.top)
  obtain ⟨f,hf⟩ := Option.ne_none_iff_exists'.mp hT
  have hshared : sharedPath (vpath v) = false := by
    rw [vpath_pageAlign]
    exact sharedPath_of_userPage huser
  refine ⟨f,?_⟩
  rw [h.space.translate hshared (canonical_of_userPage huser),hf]
  rfl

/-- The break is not on the last page, so rounding it up does not wrap. -/
theorem HeapInv.pageStart_eq :
    pageStart g.proc.heapBreak = (g.proc.heapBreak+(pageSize-1))/pageSize*pageSize := by
  have hbound := h.bound
  have hle := h.top.trans h.limit
  by_cases hmod : g.proc.heapBreak%pageSize = 0
  · rw [pageStart,if_neg (not_not.mpr hmod),pageAlign]
    simp only [pageSize] at *
    omega
  · rw [pageStart,if_pos hmod,pageAlign]
    simp only [pageSize] at *
    omega

/-- A page that the guard allows is not mapped. -/
theorem HeapInv.unmapped {a : ℕ} (ha0 : pageSize ∣ a) (htop : g.top ≤ a)
    (huser : userPage a = true) (hR : ¬R a) : T (vpath a) = none := by
  by_contra hT
  obtain ⟨b,hb0,hb,hpath,hwhere⟩ := h.leaves a hT
  obtain rfl := userPage_inj huser hb ha0 hb0 hpath
  obtain hRa | hlt := hwhere
  · exact hR hRa
  · omega

theorem HeapInv.grow (hinc : increment ≠ 0) (hlimit : g.newBreak increment ≤ g.proc.heapLimit)
    (hpages : ∀ a ∈ pages (pageStart g.proc.heapBreak) (g.newBreak increment),
      g.top ≤ a ∧ userPage a = true ∧ ¬R a) :
    ∃ (s : Vm × Process) (T' : Tree ℕ ℕ), sysSbrk k increment (g.vm,g.proc) =
        .ok (g.proc.heapBreak,s.1,{ s.2 with heapBreak := g.newBreak increment }) ∧
      Space s.1 (g.proc.cr3 k) T' ∧
      MapsAll T (pages (pageStart g.proc.heapBreak) (g.newBreak increment)) T' ∧
      s.2.pml4 = g.proc.pml4 ∧ s.2.heapLimit = g.proc.heapLimit := by
  have hstart : pageSize ∣ pageStart g.proc.heapBreak := by
    rw [h.pageStart_eq]
    exact Nat.dvd_mul_left ..
  have hwrap : g.newBreak increment+pageSize ≤ 2^64 := (Nat.add_le_add_right hlimit _).trans h.bound
  have hne : (pages (pageStart g.proc.heapBreak) (g.newBreak increment)).Pairwise
      fun a b => vpath a ≠ vpath b := by
    refine (pages_nodup ..).pairwise_of_forall_ne fun a ha b hb hab hpath => hab ?_
    exact userPage_inj (hpages a ha).2.1 (hpages b hb).2.1 (dvd_of_mem_pages_of_dvd hstart ha)
      (dvd_of_mem_pages_of_dvd hstart hb) hpath
  obtain ⟨T',hspace,hall,hpml4,hlim⟩ := Space.mapAll (s := (g.vm,g.proc)) h.space
    (fun a ha => sharedPath_of_userPage (hpages a ha).2.1) (fun a ha =>
      h.unmapped (dvd_of_mem_pages_of_dvd hstart ha) (hpages a ha).1 (hpages a ha).2.1
        (hpages a ha).2.2) hne
  refine ⟨_,T',?_,hspace,hall,hpml4,hlim⟩
  have hlen : (pages (pageStart g.proc.heapBreak) (g.newBreak increment)).length < pageFuel :=
    length_pages_le (by omega)
  have hloop := forPages_eq (mapFresh (g.proc.cr3 k)) (s := (g.vm,g.proc)) hwrap hlen
  rw [sysSbrk,if_neg hinc]
  change (if g.proc.heapLimit < g.newBreak increment then _ else _) = _
  rw [if_neg (Nat.not_lt.mpr hlimit)]
  change Res.bind (forPages (mapFresh (g.proc.cr3 k)) (g.newBreak increment) pageFuel
    (pageStart g.proc.heapBreak) (g.vm,g.proc)) _ = _
  rw [hloop]
  rfl

/-- A call that leaves memory and process alone. -/
theorem HeapInv.idle (rax : ℕ) (hok : sysSbrk k increment (g.vm,g.proc) = .ok (rax,g.vm,g.proc)) :
    HeapInv k R (g.step k increment).1 T ∧ ∀ c ∈ (g.step k increment).2, c.Safe k := by
  rw [Growing.step_eq h.live hok]
  rw [max_eq_left h.top]
  refine ⟨h,fun c hc => ?_⟩
  rw [List.mem_singleton.mp hc]
  exact ⟨rax,(g.vm,g.proc),rfl,fun _ _ _ hl => hl,fun _ => rfl⟩

/-- What the new break has below it: old heap, new pages, and the rest of the page that the old
break was on. -/
theorem HeapInv.covered {v new : ℕ} (hv : g.top ≤ v) (hnew : v < new) :
    pageAlign v ∈ pages (pageStart g.proc.heapBreak) new ∨
      ∃ w, g.first ≤ w ∧ w < g.top ∧ pageAlign v = pageAlign w := by
  have htop := h.top
  have hfirst : g.first%pageSize = 0 := Nat.mod_eq_zero_of_dvd h.first
  have habove := h.above
  have hle : pageAlign v ≤ v := Nat.div_mul_le_self ..
  obtain hstart | hstart := Nat.lt_or_ge (pageAlign v) (pageStart g.proc.heapBreak)
  · -- the break is inside the page of `v`
    refine .inr ⟨g.proc.heapBreak-1,?_⟩
    rw [h.pageStart_eq] at hstart
    simp only [pageAlign,pageSize] at *
    omega
  · refine .inl (mem_pages.mpr ⟨hstart,by omega,Nat.dvd_sub (Nat.dvd_mul_left ..) ?_⟩)
    rw [h.pageStart_eq]
    exact Nat.dvd_mul_left ..

theorem HeapInv.step (hup : g.Upward R increment) :
    ∃ T', HeapInv k R (g.step k increment).1 T' ∧ ∀ c ∈ (g.step k increment).2, c.Safe k := by
  by_cases hinc : increment = 0
  · refine ⟨T,h.idle g.proc.heapBreak ?_⟩
    rw [sysSbrk,if_pos hinc]
  by_cases hlimit : g.proc.heapLimit < g.newBreak increment
  · refine ⟨T,h.idle (2^64-1) ?_⟩
    rw [sysSbrk,if_neg hinc]
    exact if_pos hlimit
  have hlimit := Nat.not_lt.mp hlimit
  obtain ⟨hfirst,hpages⟩ := hup hinc hlimit
  obtain ⟨s,T',hok,hspace,hall,hpml4,hlim⟩ := h.grow hinc hlimit hpages
  have hcr3 : s.2.cr3 k = g.proc.cr3 k := by rw [Process.cr3,Process.cr3,hpml4]
  have hold {q : List ℕ} (hq : q.length = 4) (hT : T q ≠ none) : T' q ≠ none := by
    rwa [hall.old q hq hT]
  rw [Growing.step_eq h.live hok]
  refine ⟨T',⟨?_,?_,?_,hfirst,le_max_right ..,?_,?_,h.first,h.live⟩,fun c hc => ?_⟩
  · change Space s.1 (s.2.cr3 k) T'
    rwa [hcr3]
  · intro v hT
    obtain hT | ⟨a,ha,hpath⟩ := hall.only _ rfl hT
    · obtain ⟨a,ha0,huser,hpath,hwhere⟩ := h.leaves v hT
      exact ⟨a,ha0,huser,hpath,hwhere.imp_right fun hlt => lt_of_lt_of_le hlt (le_max_left ..)⟩
    · obtain ⟨-,hlt,-⟩ := mem_pages.mp ha
      have hstart : pageSize ∣ pageStart g.proc.heapBreak := by
        rw [h.pageStart_eq]
        exact Nat.dvd_mul_left ..
      exact ⟨a,dvd_of_mem_pages_of_dvd hstart ha,(hpages a ha).2.1,hpath,
        .inr (lt_of_lt_of_le hlt (le_max_right ..))⟩
  · intro v hv hlt
    obtain hvt | hvt := Nat.lt_or_ge v g.top
    · exact (h.heap v hv hvt).imp_left (hold rfl)
    have hlt : v < g.newBreak increment := (lt_max_iff.mp hlt).resolve_left (Nat.not_lt.mpr hvt)
    rw [vpath_pageAlign]
    obtain hmem | ⟨w,hw,hwt,halign⟩ := h.covered hvt hlt
    · exact ⟨hall.pages _ hmem,(hpages _ hmem).2.1⟩
    · rw [halign,← vpath_pageAlign]
      exact (h.heap w hw hwt).imp_left (hold rfl)
  · rw [hlim]
    exact max_le h.limit hlimit
  · rw [hlim]
    exact h.bound
  · rw [List.mem_singleton.mp hc]
    refine ⟨_,_,rfl,fun v l hshared hl => ?_,fun hrax => ?_⟩
    · -- addresses that translate are leaves of `T`, which have stayed
      have hcanon : canonical v = true := by
        by_contra hc
        simp [Vm.translate,hc] at hl
      change s.1.translate (s.2.cr3 k) v = some l
      rw [h.space.translate hshared hcanon] at hl
      rw [hcr3,hspace.translate hshared hcanon,hall.old _ rfl ?_,hl]
      intro hnone
      rw [hnone] at hl
      cases hl
    · -- the old break is too small to be the error
      have hle := h.top.trans h.limit
      have hbound := h.bound
      simp only [pageSize] at hbound
      omega

end

end Step

/-! ### A new process -/

section Start

variable {k : Boot} {σ σ' : Vm} {data args : List UInt8} {entry : ℕ} {phdrs : List Elf64Phdr}
  {child : Process}

/-- The heap begins and ends at pages. -/
theorem setEntry_heap (entry : ℕ) (phdrs : List Elf64Phdr) {proc : Process}
    (h : proc.heapBreak = 0 ∧ proc.heapLimit = 0) :
    pageSize ∣ (setEntry entry phdrs proc).heapBreak ∧
      (setEntry entry phdrs proc).heapLimit+pageSize ≤ 2^64 := by
  rw [setEntry,setHeap]
  split
  · rw [h.1,h.2]
    exact ⟨⟨0,rfl⟩,by decide⟩
  · refine ⟨Nat.dvd_mul_left ..,?_⟩
    simp only [pageAlign,pageSize,userHeapLimit]
    omega

/-- The pages a loader may have mapped. -/
def mayLoad (pml4 : ℕ) (phdrs : List Elf64Phdr) (a : ℕ) : Prop :=
  loadedPage pml4 phdrs a ∧ userPage a = true ∧ pageSize ∣ a

theorem mayLoad_segment {ph : Elf64Phdr} (hph : ph ∈ phdrs) (hu : UserSegment ph) {a : ℕ}
    (ha : a ∈ ph.visited) (pml4 : ℕ) : mayLoad pml4 phdrs a := by
  have hmem := mem_pages_of_visited ha
  have hdvd := dvd_of_mem_pages hmem
  refine ⟨.inl ⟨ph,hph,?_⟩,hu.pages a hmem,hdvd⟩
  rwa [pageAlign_of_dvd hdvd]

theorem mayLoad_stack (pml4 : ℕ) {i : ℕ} (hi : i < 4) :
    mayLoad pml4 phdrs (userStackBase+i*pageSize) := by
  refine ⟨.inr (.inl ⟨i,hi,rfl⟩),?_,?_⟩
  · decide +revert
  · exact Nat.dvd_add (by decide) (Nat.dvd_mul_left ..)

theorem Loaded.heapInv {base : Vm} {T₀ T : Tree ℕ ℕ} {root pml4 : ℕ} {proc : Process} {I : Image}
    (h : Loaded False (mayLoad pml4 phdrs) base T₀ root (newProcess pml4 args) (σ',proc) T I)
    (hleaf : ∀ q, q.length = 4 → T₀ q = none) (hroot : (newProcess pml4 args).cr3 k = root)
    (hlimit : (setEntry entry phdrs proc).heapBreak ≤ (setEntry entry phdrs proc).heapLimit) :
    HeapInv k (loadedPage pml4 phdrs) (.start σ' (setEntry entry phdrs proc)) T := by
  have hproc : proc = { newProcess pml4 args with userPages := proc.userPages } := h.proc
  have hzero : proc.heapBreak = 0 ∧ proc.heapLimit = 0 := by
    rw [hproc]
    exact ⟨rfl,rfl⟩
  have hheap := setEntry_heap entry phdrs hzero
  have hcr3 : (setEntry entry phdrs proc).cr3 k = root := by
    rw [← hroot,Process.cr3,setEntry_pml4,hproc]
    rfl
  refine ⟨?_,?_,fun v hv hlt => ?_,le_rfl,le_rfl,hlimit,hheap.2,hheap.1,rfl⟩
  · change Space σ' ((setEntry entry phdrs proc).cr3 k) T
    rw [hcr3]
    exact h.space
  · intro v hv
    obtain hv | ⟨a,⟨hR,huser,hdvd⟩,hpre⟩ := h.nodes _ hv
    · exact absurd (hleaf _ rfl) hv
    · exact ⟨a,hdvd,huser,hpre.eq_of_length rfl,.inl hR⟩
  · exact absurd hlt (Nat.not_lt.mpr hv)

/-- The boot shell's tables are the boot tables. -/
theorem elfLoad_heapInv (htables : Space σ k.bootPML4 (rootTree k.bootPML4 k.bootKernelPDP))
    (hparse : elfParse data = .ok (some (entry,phdrs))) (hu : ∀ ph ∈ phdrs, UserSegment ph)
    (hok : elfLoad k (some data) args σ = .ok (some child,σ'))
    (hlimit : child.heapBreak ≤ child.heapLimit) :
    ∃ T, HeapInv k (loadedPage child.pml4 phdrs) (.start σ' child) T := by
  have hstart : Loaded False (mayLoad 0 phdrs) σ (rootTree k.bootPML4 k.bootKernelPDP) k.bootPML4
      (newProcess 0 args) (σ,newProcess 0 args) (rootTree k.bootPML4 k.bootKernelPDP) noImage := by
    refine ⟨htables,(Grows.refl ..).touches,fun q hq => .inl hq,?_,fun _ hp => .inl hp,rfl⟩
    ext1 v
    rw [image,rootTree_leaf _ _ _ rfl]
    rfl
  rw [elfLoad,hparse,Res.ok_bind] at hok
  obtain ⟨s,hload,hok⟩ := Res.bind_eq_ok.mp hok
  obtain ⟨T₁,h₁⟩ := hstart.loadSegments (finds_viaTables k.bootPML4)
    (fun ph hph => ⟨(hu ph hph).offKernel,(elfParse_lt hparse hph).1,
      fun a ha => mayLoad_segment hph (hu ph hph) ha 0⟩) (fun hz => hz.elim) hload
  obtain ⟨T₂,h₂⟩ := h₁.mapStack fun i hi => mayLoad_stack 0 hi
  generalize mapStack k.bootPML4 s = r at h₂ hok
  obtain ⟨σ₂,proc⟩ := r
  cases hok
  have hpml4 : (setEntry entry phdrs proc).pml4 = 0 := by
    rw [setEntry_pml4]
    exact congrArg Process.pml4 h₂.proc
  rw [hpml4]
  exact ⟨T₂,h₂.heapInv (rootTree_leaf _ _) rfl hlimit⟩

theorem elfSpawn_heapInv (hwf : σ.Wf) (hparse : elfParse data = .ok (some (entry,phdrs)))
    (hu : ∀ ph ∈ phdrs, UserSegment ph)
    (hok : elfSpawn k (some data) args σ = .ok (some child,σ'))
    (hlimit : child.heapBreak ≤ child.heapLimit) :
    ∃ T, HeapInv k (loadedPage child.pml4 phdrs) (.start σ' child) T := by
  have hne : child.pml4 ≠ 0 := by
    obtain ⟨σ₁,proc,T,hspawn⟩ := elfSpawn_spec False (fun _ => True) hwf hparse
      (fun ph hph => ⟨(hu ph hph).offKernel,fun _ _ => trivial⟩) (fun _ _ => trivial)
      (fun hz => hz.elim) hok
    exact (hspawn.loaded.space.busy _ _ hspawn.loaded.space.root).2
  have hfixed (a : ℕ) (ha : fixedPage a) : mayLoad child.pml4 phdrs a := by
    obtain rfl | ⟨i,hi,rfl⟩ := ha
    · exact ⟨.inr (.inr ⟨hne,rfl⟩),by decide,by decide⟩
    · exact mayLoad_stack _ hi
  obtain ⟨σ₁,proc,T,hspawn⟩ := elfSpawn_spec False (mayLoad child.pml4 phdrs) hwf hparse
    (fun ph hph => ⟨(hu ph hph).offKernel,fun a ha => mayLoad_segment hph (hu ph hph) ha _⟩)
    hfixed (fun hz => hz.elim) hok
  have hroot : (newProcess child.pml4 args).cr3 k = child.pml4 := if_neg hne
  have hinv : HeapInv k _ (.start σ' (setEntry entry phdrs proc)) T :=
    hspawn.loaded.heapInv (rootTree_leaf _ _) hroot (by rwa [← hspawn.child])
  rw [← hspawn.child] at hinv
  exact ⟨T,hinv⟩

/-- In a run of upward calls the heap stays mapped and in its bounds, and every call is safe. -/
theorem heap_kept_of_upward (hwf : σ.Wf) (hparse : elfParse data = .ok (some (entry,phdrs)))
    (hu : ∀ ph ∈ phdrs, UserSegment ph)
    (hnew : elfSpawn k (some data) args σ = .ok (some child,σ') ∨
      Space σ k.bootPML4 (rootTree k.bootPML4 k.bootKernelPDP) ∧
        elfLoad k (some data) args σ = .ok (some child,σ'))
    (hlimit : child.heapBreak ≤ child.heapLimit) {run : List ℕ}
    (hup : Trace.Meets (Growing.step k) (Growing.Upward (loadedPage child.pml4 phdrs))
      (.start σ' child) run) :
    HeapMapped k child.heapBreak ((exec (Growing.step k) (.start σ' child) run).vm,
      (exec (Growing.step k) (.start σ' child) run).proc) ∧
    ∀ c ∈ Trace.outs (Growing.step k) (.start σ' child) run, c.Safe k := by
  have hstart : ∃ T, HeapInv k (loadedPage child.pml4 phdrs) (.start σ' child) T := by
    obtain hok | ⟨htables,hok⟩ := hnew
    · exact elfSpawn_heapInv hwf hparse hu hok hlimit
    · exact elfLoad_heapInv htables hparse hu hok hlimit
  have hinv : ∀ (g : Growing) (increment : ℕ),
      ((∃ T, HeapInv k (loadedPage child.pml4 phdrs) g T) ∧ g.first = child.heapBreak) →
      g.Upward (loadedPage child.pml4 phdrs) increment →
      (∃ T, HeapInv k (loadedPage child.pml4 phdrs) (g.step k increment).1 T) ∧
        (g.step k increment).1.first = child.heapBreak := by
    rintro g increment ⟨⟨T,h⟩,hfirst⟩ hg
    obtain ⟨T',h',-⟩ := h.step hg
    refine ⟨⟨T',h'⟩,?_⟩
    rw [Growing.step]
    split
    · exact hfirst
    · split <;> exact hfirst
  refine ⟨?_,?_⟩
  · obtain ⟨⟨T,h⟩,hfirst⟩ := hup.inv hinv ⟨hstart,rfl⟩
    rw [← hfirst]
    exact h.mapped
  · refine hup.all_outs hinv ?_ ⟨hstart,rfl⟩
    rintro g increment ⟨⟨T,h⟩,-⟩ hg
    obtain ⟨-,-,hsafe⟩ := h.step hg
    exact hsafe

end Start

theorem sysSbrk_of_onePage {k : Boot} {increment : ℕ} {s : Vm × Process} (hinc : increment ≠ 0)
    (hlimit : (s.2.heapBreak+increment)%2^64 ≤ s.2.heapLimit)
    (hlt : pageStart s.2.heapBreak < (s.2.heapBreak+increment)%2^64)
    (hle : (s.2.heapBreak+increment)%2^64 ≤ pageStart s.2.heapBreak+pageSize)
    (hwrap : pageStart s.2.heapBreak+pageSize < 2^64) :
    sysSbrk k increment s = .ok (s.2.heapBreak,
      (mapFresh (s.2.cr3 k) (pageStart s.2.heapBreak) s).1,
      { (mapFresh (s.2.cr3 k) (pageStart s.2.heapBreak) s).2 with
        heapBreak := (s.2.heapBreak+increment)%2^64 }) := by
  rw [sysSbrk,if_neg hinc]
  have hfuel : pageFuel = 2^52-1+1+1 := by decide
  rw [if_neg (Nat.not_lt.mpr hlimit),hfuel,forPages_of_lt _ _ _ hlt hwrap,
    forPages_of_le _ _ _ hle]
  rfl

/-- One page, then one and a half. -/
theorem heap_kept_of_upward_tiny : ∃ child σ',
    elfSpawn bootKernel (some tinyFile) [] bootVm = .ok (some child,σ') ∧
      HeapMapped bootKernel child.heapBreak
        ((exec (Growing.step bootKernel) (.start σ' child) [0x1000,0x1800]).vm,
          (exec (Growing.step bootKernel) (.start σ' child) [0x1000,0x1800]).proc) := by
  obtain ⟨child,σ',hok,-,hbreak,hlimit⟩ := tinyFile_spawns
  have hup {g : Growing} {b n : ℕ} (hb : g.proc.heapBreak = b) (htop : g.top = b)
      (hfirst : g.first ≤ (b+n)%2^64)
      (hpages : ∀ a ∈ pages (pageStart b) ((b+n)%2^64), b ≤ a ∧ userPage a = true ∧
        ¬OnSegment [loadPhdr 120 0x40100000 1 1] a ∧ (¬∃ i < 4, a = userStackBase+i*pageSize) ∧
          a ≠ argPageVaddr) :
      g.Upward (loadedPage child.pml4 [loadPhdr 120 0x40100000 1 1]) n := by
    intro _ _
    rw [Growing.newBreak,hb,htop]
    refine ⟨hfirst,fun a ha => ?_⟩
    obtain ⟨hle,huser,hseg,hstack,harg⟩ := hpages a ha
    refine ⟨hle,huser,?_⟩
    rintro (h | h | ⟨-,h⟩)
    · exact hseg h
    · exact hstack h
    · exact harg h
  have hnew : (child.heapBreak+0x1000)%2^64 = 0x40102000 := by
    rw [hbreak]
    rfl
  have hstart : pageStart child.heapBreak = 0x40101000 := by
    rw [hbreak]
    decide
  have hone := sysSbrk_of_onePage (k := bootKernel) (s := (σ',child)) (show 0x1000 ≠ 0 by decide)
    (by rw [hnew,hlimit]; decide) (by rw [hnew,hstart]; decide) (by rw [hnew,hstart]; decide)
    (by rw [hstart]; decide)
  have hmeets : Trace.Meets (Growing.step bootKernel) (Growing.Upward
      (loadedPage child.pml4 [loadPhdr 120 0x40100000 1 1])) (.start σ' child) [0x1000,0x1800] := by
    have hfirst : (Growing.start σ' child).first = 0x40101000 := hbreak
    refine ⟨hup hbreak hbreak (by rw [hfirst]; decide) (by decide +kernel),?_,trivial⟩
    rw [Growing.step_eq (g := .start σ' child) rfl hone]
    refine hup (b := 0x40102000) hnew ?_ (by dsimp only; rw [hfirst]; decide) (by decide +kernel)
    change max child.heapBreak ((child.heapBreak+0x1000)%2^64) = _
    rw [hnew,hbreak]
    rfl
  exact ⟨child,σ',hok,(heap_kept_of_upward bootVm_wf tinyFile_parse tinyFile_userSegment (.inl hok)
    (by rw [hbreak,hlimit]; decide) hmeets).1⟩

/-- A break that is lowered leaves its pages where they are. -/
theorem sysSbrk_of_le {k : Boot} {increment : ℕ} {s : Vm × Process} (hinc : increment ≠ 0)
    (hlimit : (s.2.heapBreak+increment)%2^64 ≤ s.2.heapLimit)
    (hle : (s.2.heapBreak+increment)%2^64 ≤ pageStart s.2.heapBreak) :
    sysSbrk k increment s =
      .ok (s.2.heapBreak,s.1,{ s.2 with heapBreak := (s.2.heapBreak+increment)%2^64 }) := by
  rw [sysSbrk,if_neg hinc]
  rw [if_neg (Nat.not_lt.mpr hlimit),pageFuel,forPages_of_le _ _ _ hle]
  rfl

/-- A fresh page takes the place of the one that was there. -/
theorem Space.translate_mapFresh {s : Vm × Process} {root v : ℕ} {T : Tree ℕ ℕ}
    (h : Space s.1 root T) (hv : sharedPath (vpath v) = false) (hc : canonical v = true) :
    (mapFresh root v s).1.translate root v = some ⟨s.1.allocPage.1,true,true⟩ := by
  obtain ⟨T',hspace,hmaps⟩ := h.mapPageInto (z := False) h.wf.allocPage hv
  change (s.1.allocPage.2.mapPageInto root v s.1.allocPage.1 userFlags).translate root v = _
  rw [hspace.translate hv hc,hmaps.page]
  rfl

/-- One page down takes the break below its first place, and one page up again replaces the
page with the program's code. -/
theorem heap_replaces_code : ∃ child σ' down up f g,
    elfSpawn bootKernel (some tinyFile) [] bootVm = .ok (some child,σ') ∧
      sysSbrk bootKernel (2^64-0x1000) (σ',child) = .ok down ∧
      sysSbrk bootKernel 0x1000 down.2 = .ok up ∧
      child.heapBreak = 0x40101000 ∧ down.2.2.heapBreak = 0x40100000 ∧
      down.2.1.translate child.pml4 0x40100000 = some ⟨f,true,true⟩ ∧
      up.2.1.translate child.pml4 0x40100000 = some ⟨g,true,true⟩ ∧ f ≠ g ∧
      ¬HeapMapped bootKernel child.heapBreak down.2 := by
  obtain ⟨child,σ',hok,hpml4,hbreak,hlimit⟩ := tinyFile_spawns
  obtain ⟨σ₁,proc,T,hspawn⟩ := elfSpawn_spec False (fun _ => True) bootVm_wf tinyFile_parse
    (fun ph hph => ⟨(tinyFile_userSegment ph hph).offKernel,fun _ _ => trivial⟩) (fun _ _ => trivial)
    (fun hz => hz.elim) hok
  have hspace : Space σ' child.pml4 T := hspawn.loaded.space
  have hcode : (T (vpath 0x40100000)).isSome := by
    rw [← image_isSome σ' T,hspawn.loaded.image]
    decide +kernel
  obtain ⟨f,hf⟩ := Option.isSome_iff_exists.mp hcode
  obtain ⟨low,hlow⟩ : ∃ low : Process, low = { child with heapBreak := 0x40100000 } := ⟨_,rfl⟩
  have hlowBreak : low.heapBreak = 0x40100000 := by rw [hlow]
  have hlowLimit : low.heapLimit = 0x40301000 := by rw [hlow,← hlimit]
  have hcr3 : low.cr3 bootKernel = child.pml4 := by
    rw [hlow,hpml4]
    rfl
  have hdown : sysSbrk bootKernel (2^64-0x1000) (σ',child) = .ok (0x40101000,σ',low) := by
    have hnew : (child.heapBreak+(2^64-0x1000))%2^64 = 0x40100000 := by
      rw [hbreak]
      rfl
    rw [sysSbrk_of_le (by decide) (by rw [hnew,hlimit]; decide) (by rw [hbreak]; decide),hnew,
      hbreak,hlow]
  have hnew : (low.heapBreak+0x1000)%2^64 = 0x40101000 := by
    rw [hlowBreak]
    rfl
  have hstart : pageStart low.heapBreak = 0x40100000 := by
    rw [hlowBreak]
    decide
  have hup := sysSbrk_of_onePage (k := bootKernel) (s := (σ',low)) (show 0x1000 ≠ 0 by decide)
    (by rw [hnew,hlowLimit]; decide) (by rw [hnew,hstart]; decide) (by rw [hnew,hstart]; decide)
    (by rw [hstart]; decide)
  refine ⟨child,σ',_,_,f,σ'.allocPage.1,hok,hdown,hup,hbreak,hlowBreak,?_,?_,?_,fun hm => ?_⟩
  · rw [hspace.translate (by decide) (by decide),hf]
    rfl
  · dsimp only
    rw [hstart,hcr3]
    exact Space.translate_mapFresh hspace (by decide) (by decide)
  · rintro rfl
    exact (hspace.busy _ _ hf).1 hspace.wf.allocPage.was
  · have habove := hm.above
    rw [hbreak,hlowBreak] at habove
    exact absurd habove (by decide)

end Gooos.Mem
