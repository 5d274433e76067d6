import Gooos.Lib.Trace
import Gooos.Mem.Isolation

/-!
# Several spawns at a time

`elfParse` leaves the program headers in one static buffer, and `elfSpawn` reads them from there
while it loads. Calls on different CPUs have frames of their own, but not headers of their own:
they do not disturb each other as long as no call parses another file while headers are still
to be read.
-/

namespace Gooos.Mem

open Radix Function
open Option (some_inj)
open Trace (exec)

structure SpawnCall where
  file : List UInt8
  args : List UInt8

/-- Where a call of `elfSpawn` is. `count` is the length of the slice `elfParse` has
returned. -/
inductive SpawnPc where
  | parse
  | create (entry count : ℕ)
  | load (entry count i : ℕ) (proc : Process)
  | done (child : Process)
  | failed

/-- The calls in progress, with the memory and the static buffer they share. A call that
panics stops them all. -/
structure Spawning (ι : Type) where
  vm : Vm
  elfPTLoadBuf : ℕ → Elf64Phdr
  pc : ι → SpawnPc
  stopped : Bool

/-- The buffer after the headers have been stored from its beginning on. -/
def storeHeaders (buf : ℕ → Elf64Phdr) (phdrs : List Elf64Phdr) (j : ℕ) : Elf64Phdr :=
  phdrs[j]?.getD (buf j)

/-- `elfPTLoadBuf[:count]`. -/
def slice (buf : ℕ → Elf64Phdr) (count : ℕ) : List Elf64Phdr := (List.range count).map buf

namespace Spawning

variable {ι : Type} [DecidableEq ι]

def start (σ : Vm) (buf : ℕ → Elf64Phdr) : Spawning ι where
  vm := σ
  elfPTLoadBuf := buf
  pc _ := .parse
  stopped := false

def goto (s : Spawning ι) (c : ι) (pc : SpawnPc) : Spawning ι :=
  { s with pc := update s.pc c pc }

/-- One call goes on: `elfParse`, the new address space, one segment, or the rest. -/
def next (k : Boot) (calls : ι → SpawnCall) (s : Spawning ι) (c : ι) : Res (Spawning ι) :=
  match s.pc c with
  | .parse => do
    match ← elfParse (calls c).file with
    | none => return s.goto c .failed
    | some (entry,phdrs) => return { s.goto c (.create entry phdrs.length) with
        elfPTLoadBuf := storeHeaders s.elfPTLoadBuf phdrs }
  | .create entry count =>
    let (pml4,σ) := s.vm.newProcPML4 k
    return { s.goto c (.load entry count 0 (newProcess pml4 (calls c).args)) with vm := σ }
  | .load entry count i proc =>
    if i < count then do
      let r ← loadSegment (viaWalk proc.pml4) proc.pml4 (calls c).file (s.elfPTLoadBuf i) (s.vm,proc)
      return { s.goto c (.load entry count (i+1) r.2) with vm := r.1 }
    else
      let r := finishSpawn proc.pml4 entry (slice s.elfPTLoadBuf count) (s.vm,proc)
      return { s.goto c (.done r.2) with vm := r.1 }
  | .done _ => return s
  | .failed => return s

def step (k : Boot) (calls : ι → SpawnCall) (s : Spawning ι) (c : ι) : Spawning ι × List Unit :=
  if s.stopped then
    (s,[])
  else match s.next k calls c with
    | .ok s' => (s',[])
    | _ => ({ s with stopped := true },[])

end Spawning

/-- The headers a call has still to read. -/
def SpawnPc.pending : SpawnPc → ℕ → Prop
  | .create _ count, j => j < count
  | .load _ count i _, j => j < count ∧ (i ≤ j ∨ j+1 = count)
  | _, _ => False

/-- A call parses only if the headers the others have still to read stay as they are, and it
loads segments off the kernel's entries. -/
def Spawning.Keeps {ι : Type} (calls : ι → SpawnCall) (s : Spawning ι) (c : ι) : Prop :=
  match s.pc c with
  | .parse => ∀ entry phdrs, elfParse (calls c).file = .ok (some (entry,phdrs)) →
      ∀ d, d ≠ c → ∀ j, (s.pc d).pending j →
        storeHeaders s.elfPTLoadBuf phdrs j = s.elfPTLoadBuf j
  | .load _ count i _ => i < count → UserSegment (s.elfPTLoadBuf i)
  | _ => True

/-- The number of headers of a call that has parsed its file. -/
def SpawnPc.count : SpawnPc → ℕ
  | .create _ count => count
  | .load _ count _ _ => count
  | _ => 0

theorem SpawnPc.lt_count {pc : SpawnPc} {j : ℕ} (h : pc.pending j) : j < pc.count := by
  cases pc with
  | create => exact h
  | load => exact h.1
  | parse | done | failed => exact h.elim

instance SpawnPc.decidablePending (pc : SpawnPc) (j : ℕ) : Decidable (pc.pending j) :=
  match pc with
  | .create _ count => inferInstanceAs (Decidable (j < count))
  | .load _ count i _ => inferInstanceAs (Decidable (j < count ∧ (i ≤ j ∨ j+1 = count)))
  | .parse | .done _ | .failed => inferInstanceAs (Decidable False)

instance UserSegment.decidable (ph : Elf64Phdr) : Decidable (UserSegment ph) :=
  decidable_of_iff ((∀ a ∈ ph.pages, userPage a = true) ∧
    ∀ j < ph.filesz, sharedPath (vpath ((ph.vaddr+j)%2^64)) = false)
    ⟨fun h => ⟨h.1,h.2⟩,fun h => ⟨h.pages,h.bytes⟩⟩

/-- Only the headers of calls in progress have to be compared. -/
instance Spawning.decidableKeeps {ι : Type} [DecidableEq ι] [Fintype ι] (calls : ι → SpawnCall)
    (s : Spawning ι) (c : ι) : Decidable (s.Keeps calls c) :=
  match hpc : s.pc c with
  | .parse => match hparse : elfParse (calls c).file with
    | .ok (some (_,phdrs)) => decidable_of_iff (∀ d, d ≠ c → ∀ j < (s.pc d).count,
        (s.pc d).pending j → storeHeaders s.elfPTLoadBuf phdrs j = s.elfPTLoadBuf j) (by
      rw [Spawning.Keeps,hpc,hparse]
      constructor
      · rintro h _ _ ⟨⟩ d hd j hj
        exact h d hd j (SpawnPc.lt_count hj) hj
      · exact fun h d hd j _ hj => h _ phdrs rfl d hd j hj)
    | .ok none => isTrue (by rw [Spawning.Keeps,hpc,hparse]; rintro _ _ ⟨⟩)
    | .panic => isTrue (by rw [Spawning.Keeps,hpc,hparse]; rintro _ _ ⟨⟩)
    | .hang => isTrue (by rw [Spawning.Keeps,hpc,hparse]; rintro _ _ ⟨⟩)
  | .create _ _ => isTrue (by rw [Spawning.Keeps,hpc]; trivial)
  | .load _ count i _ => decidable_of_iff (i < count → UserSegment (s.elfPTLoadBuf i))
      (by rw [Spawning.Keeps,hpc])
  | .done _ => isTrue (by rw [Spawning.Keeps,hpc]; trivial)
  | .failed => isTrue (by rw [Spawning.Keeps,hpc]; trivial)

/-- The same view of memory for Ring 3, and the same entry point, stack, heap bounds and
arguments. -/
structure SameSpawn (σ : Vm) (child : Process) (σ₀ : Vm) (child₀ : Process) : Prop where
  view : ∀ v, σ.view child.pml4 v = σ₀.view child₀.pml4 v
  entryPoint : child.entryPoint = child₀.entryPoint
  stackTop : child.stackTop = child₀.stackTop
  heapBreak : child.heapBreak = child₀.heapBreak
  heapLimit : child.heapLimit = child₀.heapLimit
  argString : child.argString = child₀.argString

/-! ### One child -/

/-- The address space of a child holds an image, and the kernel's entries are closed. -/
structure Child (σ : Vm) (args : List UInt8) (proc : Process) (T : Tree ℕ ℕ) (I : Image) : Prop where
  space : Space σ proc.pml4 T
  image : image σ T = I
  proc : proc = { newProcess proc.pml4 args with userPages := proc.userPages }
  pdp : T [0] ≠ none
  closed : ∀ pdp i, T [0] = some pdp → sharedPath [0,i] = true → present (σ.mem pdp i) = true →
    user (σ.mem pdp i) = false

section Child

variable {z : Prop} {σ σ' : Vm} {args : List UInt8} {proc : Process} {T T' : Tree ℕ ℕ} {I : Image}

/-- The address space is in its frames. -/
theorem Child.congr (h : Child σ args proc T I) (hwf : σ'.Wf) (hfree : ∀ f, σ'.Free f → σ.Free f)
    (hkept : ∀ p f, T p = some f → σ'.mem f = σ.mem f) : Child σ' args proc T I where
  space := by
    refine ⟨hwf,h.space.holds.congr fun p f i hp _ _ => by rw [hkept p f hp],h.space.root,?_,?_⟩
    · exact fun p f hp => ⟨fun hf => (h.space.busy p f hp).1 (hfree f hf),(h.space.busy p f hp).2⟩
    · intro q hlen hq p i f hpre hp
      rw [hkept p f hp]
      exact h.space.lit q hlen hq p i f hpre hp
  image := by
    rw [← h.image]
    ext1 v
    rw [Mem.image,Mem.image]
    cases hf : T (vpath v) with
    | none => rfl
    | some f => rw [Option.map_some,Option.map_some,Vm.byte,hkept _ f hf,Vm.byte]
  proc := h.proc
  pdp := h.pdp
  closed pdp i hpdp hs hp := by
    rw [hkept _ pdp hpdp] at hp ⊢
    exact h.closed pdp i hpdp hs hp

/-- The loader may start from it. -/
theorem Child.loaded (h : Child σ args proc T I) :
    Loaded z (fun _ => True) σ T proc.pml4 proc (σ,proc) T I :=
  ⟨h.space,(Grows.refl ..).touches,fun _ hq => .inl hq,h.image,fun _ hp => .inl hp,rfl⟩

/-- Where the loader has got to is an address space again. -/
theorem Loaded.child {R : ℕ → Prop} {r : Vm × Process} (h : Child σ args proc T I) {I' : Image}
    (hl : Loaded z R σ T proc.pml4 proc r T' I') : Child r.1 args r.2 T' I' := by
  have hpml4 : r.2.pml4 = proc.pml4 := by rw [hl.proc]
  obtain ⟨pdp,hpdp⟩ := Option.ne_none_iff_exists'.mp h.pdp
  have hpdp' := hl.touches.tables [0] pdp hpdp (by decide)
  refine ⟨hpml4 ▸ hl.space,hl.image,?_,by simp [hpdp'],?_⟩
  · have hproc := hl.proc
    rw [h.proc] at hproc
    rw [hpml4]
    exact hproc
  · intro pdp₁ i hpdp₁ hs hp
    rw [hpdp',some_inj] at hpdp₁
    rw [← hpdp₁,hl.touches.shared [0] pdp i hpdp (by decide) hs] at hp ⊢
    exact h.closed pdp i hpdp hs hp

/-- A new address space is a child with an empty image. -/
theorem Newborn.child {k : Boot} {pml4 pdp : ℕ} (h : Newborn z k σ pml4 pdp σ')
    (hk : KernelEntries k σ) : Child σ' args (newProcess pml4 args) (rootTree pml4 pdp) noImage := by
  have hpdp : rootTree pml4 pdp [0] = some pdp := update_self ..
  refine ⟨h.space,h.image,rfl,by simp [hpdp],?_⟩
  intro pdp₁ i hpdp₁ hs hp
  rw [hpdp,some_inj] at hpdp₁
  subst hpdp₁
  by_cases h0 : i = 0
  · rw [h0,h.shared0]
    exact hk.user0
  · by_cases h3 : i = 3
    · subst h3
      rw [h.shared3 hk.busy hp]
      exact hk.user3
    · simp [sharedPath,h0,h3] at hs

/-- What Ring 3 sees is the image. -/
theorem Child.view (h : Child σ args proc T I) (v : ℕ) : σ.view proc.pml4 v =
    if canonical v = true ∧ sharedPath (vpath v) = false then (I v).map fun b => (b,true)
    else none := by
  split
  · rename_i hv
    rw [Vm.view,h.space.translate hv.2 hv.1,← h.image,Mem.image]
    cases T (vpath v) <;> rfl
  · rename_i hv
    rw [Vm.view]
    cases hl : σ.translate proc.pml4 v with
    | none => rfl
    | some l =>
      have hc := canonical_of_translate hl
      have hs : sharedPath (vpath v) = true := by
        by_contra hs
        exact hv ⟨hc,by simpa using hs⟩
      obtain ⟨h4,h3⟩ := sharedPath_vpath hs
      obtain ⟨pdp,hpdp⟩ := Option.ne_none_iff_exists'.mp h.pdp
      have hlink := h.space.holds.linked [] 0 _ pdp h.space.root hpdp
      have hshared : sharedPath [0,Vm.pdpIdx v] = true := by
        obtain h3 | h3 := h3 <;> rw [h3] <;> rfl
      have huser : l.user = false := by
        by_contra hu
        obtain ⟨hpresent,huser⟩ := pdp_of_translate hl (by simpa using hu)
        rw [h4,hlink.frameOf] at hpresent huser
        rw [h.closed pdp _ hpdp hshared hpresent] at huser
        cases huser
      rw [Option.bind_some,huser]
      rfl

end Child

/-! ### A call alone -/

section Alone

variable {data args : List UInt8}

theorem copyBytes_isOk (root : ℕ) {ph : Elf64Phdr} {n j : ℕ}
    (h : ∀ i, j ≤ i → i < j+n → (ph.offset+i)%2^64 < data.length) (σ : Vm) :
    ∃ σ', copyBytes (viaWalk root) ph data n j σ = .ok σ' := by
  induction n generalizing j σ with
  | zero => exact ⟨σ,rfl⟩
  | succ n ih =>
    have hj := h j le_rfl (by omega)
    have hindex : index data ((ph.offset+j)%2^64) = .ok (data[(ph.offset+j)%2^64]) := by
      rw [index,List.getElem?_eq_getElem hj]
    rw [copyBytes]
    rw [hindex]
    exact ih (fun i hi hin => h i (by omega) (by omega)) _

/-- What a segment needs to be loaded without a panic. -/
structure Sound (data : List UInt8) (ph : Elf64Phdr) : Prop where
  segment : UserSegment ph
  vaddr : ph.vaddr < 2^64
  inside : ∀ j < ph.filesz, (ph.offset+j)%2^64 < data.length

theorem loadSegments_isOk (root : ℕ) {phdrs : List Elf64Phdr} (h : ∀ ph ∈ phdrs, Sound data ph)
    (s : Vm × Process) : ∃ s', loadSegments (viaWalk root) root data phdrs s = .ok s' := by
  induction phdrs generalizing s with
  | nil => exact ⟨s,rfl⟩
  | cons ph phdrs ih =>
    have hph := h ph (List.mem_cons_self ..)
    rw [loadSegments,loadSegment,mapSegment_eq hph.segment.pages hph.vaddr,Res.ok_bind]
    obtain ⟨σ',hcopy⟩ := copyBytes_isOk root (n := ph.filesz) (j := 0)
      (fun i _ hi => hph.inside i (by omega))
      (ph.visited.foldl (fun s a => mapSegmentPage root a s) s).1
    rw [hcopy]
    exact ih (fun q hq => h q (List.mem_cons_of_mem _ hq)) _

/-- Sound segments are loaded, and the child holds their image. -/
theorem elfSpawn_child {k : Boot} {σ : Vm} {entry : ℕ} {phdrs : List Elf64Phdr} (hwf : σ.Wf)
    (hk : KernelEntries k σ) (hparse : elfParse data = .ok (some (entry,phdrs)))
    (h : ∀ ph ∈ phdrs, Sound data ph) :
    ∃ child σ' proc T, elfSpawn k (some data) args σ = .ok (some child,σ') ∧
      Child σ' args proc T (Image.spawn data args phdrs) ∧ child = setEntry entry phdrs proc := by
  obtain ⟨s,hs⟩ := loadSegments_isOk (σ.newProcPML4 k).1 h
    ((σ.newProcPML4 k).2,newProcess (σ.newProcPML4 k).1 args)
  have hok : ∃ child σ', elfSpawn k (some data) args σ = .ok (some child,σ') := by
    simp only [elfSpawn,hparse,Res.ok_bind,hs,Res.pure_eq]
    exact ⟨_,_,rfl⟩
  obtain ⟨child,σ',hok⟩ := hok
  obtain ⟨σ₁,proc,T,hspawn⟩ := elfSpawn_spec False (fun _ => True) hwf hparse
    (fun ph hph => ⟨(h ph hph).segment.offKernel,fun _ _ => trivial⟩) (fun _ _ => trivial)
    (fun hz => hz.elim) hok
  exact ⟨child,σ',proc,T,hok,hspawn.loaded.child (hspawn.newborn.child hk),hspawn.child⟩

end Alone

/-- Two children with the same image and headers are the same to Ring 3. -/
theorem Child.same {σ σ₀ : Vm} {args : List UInt8} {proc proc₀ : Process} {T T₀ : Tree ℕ ℕ}
    {I : Image} (h : Child σ args proc T I) (h₀ : Child σ₀ args proc₀ T₀ I) (entry : ℕ)
    (phdrs : List Elf64Phdr) :
    SameSpawn σ (setEntry entry phdrs proc) σ₀ (setEntry entry phdrs proc₀) := by
  have hview (v : ℕ) : σ.view proc.pml4 v = σ₀.view proc₀.pml4 v := by rw [h.view,h₀.view]
  have hproc := h.proc
  have hproc₀ := h₀.proc
  refine ⟨fun v => ?_,?_,?_,?_,?_,?_⟩
  · rw [setEntry_pml4,setEntry_pml4]
    exact hview v
  all_goals
    rw [hproc,hproc₀,setEntry,setEntry,setHeap,setHeap]
    cases phdrs.getLast? <;> rfl

/-! ### All calls -/

/-- What is known of a call: its headers are those of its file, as far as they have still to
be read, and its address space holds what has been loaded. -/
def CallOk (call : SpawnCall) (σ : Vm) (buf : ℕ → Elf64Phdr) (T : Tree ℕ ℕ) : SpawnPc → Prop
  | .parse => T = noTree
  | .failed => T = noTree ∧ elfParse call.file = .ok none
  | .create entry count => T = noTree ∧ ∃ phdrs, elfParse call.file = .ok (some (entry,phdrs)) ∧
      phdrs.length = count ∧ ∀ j, (SpawnPc.create entry count).pending j → phdrs[j]? = some (buf j)
  | .load entry count i proc => ∃ phdrs, elfParse call.file = .ok (some (entry,phdrs)) ∧
      phdrs.length = count ∧ i ≤ count ∧
      (∀ j, (SpawnPc.load entry count i proc).pending j → phdrs[j]? = some (buf j)) ∧
      (∀ ph ∈ phdrs.take i, Sound call.file ph) ∧
      Child σ call.args proc T (Image.loadSegments call.file (phdrs.take i) noImage)
  | .done child => ∃ entry phdrs proc, elfParse call.file = .ok (some (entry,phdrs)) ∧
      (∀ ph ∈ phdrs, Sound call.file ph) ∧ child = setEntry entry phdrs proc ∧
      Child σ call.args proc T (Image.spawn call.file call.args phdrs)

/-- The calls have trees apart from each other and from the boot PDP. -/
structure SpawnInv {ι : Type} (k : Boot) (calls : ι → SpawnCall) (s : Spawning ι)
    (T : ι → Tree ℕ ℕ) : Prop where
  wf : s.vm.Wf
  kernel : KernelEntries k s.vm
  boot : ∀ c p, T c p ≠ some k.bootKernelPDP
  apart : ∀ c d, c ≠ d → ∀ p q f, T c p = some f → T d q ≠ some f
  busy : ∀ c p f, T c p = some f → ¬s.vm.Free f ∧ f ≠ 0
  calls : ∀ c, CallOk (calls c) s.vm s.elfPTLoadBuf (T c) (s.pc c)

section Run

variable {ι : Type} [DecidableEq ι] {k : Boot} {calls : ι → SpawnCall} {s : Spawning ι}
  {T : ι → Tree ℕ ℕ} {c : ι}

theorem CallOk.congr {call : SpawnCall} {σ σ' : Vm} {buf buf' : ℕ → Elf64Phdr} {T : Tree ℕ ℕ}
    {pc : SpawnPc} (h : CallOk call σ buf T pc) (hwf : σ'.Wf) (hfree : ∀ f, σ'.Free f → σ.Free f)
    (hkept : ∀ p f, T p = some f → σ'.mem f = σ.mem f)
    (hbuf : ∀ j, pc.pending j → buf' j = buf j) : CallOk call σ' buf' T pc := by
  cases pc with
  | parse | failed => exact h
  | create entry count =>
    obtain ⟨hT,phdrs,hparse,hlen,hpend⟩ := h
    refine ⟨hT,phdrs,hparse,hlen,fun j hj => ?_⟩
    rw [hbuf j hj]
    exact hpend j hj
  | load entry count i proc =>
    obtain ⟨phdrs,hparse,hlen,hi,hpend,hsound,hchild⟩ := h
    refine ⟨phdrs,hparse,hlen,hi,fun j hj => ?_,hsound,hchild.congr hwf hfree hkept⟩
    rw [hbuf j hj]
    exact hpend j hj
  | done child =>
    obtain ⟨entry,phdrs,proc,hparse,hsound,hproc,hchild⟩ := h
    exact ⟨entry,phdrs,proc,hparse,hsound,hproc,hchild.congr hwf hfree hkept⟩

/-- A call goes on in frames of its own and leaves the pending headers of the others. -/
theorem SpawnInv.move (h : SpawnInv k calls s T) (hk0 : k.bootKernelPDP ≠ 0) {s' : Spawning ι}
    {T' : Tree ℕ ℕ} {pc' : SpawnPc} (ht : Touches False s.vm (T c) s'.vm T') (hwf : s'.vm.Wf)
    (hbusy : ∀ p f, T' p = some f → ¬s'.vm.Free f ∧ f ≠ 0)
    (hpc : s'.pc = update s.pc c pc')
    (hbuf : ∀ d, d ≠ c → ∀ j, (s.pc d).pending j → s'.elfPTLoadBuf j = s.elfPTLoadBuf j)
    (hc : CallOk (calls c) s'.vm s'.elfPTLoadBuf T' pc') :
    SpawnInv k calls s' (update T c T') := by
  have hbootmem : s'.vm.mem k.bootKernelPDP = s.vm.mem k.bootKernelPDP :=
    ht.kept _ h.kernel.busy (fun h0 => hk0 h0) (h.boot c)
  -- frames of the others are neither free nor frames of this call
  have hother {d : ι} (hd : d ≠ c) {p : List ℕ} {f : ℕ} (hf : T d p = some f) :
      s'.vm.mem f = s.vm.mem f :=
    ht.kept f (h.busy d p f hf).1 (fun h0 => (h.busy d p f hf).2 h0)
      fun q hq => h.apart d c hd p q f hf hq
  have hnew {d : ι} (hd : d ≠ c) {p q : List ℕ} {f : ℕ} (hp : T' p = some f) : T d q ≠ some f := by
    intro hq
    obtain hold | hfree := ht.fresh p f hp
    · exact h.apart d c hd q p f hq hold
    · exact (h.busy d q f hq).1 hfree
  refine ⟨hwf,?_,?_,?_,?_,?_⟩
  · refine ⟨fun hf => h.kernel.busy (ht.free _ hf),h.kernel.user0,?_⟩
    rw [hbootmem]
    exact h.kernel.user3
  · intro d p hp
    by_cases hd : d = c
    · subst hd
      rw [update_self] at hp
      obtain hold | hfree := ht.fresh p _ hp
      · exact h.boot d p hold
      · exact h.kernel.busy hfree
    · rw [update_of_ne hd] at hp
      exact h.boot d p hp
  · intro d e hde p q f hp hq
    by_cases hd : d = c
    · subst hd
      rw [update_self] at hp
      rw [update_of_ne hde.symm] at hq
      exact hnew hde.symm hp hq
    · rw [update_of_ne hd] at hp
      by_cases he : e = c
      · subst he
        rw [update_self] at hq
        exact hnew hd hq hp
      · rw [update_of_ne he] at hq
        exact h.apart d e hde p q f hp hq
  · intro d p f hp
    by_cases hd : d = c
    · subst hd
      rw [update_self] at hp
      exact hbusy p f hp
    · rw [update_of_ne hd] at hp
      exact ⟨fun hf => (h.busy d p f hp).1 (ht.free f hf),(h.busy d p f hp).2⟩
  · intro d
    by_cases hd : d = c
    · subst hd
      rw [hpc,update_self,update_self]
      exact hc
    · rw [hpc,update_of_ne hd,update_of_ne hd]
      exact (h.calls d).congr hwf ht.free (fun p f hp => hother hd hp) (hbuf d hd)

/-- A call that touches no frame. -/
theorem Touches.refl_noTree (σ : Vm) : Touches False σ noTree σ noTree := (Grows.refl ..).touches

section

variable (h : SpawnInv k calls s T) (hk0 : k.bootKernelPDP ≠ 0)
include h hk0

theorem SpawnInv.parse (hpc : s.pc c = .parse) (hkeeps : s.Keeps calls c) {s' : Spawning ι}
    (hok : s.next k calls c = .ok s') : ∃ T', SpawnInv k calls s' T' := by
  have hT : T c = noTree := by
    have := h.calls c
    rwa [hpc] at this
  have hbusy (p : List ℕ) (f : ℕ) (hp : noTree p = some f) : ¬s.vm.Free f ∧ f ≠ 0 := by cases hp
  rw [Spawning.Keeps,hpc] at hkeeps
  rw [Spawning.next,hpc] at hok
  obtain ⟨parsed,hparse,hok⟩ := Res.bind_eq_ok.mp hok
  cases parsed with
  | none =>
    cases hok
    exact ⟨_,h.move (c := c) hk0 (hT ▸ Touches.refl_noTree s.vm) h.wf hbusy rfl (fun _ _ _ _ => rfl)
      ⟨rfl,hparse⟩⟩
  | some parsed =>
    obtain ⟨entry,phdrs⟩ := parsed
    cases hok
    refine ⟨_,h.move (c := c) hk0 (hT ▸ Touches.refl_noTree s.vm) h.wf hbusy rfl ?_
      ⟨rfl,phdrs,hparse,rfl,fun j hj => ?_⟩⟩
    · exact fun d hd j hj => hkeeps entry phdrs hparse d hd j hj
    · change phdrs[j]? = some (storeHeaders s.elfPTLoadBuf phdrs j)
      rw [storeHeaders,List.getElem?_eq_getElem hj]
      rfl

theorem SpawnInv.create {entry count : ℕ}
    (hpc : s.pc c = .create entry count) {s' : Spawning ι} (hok : s.next k calls c = .ok s') :
    ∃ T', SpawnInv k calls s' T' := by
  have hcall := h.calls c
  rw [hpc] at hcall
  obtain ⟨hT,phdrs,hparse,hlen,hpend⟩ := hcall
  have hnew := h.wf.newProcPML4 (z := False) k
  have hchild : Child _ (calls c).args _ _ _ := hnew.child h.kernel
  rw [Spawning.next,hpc] at hok
  cases hok
  refine ⟨_,h.move (c := c) hk0 (hT ▸ hnew.grows.touches) hnew.space.wf hnew.space.busy rfl
    (fun _ _ _ _ => rfl) ⟨phdrs,hparse,hlen,Nat.zero_le _,fun j hj => hpend j hj.1,?_,?_⟩⟩
  · intro ph hph
    cases hph
  · exact hchild

theorem SpawnInv.load {entry count i : ℕ}
    {proc : Process} (hpc : s.pc c = .load entry count i proc) (hi : i < count)
    (hkeeps : s.Keeps calls c) {s' : Spawning ι} (hok : s.next k calls c = .ok s') :
    ∃ T', SpawnInv k calls s' T' := by
  have hcall := h.calls c
  rw [hpc] at hcall
  obtain ⟨phdrs,hparse,hlen,-,hpend,hsound,hchild⟩ := hcall
  have hget := hpend i ⟨hi,.inl le_rfl⟩
  have hmem : s.elfPTLoadBuf i ∈ phdrs := List.mem_of_getElem? hget
  have hv := (elfParse_lt hparse hmem).1
  rw [Spawning.Keeps,hpc] at hkeeps
  have hseg := hkeeps hi
  rw [Spawning.next,hpc] at hok
  dsimp only at hok
  rw [if_pos hi] at hok
  obtain ⟨r,hload,hok⟩ := Res.bind_eq_ok.mp hok
  cases hok
  have hone : loadSegments (viaWalk proc.pml4) proc.pml4 (calls c).file [s.elfPTLoadBuf i]
      (s.vm,proc) = .ok r := by
    rw [loadSegments,hload]
    rfl
  have hinside := loadSegments_inside hone (List.mem_singleton.mpr rfl)
  obtain ⟨T',hT'⟩ := (hchild.loaded (z := False)).loadSegment (finds_viaWalk _)
    hseg.offKernel hv (fun _ _ => trivial) (fun hz => hz.elim) hload
  have htake : phdrs.take (i+1) = phdrs.take i++[s.elfPTLoadBuf i] := by
    rw [List.take_add_one,hget]
    rfl
  refine ⟨_,h.move (c := c) hk0 hT'.touches hT'.space.wf hT'.space.busy rfl (fun _ _ _ _ => rfl)
    ⟨phdrs,hparse,hlen,hi,fun j hj => hpend j ⟨hj.1,?_⟩,?_,?_⟩⟩
  · obtain hj | hj := hj.2
    · exact .inl (by omega)
    · exact .inr hj
  · intro ph hph
    rw [htake] at hph
    obtain hph | hph := List.mem_append.mp hph
    · exact hsound ph hph
    · rw [List.mem_singleton.mp hph]
      exact ⟨hseg,hv,hinside⟩
  · rw [htake,Image.loadSegments,List.foldl_append]
    exact hT'.child hchild

end

/-- Of the headers the last step reads only the last one. -/
theorem setEntry_slice {buf : ℕ → Elf64Phdr} {phdrs : List Elf64Phdr} {entry count : ℕ}
    (hlen : phdrs.length = count) (hlast : ∀ j, j+1 = count → phdrs[j]? = some (buf j))
    (proc : Process) : setEntry entry (slice buf count) proc = setEntry entry phdrs proc := by
  have hget : (slice buf count).getLast? = phdrs.getLast? := by
    rw [List.getLast?_eq_getElem?,List.getLast?_eq_getElem?,slice,hlen]
    cases count with
    | zero =>
      rw [List.length_eq_zero_iff.mp hlen]
      rfl
    | succ n =>
      rw [Nat.add_sub_cancel,hlast n rfl]
      simp
  rw [setEntry,setEntry,setHeap,setHeap,hget]

theorem SpawnInv.finish (h : SpawnInv k calls s T) (hk0 : k.bootKernelPDP ≠ 0) {entry count i : ℕ}
    {proc : Process} (hpc : s.pc c = .load entry count i proc) (hi : ¬i < count)
    {s' : Spawning ι} (hok : s.next k calls c = .ok s') : ∃ T', SpawnInv k calls s' T' := by
  have hcall := h.calls c
  rw [hpc] at hcall
  obtain ⟨phdrs,hparse,hlen,hle,hpend,hsound,hchild⟩ := hcall
  have htake : phdrs.take i = phdrs := List.take_of_length_le (by omega)
  rw [htake] at hsound hchild
  have hargs : proc.argString = (calls c).args.take 256 := by rw [hchild.proc]; rfl
  obtain ⟨T₁,h₁⟩ := (hchild.loaded (z := False)).mapArgPage trivial (by
    rw [hargs,List.length_take,pageSize]
    omega)
  obtain ⟨T₂,h₂⟩ := h₁.mapStack fun _ _ => trivial
  rw [Spawning.next,hpc] at hok
  dsimp only at hok
  rw [if_neg hi,finishSpawn] at hok
  generalize mapStack proc.pml4 (mapArgPage proc.pml4 (s.vm,proc)) = r at h₂ hok
  cases hok
  refine ⟨_,h.move (c := c) hk0 h₂.touches h₂.space.wf h₂.space.busy rfl (fun _ _ _ _ => rfl)
    ⟨entry,phdrs,r.2,hparse,hsound,?_,?_⟩⟩
  · exact setEntry_slice hlen (fun j hj => hpend j ⟨by omega,.inr hj⟩) r.2
  · rw [Image.spawn,← hargs]
    exact h₂.child hchild

theorem SpawnInv.step (hk0 : k.bootKernelPDP ≠ 0) (h : ∃ T, SpawnInv k calls s T)
    (hkeeps : s.Keeps calls c) : ∃ T, SpawnInv k calls (s.step k calls c).1 T := by
  obtain ⟨T,h⟩ := h
  rw [Spawning.step]
  split
  · exact ⟨T,h⟩
  cases hok : s.next k calls c with
  | panic | hang => exact ⟨T,⟨h.wf,h.kernel,h.boot,h.apart,h.busy,h.calls⟩⟩
  | ok s' =>
    cases hpc : s.pc c with
    | parse => exact h.parse hk0 hpc hkeeps hok
    | create entry count => exact h.create hk0 hpc hok
    | load entry count i proc =>
      by_cases hi : i < count
      · exact h.load hk0 hpc hi hkeeps hok
      · exact h.finish hk0 hpc hi hok
    | done | failed =>
      rw [Spawning.next,hpc] at hok
      cases hok
      exact ⟨T,h⟩

omit [DecidableEq ι] in
theorem spawnInv_start {σ : Vm} (buf : ℕ → Elf64Phdr) (hwf : σ.Wf) (hk : KernelEntries k σ) :
    SpawnInv k calls (Spawning.start σ buf) fun _ => noTree :=
  ⟨hwf,hk,fun _ _ hp => (by cases hp),fun _ _ _ _ _ _ hp => (by cases hp),
    fun _ _ _ hp => (by cases hp),fun _ => rfl⟩

/-- In a run whose calls leave each other's pending headers alone, every call ends as it
would alone. -/
theorem spawns_as_alone {σ : Vm} {buf : ℕ → Elf64Phdr} {run : List ι} (hwf : σ.Wf)
    (hk : KernelEntries k σ) (hk0 : k.bootKernelPDP ≠ 0)
    (hmeets : Trace.Meets (Spawning.step k calls) (Spawning.Keeps calls) (.start σ buf) run) (c : ι) :
    (∀ child, (exec (Spawning.step k calls) (.start σ buf) run).pc c = .done child →
      ∃ child₀ σ₀, elfSpawn k (some (calls c).file) (calls c).args σ = .ok (some child₀,σ₀) ∧
        SameSpawn (exec (Spawning.step k calls) (.start σ buf) run).vm child σ₀ child₀) ∧
    ((exec (Spawning.step k calls) (.start σ buf) run).pc c = .failed →
      elfSpawn k (some (calls c).file) (calls c).args σ = .ok (none,σ)) := by
  obtain ⟨T,hinv⟩ := Trace.Meets.inv (I := fun s => ∃ T, SpawnInv k calls s T)
    (fun s e h hg => SpawnInv.step hk0 h hg) ⟨_,spawnInv_start buf hwf hk⟩ hmeets
  have hcall := hinv.calls c
  constructor
  · intro child hpc
    rw [hpc] at hcall
    obtain ⟨entry,phdrs,proc,hparse,hsound,rfl,hchild⟩ := hcall
    obtain ⟨child₀,σ₀,proc₀,T₀,hok,hchild₀,rfl⟩ := elfSpawn_child hwf hk hparse hsound
    exact ⟨_,σ₀,hok,hchild.same hchild₀ entry phdrs⟩
  · intro hpc
    rw [hpc] at hcall
    simp only [elfSpawn,hcall.2,Res.ok_bind,Res.pure_eq]

end Run

/-- What a finished call has returned. -/
def SpawnPc.child? : SpawnPc → Option Process
  | .done child => some child
  | _ => none

theorem SpawnPc.exists_of_child? (pc : SpawnPc) (h : pc.child?.isSome = true) :
    ∃ child, pc = .done child := by
  cases pc with
  | done child => exact ⟨child,rfl⟩
  | parse | create | load | failed => cases h

def noHeaders (_ : ℕ) : Elf64Phdr := loadPhdr 0 0 0 0

/-- Two calls for one file, step by step in turn. -/
theorem spawns_as_alone_twice : ∃ child child₀ σ₀,
    (exec (Spawning.step bootKernel fun _ : Bool => ⟨tinyFile,[]⟩) (.start bootVm noHeaders)
      [false,true,false,true,false,true,false,true]).pc true = .done child ∧
    elfSpawn bootKernel (some tinyFile) [] bootVm = .ok (some child₀,σ₀) ∧
    SameSpawn (exec (Spawning.step bootKernel fun _ : Bool => ⟨tinyFile,[]⟩)
      (.start bootVm noHeaders) [false,true,false,true,false,true,false,true]).vm child σ₀ child₀ := by
  obtain ⟨child,hpc⟩ := SpawnPc.exists_of_child? ((exec
    (Spawning.step bootKernel fun _ : Bool => ⟨tinyFile,[]⟩) (.start bootVm noHeaders)
      [false,true,false,true,false,true,false,true]).pc true) (by decide +kernel)
  obtain ⟨child₀,σ₀,hok,hsame⟩ := (spawns_as_alone bootVm_wf
    ⟨by decide,by decide +kernel,by decide +kernel⟩ (by decide) (by decide +kernel) true).1 child hpc
  exact ⟨child,child₀,σ₀,hpc,hok,hsame⟩

/-- The same program one page table further up. -/
def otherFile : List UInt8 := elfFile 0x40200000 [loadPhdr 120 0x40200000 1 1] [0xC3]

def mixedCalls : Bool → SpawnCall
  | false => ⟨tinyFile,[]⟩
  | true => ⟨otherFile,[]⟩

/-- Both calls parse before the first one loads: the first child gets the other file's
addresses. -/
theorem headers_mixed_up : ∃ child child₀ σ₀,
    (exec (Spawning.step bootKernel mixedCalls) (.start bootVm noHeaders)
      [false,true,false,false,false]).pc false = .done child ∧
    elfSpawn bootKernel (some tinyFile) [] bootVm = .ok (some child₀,σ₀) ∧
    child.heapBreak = 0x40201000 ∧ child₀.heapBreak = 0x40101000 ∧
    ¬SameSpawn (exec (Spawning.step bootKernel mixedCalls) (.start bootVm noHeaders)
      [false,true,false,false,false]).vm child σ₀ child₀ := by
  obtain ⟨child,hpc⟩ := SpawnPc.exists_of_child? ((exec
    (Spawning.step bootKernel mixedCalls) (.start bootVm noHeaders)
      [false,true,false,false,false]).pc false) (by decide +kernel)
  obtain ⟨child₀,σ₀,hok,-,hb₀,-⟩ := tinyFile_spawns
  have hbreak : ((exec (Spawning.step bootKernel mixedCalls) (.start bootVm noHeaders)
      [false,true,false,false,false]).pc false).child?.map Process.heapBreak = some 0x40201000 := by
    decide +kernel
  rw [hpc] at hbreak
  have hb : child.heapBreak = 0x40201000 := some_inj.mp hbreak
  refine ⟨child,child₀,σ₀,hpc,hok,hb,hb₀,fun h => ?_⟩
  exact absurd (hb.symm.trans (h.heapBreak.trans hb₀)) (by decide)

end Gooos.Mem
