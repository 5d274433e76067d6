import Gooos.Mem.Vm
import Gooos.Mem.Elf

/-!
# Loading, growing and ending a process

`elfSpawn`, `processExit` and the page bookkeeping of `process.go`, `elfLoad` of `elf.go`
for the boot shell, and `sysSbrkHandler` of `userspace.go`, as far as they concern memory.
-/

namespace Gooos.Mem

def maxUserPages : ℕ := 512
def userHeapLimit : ℕ := 2*1024*1024
def argPageVaddr : ℕ := 0x40300000
def userStackBase : ℕ := 0x7FFF0000

/-- The window of `netsock.go` that user pointers have to be in. -/
def userAddrMin : ℕ := 0x40000000
def userAddrMax : ℕ := 0x80000000

structure Process where
  pml4 : ℕ
  /-- The first `ArgLen` bytes of `ArgString`. -/
  argString : List UInt8
  /-- `UserPages` with `UserPaddrs`, the first `UserPageCnt` of them. -/
  userPages : List (ℕ × ℕ)
  heapBreak : ℕ
  heapLimit : ℕ
  entryPoint : ℕ
  stackTop : ℕ
  exitCode : ℕ
  exited : Bool
  deriving DecidableEq, Repr

def newProcess (pml4 : ℕ) (args : List UInt8) : Process where
  pml4 := pml4
  argString := args.take 256
  userPages := []
  heapBreak := 0
  heapLimit := 0
  entryPoint := 0
  stackTop := 0
  exitCode := 0
  exited := false

def processRecordPage (proc : Process) (vaddr paddr : ℕ) : Process :=
  if proc.userPages.length < maxUserPages then
    { proc with userPages := proc.userPages++[(vaddr,paddr)] }
  else
    proc

/-- `a &^ (pageSize - 1)`. -/
def pageAlign (a : ℕ) : ℕ := a/pageSize*pageSize

/-! ### Loops over pages -/

section Loop

variable {α : Type}

/-- `for ; addr < endAddr; addr += pageSize`, for as long as there is fuel. -/
def forPages (body : ℕ → α → α) (endAddr : ℕ) : ℕ → ℕ → α → Res α
  | 0, _, _ => .hang
  | fuel+1, addr, s =>
    if addr < endAddr then
      forPages body endAddr fuel ((addr+pageSize)%2^64) (body addr s)
    else
      .ok s

/-- There are `2^52` page addresses. A loop that has taken more steps has wrapped around
and goes on for ever. -/
def pageFuel : ℕ := 2^52+1

/-- The addresses the loop visits if it does not wrap. -/
def pages (addr endAddr : ℕ) : List ℕ :=
  (List.range ((endAddr-addr+(pageSize-1))/pageSize)).map fun i => addr+i*pageSize

theorem pages_of_le {addr endAddr : ℕ} (h : endAddr ≤ addr) : pages addr endAddr = [] := by
  have hzero : (endAddr-addr+(pageSize-1))/pageSize = 0 := by
    rw [Nat.sub_eq_zero_of_le h]
    decide
  rw [pages,hzero]
  rfl

theorem pages_of_lt {addr endAddr : ℕ} (h : addr < endAddr) :
    pages addr endAddr = addr::pages (addr+pageSize) endAddr := by
  have hcount : (endAddr-addr+(pageSize-1))/pageSize =
      (endAddr-(addr+pageSize)+(pageSize-1))/pageSize+1 := by
    simp only [pageSize]
    omega
  rw [pages,hcount,List.range_succ_eq_map,List.map_cons,List.map_map,pages]
  refine congrArg₂ List.cons (by omega) (List.map_congr_left fun i _ => ?_)
  simp only [Function.comp_apply,Nat.succ_eq_add_one]
  ring

theorem mem_pages {addr endAddr a : ℕ} :
    a ∈ pages addr endAddr ↔ addr ≤ a ∧ a < endAddr ∧ pageSize ∣ a-addr := by
  rw [pages,List.mem_map]
  constructor
  · rintro ⟨i,hi,rfl⟩
    rw [List.mem_range] at hi
    refine ⟨Nat.le_add_right ..,?_,⟨i,by rw [Nat.add_sub_cancel_left,Nat.mul_comm]⟩⟩
    simp only [pageSize] at hi ⊢
    omega
  · rintro ⟨hle,hlt,i,hi⟩
    refine ⟨i,?_,by rw [Nat.mul_comm,← hi]; omega⟩
    rw [List.mem_range]
    simp only [pageSize] at hi ⊢
    omega

theorem length_pages_le {addr endAddr : ℕ} (h : endAddr ≤ 2^64) :
    (pages addr endAddr).length < pageFuel := by
  have hcount : (endAddr-addr+4095)/4096 < 2^52+1 := by omega
  rw [pages,List.length_map,List.length_range]
  exact hcount

theorem forPages_of_lt (body : ℕ → α → α) {addr endAddr : ℕ} (fuel : ℕ) (s : α)
    (h : addr < endAddr) (hwrap : addr+pageSize < 2^64) :
    forPages body endAddr (fuel+1) addr s =
      forPages body endAddr fuel (addr+pageSize) (body addr s) := by
  rw [forPages,if_pos h,Nat.mod_eq_of_lt hwrap]

theorem forPages_of_le (body : ℕ → α → α) {addr endAddr : ℕ} (fuel : ℕ) (s : α)
    (h : endAddr ≤ addr) : forPages body endAddr (fuel+1) addr s = .ok s := by
  rw [forPages,if_neg (Nat.not_lt.mpr h)]

/-- Below the last page the counter does not wrap. -/
theorem forPages_eq (body : ℕ → α → α) {addr endAddr fuel : ℕ} {s : α}
    (he : endAddr+pageSize ≤ 2^64) (hfuel : (pages addr endAddr).length < fuel) :
    forPages body endAddr fuel addr s =
      .ok ((pages addr endAddr).foldl (fun s a => body a s) s) := by
  induction fuel generalizing addr s with
  | zero => exact absurd hfuel (Nat.not_lt_zero _)
  | succ fuel ih =>
    obtain h | h := Nat.lt_or_ge addr endAddr
    · have hlen : (pages (addr+pageSize) endAddr).length < fuel := by
        rw [pages_of_lt h,List.length_cons] at hfuel
        omega
      have hwrap : addr+pageSize < 2^64 := Nat.lt_of_lt_of_le (Nat.add_lt_add_right h _) he
      rw [forPages_of_lt body fuel s h hwrap,ih hlen,pages_of_lt h,List.foldl_cons]
    · rw [forPages_of_le body fuel s h,pages_of_le h,List.foldl_nil]

/-- A loop to the last page of all starts again at 0. -/
theorem forPages_hang (body : ℕ → α → α) {addr endAddr : ℕ} (he : 2^64 < endAddr+pageSize)
    (haddr : pageSize ∣ addr) (hlt : addr < 2^64) (fuel : ℕ) (s : α) :
    forPages body endAddr fuel addr s = .hang := by
  induction fuel generalizing addr s with
  | zero => rfl
  | succ fuel ih =>
    have hnext : addr < endAddr ∧ pageSize ∣ (addr+pageSize)%2^64 := by
      simp only [pageSize] at *
      omega
    rw [forPages,if_pos hnext.1]
    exact ih hnext.2 (Nat.mod_lt _ (by decide)) _

/-- What every turn of the loop keeps holds when it ends. -/
theorem forPages_inv {body : ℕ → α → α} {P : α → Prop} (hbody : ∀ a s, P s → P (body a s))
    {addr endAddr fuel : ℕ} {s s' : α} (hs : P s)
    (h : forPages body endAddr fuel addr s = .ok s') : P s' := by
  induction fuel generalizing addr s with
  | zero => cases h
  | succ fuel ih =>
    rw [forPages] at h
    split at h
    · exact ih (hbody addr s hs) h
    · cases h
      exact hs

end Loop

/-! ### Mapping -/

/-- Map a new frame at an address and record it. -/
def mapFresh (root vaddr : ℕ) (s : Vm × Process) : Vm × Process :=
  let (paddr,σ) := s.1.allocPage
  (σ.mapPageInto root vaddr paddr userFlags,processRecordPage s.2 vaddr paddr)

def mapSegmentPage (root addr : ℕ) (s : Vm × Process) : Vm × Process :=
  if s.1.walkAndGetPaddrIn root addr ≠ 0 then s else mapFresh root addr s

/-- `ph.Vaddr + uintptr(ph.Memsz)`. -/
def Elf64Phdr.endAddr (ph : Elf64Phdr) : ℕ := (ph.vaddr+ph.memsz)%2^64

def mapSegment (root : ℕ) (ph : Elf64Phdr) (s : Vm × Process) : Res (Vm × Process) :=
  forPages (mapSegmentPage root) ph.endAddr pageFuel (pageAlign ph.vaddr) s

/-- Copy `n` bytes of a segment from byte `j` on. `frame` finds the frame that is written. -/
def copyBytes (frame : Vm → ℕ → Option ℕ) (ph : Elf64Phdr) (data : List UInt8) :
    ℕ → ℕ → Vm → Res Vm
  | 0, _, σ => .ok σ
  | n+1, j, σ =>
    let vaddr := (ph.vaddr+j)%2^64
    match frame σ vaddr with
    | none => .panic
    | some f => do
      let b ← index data ((ph.offset+j)%2^64)
      copyBytes frame ph data n (j+1) (σ.setByte f (vaddr%pageSize) b.toNat)

/-- `elfSpawn` writes through the physical address its own walk gives, 0 included. -/
def viaWalk (root : ℕ) (σ : Vm) (vaddr : ℕ) : Option ℕ := some (σ.walkAndGetPaddrIn root vaddr)

/-- `elfLoad` writes through the loaded tables and faults where nothing is mapped. -/
def viaTables (root : ℕ) (σ : Vm) (vaddr : ℕ) : Option ℕ :=
  (σ.translate root vaddr).map Leaf.frame

def loadSegment (frame : Vm → ℕ → Option ℕ) (root : ℕ) (data : List UInt8) (ph : Elf64Phdr)
    (s : Vm × Process) : Res (Vm × Process) := do
  let s ← mapSegment root ph s
  let σ ← copyBytes frame ph data ph.filesz 0 s.1
  return (σ,s.2)

def loadSegments (frame : Vm → ℕ → Option ℕ) (root : ℕ) (data : List UInt8) :
    List Elf64Phdr → Vm × Process → Res (Vm × Process)
  | [], s => .ok s
  | ph::phs, s => do
    let s ← loadSegment frame root data ph s
    loadSegments frame root data phs s

def Vm.putBytes (f : ℕ) : ℕ → List UInt8 → Vm → Vm
  | _, [], σ => σ
  | off, b::bs, σ => putBytes f (off+1) bs (σ.setByte f off b.toNat)

def mapArgPage (root : ℕ) (s : Vm × Process) : Vm × Process :=
  let argPaddr := s.1.allocPage.1
  let s := mapFresh root argPageVaddr s
  (s.1.putBytes argPaddr 0 s.2.argString,s.2)

def mapStack (root : ℕ) (s : Vm × Process) : Vm × Process :=
  (List.range 4).foldl (fun s i => mapFresh root (userStackBase+i*pageSize) s) s

/-- The heap begins after the last header's segment. -/
def setHeap (phdrs : List Elf64Phdr) (proc : Process) : Process :=
  match phdrs.getLast? with
  | none => proc
  | some lastPh =>
    let heapBreak := pageAlign ((lastPh.vaddr+lastPh.memsz+(pageSize-1))%2^64)
    { proc with heapBreak, heapLimit := (heapBreak+userHeapLimit)%2^64 }

def setEntry (entry : ℕ) (phdrs : List Elf64Phdr) (proc : Process) : Process :=
  setHeap phdrs { proc with entryPoint := entry, stackTop := userStackBase+3*pageSize-8 }

/-- What `elfSpawn` does after the last segment. -/
def finishSpawn (root entry : ℕ) (phdrs : List Elf64Phdr) (s : Vm × Process) : Vm × Process :=
  let s := mapStack root (mapArgPage root s)
  (s.1,setEntry entry phdrs s.2)

/-- `file` is what `fsSendRead` returns. -/
def elfSpawn (k : Boot) (file : Option (List UInt8)) (args : List UInt8) (σ : Vm) :
    Res (Option Process × Vm) :=
  match file with
  | none => .ok (none,σ)
  | some data => do
    match ← elfParse data with
    | none => return (none,σ)
    | some (entry,phdrs) =>
      let (pml4,σ) := σ.newProcPML4 k
      let s ← loadSegments (viaWalk pml4) pml4 data phdrs (σ,newProcess pml4 args)
      let s := finishSpawn pml4 entry phdrs s
      return (some s.2,s.1)

/-- The child and the memory of a successful `elfSpawn`. -/
def spawned : Res (Option Process × Vm) → Option (Process × Vm)
  | .ok (some child,σ) => some (child,σ)
  | _ => none

theorem exists_of_spawned {r : Res (Option Process × Vm)} (h : (spawned r).isSome = true) :
    ∃ child σ, r = .ok (some child,σ) := by
  match r with
  | .ok (some child,σ) => exact ⟨child,σ,rfl⟩
  | .ok (none,σ) => cases h
  | .panic => cases h
  | .hang => cases h

/-- The pieces of a successful `elfSpawn`. -/
theorem elfSpawn_eq_ok {k : Boot} {data args : List UInt8} {σ σ' : Vm} {child : Process}
    (h : elfSpawn k (some data) args σ = .ok (some child,σ')) :
    ∃ entry phdrs s, elfParse data = .ok (some (entry,phdrs)) ∧
      loadSegments (viaWalk (σ.newProcPML4 k).1) (σ.newProcPML4 k).1 data phdrs
        ((σ.newProcPML4 k).2,newProcess (σ.newProcPML4 k).1 args) = .ok s ∧
      finishSpawn (σ.newProcPML4 k).1 entry phdrs s = (σ',child) := by
  rw [elfSpawn] at h
  obtain ⟨parsed,hparse,h⟩ := Res.bind_eq_ok.mp h
  cases parsed with
  | none => cases h
  | some parsed =>
    obtain ⟨entry,phdrs⟩ := parsed
    obtain ⟨s,hload,h⟩ := Res.bind_eq_ok.mp h
    refine ⟨entry,phdrs,s,hparse,hload,?_⟩
    simp only [Res.pure_eq,Res.ok.injEq,Prod.mk.injEq,Option.some_inj] at h
    exact Prod.ext h.2 h.1

/-- The boot shell lives in the boot tables and has no argument page. -/
def elfLoad (k : Boot) (file : Option (List UInt8)) (args : List UInt8) (σ : Vm) :
    Res (Option Process × Vm) :=
  match file with
  | none => .ok (none,σ)
  | some data => do
    match ← elfParse data with
    | none => return (none,σ)
    | some (entry,phdrs) =>
      let s ← loadSegments (viaTables k.bootPML4) k.bootPML4 data phdrs (σ,newProcess 0 args)
      let s := mapStack k.bootPML4 s
      return (some (setEntry entry phdrs s.2),s.1)

/-! ### Growing the heap -/

/-- CR3 while the process runs. -/
def Process.cr3 (k : Boot) (proc : Process) : ℕ := if proc.pml4 = 0 then k.bootPML4 else proc.pml4

/-- The page after the last one below the break. -/
def pageStart (oldBreak : ℕ) : ℕ :=
  if oldBreak%pageSize ≠ 0 then (pageAlign oldBreak+pageSize)%2^64 else pageAlign oldBreak

/-- The result is the new RAX. -/
def sysSbrk (k : Boot) (increment : ℕ) (s : Vm × Process) : Res (ℕ × Vm × Process) :=
  if increment = 0 then
    .ok (s.2.heapBreak,s)
  else
    let oldBreak := s.2.heapBreak
    let newBreak := (oldBreak+increment)%2^64
    if s.2.heapLimit < newBreak then
      .ok (2^64-1,s)
    else do
      let s ← forPages (mapFresh (s.2.cr3 k)) newBreak pageFuel (pageStart oldBreak) s
      return (oldBreak,s.1,{ s.2 with heapBreak := newBreak })

/-! ### Exit -/

def processExit (k : Boot) (exitCode : ℕ) (s : Vm × Process) : Vm × Process :=
  let σ := s.2.userPages.foldl (fun σ page => σ.freePage page.2) s.1
  let proc : Process := { s.2 with userPages := [], exitCode, exited := true }
  -- CR3 goes back to the boot tables first
  if proc.pml4 ≠ 0 ∧ k.bootPML4 ≠ 0 then
    (σ.freeProcPML4 proc.pml4,{ proc with pml4 := 0 })
  else
    (σ,proc)

end Gooos.Mem
