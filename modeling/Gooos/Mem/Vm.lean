import Gooos.Lib.Radix

/-!
# Frames and page tables

`vm.go` and `proc_pml4.go`: the frame allocator, the four-level walks over explicit
tables, and the life of a process's PML4. Physical memory is addressed by frame number and
64-bit cell, so a page-aligned physical address is a frame number. The kernel reaches every
frame through the identity map of the boot tables.
-/

namespace Gooos.Mem

open Radix Function

def pageSize : ℕ := 4096
def pagePresent : ℕ := 1
def pageWrite : ℕ := 2
def pageUser : ℕ := 4
def freeStackCap : ℕ := 4096

def userFlags : ℕ := pagePresent ||| pageWrite ||| pageUser

/-! ### Entries -/

def present (e : ℕ) : Bool := e.testBit 0
def writable (e : ℕ) : Bool := e.testBit 1
def user (e : ℕ) : Bool := e.testBit 2

/-- The PS bit of a PDP or PD entry. -/
def huge (e : ℕ) : Bool := e.testBit 7

/-- The frame at `e &^ 0xFFF`. -/
def frameOf (e : ℕ) : ℕ := e/pageSize

/-- `paddr | flags`. -/
def entryOf (f flags : ℕ) : ℕ := f*pageSize ||| flags

/-- `mem f i` is cell `i` of frame `f`; the top of the free stack stands first. -/
structure Vm where
  mem : ℕ → ℕ → ℕ
  freeStack : List ℕ
  nextFreePage : ℕ

namespace Vm

def setCell (σ : Vm) (f i e : ℕ) : Vm :=
  { σ with mem := update σ.mem f (update (σ.mem f) i e) }

def clear (σ : Vm) (f : ℕ) : Vm := { σ with mem := update σ.mem f fun _ => 0 }

def byte (σ : Vm) (f off : ℕ) : ℕ := byteOf (σ.mem f (off/8)) (off%8)

def setByte (σ : Vm) (f off b : ℕ) : Vm :=
  σ.setCell f (off/8) (setByteOf (σ.mem f (off/8)) (off%8) b)

/-! ### The frame allocator -/

def allocPage (σ : Vm) : ℕ × Vm :=
  match σ.freeStack with
  | f::fs => (f,{ σ with freeStack := fs }.clear f)
  | [] => (σ.nextFreePage,{ σ with nextFreePage := σ.nextFreePage+1 }.clear σ.nextFreePage)

def freePage (σ : Vm) (f : ℕ) : Vm :=
  if f = 0 then
    σ
  else if σ.freeStack.length < freeStackCap then
    { σ.clear f with freeStack := f::σ.freeStack }
  else
    σ.clear f

/-! ### Walks -/

def pml4Idx (v : ℕ) : ℕ := v/2^39%512
def pdpIdx (v : ℕ) : ℕ := v/2^30%512
def pdIdx (v : ℕ) : ℕ := v/2^21%512
def ptIdx (v : ℕ) : ℕ := v/2^12%512

def walkOrCreate (σ : Vm) (table index flags : ℕ) : ℕ × Vm :=
  let e := σ.mem table index
  if present e then
    let e := if user flags then e ||| pageUser else e
    (frameOf e,σ.setCell table index e)
  else
    let (newTable,σ) := σ.allocPage
    let intermediateFlags :=
      if user flags then pagePresent ||| pageWrite ||| pageUser else pagePresent ||| pageWrite
    (newTable,σ.setCell table index (entryOf newTable intermediateFlags))

def walkExisting (σ : Vm) (table index : ℕ) : ℕ :=
  let e := σ.mem table index
  if present e then frameOf e else 0

/-- With `pml4` read from CR3 this is `mapPage`. -/
def mapPageInto (σ : Vm) (pml4 vaddr paddr flags : ℕ) : Vm :=
  let (pdp,σ) := σ.walkOrCreate pml4 (pml4Idx vaddr) flags
  let (pd,σ) := σ.walkOrCreate pdp (pdpIdx vaddr) flags
  let (pt,σ) := σ.walkOrCreate pd (pdIdx vaddr) flags
  σ.setCell pt (ptIdx vaddr) (entryOf paddr flags)

/-- With `pml4` read from CR3 this is `walkAndGetPaddr`. -/
def walkAndGetPaddrIn (σ : Vm) (pml4 vaddr : ℕ) : ℕ :=
  let pdp := σ.walkExisting pml4 (pml4Idx vaddr)
  if pdp = 0 then 0 else
  let pd := σ.walkExisting pdp (pdpIdx vaddr)
  if pd = 0 then 0 else
  let pt := σ.walkExisting pd (pdIdx vaddr)
  if pt = 0 then 0 else
  σ.walkExisting pt (ptIdx vaddr)

end Vm

/-! ### What the processor sees -/

/-- Bits 48 to 63 repeat bit 47. -/
def canonical (v : ℕ) : Bool := v < 2^47 || (2^64-2^47 ≤ v && v < 2^64)

/-- A translated page: its frame and the rights all levels grant. -/
structure Leaf where
  frame : ℕ
  write : Bool
  user : Bool
  deriving DecidableEq, Repr

def Vm.translate (σ : Vm) (root v : ℕ) : Option Leaf :=
  let e1 := σ.mem root (Vm.pml4Idx v)
  let e2 := σ.mem (frameOf e1) (Vm.pdpIdx v)
  let e3 := σ.mem (frameOf e2) (Vm.pdIdx v)
  let e4 := σ.mem (frameOf e3) (Vm.ptIdx v)
  if !canonical v || !present e1 || !present e2 then
    none
  else if huge e2 then
    some ⟨frameOf e2/2^18*2^18+v/pageSize%2^18,writable e1 && writable e2,user e1 && user e2⟩
  else if !present e3 then
    none
  else if huge e3 then
    some ⟨frameOf e3/2^9*2^9+v/pageSize%2^9,writable e1 && writable e2 && writable e3,
      user e1 && user e2 && user e3⟩
  else if !present e4 then
    none
  else
    some ⟨frameOf e4,writable e1 && writable e2 && writable e3 && writable e4,
      user e1 && user e2 && user e3 && user e4⟩

/-- The byte Ring 3 reads at a virtual address. -/
def Vm.readByte (σ : Vm) (root v : ℕ) : Option ℕ :=
  (σ.translate root v).bind fun l => if l.user then some (σ.byte l.frame (v%pageSize)) else none

/-- The byte Ring 3 reads there, and whether it may write it. -/
def Vm.view (σ : Vm) (root v : ℕ) : Option (ℕ × Bool) :=
  (σ.translate root v).bind fun l =>
    if l.user then some (σ.byte l.frame (v%pageSize),l.write) else none

/-! ### Per-process tables -/

/-- What `captureBootPML4` and `captureKernelPDP0` have stored, and CR3 at boot. -/
structure Boot where
  bootPML4 : ℕ
  bootKernelPDP : ℕ
  pml4SharedKernelPDP0 : ℕ

namespace Vm

def newProcPML4 (k : Boot) (σ : Vm) : ℕ × Vm :=
  let (pml4,σ) := σ.allocPage
  let (pdp,σ) := σ.allocPage
  let σ := σ.setCell pml4 0 (entryOf pdp (pagePresent ||| pageWrite ||| pageUser))
  let σ := σ.setCell pdp 0 k.pml4SharedKernelPDP0
  -- the LAPIC lies in the fourth GiB
  let pdp3 := σ.mem k.bootKernelPDP 3
  (pml4,if present pdp3 then σ.setCell pdp 3 pdp3 else σ)

/-- Free what the present entries of a table lead to, then the table. -/
def freeTable (below : Vm → ℕ → Vm) (indices : List ℕ) (σ : Vm) (table : ℕ) : Vm :=
  (indices.foldl (fun σ i =>
    let e := σ.mem table i
    if present e then below σ (frameOf e) else σ) σ).freePage table

def freePD : Vm → ℕ → Vm := freeTable freePage (List.range 512)

def freePDP : Vm → ℕ → Vm := freeTable freePD (List.range 512)

def freeProcPML4 (σ : Vm) (pml4 : ℕ) : Vm :=
  if pml4 = 0 then σ else freeTable freePDP (List.range' 1 511) σ pml4

end Vm

/-! ### The boot tables -/

/-- `boot.S`: one PML4, PDP and PD, here in frames 1 to 3. -/
def bootKernel : Boot where
  bootPML4 := 1
  bootKernelPDP := 2
  pml4SharedKernelPDP0 := entryOf 3 (pagePresent ||| pageWrite)

/-- Huge pages map the first GiB to itself, and frames are free from the 1024th on. -/
def bootVm : Vm where
  mem f i :=
    if f = 1 ∧ i = 0 then entryOf 2 (pagePresent ||| pageWrite)
    else if f = 2 ∧ i = 0 then entryOf 3 (pagePresent ||| pageWrite)
    else if f = 3 ∧ i < 512 then entryOf (i*512) 0x83
    else 0
  freeStack := []
  nextFreePage := 1024

/-! ### Facts about entries -/

theorem frameOf_entryOf (f : ℕ) {flags : ℕ} (hflags : flags < pageSize) :
    frameOf (entryOf f flags) = f := by
  have hor : f*2^12 ||| flags = f*2^12+flags := by
    rw [Nat.mul_comm]
    exact (Nat.two_pow_add_eq_or_of_lt hflags f).symm
  have hlt : flags < 2^12 := hflags
  change (f*2^12 ||| flags)/2^12 = f
  rw [hor,Nat.add_comm,Nat.add_mul_div_right _ _ (by decide),Nat.div_eq_of_lt hlt,Nat.zero_add]

/-- The low bits of an entry are its flags. -/
theorem testBit_entryOf (f : ℕ) {flags k : ℕ} (hk : k < 12) :
    (entryOf f flags).testBit k = flags.testBit k := by
  rw [entryOf,Nat.testBit_or]
  change ((f*2^12).testBit k || flags.testBit k) = flags.testBit k
  rw [Nat.testBit_mul_two_pow]
  simp [Nat.not_le.mpr hk]

theorem frameOf_or_pageUser (e : ℕ) : frameOf (e ||| pageUser) = frameOf e := by
  change (e ||| 2^2)/2^12 = e/2^12
  rw [← Nat.shiftRight_eq_div_pow,← Nat.shiftRight_eq_div_pow,Nat.shiftRight_or_distrib]
  simp

theorem testBit_or_pageUser (e : ℕ) {k : ℕ} (hk : k ≠ 2) :
    (e ||| pageUser).testBit k = e.testBit k := by
  rw [Nat.testBit_or]
  change (e.testBit k || (2^2).testBit k) = e.testBit k
  rw [Nat.testBit_two_pow_of_ne hk.symm,Bool.or_false]

theorem present_or_pageUser (e : ℕ) : present (e ||| pageUser) = present e :=
  testBit_or_pageUser e (by decide)

end Gooos.Mem
