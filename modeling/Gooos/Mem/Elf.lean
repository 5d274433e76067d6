import Mathlib

/-!
# The ELF64 parser

`elfParse` of `elf.go` over the bytes of a file. An index outside the file stops the kernel,
so a read gives a result or a panic; loops over 64-bit counters that wrap need not end.
-/

namespace Gooos.Mem

/-- How a piece of kernel code ends. -/
inductive Res (α : Type) where
  | ok (a : α)
  | panic
  | hang
  deriving DecidableEq, Repr

namespace Res

variable {α β : Type}

def bind : Res α → (α → Res β) → Res β
  | ok a, f => f a
  | panic, _ => panic
  | hang, _ => hang

instance : Monad Res where
  pure := ok
  bind := bind

@[simp]
theorem pure_eq (a : α) : (pure a : Res α) = ok a := rfl

@[simp]
theorem ok_bind (a : α) (f : α → Res β) : (ok a >>= f) = f a := rfl

@[simp]
theorem panic_bind (f : α → Res β) : ((panic : Res α) >>= f) = panic := rfl

@[simp]
theorem hang_bind (f : α → Res β) : ((hang : Res α) >>= f) = hang := rfl

/-- A sequence ends well if both parts do. -/
theorem bind_eq_ok {x : Res α} {f : α → Res β} {b : β} :
    x >>= f = ok b ↔ ∃ a, x = ok a ∧ f a = ok b := by
  cases x with
  | ok | panic | hang => simp

theorem exists_bind {x : Res α} {f : α → Res β} (hx : ∃ a, x = ok a)
    (hf : ∀ a, ∃ b, f a = ok b) : ∃ b, x >>= f = ok b := by
  obtain ⟨a,rfl⟩ := hx
  exact hf a

def isOk : Res α → Bool
  | ok _ => true
  | _ => false

theorem exists_of_isOk {x : Res α} (h : x.isOk = true) : ∃ a, x = ok a := by
  cases x with
  | ok a => exact ⟨a,rfl⟩
  | panic | hang => cases h

end Res

open Gooos.Mem.Res (exists_bind)

def elfClass64 : UInt8 := 2
def elfData2LSB : UInt8 := 1
def etExec : ℕ := 2
def emX86_64 : ℕ := 0x3E
def ptLoad : ℕ := 1
def elf64HdrSize : ℕ := 64
def elf64PhdrSize : ℕ := 56
def maxPTLoadSegments : ℕ := 16

def elfMagic : List UInt8 := [0x7F,0x45,0x4C,0x46]

/-- `data[i]`. -/
def index (data : List UInt8) (i : ℕ) : Res UInt8 :=
  match data[i]? with
  | some b => .ok b
  | none => .panic

/-- The little-endian number in the `n` bytes from `off`. -/
def readLE (data : List UInt8) (off : ℕ) : ℕ → Res ℕ
  | 0 => .ok 0
  | n+1 => do
    let b ← index data off
    let r ← readLE data (off+1) n
    return b.toNat+256*r

def readU16LE (data : List UInt8) (off : ℕ) : Res ℕ := readLE data off 2
def readU32LE (data : List UInt8) (off : ℕ) : Res ℕ := readLE data off 4
def readU64LE (data : List UInt8) (off : ℕ) : Res ℕ := readLE data off 8

/-- The fields of the file header that say where the program headers are. -/
structure Elf64Ehdr where
  entry : ℕ
  phoff : ℕ
  phentsize : ℕ
  phnum : ℕ
  deriving DecidableEq, Repr

structure Elf64Phdr where
  type : ℕ
  flags : ℕ
  offset : ℕ
  vaddr : ℕ
  paddr : ℕ
  filesz : ℕ
  memsz : ℕ
  align : ℕ
  deriving DecidableEq, Repr

def readEhdr (data : List UInt8) : Res Elf64Ehdr := do
  let entry ← readU64LE data 24
  let phoff ← readU64LE data 32
  let phentsize ← readU16LE data 54
  let phnum ← readU16LE data 56
  return { entry, phoff, phentsize, phnum }

def readPhdr (data : List UInt8) (off : ℕ) : Res Elf64Phdr := do
  let type ← readU32LE data off
  let flags ← readU32LE data (off+4)
  let offset ← readU64LE data (off+8)
  let vaddr ← readU64LE data (off+16)
  let paddr ← readU64LE data (off+24)
  let filesz ← readU64LE data (off+32)
  let memsz ← readU64LE data (off+40)
  let align ← readU64LE data (off+48)
  return { type, flags, offset, vaddr, paddr, filesz, memsz, align }

/-- Where program header `i` stands: `int(phoff) + int(i)*int(phentsize)`. -/
def Elf64Ehdr.off (h : Elf64Ehdr) (i : ℕ) : ℕ := (h.phoff+i*h.phentsize)%2^64

/-- The loop that collects the `PT_LOAD` headers, `n` table entries from the `i`-th on. -/
def collect (data : List UInt8) (h : Elf64Ehdr) : ℕ → ℕ → List Elf64Phdr → Res (List Elf64Phdr)
  | 0, _, buf => .ok buf
  | n+1, i, buf => do
    let pType ← readU32LE data (h.off i)
    if pType = ptLoad ∧ buf.length < maxPTLoadSegments then
      let ph ← readPhdr data (h.off i)
      collect data h n (i+1) (buf++[ph])
    else
      collect data h n (i+1) buf

/-- The entry point and the headers now in `elfPTLoadBuf[:elfPTLoadCount]`, or `none` for
`ok = false`. -/
def elfParse (data : List UInt8) : Res (Option (ℕ × List Elf64Phdr)) := do
  if data.length < elf64HdrSize ∨ data.take 4 ≠ elfMagic ∨ data[4]? ≠ some elfClass64 ∨
      data[5]? ≠ some elfData2LSB then
    return none
  let eType ← readU16LE data 16
  if eType ≠ etExec then
    return none
  let eMachine ← readU16LE data 18
  if eMachine ≠ emX86_64 then
    return none
  let h ← readEhdr data
  if h.phentsize < elf64PhdrSize then
    return none
  let phEnd := (h.phoff+h.phnum*h.phentsize)%2^64
  if data.length < phEnd then
    return none
  let phdrs ← collect data h h.phnum 0 []
  return some (h.entry,phdrs)

/-- Entry `i` of the program header table, if it is a `PT_LOAD` header. -/
def Elf64Ehdr.load (h : Elf64Ehdr) (data : List UInt8) (i : ℕ) : Option Elf64Phdr :=
  match readU32LE data (h.off i), readPhdr data (h.off i) with
  | .ok pType, .ok ph => if pType = ptLoad then some ph else none
  | _, _ => none

/-- All `PT_LOAD` headers of a file, in the order of the table. -/
def ptLoads (data : List UInt8) : List Elf64Phdr :=
  match readEhdr data with
  | .ok h => (List.range h.phnum).filterMap (h.load data)
  | _ => []

/-! ### What the parser returns -/

variable {data : List UInt8} {ph : Elf64Phdr} {entry : ℕ} {phs : List Elf64Phdr}

theorem readLE_lt {off n r : ℕ} (h : readLE data off n = .ok r) : r < 256^n := by
  induction n generalizing off r with
  | zero =>
    cases h
    decide
  | succ n ih =>
    rw [readLE,Res.bind_eq_ok] at h
    obtain ⟨b,-,h⟩ := h
    rw [Res.bind_eq_ok] at h
    obtain ⟨q,hq,h⟩ := h
    cases h
    have hb := b.toNat_lt
    have := ih hq
    rw [pow_succ]
    omega

/-- The addresses and sizes of a header are 64-bit numbers. -/
theorem readPhdr_lt {off : ℕ} (h : readPhdr data off = .ok ph) :
    ph.vaddr < 2^64 ∧ ph.memsz < 2^64 ∧ ph.filesz < 2^64 ∧ ph.offset < 2^64 := by
  simp only [readPhdr,Res.bind_eq_ok,Res.pure_eq] at h
  obtain ⟨_,-,_,-,o,ho,v,hv,_,-,s,hs,m,hm,_,-,h⟩ := h
  cases h
  exact ⟨readLE_lt hv,readLE_lt hm,readLE_lt hs,readLE_lt ho⟩

/-- The loop appends the next `PT_LOAD` headers until there are `maxPTLoadSegments`. -/
theorem collect_eq {h : Elf64Ehdr} {n i : ℕ} {buf phs : List Elf64Phdr}
    (hb : buf.length ≤ maxPTLoadSegments) (hc : collect data h n i buf = .ok phs) :
    phs = (buf++(List.range' i n).filterMap (h.load data)).take maxPTLoadSegments := by
  induction n generalizing i buf with
  | zero =>
    cases hc
    simp [List.take_of_length_le hb]
  | succ n ih =>
    rw [collect,Res.bind_eq_ok] at hc
    obtain ⟨ty,hty,hc⟩ := hc
    rw [List.range'_succ,List.filterMap_cons,Elf64Ehdr.load,hty]
    by_cases hload : ty = ptLoad ∧ buf.length < maxPTLoadSegments
    · rw [if_pos hload,Res.bind_eq_ok] at hc
      obtain ⟨ph,hph,hc⟩ := hc
      have hlen : (buf++[ph]).length ≤ maxPTLoadSegments := by
        rw [List.length_append,List.length_singleton]
        omega
      rw [ih hlen hc,hph]
      simp [hload.1]
    · rw [if_neg hload] at hc
      rw [ih hb hc]
      by_cases hfull : buf.length < maxPTLoadSegments
      · have hne : ty ≠ ptLoad := fun heq => hload ⟨heq,hfull⟩
        cases readPhdr data (h.off i) <;> simp [hne]
      · -- the buffer is full: what comes after it does not count
        rw [List.take_append_of_le_length (by omega),List.take_append_of_le_length (by omega)]

/-- The checks of `elfParse` before it looks at the program header table. -/
structure HeaderChecks (data : List UInt8) (h : Elf64Ehdr) : Prop where
  length : elf64HdrSize ≤ data.length
  magic : data.take 4 = elfMagic
  fileClass : data[4]? = some elfClass64
  encoding : data[5]? = some elfData2LSB
  type : readU16LE data 16 = .ok etExec
  machine : readU16LE data 18 = .ok emX86_64
  read : readEhdr data = .ok h
  size : elf64PhdrSize ≤ h.phentsize

/-- Where the table ends, over the integers. -/
def Elf64Ehdr.tableEnd (h : Elf64Ehdr) : ℕ := h.phoff+h.phnum*h.phentsize

theorem readLE_inside {off n : ℕ} (hfit : off+n ≤ data.length) :
    ∃ r, readLE data off n = .ok r := by
  induction n generalizing off with
  | zero => exact ⟨0,rfl⟩
  | succ n ih =>
    refine exists_bind ⟨data[off],?_⟩ fun b => exists_bind (ih (by omega)) fun r => ⟨_,rfl⟩
    rw [index,List.getElem?_eq_getElem (by omega)]

theorem readEhdr_inside (hlen : elf64HdrSize ≤ data.length) : ∃ h, readEhdr data = .ok h := by
  have hread (off n : ℕ) (hfit : off+n ≤ 64) : ∃ r, readLE data off n = .ok r :=
    readLE_inside (hfit.trans hlen)
  exact exists_bind (hread 24 8 (by decide)) fun _ => exists_bind (hread 32 8 (by decide))
    fun _ => exists_bind (hread 54 2 (by decide)) fun _ => exists_bind (hread 56 2 (by decide))
    fun _ => ⟨_,rfl⟩

/-- What `elfParse` does after the header checks. -/
theorem HeaderChecks.elfParse_eq {h : Elf64Ehdr} (hc : HeaderChecks data h) :
    elfParse data = if data.length < h.tableEnd%2^64 then .ok none else do
      let phdrs ← collect data h h.phnum 0 []
      return some (h.entry,phdrs) := by
  have hpre : ¬(data.length < elf64HdrSize ∨ data.take 4 ≠ elfMagic ∨
      data[4]? ≠ some elfClass64 ∨ data[5]? ≠ some elfData2LSB) := by
    simp [hc.length,hc.magic,hc.fileClass,hc.encoding]
  rw [elfParse,if_neg hpre,hc.type,Res.ok_bind,if_neg (not_not.mpr rfl),hc.machine,Res.ok_bind,
    if_neg (not_not.mpr rfl),hc.read,Res.ok_bind,if_neg hc.size.not_gt]
  rfl

/-- A file that fails a header check is refused. -/
theorem elfParse_of_not_checks (hc : ∀ h, ¬HeaderChecks data h) : elfParse data = .ok none := by
  rw [elfParse]
  split
  · rfl
  rename_i hpre
  simp only [not_or,not_not,Nat.not_lt] at hpre
  obtain ⟨hlen,hmagic,hclass,hdata⟩ := hpre
  obtain ⟨ty,hty⟩ : ∃ r, readU16LE data 16 = .ok r := readLE_inside (le_trans (by decide) hlen)
  obtain ⟨mach,hmach⟩ : ∃ r, readU16LE data 18 = .ok r :=
    readLE_inside (le_trans (by decide) hlen)
  obtain ⟨h,hread⟩ := readEhdr_inside hlen
  rw [hty,hmach,hread]
  simp only [Res.ok_bind]
  split
  · rfl
  split
  · rfl
  split
  · rfl
  rename_i hnty hnmach hsize
  rw [not_not.mp hnty] at hty
  rw [not_not.mp hnmach] at hmach
  exact absurd ⟨hlen,hmagic,hclass,hdata,hty,hmach,hread,Nat.not_lt.mp hsize⟩ (hc h)

/-- What `elfParse` hands to the loader: the first `maxPTLoadSegments` of the file's headers. -/
theorem elfParse_eq (h : elfParse data = .ok (some (entry,phs))) :
    phs = (ptLoads data).take maxPTLoadSegments := by
  obtain ⟨eh,hc⟩ : ∃ eh, HeaderChecks data eh := by
    by_contra hno
    rw [elfParse_of_not_checks (not_exists.mp hno)] at h
    cases h
  rw [hc.elfParse_eq] at h
  split at h
  · cases h
  · obtain ⟨phs',hphs,h⟩ := Res.bind_eq_ok.mp h
    cases h
    rw [collect_eq (Nat.zero_le _) hphs,ptLoads,hc.read]
    simp only [List.range_eq_range',List.nil_append]

/-- The loader never sees more than the static buffer holds. -/
theorem elfParse_length_le
    (h : elfParse data = .ok (some (entry,phs))) : phs.length ≤ maxPTLoadSegments := by
  rw [elfParse_eq h,List.length_take]
  exact Nat.min_le_left ..

theorem mem_ptLoads (h : ph ∈ ptLoads data) : ∃ off, readPhdr data off = .ok ph := by
  rw [ptLoads] at h
  cases heh : readEhdr data with
  | panic | hang => simp [heh] at h
  | ok eh =>
    rw [heh] at h
    obtain ⟨i,-,hi⟩ := List.mem_filterMap.mp h
    refine ⟨eh.off i,?_⟩
    rw [Elf64Ehdr.load] at hi
    cases hty : readU32LE data (eh.off i) <;> cases hph : readPhdr data (eh.off i) <;>
      simp_all

/-- The headers `elfParse` returns hold 64-bit numbers. -/
theorem elfParse_lt (h : elfParse data = .ok (some (entry,phs))) (hph : ph ∈ phs) :
    ph.vaddr < 2^64 ∧ ph.memsz < 2^64 ∧ ph.filesz < 2^64 ∧ ph.offset < 2^64 := by
  rw [elfParse_eq h] at hph
  obtain ⟨off,hoff⟩ := mem_ptLoads (List.mem_of_mem_take hph)
  exact readPhdr_lt hoff

/-! ### Files -/

/-- `w` in `n` bytes. -/
def writeLE (n w : ℕ) : List UInt8 := (List.range n).map fun k => UInt8.ofNat (w/256^k)

def phdrBytes (ph : Elf64Phdr) : List UInt8 :=
  writeLE 4 ph.type++writeLE 4 ph.flags++writeLE 8 ph.offset++writeLE 8 ph.vaddr++
    writeLE 8 ph.paddr++writeLE 8 ph.filesz++writeLE 8 ph.memsz++writeLE 8 ph.align

/-- An executable with the given entry point, program headers and contents after them. -/
def elfFile (entry : ℕ) (phdrs : List Elf64Phdr) (contents : List UInt8) : List UInt8 :=
  elfMagic++[elfClass64,elfData2LSB]++List.replicate 10 0++writeLE 2 etExec++writeLE 2 emX86_64++
    List.replicate 4 0++writeLE 8 entry++writeLE 8 elf64HdrSize++List.replicate 14 0++
    writeLE 2 elf64PhdrSize++writeLE 2 phdrs.length++List.replicate 6 0++
    phdrs.flatMap phdrBytes++contents

/-- A `PT_LOAD` header for `filesz` bytes from `offset` on. -/
def loadPhdr (offset vaddr filesz memsz : ℕ) : Elf64Phdr where
  type := ptLoad
  flags := 7
  offset := offset
  vaddr := vaddr
  paddr := vaddr
  filesz := filesz
  memsz := memsz
  align := 4096

example : elfParse (elfFile 0x40100000 [loadPhdr 120 0x40100000 1 1] [0xC3]) =
    .ok (some (0x40100000,[loadPhdr 120 0x40100000 1 1])) := by
  decide +kernel

end Gooos.Mem
