import Gooos.Mem.Elf

/-!
# Which files the parser takes

The end of the program header table is computed modulo `2^64`, so a table that ends past `2^64`
can pass for one inside the file: its first read then stops the kernel.
-/

namespace Gooos.Mem

open Gooos.Mem.Res (exists_bind)

variable {data : List UInt8} {h : Elf64Ehdr}

theorem readLE_outside {off n : ℕ} (hout : data.length ≤ off) :
    readLE data off (n+1) = .panic := by
  rw [readLE,index,List.getElem?_eq_none hout]
  rfl

theorem readPhdr_inside {off : ℕ} (hfit : off+elf64PhdrSize ≤ data.length) :
    ∃ ph, readPhdr data off = .ok ph := by
  have hread (k n : ℕ) (hk : k+n ≤ 56) : ∃ r, readLE data (off+k) n = .ok r := by
    refine readLE_inside (le_trans ?_ hfit)
    rw [elf64PhdrSize]
    omega
  exact exists_bind (hread 0 4 (by decide)) fun _ => exists_bind (hread 4 4 (by decide))
    fun _ => exists_bind (hread 8 8 (by decide)) fun _ => exists_bind (hread 16 8 (by decide))
    fun _ => exists_bind (hread 24 8 (by decide)) fun _ => exists_bind (hread 32 8 (by decide))
    fun _ => exists_bind (hread 40 8 (by decide)) fun _ => exists_bind (hread 48 8 (by decide))
    fun _ => ⟨_,rfl⟩

/-- The loop ends if every entry it reads is inside the file. -/
theorem collect_inside {n i : ℕ} {buf : List Elf64Phdr}
    (hfit : ∀ j, i ≤ j → j < i+n → h.off j+elf64PhdrSize ≤ data.length) :
    ∃ phs, collect data h n i buf = .ok phs := by
  induction n generalizing i buf with
  | zero => exact ⟨buf,rfl⟩
  | succ n ih =>
    have hi := hfit i le_rfl (by omega)
    have hrest (j : ℕ) (hj : i+1 ≤ j) (hlt : j < i+1+n) := hfit j (by omega) (by omega)
    obtain ⟨ty,hty⟩ : ∃ ty, readU32LE data (h.off i) = .ok ty :=
      readLE_inside (by rw [elf64PhdrSize] at hi; omega)
    rw [collect,hty,Res.ok_bind]
    split
    · obtain ⟨ph,hph⟩ := readPhdr_inside hi
      rw [hph]
      exact ih hrest
    · exact ih hrest

theorem HeaderChecks.lt (hc : HeaderChecks data h) :
    h.phoff < 2^64 ∧ h.phentsize < 2^16 ∧ h.phnum < 2^16 := by
  have hread := hc.read
  simp only [readEhdr,Res.bind_eq_ok,Res.pure_eq] at hread
  obtain ⟨_,-,o,ho,s,hs,n,hn,hread⟩ := hread
  cases hread
  exact ⟨readLE_lt ho,readLE_lt hs,readLE_lt hn⟩

/-- A table inside the file is read to its end. -/
theorem HeaderChecks.accepted (hc : HeaderChecks data h) (hlen : data.length < 2^63)
    (hfit : h.tableEnd ≤ data.length) :
    elfParse data = .ok (some (h.entry,(ptLoads data).take maxPTLoadSegments)) := by
  have hmod : h.tableEnd%2^64 = h.tableEnd := Nat.mod_eq_of_lt (by omega)
  obtain ⟨phs,hphs⟩ : ∃ phs, collect data h h.phnum 0 [] = .ok phs := by
    refine collect_inside fun j _ hj => ?_
    have hentry : (j+1)*h.phentsize ≤ h.phnum*h.phentsize := Nat.mul_le_mul_right _ (by omega)
    have hsize := hc.size
    rw [Nat.add_mul,Nat.one_mul] at hentry
    rw [Elf64Ehdr.tableEnd] at hfit
    rw [Elf64Ehdr.off,Nat.mod_eq_of_lt (by omega)]
    omega
  have heq := hc.elfParse_eq
  rw [hmod,if_neg hfit.not_gt,hphs] at heq
  rw [← Mem.elfParse_eq heq,heq]
  rfl

/-- A table that ends past `2^64` and seems to end inside the file is read outside of it. -/
theorem HeaderChecks.outside (hc : HeaderChecks data h) (hlen : data.length < 2^63)
    (hwrap : 2^64 ≤ h.tableEnd) (hend : h.tableEnd%2^64 ≤ data.length) :
    elfParse data = .panic := by
  obtain ⟨hoff,hsize,hnum⟩ := hc.lt
  have htable : h.phnum*h.phentsize ≤ 2^16*2^16 := Nat.mul_le_mul hnum.le hsize.le
  rw [Elf64Ehdr.tableEnd] at hwrap
  obtain ⟨n,hn⟩ : ∃ n, h.phnum = n+1 := by
    refine Nat.exists_eq_succ_of_ne_zero fun hzero => ?_
    rw [hzero] at hwrap
    omega
  have hfirst : readU32LE data (h.off 0) = .panic := by
    refine readLE_outside ?_
    rw [Elf64Ehdr.off,Nat.zero_mul,Nat.add_zero,Nat.mod_eq_of_lt hoff]
    omega
  rw [hc.elfParse_eq,if_neg hend.not_gt,hn,collect,hfirst]
  rfl

/-- `elfParse` stays inside the file, takes exactly the files whose header checks hold and whose
table lies inside, and returns all their headers, if and only if the end of the table does not
wrap back into the file and there are no more headers than the static buffer holds. -/
theorem elfParse_exact_iff (data : List UInt8) (hlen : data.length < 2^63) :
    (∃ r, elfParse data = .ok r ∧ ∀ entry phs, r = some (entry,phs) ↔
      ∃ h, HeaderChecks data h ∧ h.tableEnd ≤ data.length ∧ entry = h.entry ∧ phs = ptLoads data) ↔
    ∀ h, HeaderChecks data h →
      ¬(2^64 ≤ h.tableEnd ∧ h.tableEnd%2^64 ≤ data.length) ∧
      (h.tableEnd ≤ data.length → (ptLoads data).length ≤ maxPTLoadSegments) := by
  by_cases hany : ∃ h, HeaderChecks data h
  · obtain ⟨h,hc⟩ := hany
    have hone {h' : Elf64Ehdr} (hc' : HeaderChecks data h') : h' = h :=
      Res.ok.inj (hc'.read.symm.trans hc.read)
    by_cases hfit : h.tableEnd ≤ data.length
    · rw [hc.accepted hlen hfit]
      constructor
      · rintro ⟨r,hr,hall⟩ h' hc'
        obtain rfl := hone hc'
        obtain rfl := Res.ok.inj hr
        obtain ⟨_,-,-,-,htake⟩ := (hall _ _).mp rfl
        refine ⟨by omega,fun _ => ?_⟩
        rw [← htake,List.length_take]
        exact Nat.min_le_left ..
      · intro hcond
        refine ⟨_,rfl,fun entry phs => ?_⟩
        rw [List.take_of_length_le ((hcond h hc).2 hfit),Option.some.injEq,Prod.mk.injEq]
        constructor
        · rintro ⟨rfl,rfl⟩
          exact ⟨h,hc,hfit,rfl,rfl⟩
        · rintro ⟨h',hc',-,rfl,rfl⟩
          exact ⟨by rw [hone hc'],rfl⟩
    · by_cases hwrap : 2^64 ≤ h.tableEnd ∧ h.tableEnd%2^64 ≤ data.length
      · rw [hc.outside hlen hwrap.1 hwrap.2]
        refine iff_of_false ?_ fun hcond => (hcond h hc).1 hwrap
        rintro ⟨r,hr,-⟩
        cases hr
      · rw [hc.elfParse_eq,if_pos (by omega)]
        refine iff_of_true ⟨none,rfl,fun entry phs => iff_of_false nofun ?_⟩ fun h' hc' => ?_
        · rintro ⟨h',hc',hin,-⟩
          exact hfit (hone hc' ▸ hin)
        · obtain rfl := hone hc'
          exact ⟨hwrap,fun hin => absurd hin hfit⟩
  · have hno := not_exists.mp hany
    rw [elfParse_of_not_checks hno]
    refine iff_of_true ⟨none,rfl,fun entry phs => iff_of_false nofun ?_⟩ fun h hc => absurd hc (hno h)
    rintro ⟨h,hc,-⟩
    exact hno h hc

theorem elfParse_exact_iff_one :
    let data := elfFile 0x40100000 [loadPhdr 120 0x40100000 1 1] [0xC3]
    ∃ r, elfParse data = .ok r ∧ ∀ entry phs, r = some (entry,phs) ↔
      ∃ h, HeaderChecks data h ∧ h.tableEnd ≤ data.length ∧ entry = h.entry ∧ phs = ptLoads data := by
  refine (elfParse_exact_iff _ (by decide +kernel)).mpr fun h hc => ?_
  have hread := hc.read
  obtain rfl : ⟨0x40100000,64,56,1⟩ = h :=
    Res.ok.inj (Eq.trans (by decide +kernel) hread)
  exact ⟨by decide +kernel,fun _ => by decide +kernel⟩

/-- A file with a table of one entry, which ends at `2^64`. -/
def wrapsFile : List UInt8 :=
  elfMagic++[elfClass64,elfData2LSB]++List.replicate 10 0++writeLE 2 etExec++writeLE 2 emX86_64++
    List.replicate 12 0++writeLE 8 (2^64-56)++List.replicate 14 0++writeLE 2 56++writeLE 2 1++
    List.replicate 6 0

/-- The first entry is read outside the file. -/
theorem elfParse_reads_outside : elfParse wrapsFile = .panic := by
  decide +kernel

end Gooos.Mem
