import Gooos.Mem.Image

/-!
# The image a child starts with

Which byte the loader leaves at each address, first for images and then for the tables that
`elfSpawn` builds. It is the one the headers ask for unless there are too many of them, one has
more bytes in the file than in memory, or one meets the argument page or the stack.
-/

namespace Gooos.Mem

open Radix
open Nat (mod_mul)

/-! ### Addresses and their paths -/

/-- Four digits to the base 512. -/
theorem mod_eq_of_digits {x y : ℕ} (h0 : x%512 = y%512) (h1 : x/512%512 = y/512%512)
    (h2 : x/512/512%512 = y/512/512%512) (h3 : x/512/512/512%512 = y/512/512/512%512) :
    x%(512*(512*(512*512))) = y%(512*(512*(512*512))) := by
  rw [mod_mul,mod_mul,mod_mul,mod_mul,mod_mul,mod_mul,h0,h1,h2,h3]

theorem canonical_iff {v : ℕ} : canonical v = true ↔ v < 2^47 ∨ 2^64-2^47 ≤ v ∧ v < 2^64 := by
  simp only [canonical,Bool.or_eq_true,Bool.and_eq_true,decide_eq_true_eq]

theorem canonical_of_userPage {v : ℕ} (h : userPage (pageAlign v) = true) : canonical v = true := by
  have hrange := (userPage_iff.mp h).1
  rw [canonical_iff]
  simp only [pageAlign,pageSize] at hrange
  omega

/-- Canonical addresses with the same path are on the same page. -/
theorem div_eq_of_vpath {v w : ℕ} (hv : canonical v = true) (hw : canonical w = true)
    (h : vpath v = vpath w) : v/pageSize = w/pageSize := by
  simp only [vpath,Vm.pml4Idx,Vm.pdpIdx,Vm.pdIdx,Vm.ptIdx,List.cons.injEq,and_true] at h
  obtain ⟨h3,h2,h1,h0⟩ := h
  have hshift (u k : ℕ) : u/2^(12+k) = u/pageSize/2^k := by
    rw [pow_add,← Nat.div_div_eq_div_mul]
    rfl
  have htwo (u : ℕ) : u/2^18 = u/512/512 := by
    rw [Nat.div_div_eq_div_mul]
    norm_num
  have hthree (u : ℕ) : u/2^27 = u/512/512/512 := by
    rw [Nat.div_div_eq_div_mul,Nat.div_div_eq_div_mul]
    norm_num
  have hmod : v/pageSize%(512*(512*(512*512))) = w/pageSize%(512*(512*(512*512))) := by
    refine mod_eq_of_digits h0 ?_ ?_ ?_
    · rw [hshift v 9,hshift w 9] at h1
      exact h1
    · rw [← htwo,← htwo,← hshift v 18,← hshift w 18]
      exact h2
    · rw [← hthree,← hthree,← hshift v 27,← hshift w 27]
      exact h3
  rw [canonical_iff] at hv hw
  clear h0 h1 h2 h3 htwo hthree hshift
  simp only [pageSize] at *
  omega

theorem eq_of_vpath {v w : ℕ} (hv : userPage (pageAlign v) = true)
    (hw : userPage (pageAlign w) = true) (h : vpath v = vpath w)
    (hoff : v%pageSize = w%pageSize) : v = w := by
  have hdiv := div_eq_of_vpath (canonical_of_userPage hv) (canonical_of_userPage hw) h
  rw [← Nat.div_add_mod v pageSize,hdiv,hoff,Nat.div_add_mod]

theorem pageAlign_of_dvd {a : ℕ} (h : pageSize ∣ a) : pageAlign a = a := Nat.div_mul_cancel h

theorem dvd_of_mem_pages_of_dvd {addr endAddr a : ℕ} (haddr : pageSize ∣ addr)
    (ha : a ∈ pages addr endAddr) : pageSize ∣ a := by
  obtain ⟨hle,-,hdvd⟩ := mem_pages.mp ha
  rw [← Nat.sub_add_cancel hle]
  exact Nat.dvd_add hdvd haddr

theorem dvd_of_mem_pages {ph : Elf64Phdr} {a : ℕ} (h : a ∈ ph.pages) : pageSize ∣ a :=
  dvd_of_mem_pages_of_dvd (Nat.dvd_mul_left ..) h

/-- The addresses of a segment are on its pages. -/
theorem pageAlign_mem_pages {ph : Elf64Phdr} {v : ℕ} (hlo : ph.vaddr ≤ v)
    (hhi : v < ph.vaddr+ph.memsz) : pageAlign v ∈ ph.pages := by
  refine mem_pages.mpr ⟨?_,?_,?_⟩
  · exact Nat.mul_le_mul_right _ (Nat.div_le_div_right hlo)
  · exact Nat.lt_of_le_of_lt (Nat.div_mul_le_self ..) hhi
  · exact Nat.dvd_sub (Nat.dvd_mul_left ..) (Nat.dvd_mul_left ..)

/-! ### Images -/

variable {data : List UInt8} {phdrs : List Elf64Phdr} {i : ℕ}

namespace Image

variable {I : Image} {v a : ℕ}

/-- Pages are mapped as a whole. -/
def Uniform (I : Image) : Prop := ∀ v w, vpath v = vpath w → (I v).isSome = (I w).isSome

theorem blankPage_of_eq (hv : vpath v = vpath a) : I.blankPage a v = some 0 := if_pos hv

theorem blankPage_of_ne (hv : vpath v ≠ vpath a) : I.blankPage a v = I v := if_neg hv

theorem Uniform.fillPage (h : Uniform I) (a : ℕ) : Uniform (I.fillPage a) := by
  intro v w hvw
  rw [Image.fillPage]
  split
  · exact h v w hvw
  · rw [blankPage,blankPage,hvw]
    split
    · rfl
    · exact h v w hvw

theorem Uniform.fillPage_of_isSome (h : Uniform I) (hv : (I v).isSome) : I.fillPage a v = I v := by
  rw [Image.fillPage]
  split
  · rfl
  · rename_i ha
    refine blankPage_of_ne fun hva => ?_
    rw [h v a hva] at hv
    exact ha hv

theorem fillPage_of_eq (hv : vpath v = vpath a) (hu : Uniform I) (hn : I v = none) :
    I.fillPage a v = some 0 := by
  rw [Image.fillPage,← hu v a hv,hn]
  exact blankPage_of_eq hv

theorem fillPage_of_ne (hv : vpath v ≠ vpath a) : I.fillPage a v = I v := by
  rw [Image.fillPage]
  split
  · rfl
  · exact blankPage_of_ne hv

theorem Uniform.fill (h : Uniform I) (as : List ℕ) : Uniform (I.fill as) := by
  induction as generalizing I with
  | nil => exact h
  | cons a as ih => exact ih (h.fillPage a)

theorem Uniform.fill_of_isSome (h : Uniform I) (hv : (I v).isSome) (as : List ℕ) :
    I.fill as v = I v := by
  induction as generalizing I with
  | nil => rfl
  | cons a as ih =>
    have heq := h.fillPage_of_isSome (a := a) hv
    exact (ih (h.fillPage a) (heq ▸ hv)).trans heq

theorem Uniform.fill_of_mem (h : Uniform I) {as : List ℕ} (ha : a ∈ as) (hv : vpath v = vpath a)
    (hn : I v = none) : I.fill as v = some 0 := by
  induction as generalizing I with
  | nil => cases ha
  | cons b as ih =>
    by_cases hb : vpath v = vpath b
    · have heq := fillPage_of_eq hb h hn
      exact ((h.fillPage b).fill_of_isSome (by rw [heq]; rfl) as).trans heq
    · obtain rfl | ha := List.mem_cons.mp ha
      · exact absurd hv hb
      · exact ih (h.fillPage b) ha ((fillPage_of_ne hb).trans hn)

theorem fill_of_forall_ne {as : List ℕ} (hv : ∀ a ∈ as, vpath v ≠ vpath a) : I.fill as v = I v := by
  induction as generalizing I with
  | nil => rfl
  | cons a as ih =>
    exact (ih fun b hb => hv b (List.mem_cons_of_mem _ hb)).trans
      (fillPage_of_ne (hv a (List.mem_cons_self ..)))

theorem store_of_ne {b : ℕ} (hv : ¬(vpath v = vpath a ∧ v%pageSize = a%pageSize)) :
    I.store a b v = I v := if_neg hv

theorem copy_isSome (ph : Elf64Phdr) (data : List UInt8) (n j : ℕ) :
    (copy ph data n j I v).isSome = (I v).isSome := by
  induction n generalizing j I with
  | zero => rfl
  | succ n ih => rw [copy,ih,store_isSome]

theorem Uniform.copy (h : Uniform I) (ph : Elf64Phdr) (data : List UInt8) (n j : ℕ) :
    Uniform (Image.copy ph data n j I) := by
  intro v w hvw
  rw [copy_isSome,copy_isSome]
  exact h v w hvw

theorem copy_of_forall_ne {ph : Elf64Phdr} {n j : ℕ}
    (hv : ∀ i, j ≤ i → i < j+n → ¬(vpath v = vpath ((ph.vaddr+i)%2^64) ∧
      v%pageSize = (ph.vaddr+i)%2^64%pageSize)) : copy ph data n j I v = I v := by
  induction n generalizing j I with
  | zero => rfl
  | succ n ih =>
    rw [copy,ih fun i hi hin => hv i (by omega) (by omega)]
    exact store_of_ne (hv j le_rfl (by omega))

/-- The byte stored at an address that occurs once in the copy. -/
theorem copy_of_eq {ph : Elf64Phdr} {n j i : ℕ} (hj : j ≤ i) (hn : i < j+n)
    (hpath : vpath v = vpath ((ph.vaddr+i)%2^64)) (hoff : v%pageSize = (ph.vaddr+i)%2^64%pageSize)
    (honce : ∀ i', j ≤ i' → i' < j+n → i' ≠ i → ¬(vpath v = vpath ((ph.vaddr+i')%2^64) ∧
      v%pageSize = (ph.vaddr+i')%2^64%pageSize)) (hI : (I v).isSome) :
    copy ph data n j I v = some (fileByte ph data i) := by
  induction n generalizing j I with
  | zero => omega
  | succ n ih =>
    rw [copy]
    by_cases hij : i = j
    · subst hij
      rw [copy_of_forall_ne fun i' hi hin => honce i' (by omega) (by omega) (by omega),store,
        if_pos ⟨hpath,hoff⟩]
      obtain ⟨b,hb⟩ := Option.isSome_iff_exists.mp hI
      rw [hb]
      rfl
    · refine ih (by omega) (by omega) (fun i' hi hin => honce i' (by omega) (by omega)) ?_
      rwa [store_isSome]

end Image

/-- `v` is on a page of one of the segments. -/
def OnSegment (phdrs : List Elf64Phdr) (v : ℕ) : Prop := ∃ ph ∈ phdrs, pageAlign v ∈ ph.pages

instance (phdrs : List Elf64Phdr) (v : ℕ) : Decidable (OnSegment phdrs v) :=
  inferInstanceAs (Decidable (∃ ph ∈ phdrs, pageAlign v ∈ ph.pages))

/-- The byte the headers ask for: of the last segment whose file part holds `v`, else 0. -/
def expected (data : List UInt8) (phdrs : List Elf64Phdr) (v : ℕ) : ℕ :=
  phdrs.foldl (fun b ph =>
    if ph.vaddr ≤ v ∧ v < ph.vaddr+ph.filesz then Image.fileByte ph data (v-ph.vaddr) else b) 0

/-- On pages of its own, and with no more bytes in the file than in memory. -/
structure Proper (ph : Elf64Phdr) : Prop where
  pages : ∀ a ∈ ph.pages, userPage a = true
  sizes : ph.filesz ≤ ph.memsz
  vaddr : ph.vaddr < 2^64

namespace Proper

variable {ph : Elf64Phdr} {v j : ℕ}

theorem mem_pages (h : Proper ph) (hj : j < ph.filesz) : pageAlign (ph.vaddr+j) ∈ ph.pages := by
  have := h.sizes
  exact pageAlign_mem_pages (by omega) (by omega)

theorem userPage (h : Proper ph) (hj : j < ph.filesz) :
    userPage (pageAlign (ph.vaddr+j)) = true := h.pages _ (h.mem_pages hj)

theorem lt_of_userPage {v : ℕ} (h : Mem.userPage (pageAlign v) = true) : v < 2^64 := by
  have := (userPage_iff.mp h).1
  simp only [pageAlign,pageSize] at this
  omega

theorem mod_eq (h : Proper ph) (hj : j < ph.filesz) : (ph.vaddr+j)%2^64 = ph.vaddr+j :=
  Nat.mod_eq_of_lt (lt_of_userPage (h.userPage hj))

theorem userSegment (h : Proper ph) : UserSegment ph where
  pages := h.pages
  bytes j hj := by
    rw [h.mod_eq hj]
    have hpage := sharedPath_of_userPage (h.userPage hj)
    rwa [vpath_congr (w := ph.vaddr+j)] at hpage
    rw [pageAlign,Nat.mul_div_cancel _ (by decide)]

/-- Of the user addresses the copy changes those of the segment. -/
theorem copy_eq (h : Proper ph) (data : List UInt8) {I : Image}
    (hv : Mem.userPage (pageAlign v) = true) (hI : (I v).isSome) :
    Image.copy ph data ph.filesz 0 I v =
      if ph.vaddr ≤ v ∧ v < ph.vaddr+ph.filesz then some (Image.fileByte ph data (v-ph.vaddr))
      else I v := by
  have heq (i : ℕ) (hi : i < ph.filesz) (hsame : vpath v = vpath ((ph.vaddr+i)%2^64) ∧
      v%pageSize = (ph.vaddr+i)%2^64%pageSize) : v = ph.vaddr+i := by
    rw [h.mod_eq hi] at hsame
    exact eq_of_vpath hv (h.userPage hi) hsame.1 hsame.2
  split
  · have hi : v-ph.vaddr < ph.filesz := by omega
    have hadd : ph.vaddr+(v-ph.vaddr) = v := by omega
    have hmod := h.mod_eq hi
    rw [hadd] at hmod
    refine Image.copy_of_eq (Nat.zero_le _) (by omega) (by rw [hadd,hmod]) (by rw [hadd,hmod]) ?_ hI
    intro i' _ hi' hne hsame
    have := heq i' (by omega) hsame
    omega
  · rename_i hout
    refine Image.copy_of_forall_ne fun i _ hi hsame => hout ?_
    have := heq i (by omega) hsame
    omega

end Proper

/-! ### The loaded segments -/

theorem expected_concat (data : List UInt8) (phdrs : List Elf64Phdr) (ph : Elf64Phdr) (v : ℕ) :
    expected data (phdrs++[ph]) v =
      if ph.vaddr ≤ v ∧ v < ph.vaddr+ph.filesz then Image.fileByte ph data (v-ph.vaddr)
      else expected data phdrs v := by
  rw [expected,List.foldl_append]
  rfl

/-- Off the pages of the segments there are no file bytes. -/
theorem expected_of_not_onSegment {v : ℕ}
    (hp : ∀ ph ∈ phdrs, Proper ph) (hv : ¬OnSegment phdrs v) : expected data phdrs v = 0 := by
  induction phdrs using List.reverseRecOn with
  | nil => rfl
  | append_singleton phdrs ph ih =>
    have hlast : ph ∈ phdrs++[ph] := by simp
    rw [expected_concat,if_neg,ih]
    · exact fun q hq => hp q (List.mem_append_left _ hq)
    · rintro ⟨q,hq,hmem⟩
      exact hv ⟨q,List.mem_append_left _ hq,hmem⟩
    · rintro ⟨hlo,hhi⟩
      have := (hp ph hlast).sizes
      exact hv ⟨ph,hlast,pageAlign_mem_pages hlo (by omega)⟩

theorem onSegment_concat {ph : Elf64Phdr} {v : ℕ} :
    OnSegment (phdrs++[ph]) v ↔ OnSegment phdrs v ∨ pageAlign v ∈ ph.pages := by
  simp only [OnSegment,List.mem_append,List.mem_singleton,or_and_right,exists_or,exists_eq_left]

/-- Loading proper segments gives every page of theirs the expected bytes, and maps no other
page. -/
theorem loadSegments_eq (data : List UInt8) (hp : ∀ ph ∈ phdrs, Proper ph) :
    (Image.loadSegments data phdrs noImage).Uniform ∧
      ∀ v, userPage (pageAlign v) = true → Image.loadSegments data phdrs noImage v =
        if OnSegment phdrs v then some (expected data phdrs v) else none := by
  induction phdrs using List.reverseRecOn with
  | nil => exact ⟨fun _ _ _ => rfl,fun v _ => (if_neg (by rintro ⟨_,h,-⟩; cases h)).symm⟩
  | append_singleton phdrs ph ih =>
    obtain ⟨hunif,hval⟩ := ih fun q hq => hp q (List.mem_append_left _ hq)
    have hph := hp ph (by simp)
    have happ : Image.loadSegments data (phdrs++[ph]) noImage =
        Image.loadSegment data (Image.loadSegments data phdrs noImage) ph := by
      rw [Image.loadSegments,List.foldl_append]
      rfl
    generalize Image.loadSegments data phdrs noImage = I at hunif hval happ
    rw [happ,Image.loadSegment,visited_eq hph.pages hph.vaddr]
    refine ⟨(hunif.fill _).copy ph data _ _,fun v hv => ?_⟩
    -- the page of `v` is one of the segment's if their paths agree
    have hmem : pageAlign v ∈ ph.pages ↔ ∃ a ∈ ph.pages, vpath v = vpath a := by
      constructor
      · intro hmem
        refine ⟨_,hmem,vpath_congr ?_⟩
        rw [pageAlign,Nat.mul_div_cancel _ (by decide)]
      · rintro ⟨a,ha,hva⟩
        have halign := pageAlign_of_dvd (dvd_of_mem_pages ha)
        have hcanon : canonical a = true := by
          refine canonical_of_userPage ?_
          rw [halign]
          exact hph.pages a ha
        have hdiv := div_eq_of_vpath (canonical_of_userPage hv) hcanon hva
        have hpage : pageAlign v = a := by
          rw [pageAlign,hdiv]
          exact halign
        rwa [hpage]
    have hfill : I.fill ph.pages v = if OnSegment (phdrs++[ph]) v
        then some (expected data phdrs v) else none := by
      by_cases hon : OnSegment phdrs v
      · rw [if_pos (onSegment_concat.mpr (.inl hon))]
        have hv := hval v hv
        rw [if_pos hon] at hv
        rw [hunif.fill_of_isSome (by rw [hv]; rfl),hv]
      · have hv := hval v hv
        rw [if_neg hon] at hv
        by_cases hin : pageAlign v ∈ ph.pages
        · obtain ⟨a,ha,hva⟩ := hmem.mp hin
          rw [if_pos (onSegment_concat.mpr (.inr hin)),hunif.fill_of_mem ha hva hv,
            expected_of_not_onSegment (fun q hq => hp q (List.mem_append_left _ hq)) hon]
        · rw [if_neg (by rw [onSegment_concat]; exact not_or.mpr ⟨hon,hin⟩),
            Image.fill_of_forall_ne fun a ha hva => hin (hmem.mpr ⟨a,ha,hva⟩),hv]
    by_cases hon : OnSegment (phdrs++[ph]) v
    · rw [if_pos hon] at hfill ⊢
      rw [hph.copy_eq data hv (by rw [hfill]; rfl),hfill,expected_concat]
      split <;> rfl
    · rw [if_neg hon] at hfill ⊢
      rw [← Option.not_isSome_iff_eq_none,Image.copy_isSome,hfill]
      simp

/-! ### The argument page and the stack -/

section Fixed

variable {I : Image} {v a off : ℕ} {bs : List UInt8}

theorem putBytes_of_ne (ha : a%pageSize = 0) (hlen : off+bs.length ≤ pageSize)
    (hv : vpath v ≠ vpath a) : Image.putBytes (a+off) bs I v = I v := by
  induction bs generalizing off I with
  | nil => rfl
  | cons b bs ih =>
    rw [List.length_cons] at hlen
    have hpath : vpath (a+off) = vpath a := vpath_add ha (by omega)
    rw [Image.putBytes,Nat.add_assoc,ih (by omega)]
    exact Image.store_of_ne fun h => hv (h.1.trans hpath)

theorem putBytes_eq (ha : a%pageSize = 0) (hlen : off+bs.length ≤ pageSize)
    (hi : i < pageSize) (hI : (I (a+i)).isSome) : Image.putBytes (a+off) bs I (a+i) =
      if off ≤ i ∧ i < off+bs.length then some (bs[i-off]?.getD 0).toNat else I (a+i) := by
  induction bs generalizing off I with
  | nil => rw [Image.putBytes,if_neg (by simp)]
  | cons b bs ih =>
    rw [List.length_cons] at hlen
    have hoff : (a+i)%pageSize = (a+off)%pageSize ↔ i = off := by
      simp only [pageSize] at *
      omega
    rw [Image.putBytes,Nat.add_assoc,ih (by omega) (by rwa [Image.store_isSome]),Image.store]
    obtain ⟨c,hc⟩ := Option.isSome_iff_exists.mp hI
    by_cases heq : i = off
    · subst heq
      rw [hc]
      simp
    · rw [if_neg (c := vpath (a+i) = _ ∧ _) fun h => heq (hoff.mp h.2)]
      by_cases hin : off+1 ≤ i ∧ i < off+1+bs.length
      · obtain ⟨d,rfl⟩ := Nat.exists_eq_add_of_le hin.1
        rw [if_pos hin,if_pos (by simp only [List.length_cons]; omega)]
        have hd : off+1+d-off = d+1 := by omega
        rw [hd,Nat.add_sub_cancel_left,List.getElem?_cons_succ]
      · rw [if_neg hin,if_neg (by simp only [List.length_cons]; omega)]

theorem mapStack_of_ne (hv : ∀ i < 4, vpath v ≠ vpath (userStackBase+i*pageSize)) :
    I.mapStack v = I v := by
  have hfold (l : List ℕ) (hl : ∀ i ∈ l, i < 4) (I : Image) :
      l.foldl (fun I i => I.blankPage (userStackBase+i*pageSize)) I v = I v := by
    induction l generalizing I with
    | nil => rfl
    | cons i l ih =>
      rw [List.foldl_cons,ih (fun j hj => hl j (List.mem_cons_of_mem _ hj))]
      exact Image.blankPage_of_ne (hv i (hl i (List.mem_cons_self ..)))
  exact hfold _ (fun i hi => List.mem_range.mp hi) I

theorem userPage_of_fixedPage (h : fixedPage a) : userPage a = true := by
  obtain rfl | ⟨i,hi,rfl⟩ := h
  · decide
  · decide +revert

/-- User pages other than a fixed one have other paths. -/
theorem vpath_ne_of_fixedPage (hv : userPage (pageAlign v) = true) (ha : fixedPage a)
    (hne : pageAlign v ≠ a) : vpath v ≠ vpath a := by
  have halign : pageAlign a = a := by
    obtain rfl | ⟨i,hi,rfl⟩ := ha
    · decide
    · exact pageAlign_of_dvd (Nat.dvd_add (by decide) (Nat.dvd_mul_left ..))
  intro hva
  have hcanon : canonical a = true := by
    refine canonical_of_userPage ?_
    rw [halign]
    exact userPage_of_fixedPage ha
  have hdiv := div_eq_of_vpath (canonical_of_userPage hv) hcanon hva
  refine hne ?_
  rw [← halign,pageAlign,hdiv]
  rfl

end Fixed

/-! ### What `elfSpawn` promises -/

/-- A user address reads as in the image. -/
theorem Space.readByte {σ : Vm} {root v : ℕ} {T : Tree ℕ ℕ} (h : Space σ root T)
    (hv : userPage (pageAlign v) = true) : σ.readByte root v = image σ T v := by
  have hshared := sharedPath_of_userPage hv
  have hpath : vpath (pageAlign v) = vpath v := by
    refine vpath_congr ?_
    rw [pageAlign,Nat.mul_div_cancel _ (by decide)]
  rw [hpath] at hshared
  rw [Vm.readByte,h.translate hshared (canonical_of_userPage hv),image]
  cases T (vpath v) <;> rfl

/-- The child's memory is what the file and the arguments say. -/
structure ImageCorrect (data args : List UInt8) (phdrs : List Elf64Phdr) (child : Process)
    (σ : Vm) : Prop where
  inside : ∀ ph ∈ phdrs, ∀ j < ph.filesz, (ph.offset+j)%2^64 < data.length
  sizes : ∀ ph ∈ phdrs, ph.filesz ≤ ph.memsz
  all : phdrs = ptLoads data
  bytes : ∀ v, OnSegment phdrs v → σ.readByte child.pml4 v = some (expected data phdrs v)
  args : ∀ i < pageSize, σ.readByte child.pml4 (argPageVaddr+i) =
    some ((args.take 256)[i]?.getD 0).toNat
  apart : ∀ ph ∈ phdrs, ∀ a ∈ ph.pages, ¬fixedPage a

/-- The headers fit the static buffer, memory holds what the file has, and no segment
meets the argument page or the stack. -/
structure Loadable (data : List UInt8) (phdrs : List Elf64Phdr) : Prop where
  count : (ptLoads data).length ≤ maxPTLoadSegments
  sizes : ∀ ph ∈ phdrs, ph.filesz ≤ ph.memsz
  apart : ∀ ph ∈ phdrs, ∀ a ∈ ph.pages, ¬fixedPage a

theorem copyBytes_inside {frame : Vm → ℕ → Option ℕ} {ph : Elf64Phdr}
    {n j : ℕ} {σ σ' : Vm} (h : copyBytes frame ph data n j σ = .ok σ') (i : ℕ) (hj : j ≤ i)
    (hi : i < j+n) : (ph.offset+i)%2^64 < data.length := by
  induction n generalizing j σ with
  | zero => omega
  | succ n ih =>
    rw [copyBytes] at h
    split at h
    · cases h
    · obtain ⟨b,hb,h⟩ := Res.bind_eq_ok.mp h
      by_cases hij : i = j
      · subst hij
        exact (List.getElem?_eq_some_iff.mp (index_eq_ok hb)).1
      · exact ih h (by omega) (by omega)

/-- A read outside the file stops the loader. -/
theorem loadSegments_inside {frame : Vm → ℕ → Option ℕ} {root : ℕ} {s s' : Vm × Process}
    (h : loadSegments frame root data phdrs s = .ok s') {ph : Elf64Phdr} (hph : ph ∈ phdrs) (j : ℕ)
    (hj : j < ph.filesz) : (ph.offset+j)%2^64 < data.length := by
  induction phdrs generalizing s with
  | nil => cases hph
  | cons q phdrs ih =>
    obtain ⟨s₁,hseg,hrest⟩ := Res.bind_eq_ok.mp h
    obtain rfl | hph := List.mem_cons.mp hph
    · obtain ⟨s₂,-,hseg⟩ := Res.bind_eq_ok.mp hseg
      obtain ⟨σ',hcopy,-⟩ := Res.bind_eq_ok.mp hseg
      exact copyBytes_inside hcopy j (Nat.zero_le _) (by omega)
    · exact ih hrest hph

/-- What a spawned child reads at its segments. -/
theorem spawn_onSegment {data args : List UInt8} {v : ℕ}
    (hp : ∀ ph ∈ phdrs, Proper ph) (hapart : ∀ ph ∈ phdrs, ∀ a ∈ ph.pages, ¬fixedPage a)
    (hv : OnSegment phdrs v) :
    Image.spawn data args phdrs v = some (expected data phdrs v) := by
  obtain ⟨ph,hph,hmem⟩ := hv
  have huser := (hp ph hph).pages _ hmem
  have hne {a : ℕ} (ha : fixedPage a) : vpath v ≠ vpath a :=
    vpath_ne_of_fixedPage huser ha fun heq => hapart ph hph _ hmem (heq ▸ ha)
  have hlen : 0+(args.take 256).length ≤ pageSize := by
    rw [List.length_take,pageSize]
    omega
  rw [Image.spawn,mapStack_of_ne fun i hi => hne (.inr ⟨i,hi,rfl⟩)]
  have hput := putBytes_of_ne (I := (Image.loadSegments data phdrs noImage).blankPage argPageVaddr)
    (a := argPageVaddr) (by decide) hlen (hne (.inl rfl))
  rw [Nat.add_zero] at hput
  rw [hput,Image.blankPage_of_ne (hne (.inl rfl)),(loadSegments_eq data hp).2 v huser,
    if_pos ⟨ph,hph,hmem⟩]

/-- What it reads at the argument page, whatever its segments are. -/
theorem spawn_argPage (data args : List UInt8) (phdrs : List Elf64Phdr) (hi : i < pageSize) :
    Image.spawn data args phdrs (argPageVaddr+i) = some ((args.take 256)[i]?.getD 0).toNat := by
  have hpath : vpath (argPageVaddr+i) = vpath argPageVaddr := vpath_add (by decide) hi
  have hlen : 0+(args.take 256).length ≤ pageSize := by
    rw [List.length_take,pageSize]
    omega
  have hblank := Image.blankPage_of_eq (I := Image.loadSegments data phdrs noImage) hpath
  have hput := putBytes_eq (I := (Image.loadSegments data phdrs noImage).blankPage argPageVaddr)
    (a := argPageVaddr) (by decide) hlen hi (by rw [hblank]; rfl)
  rw [Image.spawn,mapStack_of_ne]
  · rw [Nat.add_zero] at hput
    rw [hput,hblank]
    split
    · simp
    · rw [List.getElem?_eq_none (by omega)]
      rfl
  · rw [hpath]
    decide

/-- A successful `elfSpawn` with a correct image has had loadable headers, and loadable
headers off the kernel's entries get a correct image. -/
theorem imageCorrect_of_loadable {k : Boot} {σ σ' : Vm} {data args : List UInt8} {entry : ℕ}
    {phdrs : List Elf64Phdr} {child : Process} (hwf : σ.Wf)
    (hparse : elfParse data = .ok (some (entry,phdrs)))
    (hok : elfSpawn k (some data) args σ = .ok (some child,σ')) :
    (ImageCorrect data args phdrs child σ' → Loadable data phdrs) ∧
      (Loadable data phdrs → (∀ ph ∈ phdrs, ∀ a ∈ ph.pages, userPage a = true) →
        ImageCorrect data args phdrs child σ') := by
  constructor
  · intro h
    refine ⟨?_,h.sizes,h.apart⟩
    rw [← h.all]
    exact elfParse_length_le hparse
  · intro h huser
    have hp (ph : Elf64Phdr) (hph : ph ∈ phdrs) : Proper ph :=
      ⟨huser ph hph,h.sizes ph hph,(elfParse_lt hparse hph).1⟩
    obtain ⟨σ₁,proc,T,hspawn⟩ := elfSpawn_spec False (fun _ => True) hwf hparse
      (fun ph hph => ⟨(hp ph hph).userSegment.offKernel,fun _ _ => trivial⟩) (fun _ _ => trivial)
      (fun hz => hz.elim) hok
    obtain ⟨entry',phdrs',s,hparse',hload,-⟩ := elfSpawn_eq_ok hok
    obtain ⟨rfl,rfl⟩ : entry' = entry ∧ phdrs' = phdrs := by simpa [hparse] using hparse'.symm
    have hread {v : ℕ} (hv : userPage (pageAlign v) = true) :
        σ'.readByte child.pml4 v = Image.spawn data args phdrs' v := by
      rw [hspawn.loaded.space.readByte hv]
      exact congrFun hspawn.loaded.image v
    refine ⟨fun ph hph => loadSegments_inside hload hph,h.sizes,?_,?_,?_,h.apart⟩
    · rw [elfParse_eq hparse,List.take_of_length_le h.count]
    · intro v hv
      obtain ⟨ph,hph,hmem⟩ := hv
      rw [hread ((hp ph hph).pages _ hmem)]
      exact spawn_onSegment hp h.apart ⟨ph,hph,hmem⟩
    · intro i hi
      have halign : pageAlign (argPageVaddr+i) = argPageVaddr := by
        simp only [pageAlign,argPageVaddr,pageSize] at *
        omega
      rw [hread (by rw [halign]; decide)]
      exact spawn_argPage data args phdrs' hi

/-! ### The smallest program -/

/-- One byte of code at the usual address. -/
def tinyFile : List UInt8 := elfFile 0x40100000 [loadPhdr 120 0x40100000 1 1] [0xC3]

theorem tinyFile_parse :
    elfParse tinyFile = .ok (some (0x40100000,[loadPhdr 120 0x40100000 1 1])) := by
  decide +kernel

theorem tinyFile_spawns : ∃ child σ',
    elfSpawn bootKernel (some tinyFile) [] bootVm = .ok (some child,σ') ∧ child.pml4 = 1024 ∧
      child.heapBreak = 0x40101000 ∧ child.heapLimit = 0x40301000 := by
  obtain ⟨child,σ',hok⟩ := exists_of_spawned
    (r := elfSpawn bootKernel (some tinyFile) [] bootVm) (by decide +kernel)
  have hrun : (spawned (elfSpawn bootKernel (some tinyFile) [] bootVm)).map (fun r =>
      (r.1.pml4,r.1.heapBreak,r.1.heapLimit)) = some (1024,0x40101000,0x40301000) := by
    decide +kernel
  simp only [hok,spawned,Option.map_some,Option.some_inj,Prod.mk.injEq] at hrun
  exact ⟨child,σ',hok,hrun⟩

theorem tinyFile_userSegment : ∀ ph ∈ [loadPhdr 120 0x40100000 1 1], UserSegment ph := by
  intro ph hph
  rw [List.mem_singleton.mp hph]
  exact ⟨by decide,by decide⟩

theorem imageCorrect_of_loadable_tiny : ∃ child σ',
    elfSpawn bootKernel (some tinyFile) [0x61] bootVm = .ok (some child,σ') ∧
      ImageCorrect tinyFile [0x61] [loadPhdr 120 0x40100000 1 1] child σ' := by
  obtain ⟨child,σ',hok⟩ := exists_of_spawned
    (r := elfSpawn bootKernel (some tinyFile) [0x61] bootVm) (by decide +kernel)
  have hload : Loadable tinyFile [loadPhdr 120 0x40100000 1 1] :=
    ⟨by decide +kernel,by decide +kernel,by decide +kernel⟩
  exact ⟨child,σ',hok,
    (imageCorrect_of_loadable bootVm_wf tinyFile_parse hok).2 hload (by decide +kernel)⟩

/-- One byte of code where the arguments go. -/
def fileOnArgPage : List UInt8 := elfFile argPageVaddr [loadPhdr 120 argPageVaddr 1 1] [0xC3]

theorem fileOnArgPage_userSegment : ∀ ph ∈ [loadPhdr 120 argPageVaddr 1 1], UserSegment ph := by
  intro ph hph
  rw [List.mem_singleton.mp hph]
  exact ⟨by decide,by decide⟩

theorem argPage_replaces_segment : ∃ child σ',
    elfSpawn bootKernel (some fileOnArgPage) [] bootVm = .ok (some child,σ') ∧
      expected fileOnArgPage [loadPhdr 120 argPageVaddr 1 1] argPageVaddr = 0xC3 ∧
      σ'.readByte child.pml4 argPageVaddr = some 0 ∧
      ¬ImageCorrect fileOnArgPage [] [loadPhdr 120 argPageVaddr 1 1] child σ' := by
  obtain ⟨child,σ',hok⟩ := exists_of_spawned
    (r := elfSpawn bootKernel (some fileOnArgPage) [] bootVm) (by decide +kernel)
  have hparse : elfParse fileOnArgPage =
      .ok (some (argPageVaddr,[loadPhdr 120 argPageVaddr 1 1])) := by
    decide +kernel
  obtain ⟨σ₁,proc,T,hspawn⟩ := elfSpawn_spec False (fun _ => True) bootVm_wf hparse
    (fun ph hph => ⟨(fileOnArgPage_userSegment ph hph).offKernel,fun _ _ => trivial⟩)
    (fun _ _ => trivial)
    (fun hz => hz.elim) hok
  have hread : σ'.readByte child.pml4 argPageVaddr = some 0 := by
    rw [hspawn.loaded.space.readByte (by decide)]
    exact (congrFun hspawn.loaded.image _).trans (spawn_argPage _ _ _ (i := 0) (by decide))
  refine ⟨child,σ',hok,by decide +kernel,hread,fun h => ?_⟩
  exact h.apart _ (List.mem_singleton.mpr rfl) argPageVaddr (by decide +kernel) (.inl rfl)

end Gooos.Mem
