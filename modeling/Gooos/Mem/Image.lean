import Gooos.Mem.Tables

/-!
# Contents of an address space

What a process can read at each address, as a partial function to bytes, and the loader on
that level: blank pages, stored bytes and nothing about frames or tables. The loader of
`process.go` and `elf.go` does the same on the tables.
-/

namespace Gooos.Mem

open Radix
open Option (map_some some_inj)

/-- The byte at each mapped address. -/
abbrev Image := ℕ → Option ℕ

def noImage : Image := fun _ => none

namespace Image

/-- A zeroed page at `a`, whatever was there. -/
def blankPage (I : Image) (a : ℕ) : Image := fun v => if vpath v = vpath a then some 0 else I v

/-- A zeroed page at `a` if none is mapped there. -/
def fillPage (I : Image) (a : ℕ) : Image := if (I a).isSome then I else I.blankPage a

/-- Store a byte, if `a` is mapped. -/
def store (I : Image) (a b : ℕ) : Image := fun v =>
  if vpath v = vpath a ∧ v%pageSize = a%pageSize then (I v).map fun _ => b else I v

def fill (I : Image) (as : List ℕ) : Image := as.foldl fillPage I

/-- Byte `j` of a segment in the file. -/
def fileByte (ph : Elf64Phdr) (data : List UInt8) (j : ℕ) : ℕ :=
  (data[(ph.offset+j)%2^64]?.getD 0).toNat

def copy (ph : Elf64Phdr) (data : List UInt8) : ℕ → ℕ → Image → Image
  | 0, _, I => I
  | n+1, j, I => copy ph data n (j+1) (I.store ((ph.vaddr+j)%2^64) (fileByte ph data j))

def putBytes : ℕ → List UInt8 → Image → Image
  | _, [], I => I
  | a, b::bs, I => putBytes (a+1) bs (I.store a b.toNat)

end Image

/-- The pages that the addresses of a segment are on. -/
def Elf64Phdr.pages (ph : Elf64Phdr) : List ℕ := Mem.pages (pageAlign ph.vaddr) (ph.vaddr+ph.memsz)

/-- The pages the loader's loop visits. Its end is a 64-bit sum. -/
def Elf64Phdr.visited (ph : Elf64Phdr) : List ℕ := Mem.pages (pageAlign ph.vaddr) ph.endAddr

namespace Image

def loadSegment (data : List UInt8) (I : Image) (ph : Elf64Phdr) : Image :=
  copy ph data ph.filesz 0 (I.fill ph.visited)

def loadSegments (data : List UInt8) (phdrs : List Elf64Phdr) (I : Image) : Image :=
  phdrs.foldl (loadSegment data) I

def mapStack (I : Image) : Image :=
  (List.range 4).foldl (fun I i => I.blankPage (userStackBase+i*pageSize)) I

/-- What `elfSpawn` leaves a child with. -/
def spawn (data args : List UInt8) (phdrs : List Elf64Phdr) : Image :=
  (putBytes argPageVaddr (args.take 256)
    ((loadSegments data phdrs noImage).blankPage argPageVaddr)).mapStack

theorem store_isSome (I : Image) (a b v : ℕ) : (I.store a b v).isSome = (I v).isSome := by
  rw [store]
  split
  · cases I v <;> rfl
  · rfl

end Image

/-- The contents of the pages of a tree. -/
def image (σ : Vm) (T : Tree ℕ ℕ) : Image := fun v =>
  (T (vpath v)).map fun f => σ.byte f (v%pageSize)

theorem image_isSome (σ : Vm) (T : Tree ℕ ℕ) (v : ℕ) : (image σ T v).isSome = (T (vpath v)).isSome :=
  Option.isSome_map

/-! ### Bytes of frames -/

variable {a b g off v : ℕ} {ph : Elf64Phdr} {data : List UInt8} {frame : Vm → ℕ → Option ℕ}

namespace Vm

theorem setByte_mem_of_ne (σ : Vm) {f g : ℕ} (off b : ℕ) (hg : g ≠ f) :
    (σ.setByte f off b).mem g = σ.mem g := setCell_mem_of_ne σ _ _ hg

theorem setByte_byte (σ : Vm) (f off : ℕ) (hb : b < 256) (g o : ℕ) :
    (σ.setByte f off b).byte g o = if g = f ∧ o = off then b else σ.byte g o := by
  rw [byte,setByte,setCell_mem]
  by_cases hcell : g = f ∧ o/8 = off/8
  · obtain ⟨rfl,ho⟩ := hcell
    rw [if_pos ⟨rfl,ho⟩]
    by_cases hoff : o = off
    · subst hoff
      rw [if_pos ⟨rfl,rfl⟩,byteOf_setByteOf _ _ hb]
    · rw [if_neg fun h => hoff h.2,byteOf_setByteOf_of_ne _ hb (by omega),← ho]
      rfl
  · rw [if_neg hcell,if_neg]
    · rfl
    · rintro ⟨rfl,rfl⟩
      exact hcell ⟨rfl,rfl⟩

end Vm

/-! ### Single steps of the loader -/

section Steps

variable {z : Prop} {base σ σ' : Vm} {root f : ℕ} {T₀ T T' : Tree ℕ ℕ} {I : Image}

theorem image_blankPage (h : Space σ root T) (hm : Maps z σ T v g σ' T') :
    image σ' T' = (image σ T).blankPage v := by
  ext1 u
  rw [image,Image.blankPage]
  by_cases hu : vpath u = vpath v
  · rw [if_pos hu,hu,hm.page,map_some,Vm.byte,hm.blank,byteOf,Nat.zero_div]
  · rw [if_neg hu,hm.leaves (vpath u) rfl hu,image]
    cases hf : T (vpath u) with
    | none => rfl
    | some f =>
      obtain ⟨hbusy,hzero⟩ := h.busy _ _ hf
      have hmem : σ'.mem f = σ.mem f := hm.grows.kept f hbusy (absurd · hzero) fun p hp => by
        rw [h.holds.inj p _ f hp hf]
        rfl
      rw [map_some,map_some,Vm.byte,hmem,Vm.byte]

/-- A byte in a page, or in frame 0, is in no table. -/
theorem Space.setByte (h : Space σ root T)
    (hf : f = 0 ∨ ∃ q, q.length = 4 ∧ T q = some f) : Space (σ.setByte f off b) root T := by
  have hmem {p : List ℕ} {t : ℕ} (hp : T p = some t) (hlen : p.length < 4) :
      (σ.setByte f off b).mem t = σ.mem t := by
    refine Vm.setByte_mem_of_ne σ off b ?_
    rintro rfl
    obtain hf | ⟨q,hq,hf⟩ := hf
    · exact (h.busy p t hp).2 hf
    · rw [h.holds.inj p q t hp hf] at hlen
      omega
  refine ⟨h.wf.setCell,h.holds.congr fun p t i hp hlen _ => by rw [hmem hp hlen],h.root,h.busy,?_⟩
  intro q hlen hq p i t hpre hp
  have hle := hpre.length_le
  rw [List.length_append,List.length_singleton] at hle
  rw [hmem hp (by omega)]
  exact h.lit q hlen hq p i t hpre hp

theorem Touches.setByte (h : Touches z base T₀ σ T) (hs : Space σ root T)
    (hf : f = 0 ∧ ¬z ∨ ∃ q, q.length = 4 ∧ T q = some f) :
    Touches z base T₀ (σ.setByte f off b) T := by
  refine ⟨h.free,?_,?_,h.tables,h.fresh,?_⟩
  · intro t ht
    rw [Vm.setByte_mem_of_ne σ off b,h.idle t ht]
    rintro rfl
    obtain ⟨rfl,-⟩ | ⟨q,-,hqT⟩ := hf
    · exact hs.wf.zero ht
    · exact (hs.busy q t hqT).1 ht
  · intro t ht hz hnot
    rw [Vm.setByte_mem_of_ne σ off b,h.kept t ht hz hnot]
    rintro rfl
    obtain ⟨h0,hnz⟩ | ⟨q,-,hqT⟩ := hf
    · exact hnz (hz h0)
    · obtain hold | hfree := h.fresh q t hqT
      · exact hnot q hold
      · exact ht hfree
  · intro p t i hp hlen hsh
    have hpT := h.tables p t hp hlen
    rw [Vm.setByte_mem_of_ne σ off b,h.shared p t i hp hlen hsh]
    rintro rfl
    obtain ⟨h0,-⟩ | ⟨q,hq,hqT⟩ := hf
    · exact (hs.busy p t hpT).2 h0
    · rw [hs.holds.inj p q t hpT hqT] at hlen
      omega

theorem image_setByte (h : Space σ root T) (hb : b < 256) (ha : T (vpath a) = some f) :
    image (σ.setByte f (a%pageSize) b) T = (image σ T).store a b := by
  ext1 v
  rw [image,Image.store,image]
  cases hv : T (vpath v) with
  | none =>
    rw [if_neg]
    · rfl
    · rintro ⟨hva,-⟩
      rw [hva,ha] at hv
      cases hv
  | some g =>
    rw [map_some,Vm.setByte_byte σ f _ hb]
    have hiff : g = f ↔ vpath v = vpath a := by
      constructor
      · rintro rfl
        exact h.holds.inj _ _ g hv ha
      · intro hva
        rw [hva,ha,some_inj] at hv
        exact hv.symm
    by_cases hpage : vpath v = vpath a ∧ v%pageSize = a%pageSize
    · rw [if_pos hpage,if_pos ⟨hiff.mpr hpage.1,hpage.2⟩]
      rfl
    · rw [if_neg hpage,if_neg fun hg => hpage ⟨hiff.mp hg.1,hg.2⟩]
      rfl

/-- Frame 0 is no page. -/
theorem image_setByte_zero (h : Space σ root T) (off b : ℕ) :
    image (σ.setByte 0 off b) T = image σ T := by
  ext1 v
  rw [image,image]
  cases hv : T (vpath v) with
  | none => rfl
  | some g =>
    rw [map_some,map_some,Vm.byte,Vm.setByte_mem_of_ne σ off b (h.busy _ _ hv).2,
      Vm.byte]

theorem Image.store_of_none (b : ℕ) (hI : ∀ v, vpath v = vpath a → I v = none) :
    I.store a b = I := by
  ext1 v
  rw [Image.store]
  split
  · rename_i hv
    rw [hI v hv.1]
    rfl
  · rfl

end Steps

/-! ### The loader -/

/-- Pages a process may have for itself: canonical addresses off the kernel's entries. The
last page of all is left out, since a loop to its end does not stop. -/
def userPage (a : ℕ) : Bool :=
  (a < 2^47 || (2^64-2^47 ≤ a && a+pageSize < 2^64)) && !sharedPath (vpath a)

theorem userPage_iff : userPage a = true ↔
    (a < 2^47 ∨ 2^64-2^47 ≤ a ∧ a+pageSize < 2^64) ∧ sharedPath (vpath a) = false := by
  simp only [userPage,Bool.and_eq_true,Bool.or_eq_true,decide_eq_true_eq,Bool.not_eq_true']

theorem sharedPath_of_userPage (h : userPage a = true) : sharedPath (vpath a) = false :=
  (userPage_iff.mp h).2

/-- The loader maps and writes the segment off the kernel's entries. -/
structure UserSegment (ph : Elf64Phdr) : Prop where
  pages : ∀ a ∈ ph.pages, userPage a = true
  bytes : ∀ j < ph.filesz, sharedPath (vpath ((ph.vaddr+j)%2^64)) = false

theorem mem_pages_of_visited (h : a ∈ ph.visited) : a ∈ ph.pages := by
  obtain ⟨hle,hlt,hdvd⟩ := mem_pages.mp h
  exact mem_pages.mpr ⟨hle,hlt.trans_le (Nat.mod_le ..),hdvd⟩

/-- Off the last page of all a segment's end does not wrap around. -/
theorem endAddr_eq (h : ∀ a ∈ ph.pages, userPage a = true) (hv : ph.vaddr < 2^64) :
    ph.endAddr = ph.vaddr+ph.memsz ∧
      (ph.endAddr+pageSize ≤ 2^64 ∨ ph.endAddr ≤ pageAlign ph.vaddr) := by
  have halign : pageAlign ph.vaddr ≤ ph.vaddr := Nat.div_mul_le_self ..
  obtain hle | hlt := le_or_gt (ph.vaddr+ph.memsz) (pageAlign ph.vaddr)
  · have hend : ph.endAddr = ph.vaddr+ph.memsz := Nat.mod_eq_of_lt (by omega)
    exact ⟨hend,.inr (hend.trans_le hle)⟩
  · have hwrap : ph.vaddr+ph.memsz+pageSize ≤ 2^64 := by
      by_contra hbig
      have hmem : 2^64-pageSize ∈ ph.pages := by
        refine mem_pages.mpr ⟨?_,by omega,?_⟩
        · simp only [pageAlign,pageSize] at halign ⊢
          omega
        · exact Nat.dvd_sub (by decide) (Nat.dvd_mul_left ..)
      exact absurd (h _ hmem) (by decide)
    have hend : ph.endAddr = ph.vaddr+ph.memsz :=
      Nat.mod_eq_of_lt (by simp only [pageSize] at *; omega)
    exact ⟨hend,.inl (hend ▸ hwrap)⟩

theorem visited_eq (h : ∀ a ∈ ph.pages, userPage a = true) (hv : ph.vaddr < 2^64) :
    ph.visited = ph.pages := by
  rw [Elf64Phdr.visited,(endAddr_eq h hv).1,Elf64Phdr.pages]

/-- The loader maps and writes the segment off the kernel's entries, at any address. -/
structure OffKernel (ph : Elf64Phdr) : Prop where
  visited : ∀ a ∈ ph.visited, sharedPath (vpath a) = false
  bytes : ∀ j < ph.filesz, sharedPath (vpath ((ph.vaddr+j)%2^64)) = false

theorem UserSegment.offKernel (h : UserSegment ph) : OffKernel ph :=
  ⟨fun _ ha => sharedPath_of_userPage (h.pages _ (mem_pages_of_visited ha)),h.bytes⟩

theorem mapSegment_eq (h : ∀ a ∈ ph.pages, userPage a = true)
    (hv : ph.vaddr < 2^64) (root : ℕ) (s : Vm × Process) :
    mapSegment root ph s = .ok (ph.visited.foldl (fun s a => mapSegmentPage root a s) s) := by
  obtain hend | hend := (endAddr_eq h hv).2
  · exact forPages_eq _ hend (length_pages_le (by omega))
  · rw [Elf64Phdr.visited,pages_of_le hend]
    exact forPages_of_le _ _ _ hend

/-- A loop that ends has visited those pages. -/
theorem mapSegment_ok (hv : ph.vaddr < 2^64) {root : ℕ} {s s' : Vm × Process}
    (hok : mapSegment root ph s = .ok s') :
    s' = ph.visited.foldl (fun s a => mapSegmentPage root a s) s := by
  obtain hend | hend := le_or_gt (ph.endAddr+pageSize) (2^64)
  · have hlen : (pages (pageAlign ph.vaddr) ph.endAddr).length < pageFuel :=
      length_pages_le (by omega)
    have heq := forPages_eq (mapSegmentPage root) (s := s) hend hlen
    exact Res.ok.inj (hok.symm.trans heq)
  · have hdvd : pageSize ∣ pageAlign ph.vaddr := Nat.dvd_mul_left ..
    have hlt : pageAlign ph.vaddr < 2^64 := (Nat.div_mul_le_self ..).trans_lt hv
    rw [mapSegment,forPages_hang _ hend hdvd hlt] at hok
    cases hok

/-- A state of the loader: from `base` and the tables `T₀` on, the tables have become `T`, with
pages at addresses in `R` only, and hold the image `I`. Of the process only the list of pages
has changed. -/
structure Loaded (z : Prop) (R : ℕ → Prop) (base : Vm) (T₀ : Tree ℕ ℕ) (root : ℕ) (proc : Process)
    (s : Vm × Process) (T : Tree ℕ ℕ) (I : Image) : Prop where
  space : Space s.1 root T
  touches : Touches z base T₀ s.1 T
  nodes : ∀ q, T q ≠ none → T₀ q ≠ none ∨ ∃ a, R a ∧ q <+: vpath a
  image : image s.1 T = I
  pages : ∀ page ∈ s.2.userPages, page ∈ proc.userPages ∨ base.Free page.2
  proc : s.2 = { proc with userPages := s.2.userPages }

section Loader

variable {z : Prop} {R : ℕ → Prop} {base : Vm} {T₀ T : Tree ℕ ℕ} {root : ℕ} {proc : Process}
  {s : Vm × Process} {I : Image}

theorem mem_processRecordPage {q : Process} {page : ℕ × ℕ}
    (h : page ∈ (processRecordPage q v g).userPages) : page ∈ q.userPages ∨ page = (v,g) := by
  rw [processRecordPage] at h
  split at h
  · simpa using h
  · exact .inl h

theorem processRecordPage_eq {q : Process} (v g : ℕ) (hq : q = { proc with userPages := q.userPages }) :
    processRecordPage q v g =
      { proc with userPages := (processRecordPage q v g).userPages } := by
  rw [processRecordPage]
  split
  · rw [hq]
  · exact hq

section

variable (h : Loaded z R base T₀ root proc s T I)
include h

theorem Loaded.mapFresh (hv : sharedPath (vpath v) = false) (hR : R v) :
    ∃ T', Loaded z R base T₀ root proc (mapFresh root v s) T' (I.blankPage v) ∧
      T' (vpath v) = some s.1.allocPage.1 := by
  have ha := h.space.wf.allocPage
  obtain ⟨T',hspace,hmaps⟩ := h.space.mapPageInto (z := z) ha hv
  refine ⟨T',⟨hspace,h.touches.trans hmaps.grows.touches,?_,?_,?_,
    processRecordPage_eq v _ h.proc⟩,hmaps.page⟩
  · intro q hq
    obtain hq | hq := hmaps.nodes q hq
    · exact h.nodes q hq
    · exact .inr ⟨v,hR,hq⟩
  · rw [← h.image]
    exact image_blankPage h.space hmaps
  · intro page hpage
    obtain hpage | rfl := mem_processRecordPage hpage
    · exact h.pages page hpage
    · exact .inr (h.touches.free _ ha.was)

theorem Loaded.mapSegmentPage (hv : sharedPath (vpath v) = false) (hR : R v) :
    ∃ T', Loaded z R base T₀ root proc (mapSegmentPage root v s) T' (I.fillPage v) := by
  have hsome : (I v).isSome = (T (vpath v)).isSome := by rw [← h.image,image_isSome]
  rw [Mem.mapSegmentPage,Image.fillPage,h.space.walkAndGetPaddrIn hv,hsome]
  cases hf : T (vpath v) with
  | some f =>
    refine ⟨T,?_⟩
    rw [Option.getD_some,if_pos (h.space.busy _ _ hf).2]
    exact h
  | none =>
    obtain ⟨T',hT',-⟩ := h.mapFresh hv hR
    exact ⟨T',hT'⟩

theorem Loaded.fill {as : List ℕ} (has : ∀ a ∈ as, sharedPath (vpath a) = false ∧ R a) :
    ∃ T', Loaded z R base T₀ root proc (as.foldl (fun s a => Mem.mapSegmentPage root a s) s) T'
      (I.fill as) := by
  induction as generalizing s T I with
  | nil => exact ⟨T,h⟩
  | cons a as ih =>
    obtain ⟨hv,hR⟩ := has a (List.mem_cons_self ..)
    obtain ⟨T',hT'⟩ := h.mapSegmentPage hv hR
    exact ih hT' fun b hb => has b (List.mem_cons_of_mem _ hb)

/-- Storing a byte through the frame that the tables give. -/
theorem Loaded.store (hb : b < 256) (hz : z → (I a).isSome) :
    Loaded z R base T₀ root proc (s.1.setByte ((T (vpath a)).getD 0) (a%pageSize) b,s.2) T
      (I.store a b) := by
  have hsome : (I a).isSome = (T (vpath a)).isSome := by rw [← h.image,image_isSome]
  cases hf : T (vpath a) with
  | some f =>
    refine ⟨h.space.setByte (.inr ⟨_,rfl,hf⟩),h.touches.setByte h.space (.inr ⟨_,rfl,hf⟩),
      h.nodes,?_,h.pages,h.proc⟩
    rw [← h.image]
    exact image_setByte h.space hb hf
  | none =>
    have hnz : ¬z := by
      intro hzt
      have := hz hzt
      rw [hsome,hf] at this
      cases this
    refine ⟨h.space.setByte (.inl rfl),h.touches.setByte h.space (.inl ⟨rfl,hnz⟩),h.nodes,?_,h.pages,
      h.proc⟩
    rw [Image.store_of_none]
    · rw [← h.image]
      exact image_setByte_zero h.space _ b
    · intro v hv
      rw [← h.image,Mem.image,hv,hf]
      rfl

end

/-- A way to find the frame of an address agrees with the tables. -/
def Finds (frame : Vm → ℕ → Option ℕ) (root : ℕ) : Prop :=
  ∀ σ T v f, Space σ root T → sharedPath (vpath v) = false → frame σ v = some f →
    f = (T (vpath v)).getD 0

theorem finds_viaWalk (root : ℕ) : Finds (viaWalk root) root := by
  intro σ T v f h hv hf
  rw [viaWalk,h.walkAndGetPaddrIn hv] at hf
  exact (some_inj.mp hf).symm

theorem finds_viaTables (root : ℕ) : Finds (viaTables root) root := by
  intro σ T v f h hv hf
  by_cases hc : canonical v = true
  · rw [viaTables,h.translate hv hc] at hf
    cases hT : T (vpath v) with
    | none =>
      rw [hT] at hf
      cases hf
    | some g =>
      rw [hT] at hf
      exact (some_inj.mp hf).symm
  · simp [viaTables,Vm.translate,hc] at hf

theorem index_eq_ok {i : ℕ} {b : UInt8} (h : index data i = .ok b) : data[i]? = some b := by
  rw [index] at h
  split at h
  · cases h
    assumption
  · cases h

theorem Loaded.copyBytes (hframe : Finds frame root) {n j : ℕ} {σ' : Vm}
    (h : Loaded z R base T₀ root proc s T I)
    (hv : ∀ i, j ≤ i → i < j+n → sharedPath (vpath ((ph.vaddr+i)%2^64)) = false)
    (hz : z → ∀ i, j ≤ i → i < j+n → (I ((ph.vaddr+i)%2^64)).isSome)
    (hok : copyBytes frame ph data n j s.1 = .ok σ') :
    Loaded z R base T₀ root proc (σ',s.2) T (Image.copy ph data n j I) := by
  induction n generalizing j s I with
  | zero =>
    cases hok
    exact h
  | succ n ih =>
    rw [Mem.copyBytes] at hok
    cases hf : frame s.1 ((ph.vaddr+j)%2^64) with
    | none =>
      rw [hf] at hok
      cases hok
    | some f =>
      rw [hf] at hok
      obtain ⟨b,hb,hok⟩ := Res.bind_eq_ok.mp hok
      obtain rfl := hframe s.1 T _ f h.space (hv j le_rfl (by omega)) hf
      have hbyte : b.toNat = Image.fileByte ph data j := by
        rw [Image.fileByte,index_eq_ok hb]
        rfl
      have hstep := h.store b.toNat_lt fun hzt => hz hzt j le_rfl (by omega)
      have hz' (hzt : z) (i : ℕ) (hi : j+1 ≤ i) (hin : i < j+1+n) :
          (I.store ((ph.vaddr+j)%2^64) b.toNat ((ph.vaddr+i)%2^64)).isSome := by
        rw [Image.store_isSome]
        exact hz hzt i (by omega) (by omega)
      have hrest := ih hstep (fun i hi hin => hv i (by omega) (by omega)) hz' hok
      rw [Image.copy,← hbyte]
      exact hrest

theorem Loaded.loadSegment (hframe : Finds frame root) {s' : Vm × Process}
    (h : Loaded z R base T₀ root proc s T I) (hu : OffKernel ph) (hv : ph.vaddr < 2^64)
    (hR : ∀ a ∈ ph.visited, R a)
    (hz : z → ∀ j < ph.filesz, (I.fill ph.visited ((ph.vaddr+j)%2^64)).isSome)
    (hok : loadSegment frame root data ph s = .ok s') :
    ∃ T', Loaded z R base T₀ root proc s' T' (I.loadSegment data ph) := by
  obtain ⟨s₁,hmap,hok⟩ := Res.bind_eq_ok.mp hok
  obtain rfl := mapSegment_ok hv hmap
  obtain ⟨T',hfill⟩ := h.fill fun a ha => ⟨hu.visited a ha,hR a ha⟩
  obtain ⟨σ',hcopy,hok⟩ := Res.bind_eq_ok.mp hok
  cases hok
  exact ⟨T',hfill.copyBytes hframe (fun i _ hi => hu.bytes i (by omega))
    (fun hzt i _ hi => hz hzt i (by omega)) hcopy⟩

/-- Every file byte lands on a page that is mapped by then. -/
def Image.Covers (data : List UInt8) : List Elf64Phdr → Image → Prop
  | [], _ => True
  | ph::phs, I => (∀ j < ph.filesz, (I.fill ph.visited ((ph.vaddr+j)%2^64)).isSome) ∧
      Covers data phs (I.loadSegment data ph)

theorem Loaded.loadSegments
    (hframe : Finds frame root) {phdrs : List Elf64Phdr} {s' : Vm × Process}
    (h : Loaded z R base T₀ root proc s T I)
    (hu : ∀ ph ∈ phdrs, OffKernel ph ∧ ph.vaddr < 2^64 ∧ ∀ a ∈ ph.visited, R a)
    (hz : z → Image.Covers data phdrs I)
    (hok : loadSegments frame root data phdrs s = .ok s') :
    ∃ T', Loaded z R base T₀ root proc s' T' (Image.loadSegments data phdrs I) := by
  induction phdrs generalizing s T I with
  | nil =>
    cases hok
    exact ⟨T,h⟩
  | cons ph phs ih =>
    obtain ⟨s₁,hseg,hrest⟩ := Res.bind_eq_ok.mp hok
    obtain ⟨huser,hv,hR⟩ := hu ph (List.mem_cons_self ..)
    obtain ⟨T₁,h₁⟩ := h.loadSegment hframe huser hv hR (fun hzt => (hz hzt).1) hseg
    exact ih h₁ (fun p hp => hu p (List.mem_cons_of_mem _ hp)) (fun hzt => (hz hzt).2) hrest

/-- The path of an address is that of its page. -/
theorem vpath_congr {v w : ℕ} (h : v/pageSize = w/pageSize) : vpath v = vpath w := by
  have hdiv (k : ℕ) : v/2^(12+k) = w/2^(12+k) := by
    rw [pow_add,← Nat.div_div_eq_div_mul,← Nat.div_div_eq_div_mul]
    exact congrArg (·/2^k) h
  have h1 := hdiv 27
  have h2 := hdiv 18
  have h3 := hdiv 9
  have h4 := hdiv 0
  norm_num only at h1 h2 h3 h4
  simp only [vpath,Vm.pml4Idx,Vm.pdpIdx,Vm.pdIdx,Vm.ptIdx]
  norm_num only
  rw [h1,h2,h3,h4]

theorem vpath_add {a i : ℕ} (ha : a%pageSize = 0) (hi : i < pageSize) : vpath (a+i) = vpath a := by
  refine vpath_congr ?_
  simp only [pageSize] at *
  omega

theorem Loaded.putBytes {a off f : ℕ} {bs : List UInt8}
    (h : Loaded z R base T₀ root proc s T I) (hf : T (vpath a) = some f) (ha : a%pageSize = 0)
    (hlen : off+bs.length ≤ pageSize) :
    Loaded z R base T₀ root proc (s.1.putBytes f off bs,s.2) T (Image.putBytes (a+off) bs I) := by
  induction bs generalizing off s I with
  | nil => exact h
  | cons b bs ih =>
    rw [List.length_cons] at hlen
    have hpath : vpath (a+off) = vpath a := vpath_add ha (by omega)
    have hoff : (a+off)%pageSize = off := by
      simp only [pageSize] at *
      omega
    have hsome : (I (a+off)).isSome := by
      rw [← h.image,image_isSome,hpath,hf]
      rfl
    have hstep := h.store (a := a+off) b.toNat_lt fun _ => hsome
    rw [hpath,hf,hoff] at hstep
    exact ih (s := (_,s.2)) hstep (by omega)

theorem Loaded.mapArgPage (h : Loaded z R base T₀ root proc s T I) (hR : R argPageVaddr)
    (hargs : proc.argString.length ≤ pageSize) :
    ∃ T', Loaded z R base T₀ root proc (mapArgPage root s) T'
      (Image.putBytes argPageVaddr proc.argString (I.blankPage argPageVaddr)) := by
  obtain ⟨T',hT',hpage⟩ := h.mapFresh (v := argPageVaddr) (by decide) hR
  have hstr : (Mem.mapFresh root argPageVaddr s).2.argString = proc.argString := by rw [hT'.proc]
  rw [Mem.mapArgPage,hstr]
  have hput := hT'.putBytes hpage (by decide) (show 0+proc.argString.length ≤ _ by omega)
  exact ⟨T',hput⟩

theorem Loaded.mapStack (h : Loaded z R base T₀ root proc s T I)
    (hR : ∀ i < 4, R (userStackBase+i*pageSize)) :
    ∃ T', Loaded z R base T₀ root proc (mapStack root s) T' I.mapStack := by
  have hshared : ∀ i < 4, sharedPath (vpath (userStackBase+i*pageSize)) = false := by decide
  have hfold (l : List ℕ) (hl : ∀ i ∈ l, i < 4) (s : Vm × Process) (T : Tree ℕ ℕ) (I : Image)
      (h : Loaded z R base T₀ root proc s T I) :
      ∃ T', Loaded z R base T₀ root proc
        (l.foldl (fun s i => Mem.mapFresh root (userStackBase+i*pageSize) s) s) T'
        (l.foldl (fun I i => I.blankPage (userStackBase+i*pageSize)) I) := by
    induction l generalizing s T I with
    | nil => exact ⟨T,h⟩
    | cons i l ih =>
      have hi := hl i (List.mem_cons_self ..)
      obtain ⟨T',hT',-⟩ := h.mapFresh (hshared i hi) (hR i hi)
      exact ih (fun j hj => hl j (List.mem_cons_of_mem _ hj)) _ T' _ hT'
  exact hfold (List.range 4) (fun i hi => List.mem_range.mp hi) s T I h

end Loader

/-! ### Spawning -/

/-- The addresses `elfSpawn` maps whatever the file holds. -/
def fixedPage (a : ℕ) : Prop := a = argPageVaddr ∨ ∃ i < 4, a = userStackBase+i*pageSize

instance : DecidablePred fixedPage := fun a =>
  inferInstanceAs (Decidable (a = argPageVaddr ∨ ∃ i < 4, a = userStackBase+i*pageSize))

/-- What a successful `elfSpawn` has done: a new address space `σ₁`, then the loader on it, and
last the entry point and the heap bounds in the process. -/
structure Spawned (z : Prop) (R : ℕ → Prop) (k : Boot) (σ : Vm) (data args : List UInt8)
    (entry : ℕ) (phdrs : List Elf64Phdr) (child : Process) (σ' : Vm) (pdp : ℕ) (σ₁ : Vm)
    (proc : Process) (T : Tree ℕ ℕ) : Prop where
  newborn : Newborn z k σ child.pml4 pdp σ₁
  loaded : Loaded z R σ₁ (rootTree child.pml4 pdp) child.pml4 (newProcess child.pml4 args)
    (σ',proc) T (Image.spawn data args phdrs)
  child : child = setEntry entry phdrs proc

theorem rootTree_leaf (pml4 pdp : ℕ) (q : List ℕ) (hq : q.length = 4) : rootTree pml4 pdp q = none := by
  refine rootTree_eq_none ?_ ?_ <;>
  · rintro rfl
    cases hq

/-- A new address space is empty. -/
theorem Newborn.image {z : Prop} {k : Boot} {σ σ' : Vm} {pml4 pdp : ℕ}
    (_ : Newborn z k σ pml4 pdp σ') : image σ' (rootTree pml4 pdp) = noImage := by
  ext1 v
  rw [Mem.image,rootTree_leaf _ _ _ rfl]
  rfl

theorem setEntry_pml4 (entry : ℕ) (phdrs : List Elf64Phdr) (proc : Process) :
    (setEntry entry phdrs proc).pml4 = proc.pml4 := by
  rw [setEntry,setHeap]
  split <;> rfl

/-- Off the kernel's entries `elfSpawn` refines the loading of images. -/
theorem elfSpawn_spec (z : Prop) (R : ℕ → Prop) {k : Boot} {σ σ' : Vm} {data args : List UInt8}
    {entry : ℕ} {phdrs : List Elf64Phdr} {child : Process} (hwf : σ.Wf)
    (hparse : elfParse data = .ok (some (entry,phdrs)))
    (hu : ∀ ph ∈ phdrs, OffKernel ph ∧ ∀ a ∈ ph.visited, R a) (hfixed : ∀ a, fixedPage a → R a)
    (hz : z → Image.Covers data phdrs noImage)
    (hok : elfSpawn k (some data) args σ = .ok (some child,σ')) :
    ∃ σ₁ proc T, Spawned z R k σ data args entry phdrs child σ' σ.allocPage.2.allocPage.1
      σ₁ proc T := by
  have hnew := hwf.newProcPML4 (z := z) k
  generalize σ.allocPage.2.allocPage.1 = pdp at hnew ⊢
  obtain ⟨entry',phdrs',s,hparse',hload,hfin⟩ := elfSpawn_eq_ok hok
  obtain ⟨rfl,rfl⟩ : entry' = entry ∧ phdrs' = phdrs := by simpa [hparse] using hparse'.symm
  generalize σ.newProcPML4 k = w at hnew hload hfin
  obtain ⟨pml4,σ₁⟩ := w
  have hstart : Loaded z R σ₁ (rootTree pml4 pdp) pml4 (newProcess pml4 args)
      (σ₁,newProcess pml4 args) (rootTree pml4 pdp) noImage :=
    ⟨hnew.space,(Grows.refl ..).touches,fun q hq => .inl hq,hnew.image,fun _ hp => .inl hp,rfl⟩
  obtain ⟨T₁,h₁⟩ := hstart.loadSegments (finds_viaWalk pml4)
    (fun ph hph => ⟨(hu ph hph).1,(elfParse_lt hparse hph).1,(hu ph hph).2⟩) hz hload
  obtain ⟨T₂,h₂⟩ := h₁.mapArgPage (hfixed _ (.inl rfl)) (by
    simp only [newProcess,List.length_take,pageSize]
    omega)
  obtain ⟨T₃,h₃⟩ := h₂.mapStack fun i hi => hfixed _ (.inr ⟨i,hi,rfl⟩)
  rw [finishSpawn] at hfin
  generalize mapStack pml4 (mapArgPage pml4 s) = r at h₃ hfin
  obtain ⟨σ₃,proc⟩ := r
  obtain ⟨rfl,hchild⟩ := Prod.mk.injEq .. ▸ hfin
  have hpml4 : child.pml4 = pml4 := by
    rw [← hchild,setEntry_pml4]
    exact congrArg Process.pml4 h₃.proc
  refine ⟨σ₁,proc,T₃,⟨?_,?_,hchild.symm⟩⟩
  · rw [hpml4]
    exact hnew
  · rw [hpml4]
    exact h₃

end Gooos.Mem
