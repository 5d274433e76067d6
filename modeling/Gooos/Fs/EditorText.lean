import Gooos.Fs.EditorSave

/-!
# The buffer as one text

The lines joined by newlines are a text. Saving puts a newline behind it and loading takes that for
the start of one more line, so the file grows by a byte whenever it is opened and saved.
-/

namespace Gooos.Edit

open Gooos.Fs
open Trace (exec)

/-- The lines joined by newlines. -/
def text (lines : List Line) : List UInt8 := List.intercalate [newline] lines

/-- The lines before the cursor's, each with its newline. -/
def above (lines : List Line) : List UInt8 := lines.flatMap (·++[newline])

/-- The lines behind the cursor's, each with the newline before it. -/
def below (lines : List Line) : List UInt8 := lines.flatMap (newline::·)

@[simp]
theorem above_nil : above [] = [] := rfl

@[simp]
theorem above_concat (pre : List Line) (l : Line) : above (pre++[l]) = above pre++(l++[newline]) := by
  simp [above]

@[simp]
theorem below_nil : below [] = [] := rfl

@[simp]
theorem below_cons (l : Line) (post : List Line) : below (l::post) = newline::(l++below post) := rfl

@[simp]
theorem text_cons_cons (l l' : Line) (ls : List Line) :
    text (l::l'::ls) = l++newline::text (l'::ls) := by
  simp [text,List.intercalate,List.intersperse]

theorem text_cons (l : Line) (ls : List Line) : text (l::ls) = l++below ls := by
  induction ls generalizing l with
  | nil => simp [text]
  | cons l' ls ih => rw [text_cons_cons,ih,below_cons]

theorem text_append (pre post : List Line) (l : Line) :
    text (pre++l::post) = above pre++text (l::post) := by
  induction pre with
  | nil => rfl
  | cons p ps ih =>
    have hcons : text (p::(ps++l::post)) = p++newline::text (ps++l::post) := by
      cases ps <;> exact text_cons_cons ..
    rw [List.cons_append,hcons,ih]
    simp [above]

/-! ## Saving and loading -/

section Split

variable (cur l : Line) (bs : List UInt8)

theorem splitLines_ne_nil : splitLines cur bs ≠ [] := by
  induction bs generalizing cur with
  | nil => nofun
  | cons b bs ih =>
    rw [splitLines]
    split
    · nofun
    · exact ih _

theorem splitLines_free (h : newline ∉ cur) : ∀ l ∈ splitLines cur bs, newline ∉ l := by
  induction bs generalizing cur with
  | nil => simpa [splitLines] using h
  | cons b bs ih =>
    rw [splitLines]
    split
    · exact List.forall_mem_cons.mpr ⟨h,ih [] List.not_mem_nil⟩
    · exact ih _ (by simp [h,Ne.symm ‹_›])

theorem text_splitLines : text (splitLines cur bs) = cur++bs := by
  induction bs generalizing cur with
  | nil => simp [splitLines,text_cons]
  | cons b bs ih =>
    rw [splitLines]
    split
    next hb =>
      obtain ⟨l,ls,hl⟩ := List.exists_cons_of_ne_nil (splitLines_ne_nil [] bs)
      rw [hl,text_cons_cons,← hl,ih,hb,List.nil_append]
    next => rw [ih,List.append_assoc,List.singleton_append]

theorem splitLines_append (h : newline ∉ l) :
    splitLines cur (l++bs) = splitLines (cur++l) bs := by
  induction l generalizing cur with
  | nil => simp
  | cons b l ih =>
    have hb : b ≠ newline := fun heq => h (heq ▸ List.mem_cons_self)
    rw [List.cons_append,splitLines,if_neg hb,ih _ fun hm => h (List.mem_cons_of_mem _ hm)]
    simp

theorem splitLines_text {lines : List Line} (hne : lines ≠ []) (h : ∀ l ∈ lines, newline ∉ l) :
    splitLines [] (text lines) = lines := by
  induction lines with
  | nil => exact absurd rfl hne
  | cons l ls ih =>
    obtain ⟨hl,hls⟩ := List.forall_mem_cons.mp h
    cases ls with
    | nil => rw [text_cons,splitLines_append _ _ _ hl]; rfl
    | cons l' ls =>
      rw [text_cons_cons,splitLines_append _ _ _ hl,splitLines,if_pos rfl,ih nofun hls,
        List.nil_append]

/-- A saved text is that of one more line. -/
theorem serialise_eq {lines : List Line} (hne : lines ≠ []) :
    serialise lines = text (lines++[[]]) := by
  obtain rfl | ⟨pre,l,rfl⟩ := List.eq_nil_or_concat' lines
  · exact absurd rfl hne
  · change text (pre++[l])++[newline] = _
    rw [text_append,text_append,text_cons,text_cons]
    simp

end Split

/-- Where the whole fits, each write keeps what one call takes. -/
theorem foldl_appended (ws : List (List UInt8)) {d : List UInt8}
    (h : d.length+ws.flatten.length ≤ maxFileData) :
    ws.foldl appended d = d++(ws.map (List.take sysWriteMax)).flatten := by
  induction ws generalizing d with
  | nil => simp
  | cons w ws ih =>
    rw [List.flatten_cons,List.length_append] at h
    have hw : appended d w = d++w.take sysWriteMax := by
      rw [appended,List.take_of_length_le (i := maxFileData-d.length)]
      rw [List.length_take]
      omega
    have hlen := length_appended d w
    rw [List.foldl_cons,ih (by omega),hw]
    simp

theorem savedBytes_of_le {lines : List Line} (h : (serialise lines).length ≤ maxFileData) :
    savedBytes lines = serialise (lines.map (List.take sysWriteMax)) := by
  have hmap : (lines.intersperse [newline]).map (List.take sysWriteMax) =
      (lines.map (List.take sysWriteMax)).intersperse [newline] := by
    clear h
    induction lines with
    | nil => rfl
    | cons l ls ih =>
      cases ls with
      | nil => rfl
      | cons l' ls => exact congrArg (_::[newline]::·) ih
  rw [savedBytes,foldl_appended _ (by rwa [flatten_intersperse,List.length_nil,Nat.zero_add]),
    ← flatten_intersperse,List.map_append,hmap]
  rfl

theorem length_serialise {lines : List Line} (hne : lines ≠ []) :
    (serialise lines).length = (lines.map (·.length+1)).sum := by
  obtain ⟨l,ls,rfl⟩ := List.exists_cons_of_ne_nil hne
  change (text (l::ls)++[newline]).length = _
  rw [text_cons]
  simp [below,List.length_flatMap]
  omega

/-- What `ReadFile` takes of a saved file are the lines iff it leaves the last newline out. -/
theorem take_savedBytes_iff {lines : List Line} (hfree : ∀ l ∈ lines, newline ∉ l)
    (hsize : (serialise lines).length ≤ maxFileData) :
    (savedBytes lines).take 131072 = text lines ↔
      (serialise lines).length = 131073 ∧ ∀ l ∈ lines, l.length ≤ sysWriteMax := by
  have hlen (lines : List Line) : (serialise lines).length = (text lines).length+1 :=
    List.length_append
  by_cases hshort : ∀ l ∈ lines, l.length ≤ sysWriteMax
  · rw [(savedBytes_eq_iff lines).mpr ⟨hshort,hsize⟩,and_iff_left hshort]
    refine ⟨fun heq => ?_,fun heq => List.take_left' (Nat.succ_inj.mp ((hlen _).symm.trans heq))⟩
    have := congrArg List.length heq
    rw [List.length_take] at this
    have := hlen lines
    omega
  refine iff_of_false (fun heq => ?_) fun h => hshort h.2
  -- a line is cut: the file is too short, or it is read whole and has a line more
  obtain ⟨long,hmem,hlong⟩ : ∃ l ∈ lines, sysWriteMax < l.length := by simpa using hshort
  have hne : lines ≠ [] := List.ne_nil_of_mem hmem
  obtain ⟨cut,hcut⟩ : ∃ cut, cut = lines.map (List.take sysWriteMax) := ⟨_,rfl⟩
  have hcutNe : cut ≠ [] := by rwa [hcut,Ne,List.map_eq_nil_iff]
  have hless : (serialise cut).length < (serialise lines).length := by
    rw [length_serialise hne,length_serialise hcutNe,hcut,List.map_map]
    refine List.sum_lt_sum _ _ (fun l _ => ?_) ⟨long,hmem,?_⟩
    all_goals
      rw [Function.comp,List.length_take]
      omega
  rw [savedBytes_of_le hsize,← hcut] at heq
  by_cases hwhole : (serialise cut).length ≤ 131072
  · rw [List.take_of_length_le hwhole,serialise_eq hcutNe] at heq
    have hcutFree : ∀ l ∈ cut++[[]], newline ∉ l := by
      intro l hl
      obtain hl | hl := List.mem_append.mp hl
      · rw [hcut] at hl
        obtain ⟨l',hl',rfl⟩ := List.mem_map.mp hl
        exact fun hm => hfree l' hl' (List.mem_of_mem_take hm)
      · simp [List.mem_singleton.mp hl]
    have hsplit := congrArg (List.length ∘ splitLines []) heq
    rw [Function.comp,Function.comp,splitLines_text (by simp) hcutFree,
      splitLines_text hne hfree] at hsplit
    simp [hcut] at hsplit
  · have := congrArg List.length heq
    rw [List.length_take] at this
    have := hlen lines
    omega

/-- Loading a file just saved gives the saved lines, and saving a file just loaded leaves a content
that ends in a newline as it was, only where the file is one byte longer than `ReadFile` reads, so
that the newline put at its end is not seen, and each line is written whole. -/
theorem save_load_stable_iff (ops : List Op) (name : String) (slot : Bool)
    (hopens : Opens (exec FileSystem.step .empty ops) name slot) :
    let fs := exec FileSystem.step .empty ops
    (∀ buf : Buffer, (serialise buf.lines).length ≤ maxFileData → (∀ l ∈ buf.lines, newline ∉ l) →
      ((loadFile (saveFile fs slot name buf).fs name).lines = buf.lines ↔
        (serialise buf.lines).length = 131073 ∧ ∀ l ∈ buf.lines, l.length ≤ sysWriteMax)) ∧
    ∀ c, fs.fsRead name = some c → c.getLast? = some newline →
      ((saveFile fs slot name (loadFile fs name)).fs.fsRead name = some c ↔
        c.length = 131073 ∧ ∀ l ∈ (loadFile fs name).lines, l.length ≤ sysWriteMax) := by
  intro fs
  obtain ⟨m,-,hm⟩ := FileSystem.Refines.empty.run ops
  have hstored (buf : Buffer) :
      (saveFile fs slot name buf).fs.fsRead name = some (savedBytes buf.lines) := by
    obtain ⟨m',hm',hlookup⟩ := saveFile_refines name slot hm buf
    rw [hm'.fsRead_eq,hlookup ((saveFile_ok name slot buf).mpr hopens)]
  refine ⟨fun buf hsize hfree => ?_,fun c hc hlast => ?_⟩
  · rw [loadFile,hstored,← take_savedBytes_iff hfree hsize]
    change splitLines [] ((savedBytes buf.lines).take 131072) = _ ↔ _
    refine ⟨fun heq => ?_,fun heq => ?_⟩
    · rw [← heq,text_splitLines,List.nil_append,heq]
    · rw [heq]
      refine splitLines_text (fun hnil => ?_) hfree
      rw [hnil] at heq
      exact absurd heq (by decide)
  · obtain ⟨lines,hlines⟩ : ∃ lines, lines = splitLines [] (c.take 131072) := ⟨_,rfl⟩
    have hload : (loadFile fs name).lines = lines := by rw [loadFile,hc,hlines]
    have htext : text lines = c.take 131072 := by rw [hlines,text_splitLines,List.nil_append]
    have hser : serialise lines = c.take 131072++[newline] := congrArg (·++[newline]) htext
    have hfree : ∀ l ∈ lines, newline ∉ l := hlines ▸ splitLines_free [] _ List.not_mem_nil
    have hsize : (serialise lines).length ≤ maxFileData := by
      rw [hser,List.length_append,List.length_take]
      exact (Nat.add_le_add_right (Nat.min_le_left ..) 1).trans (by decide)
    rw [hstored,hload,Option.some_inj]
    refine ⟨fun heq => ?_,?_⟩
    · obtain ⟨hlen,hshort⟩ := (take_savedBytes_iff hfree hsize).mp (by rw [heq,htext])
      rw [← heq,(savedBytes_eq_iff lines).mpr ⟨hshort,hsize⟩]
      exact ⟨hlen,hshort⟩
    · rintro ⟨hlen,hshort⟩
      obtain ⟨x,rfl⟩ := List.getLast?_eq_some_iff.mp hlast
      rw [(savedBytes_eq_iff lines).mpr ⟨hshort,hsize⟩,hser,
        List.take_left' (Nat.succ_inj.mp (List.length_append.symm.trans hlen))]

theorem save_load_stable_iff_notes :
    let fs := exec FileSystem.step .empty [.create "notes",.write "notes" [120,newline]]
    (saveFile fs true "notes" (loadFile fs "notes")).fs.fsRead "notes" ≠ some [120,newline] := by
  intro fs h
  have hiff := (save_load_stable_iff [.create "notes",.write "notes" [120,newline]] "notes" true
    ⟨rfl,.inl (by decide +kernel)⟩).2 [120,newline] (by decide +kernel) rfl
  exact absurd (hiff.mp h).1 (by decide)

/-- A file of one line and its newline, opened and saved: it has a newline more. A buffer of one
line, saved and loaded: it has a line more. -/
theorem saved_file_grows :
    let fs := exec FileSystem.step .empty [.create "notes",.write "notes" [120,newline]]
    Opens fs "notes" true ∧ fs.fsRead "notes" = some [120,newline] ∧
      (saveFile fs true "notes" (loadFile fs "notes")).fs.fsRead "notes" =
        some [120,newline,newline] ∧
      (loadFile (saveFile fs true "notes" ⟨[[120]],0,0,true⟩).fs "notes").lines = [[120],[]] := by
  refine ⟨⟨rfl,.inl ?_⟩,?_,?_,?_⟩ <;> decide +kernel

end Gooos.Edit
