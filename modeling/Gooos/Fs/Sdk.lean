import Gooos.Fs.FileSystem

/-!
# Whole files and the directory through the user library

`ReadFile`, `WriteFile` and `ListDir` of `user/gooos/fs.go` over the handlers of `userspace.go`. A
character of a name stands for a byte.
-/

namespace Gooos.Fs

/-- The part of a path that a handler copies. -/
def pathName (path : String) : String := String.ofList (path.toList.take 256)

def sysFsWrite (fs : FileSystem) (path : String) (data : List UInt8) : Bool × FileSystem :=
  if maxFileData < data.length then
    (false,fs)
  else
    -- the result of the creation is not looked at: the file may be there
    (fs.fsCreate (pathName path)).2.fsWrite (pathName path) data

def writeFile (fs : FileSystem) (name : String) (data : List UInt8) : Bool × FileSystem :=
  if name = "" then (false,fs) else sysFsWrite fs name data

def sysFsRead (fs : FileSystem) (path : String) (outMax : ℕ) : Option (List UInt8) :=
  (fs.fsRead (pathName path)).map (·.take outMax)

def readMax : ℕ := 131072

/-- `none` where the program stops: `&nameBytes[0]` of the empty name. -/
def readFile (fs : FileSystem) (name : String) : Option (Option (List UInt8)) :=
  if name = "" then none else some (sysFsRead fs name readMax)

theorem pathName_eq {name : String} (h : name.length ≤ 256) : pathName name = name := by
  rw [pathName,List.take_of_length_le h,String.ofList_toList]

/-- What is read back is what the buffer of `ReadFile` takes. -/
theorem readFile_writeFile {fs : FileSystem} {m : Dir} (hm : fs.Refines m) (name : String)
    (data : List UInt8) (hok : (writeFile fs name data).1 = true) :
    readFile (writeFile fs name data).2 name = some (some (data.take readMax)) := by
  rw [writeFile] at hok ⊢
  split at hok
  · cases hok
  rw [readFile,if_neg ‹_›,if_neg ‹_›]
  rw [sysFsWrite] at hok ⊢
  split at hok
  · cases hok
  rw [if_neg ‹_›]
  obtain ⟨m',hcreate⟩ : ∃ m' : Dir, (fs.fsCreate (pathName name)).2.Refines m' :=
    ⟨_,(hm.create (pathName name)).2⟩
  obtain ⟨hanswer,hwrite⟩ := hcreate.write (pathName name) data
  rw [Dir.next,if_pos (hanswer.mp hok)] at hwrite
  rw [sysFsRead,hwrite.fsRead_eq,Finmap.lookup_insert]
  rfl

/-- A file just written is read back iff it is no longer than the buffer of `ReadFile`, and only a
file that does not exist is read as nothing. -/
theorem file_round_trip_iff (ops : List Op) (name : String) (hlen : name.length ≤ 256)
    (data : List UInt8) :
    let fs := Trace.exec FileSystem.step .empty ops
    ((writeFile fs name data).1 = true →
      (readFile (writeFile fs name data).2 name = some (some data) ↔ data.length ≤ 131072)) ∧
    (readFile fs name = some none → fs.fsRead name = none) := by
  intro fs
  obtain ⟨m,-,hm⟩ := FileSystem.Refines.empty.run ops
  refine ⟨fun hok => ?_,fun hnone => ?_⟩
  · rw [readFile_writeFile hm name data hok,Option.some_inj,Option.some_inj,
      List.take_eq_self_iff]
    rfl
  · rw [readFile] at hnone
    split at hnone
    · cases hnone
    · rwa [Option.some_inj,sysFsRead,Option.map_eq_none_iff,pathName_eq hlen] at hnone

theorem file_round_trip_iff_notes :
    readFile (writeFile .empty "notes" [104,105]).2 "notes" = some (some [104,105]) :=
  ((file_round_trip_iff [] "notes" (by decide) [104,105]).1 (by decide +kernel)).mpr (by decide)

/-- A file of 131073 bytes is written and read back without its last byte. -/
theorem long_file_cut :
    let data := List.replicate 131073 (0 : UInt8)
    (writeFile .empty "notes" data).1 = true ∧
      readFile (writeFile .empty "notes" data).2 "notes" = some (some (List.replicate 131072 0)) := by
  intro data
  have hok : (writeFile .empty "notes" data).1 = true := by
    rw [writeFile,if_neg (by decide),sysFsWrite,if_neg (by rw [List.length_replicate]; decide)]
    obtain ⟨-,hcreate⟩ := FileSystem.Refines.empty.create (pathName "notes")
    refine (hcreate.write (pathName "notes") data).1.mpr ⟨?_,by rw [List.length_replicate]; decide⟩
    exact Finmap.mem_insert.mpr (.inl rfl)
  refine ⟨hok,?_⟩
  rw [readFile_writeFile FileSystem.Refines.empty _ _ hok,List.take_replicate]
  rfl

/-! ### The directory -/

/-- A name as it is packed. -/
def packed (name : String) : List Char := name.toList++['\x00']

/-- The loop of `sysFsListHandler`: names with a NUL behind each, up to the first that does not
fit. -/
def packNames (maxLen : ℕ) (buf : List Char) : List String → List Char
  | [] => buf
  | name::names =>
    if maxLen < buf.length+(name.length+1) then buf
    else packNames maxLen (buf++packed name) names

/-- The loop of `ListDir`; `cur` is what was read since the last NUL. -/
def splitNames (cur : List Char) : List Char → List String
  | [] => []
  | c::cs =>
    if c = '\x00' then
      if cur = [] then splitNames [] cs else String.ofList cur::splitNames [] cs
    else
      splitNames (cur++[c]) cs

def listMax : ℕ := 4096

def listDir (fs : FileSystem) : List String := splitNames [] (packNames listMax [] fs.fsList)

/-- What was packed is a first part of the names, and all of them iff they fit. -/
theorem packNames_eq (maxLen : ℕ) (buf : List Char) (names : List String) :
    ∃ pre, pre <+: names ∧ packNames maxLen buf names = buf++pre.flatMap packed ∧
      (buf.length ≤ maxLen → (pre = names ↔ buf.length+(names.flatMap packed).length ≤ maxLen)) := by
  induction names generalizing buf with
  | nil => exact ⟨[],List.nil_prefix,by simp [packNames],by simp⟩
  | cons name names ih =>
    have hlen : (packed name).length = name.length+1 := List.length_append
    rw [packNames]
    split
    · refine ⟨[],List.nil_prefix,by simp,fun _ => iff_of_false nofun ?_⟩
      rw [List.flatMap_cons,List.length_append]
      omega
    · obtain ⟨pre,hpre,heq,hall⟩ := ih (buf++packed name)
      refine ⟨name::pre,List.prefix_cons_inj name |>.mpr hpre,?_,fun _ => ?_⟩
      · rw [List.flatMap_cons,← List.append_assoc]
        exact heq
      · rw [List.length_append] at hall
        rw [List.cons_inj_right,hall (by omega),List.flatMap_cons,List.length_append]
        omega

theorem splitNames_append (cur cs : List Char) {l : List Char} (h : '\x00' ∉ l) :
    splitNames cur (l++cs) = splitNames (cur++l) cs := by
  induction l generalizing cur with
  | nil => simp
  | cons c l ih =>
    have hc : c ≠ '\x00' := fun heq => h (heq ▸ List.mem_cons_self)
    rw [List.cons_append,splitNames,if_neg hc,ih _ fun hm => h (List.mem_cons_of_mem _ hm)]
    simp

/-- A name that can be told from the others in the buffer. -/
def Listable (name : String) : Prop := name ≠ "" ∧ '\x00' ∉ name.toList

theorem splitNames_packed {names : List String} (h : ∀ name ∈ names, Listable name) :
    splitNames [] (names.flatMap packed) = names := by
  induction names with
  | nil => rfl
  | cons name names ih =>
    obtain ⟨⟨hne,hfree⟩,hrest⟩ := List.forall_mem_cons.mp h
    rw [List.flatMap_cons,packed,List.append_assoc,splitNames_append _ _ hfree,List.nil_append,
      List.singleton_append,splitNames,if_pos rfl,if_neg (by simpa using hne),ih hrest,
      String.ofList_toList]

theorem listable_of_split (cur cs : List Char) (hcur : '\x00' ∉ cur) :
    ∀ name ∈ splitNames cur cs, Listable name := by
  induction cs generalizing cur with
  | nil => nofun
  | cons c cs ih =>
    rw [splitNames]
    split
    · split
      · exact ih [] List.not_mem_nil
      · refine List.forall_mem_cons.mpr ⟨⟨?_,by simpa using hcur⟩,ih [] List.not_mem_nil⟩
        simpa using ‹_›
    · exact ih _ (by simp [hcur,Ne.symm ‹_›])

/-- `ListDir` gives the stored names, each once, iff no name is empty or has a NUL in it and all of
them, with a NUL behind each, fit into its buffer. -/
theorem list_dir_complete_iff (ops : List Op) :
    let fs := Trace.exec FileSystem.step .empty ops
    (listDir fs).Nodup ∧ (∀ name, name ∈ listDir fs ↔ fs.fsRead name ≠ none) ↔
      (∀ name, fs.fsRead name ≠ none → name ≠ "" ∧ '\x00' ∉ name.toList) ∧
        (fs.fsList.flatMap packed).length ≤ 4096 := by
  intro fs
  obtain ⟨m,-,hm⟩ := FileSystem.Refines.empty.run ops
  obtain ⟨hnodup,hmem⟩ := hm.mem_fsList
  have hstored (name : String) : fs.fsRead name ≠ none ↔ name ∈ fs.fsList := by
    rw [hm.fsRead_eq,hmem,Ne,Finmap.lookup_eq_none,not_not]
  obtain ⟨pre,hpre,heq,hall⟩ := packNames_eq listMax [] fs.fsList
  rw [List.nil_append] at heq
  have hall := hall (Nat.zero_le _)
  rw [List.length_nil,Nat.zero_add] at hall
  simp only [hstored,listDir,heq]
  constructor
  · rintro ⟨-,hsame⟩
    have hgood : ∀ name ∈ fs.fsList, Listable name := fun name hname =>
      listable_of_split [] _ List.not_mem_nil name ((hsame name).mpr hname)
    refine ⟨hgood,hall.mp ?_⟩
    rw [splitNames_packed fun name hname => hgood name (hpre.subset hname)] at hsame
    -- a name behind the first part would be in it, too
    exact hpre.eq_of_length_le ((hnodup.subperm fun name => (hsame name).mpr).length_le)
  · rintro ⟨hgood,hfits⟩
    rw [hall.mpr hfits,splitNames_packed hgood]
    exact ⟨hnodup,fun _ => Iff.rfl⟩

/-- A file whose name is empty is not listed. -/
theorem empty_name_unlisted :
    let fs := Trace.exec FileSystem.step .empty [.create ""]
    fs.fsRead "" = some [] ∧ listDir fs = [] := by
  decide +kernel

end Gooos.Fs
