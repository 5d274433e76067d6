import Gooos.Lib.SlotMap
import Gooos.Lib.Trace

/-!
# The in-memory file system

`fs.go`: a flat directory of fixed slots. It refines a finite map from names to contents; what a
slot still has beyond the size of its file, or after its file was deleted, is not part of the map.
-/

namespace Gooos.Fs

open Function

def maxFiles : ℕ := 32
def maxFileData : ℕ := 262144

/-- A slot of the directory; the bytes of `data` from `size` on are left over. -/
structure FileEntry where
  name : String
  data : ℕ → UInt8
  size : ℕ
  used : Bool

abbrev FileSystem := Fin maxFiles → FileEntry

/-- The loops that copy `bs` into an array from index `start` on. -/
def copyInto (d : ℕ → UInt8) (start : ℕ) : List UInt8 → ℕ → UInt8
  | [] => d
  | b::bs => copyInto (update d start b) (start+1) bs

namespace FileSystem

/-- The first slot in use with this name. -/
def slotOf (fs : FileSystem) (name : String) : Option (Fin maxFiles) :=
  (List.finRange maxFiles).find? fun i => (fs i).used && (fs i).name = name

def freeSlot (fs : FileSystem) : Option (Fin maxFiles) :=
  (List.finRange maxFiles).find? fun i => !(fs i).used

def fsCreate (fs : FileSystem) (name : String) : Bool × FileSystem :=
  match fs.slotOf name with
  | some _ => (false,fs)
  | none =>
    match fs.freeSlot with
    | none => (false,fs)
    | some i => (true,update fs i { fs i with used := true, name := name, size := 0 })

def fsWrite (fs : FileSystem) (name : String) (data : List UInt8) : Bool × FileSystem :=
  match fs.slotOf name with
  | none => (false,fs)
  | some i =>
    if maxFileData < data.length then
      (false,fs)
    else
      (true,update fs i
        { fs i with data := copyInto (fs i).data 0 data, size := data.length })

def fsRead (fs : FileSystem) (name : String) : Option (List UInt8) :=
  (fs.slotOf name).map fun i => (List.range (fs i).size).map (fs i).data

/-- The number of bytes that were appended. -/
def fsAppend (fs : FileSystem) (name : String) (data : List UInt8) : ℕ × FileSystem :=
  match fs.slotOf name with
  | none => (0,fs)
  | some i =>
    let room := maxFileData-(fs i).size
    let n := if room < data.length then room else data.length
    (n,update fs i
      { fs i with data := copyInto (fs i).data (fs i).size (data.take n), size := (fs i).size+n })

def fsTruncate (fs : FileSystem) (name : String) : Bool × FileSystem :=
  match fs.slotOf name with
  | none => (false,fs)
  | some i => (true,update fs i { fs i with size := 0 })

def fsSize (fs : FileSystem) (name : String) : ℤ :=
  match fs.slotOf name with
  | none => -1
  | some i => (fs i).size

def fsList (fs : FileSystem) : List String :=
  (List.finRange maxFiles).filterMap fun i => if (fs i).used then some (fs i).name else none

def fsDelete (fs : FileSystem) (name : String) : Bool × FileSystem :=
  match fs.slotOf name with
  | none => (false,fs)
  | some i => (true,update fs i { fs i with used := false, name := "", size := 0 })

end FileSystem

inductive Op where
  | create (name : String)
  | write (name : String) (data : List UInt8)
  | append (name : String) (data : List UInt8)
  | truncate (name : String)
  | delete (name : String)
  | read (name : String)
  | size (name : String)
  | list

inductive Resp where
  | ok (b : Bool)
  | appended (n : ℕ)
  | data (d : Option (List UInt8))
  | size (n : ℤ)
  | names (l : List String)

def FileSystem.step (fs : FileSystem) : Op → FileSystem × List Resp
  | .create name => ((fs.fsCreate name).2,[.ok (fs.fsCreate name).1])
  | .write name data => ((fs.fsWrite name data).2,[.ok (fs.fsWrite name data).1])
  | .append name data => ((fs.fsAppend name data).2,[.appended (fs.fsAppend name data).1])
  | .truncate name => ((fs.fsTruncate name).2,[.ok (fs.fsTruncate name).1])
  | .delete name => ((fs.fsDelete name).2,[.ok (fs.fsDelete name).1])
  | .read name => (fs,[.data (fs.fsRead name)])
  | .size name => (fs,[.size (fs.fsSize name)])
  | .list => (fs,[.names fs.fsList])

/-- The global before anything was created. -/
def FileSystem.empty : FileSystem := fun _ => ⟨"",fun _ => 0,0,false⟩

/-! ### What it is for -/

/-- Names with their contents. -/
abbrev Dir := Finmap fun _ : String => List UInt8

namespace Dir

/-- A bounded map: at most `maxFiles` names and `maxFileData` bytes each. -/
structure Bounded (m : Dir) : Prop where
  names : m.keys.card ≤ maxFiles
  bytes : ∀ name d, m.lookup name = some d → d.length ≤ maxFileData

/-- The part of `data` that fits behind `d`. -/
def fitting (d data : List UInt8) : List UInt8 := data.take (maxFileData-d.length)

/-- The map after a call. -/
def next (m : Dir) : Op → Dir
  | .create name => if name ∈ m ∨ m.keys.card = maxFiles then m else m.insert name []
  | .write name data => if name ∈ m ∧ data.length ≤ maxFileData then m.insert name data else m
  | .append name data =>
    match m.lookup name with
    | none => m
    | some d => m.insert name (d++fitting d data)
  | .truncate name => if name ∈ m then m.insert name [] else m
  | .delete name => m.erase name
  | .read _ | .size _ | .list => m

/-- The answers to a call. The order of a list is left open. -/
def Answers (m : Dir) : Op → Resp → Prop
  | .create name, .ok b => b = true ↔ name ∉ m ∧ m.keys.card ≠ maxFiles
  | .write name data, .ok b => b = true ↔ name ∈ m ∧ data.length ≤ maxFileData
  | .append name data, .appended n => n = ((m.lookup name).map fun d => (fitting d data).length).getD 0
  | .truncate name, .ok b => b = true ↔ name ∈ m
  | .delete name, .ok b => b = true ↔ name ∈ m
  | .read name, .data d => d = m.lookup name
  | .size name, .size n => n = ((m.lookup name).map fun d => (d.length : ℤ)).getD (-1)
  | .list, .names l => l.Nodup ∧ ∀ name, name ∈ l ↔ name ∈ m
  | _, _ => False

/-- A run of calls with their answers. -/
inductive Run : Dir → List Op → List Resp → Dir → Prop
  | nil (m : Dir) : Run m [] [] m
  | cons {m m' : Dir} {op : Op} {r : Resp} {ops : List Op} {rs : List Resp} (hr : m.Answers op r)
    (hrun : Run (m.next op) ops rs m') : Run m (op::ops) (r::rs) m'

end Dir

/-! ### Refinement -/

/-- Copying behind the first `start` bytes appends. -/
theorem map_copyInto (d : ℕ → UInt8) (start : ℕ) (bs : List UInt8) :
    (List.range (start+bs.length)).map (copyInto d start bs) = (List.range start).map d++bs := by
  induction bs generalizing d start with
  | nil => simp [copyInto]
  | cons b bs ih =>
    have hlen : start+(b::bs).length = start+1+bs.length := by
      rw [List.length_cons]
      omega
    rw [hlen,copyInto,ih,List.range_succ,List.map_append,List.append_assoc]
    congr 1
    · refine List.map_congr_left fun j hj => ?_
      exact update_of_ne (Nat.ne_of_lt (List.mem_range.mp hj)) ..
    · simp

def FileEntry.content (e : FileEntry) : List UInt8 := (List.range e.size).map e.data

def FileEntry.view (e : FileEntry) : Option (String × List UInt8) :=
  if e.used then some (e.name,e.content) else none

theorem FileEntry.length_content (e : FileEntry) : e.content.length = e.size := by
  simp [content]

namespace FileSystem

/-- The files, slot by slot. -/
def view (fs : FileSystem) : Fin maxFiles → Option (String × List UInt8) := fun i => (fs i).view

theorem slotOf_eq (fs : FileSystem) (name : String) :
    fs.slotOf name = SlotMap.find fs.view name := by
  refine congrArg (List.find? · _) (funext fun i => ?_)
  rw [view,FileEntry.view]
  cases (fs i).used <;> simp

theorem freeSlot_eq (fs : FileSystem) : fs.freeSlot = SlotMap.firstFree fs.view := by
  refine congrArg (List.find? · _) (funext fun i => ?_)
  rw [view,FileEntry.view]
  cases (fs i).used <;> rfl

theorem fsList_eq (fs : FileSystem) : fs.fsList = SlotMap.keys fs.view := by
  refine congrArg (List.filterMap · _) (funext fun i => ?_)
  rw [view,FileEntry.view]
  cases (fs i).used <;> rfl

theorem view_update (fs : FileSystem) (i : Fin maxFiles) (e : FileEntry) :
    view (update fs i e) = update fs.view i e.view := by
  funext j
  by_cases hj : j = i
  · rw [hj,view,update_self,update_self]
  · rw [view,update_of_ne hj,update_of_ne hj]
    rfl

/-- The directory is the map: names are unique, and every file fits its slot. -/
structure Refines (fs : FileSystem) (m : Dir) : Prop where
  distinct : SlotMap.Distinct fs.view
  size_le : ∀ i, (fs i).size ≤ maxFileData
  lookup : ∀ name, m.lookup name = SlotMap.lookup fs.view name

namespace Refines

variable {fs : FileSystem} {m : Dir} {i : Fin maxFiles} {name : String}

theorem empty : Refines empty ∅ := by
  refine ⟨?_,fun _ => Nat.zero_le _,fun name => ?_⟩
  · exact SlotMap.distinct_empty
  · exact (SlotMap.lookup_eq_none.mpr (SlotMap.find_eq_none.mpr nofun)).symm

section

variable (h : fs.Refines m)
include h

theorem slotOf_none (hi : fs.slotOf name = none) : name ∉ m := by
  rw [slotOf_eq] at hi
  rw [← Finmap.lookup_eq_none,h.lookup]
  exact SlotMap.lookup_eq_none.mpr hi

/-- The slot that a search finds has the file. -/
theorem slotOf_some (hi : fs.slotOf name = some i) :
    m.lookup name = some (fs i).content ∧ (fs i).used = true ∧ (fs i).name = name := by
  rw [slotOf_eq,SlotMap.find_eq_some h.distinct] at hi
  obtain ⟨d,hd⟩ := hi
  have hlookup := h.lookup name
  rw [(SlotMap.lookup_eq_some h.distinct).mpr ⟨i,hd⟩] at hlookup
  rw [view,FileEntry.view] at hd
  split at hd
  · cases hd
    exact ⟨hlookup,‹_›,rfl⟩
  · cases hd

theorem card_eq : m.keys.card = (SlotMap.keys fs.view).length := by
  rw [← List.toFinset_card_of_nodup (SlotMap.keys_nodup h.distinct)]
  refine congrArg Finset.card (Finset.ext fun name => ?_)
  rw [List.mem_toFinset,SlotMap.mem_keys h.distinct,Finmap.mem_keys,Finmap.mem_iff]
  simp only [h.lookup]

theorem bounded : m.Bounded := by
  refine ⟨h.card_eq ▸ SlotMap.keys_length_le,fun name d hd => ?_⟩
  rw [h.lookup,SlotMap.lookup_eq_some h.distinct] at hd
  obtain ⟨i,hi⟩ := hd
  rw [view,FileEntry.view] at hi
  split at hi
  · cases hi
    rw [FileEntry.length_content]
    exact h.size_le i
  · cases hi

theorem size_update {e : FileEntry} (he : e.size ≤ maxFileData)
    (j : Fin maxFiles) : (update fs i e j).size ≤ maxFileData := by
  by_cases hj : j = i
  · rw [hj,update_self]
    exact he
  · rw [update_of_ne hj]
    exact h.size_le j

/-- A new content for the name: in its slot, or in a free one if it is new. -/
theorem put
    (hi : fs.slotOf name = some i ∨ fs.slotOf name = none ∧ fs.freeSlot = some i) {e : FileEntry}
    (hused : e.used = true) (hname : e.name = name) (he : e.size ≤ maxFileData) :
    Refines (update fs i e) (m.insert name e.content) := by
  have hview : e.view = some (name,e.content) := by rw [FileEntry.view,hused,if_pos rfl,hname]
  have hi : SlotMap.find fs.view name = some i ∨
      SlotMap.find fs.view name = none ∧ fs.view i = none := by
    rw [slotOf_eq,freeSlot_eq] at hi
    exact hi.imp_right fun hnew => ⟨hnew.1,SlotMap.firstFree_some hnew.2⟩
  refine ⟨?_,h.size_update he,fun other => ?_⟩
  · rw [view_update,hview]
    exact h.distinct.write hi _
  · rw [view_update,hview]
    by_cases hother : other = name
    · rw [hother,Finmap.lookup_insert,SlotMap.lookup_write_self h.distinct hi]
    · rw [Finmap.lookup_insert_of_ne _ hother,SlotMap.lookup_write_of_ne h.distinct hi _ hother,
        h.lookup]

theorem remove (hi : fs.slotOf name = some i) {e : FileEntry}
    (hused : e.used = false) (he : e.size ≤ maxFileData) :
    Refines (update fs i e) (m.erase name) := by
  have hview : e.view = none := by rw [FileEntry.view,hused]; rfl
  rw [slotOf_eq] at hi
  refine ⟨?_,h.size_update he,fun other => ?_⟩
  · rw [view_update,hview]
    exact h.distinct.clear i
  · rw [view_update,hview]
    by_cases hother : other = name
    · rw [hother,Finmap.lookup_erase,SlotMap.lookup_clear_self h.distinct hi]
    · rw [Finmap.lookup_erase_ne hother,SlotMap.lookup_clear_of_ne h.distinct hi hother,h.lookup]

/-! ### One call -/

theorem create (name : String) : m.Answers (.create name) (.ok (fs.fsCreate name).1) ∧
      Refines (fs.fsCreate name).2 (m.next (.create name)) := by
  rw [fsCreate,Dir.next,Dir.Answers]
  cases hslot : fs.slotOf name with
  | some i =>
    have hmem : name ∈ m := Finmap.mem_of_lookup_eq_some (h.slotOf_some hslot).1
    rw [if_pos (.inl hmem)]
    exact ⟨by simp [hmem],h⟩
  | none =>
    have hmem := h.slotOf_none hslot
    cases hfree : fs.freeSlot with
    | none =>
      have hfull : m.keys.card = maxFiles := by
        rw [freeSlot_eq,SlotMap.firstFree_eq_none] at hfree
        rw [h.card_eq,hfree]
      rw [if_pos (.inr hfull)]
      exact ⟨by simp [hfull],h⟩
    | some i =>
      have hroom : m.keys.card ≠ maxFiles := by
        rw [h.card_eq,Ne,← SlotMap.firstFree_eq_none,← freeSlot_eq,hfree]
        exact Option.some_ne_none i
      rw [if_neg (not_or.mpr ⟨hmem,hroom⟩)]
      refine ⟨by simp [hmem,hroom],?_⟩
      exact h.put (.inr ⟨hslot,hfree⟩) rfl rfl (Nat.zero_le _)

theorem write (name : String) (data : List UInt8) :
    m.Answers (.write name data) (.ok (fs.fsWrite name data).1) ∧
      Refines (fs.fsWrite name data).2 (m.next (.write name data)) := by
  rw [fsWrite,Dir.next,Dir.Answers]
  cases hslot : fs.slotOf name with
  | none =>
    have hmem := h.slotOf_none hslot
    rw [if_neg fun hwrite => hmem hwrite.1]
    exact ⟨by simp [hmem],h⟩
  | some i =>
    obtain ⟨hlookup,hused,hname⟩ := h.slotOf_some hslot
    have hmem : name ∈ m := Finmap.mem_of_lookup_eq_some hlookup
    dsimp only
    by_cases hlen : maxFileData < data.length
    · rw [if_pos hlen,if_neg fun hwrite => Nat.not_lt.mpr hwrite.2 hlen]
      exact ⟨by simp [hlen],h⟩
    · rw [if_neg hlen,if_pos ⟨hmem,Nat.not_lt.mp hlen⟩]
      refine ⟨by simpa [hmem] using hlen,?_⟩
      have hput := h.put (.inl hslot) (e := { fs i with
        data := copyInto (fs i).data 0 data, size := data.length }) hused hname (Nat.not_lt.mp hlen)
      have hcontent := map_copyInto (fs i).data 0 data
      rw [Nat.zero_add,List.range_zero] at hcontent
      rw [FileEntry.content,hcontent] at hput
      exact hput

theorem append (name : String) (data : List UInt8) :
    m.Answers (.append name data) (.appended (fs.fsAppend name data).1) ∧
      Refines (fs.fsAppend name data).2 (m.next (.append name data)) := by
  rw [fsAppend,Dir.next,Dir.Answers]
  cases hslot : fs.slotOf name with
  | none =>
    have hnone : m.lookup name = none := Finmap.lookup_eq_none.mpr (h.slotOf_none hslot)
    rw [hnone]
    exact ⟨rfl,h⟩
  | some i =>
    obtain ⟨hlookup,hused,hname⟩ := h.slotOf_some hslot
    obtain ⟨n,hn⟩ : ∃ n, n = if maxFileData-(fs i).size < data.length then maxFileData-(fs i).size
      else data.length := ⟨_,rfl⟩
    -- what fits is what the loop copies
    have hfit : Dir.fitting (fs i).content data = data.take n := by
      rw [Dir.fitting,FileEntry.length_content,hn]
      split
      · rfl
      · rw [List.take_length,List.take_of_length_le (by omega)]
    have hlen : (data.take n).length = n := by
      rw [List.length_take]
      have : n ≤ data.length := by
        rw [hn]
        split <;> omega
      omega
    have hbound : (fs i).size+n ≤ maxFileData := by
      have := h.size_le i
      rw [hn]
      split <;> omega
    rw [hlookup]
    dsimp only
    rw [← hn,Option.map_some,hfit,hlen]
    refine ⟨rfl,?_⟩
    have hput := h.put (.inl hslot) (e := { fs i with
      data := copyInto (fs i).data (fs i).size (data.take n), size := (fs i).size+n }) hused hname
      hbound
    have hcontent := map_copyInto (fs i).data (fs i).size (data.take n)
    rw [hlen] at hcontent
    rw [FileEntry.content,hcontent] at hput
    exact hput

theorem truncate (name : String) : m.Answers (.truncate name) (.ok (fs.fsTruncate name).1) ∧
      Refines (fs.fsTruncate name).2 (m.next (.truncate name)) := by
  rw [fsTruncate,Dir.next,Dir.Answers]
  cases hslot : fs.slotOf name with
  | none =>
    have hmem := h.slotOf_none hslot
    rw [if_neg hmem]
    exact ⟨by simp [hmem],h⟩
  | some i =>
    obtain ⟨hlookup,hused,hname⟩ := h.slotOf_some hslot
    have hmem : name ∈ m := Finmap.mem_of_lookup_eq_some hlookup
    rw [if_pos hmem]
    exact ⟨by simp [hmem],h.put (.inl hslot) hused hname (Nat.zero_le _)⟩

theorem delete (name : String) : m.Answers (.delete name) (.ok (fs.fsDelete name).1) ∧
      Refines (fs.fsDelete name).2 (m.next (.delete name)) := by
  rw [fsDelete,Dir.next,Dir.Answers]
  cases hslot : fs.slotOf name with
  | none =>
    have hmem := h.slotOf_none hslot
    have herase : m.erase name = m := by
      refine Finmap.ext_lookup fun other => ?_
      by_cases hother : other = name
      · rw [hother,Finmap.lookup_erase,Finmap.lookup_eq_none.mpr hmem]
      · rw [Finmap.lookup_erase_ne hother]
    rw [herase]
    exact ⟨by simp [hmem],h⟩
  | some i =>
    have hmem : name ∈ m := Finmap.mem_of_lookup_eq_some (h.slotOf_some hslot).1
    exact ⟨by simp [hmem],h.remove hslot rfl (Nat.zero_le _)⟩

theorem fsRead_eq (name : String) : fs.fsRead name = m.lookup name := by
  rw [fsRead]
  cases hslot : fs.slotOf name with
  | none => exact (Finmap.lookup_eq_none.mpr (h.slotOf_none hslot)).symm
  | some i => exact (h.slotOf_some hslot).1.symm

theorem fsSize_eq (name : String) :
    fs.fsSize name = ((m.lookup name).map fun d => (d.length : ℤ)).getD (-1) := by
  rw [fsSize]
  cases hslot : fs.slotOf name with
  | none =>
    rw [Finmap.lookup_eq_none.mpr (h.slotOf_none hslot)]
    rfl
  | some i =>
    rw [(h.slotOf_some hslot).1,Option.map_some,Option.getD_some,FileEntry.length_content]

theorem mem_fsList : fs.fsList.Nodup ∧ ∀ name, name ∈ fs.fsList ↔ name ∈ m := by
  rw [fsList_eq]
  refine ⟨SlotMap.keys_nodup h.distinct,fun name => ?_⟩
  rw [SlotMap.mem_keys h.distinct,Finmap.mem_iff]
  simp only [h.lookup]

/-- Every call is answered as by the map. -/
theorem step (op : Op) : ∃ r, (fs.step op).2 = [r] ∧ m.Answers op r ∧
    Refines (fs.step op).1 (m.next op) := by
  cases op with
  | create name => exact ⟨_,rfl,h.create name⟩
  | write name data => exact ⟨_,rfl,h.write name data⟩
  | append name data => exact ⟨_,rfl,h.append name data⟩
  | truncate name => exact ⟨_,rfl,h.truncate name⟩
  | delete name => exact ⟨_,rfl,h.delete name⟩
  | read name => exact ⟨_,rfl,h.fsRead_eq name,h⟩
  | size name => exact ⟨_,rfl,h.fsSize_eq name,h⟩
  | list => exact ⟨_,rfl,h.mem_fsList,h⟩

theorem run (ops : List Op) : ∃ m', Dir.Run m ops (Trace.outs FileSystem.step fs ops) m' ∧
      Refines (Trace.exec FileSystem.step fs ops) m' := by
  induction ops generalizing fs m with
  | nil => exact ⟨m,.nil m,h⟩
  | cons op ops ih =>
    obtain ⟨r,hr,hanswer,hnext⟩ := h.step op
    obtain ⟨m',hrun,hend⟩ := ih hnext
    refine ⟨m',?_,hend⟩
    rw [Trace.outs,hr]
    exact .cons hanswer hrun

end

end Refines

end FileSystem

/-- Any calls are answered as by a bounded map from names to contents, and in the end every name
has the content that the map gives it. -/
theorem file_system_refines_map (ops : List Op) :
    ∃ m : Dir, Dir.Run ∅ ops (Trace.outs FileSystem.step FileSystem.empty ops) m ∧ m.Bounded ∧
      ∀ name, (Trace.exec FileSystem.step FileSystem.empty ops).fsRead name = m.lookup name := by
  obtain ⟨m,hrun,hend⟩ := FileSystem.Refines.empty.run ops
  exact ⟨m,hrun,hend.bounded,hend.fsRead_eq⟩

end Gooos.Fs
