import Gooos.Fs.Editor

/-!
# What the editor stores

A write keeps what the call takes and what still fits behind the file. A save stores the buffer if
no line is longer than a call takes and the whole fits into a file; else the end of a line or of the
file is missing, and the save is reported all the same.
-/

namespace Gooos.Edit

open Gooos.Fs
open List (length_append length_replicate length_take take_nil)
open Trace (exec)

/-- The lines joined by newlines, and a newline at the end. -/
def serialise (lines : List Line) : List UInt8 := List.intercalate [newline] lines++[newline]

/-- The buffer can be stored: each line in one call, all of it in one file. -/
def Fits (lines : List Line) : Prop :=
  (∀ l ∈ lines, l.length ≤ sysWriteMax) ∧ (serialise lines).length ≤ maxFileData

/-! ### Appending with limits -/

/-- A file after a write. -/
def appended (d w : List UInt8) : List UInt8 :=
  d++(w.take sysWriteMax).take (maxFileData-d.length)

theorem length_appended (d w : List UInt8) : (appended d w).length ≤ d.length+w.length := by
  rw [appended,length_append,length_take,length_take]
  omega

theorem appended_eq_iff {d w : List UInt8} (hd : d.length ≤ maxFileData) :
    (appended d w).length = d.length+w.length ↔
      w.length ≤ sysWriteMax ∧ d.length+w.length ≤ maxFileData := by
  rw [appended,length_append,length_take,length_take]
  omega

theorem appended_of_fits {d w : List UInt8} (hw : w.length ≤ sysWriteMax)
    (hd : d.length+w.length ≤ maxFileData) : appended d w = d++w := by
  rw [appended,List.take_of_length_le hw,List.take_of_length_le (by omega)]

theorem length_foldl_appended (ws : List (List UInt8)) (d : List UInt8) :
    (ws.foldl appended d).length ≤ d.length+ws.flatten.length := by
  induction ws generalizing d with
  | nil => simp
  | cons w ws ih =>
    have hlen := length_appended d w
    have hrest := ih (appended d w)
    rw [List.foldl_cons,List.flatten_cons,length_append]
    omega

/-- A row of writes keeps everything iff each write is small enough and the whole fits. -/
theorem foldl_appended_eq_iff (ws : List (List UInt8)) {d : List UInt8}
    (hd : d.length ≤ maxFileData) : ws.foldl appended d = d++ws.flatten ↔
      (∀ w ∈ ws, w.length ≤ sysWriteMax) ∧ d.length+ws.flatten.length ≤ maxFileData := by
  induction ws generalizing d with
  | nil => simpa using hd
  | cons w ws ih =>
    rw [List.foldl_cons,List.flatten_cons,length_append,List.forall_mem_cons]
    constructor
    · intro heq
      -- no write may lose a byte, as later ones cannot make up for it
      have hlen := congrArg List.length heq
      have hle := length_foldl_appended ws (appended d w)
      have hone := length_appended d w
      rw [length_append,length_append] at hlen
      have hfull : (appended d w).length = d.length+w.length := by omega
      obtain ⟨hw,hroom⟩ := (appended_eq_iff hd).mp hfull
      rw [appended_of_fits hw hroom,← List.append_assoc] at heq
      have hrest := (ih (by rw [length_append]; exact hroom)).mp heq
      rw [length_append] at hrest
      exact ⟨⟨hw,hrest.1⟩,by omega⟩
    · rintro ⟨⟨hw,hws⟩,hlen⟩
      have hroom : d.length+w.length ≤ maxFileData := by omega
      rw [appended_of_fits hw hroom,← List.append_assoc]
      have hd' : (d++w).length ≤ maxFileData := by rw [length_append]; exact hroom
      refine (ih hd').mpr ⟨hws,?_⟩
      rw [length_append]
      omega

/-! ### The write path -/

/-- A well-formed directory in which the file has this content. -/
def Holds (fs : FileSystem) (name : String) (d : List UInt8) : Prop :=
  ∃ m : Dir, fs.Refines m ∧ m.lookup name = some d

section Writes

variable {fs : FileSystem} {name : String} {d : List UInt8}

theorem Holds.fsAppend (h : Holds fs name d) (data : List UInt8) :
    (fs.fsAppend name data).1 = (Dir.fitting d data).length ∧
      Holds (fs.fsAppend name data).2 name (d++Dir.fitting d data) := by
  obtain ⟨m,hm,hlookup⟩ := h
  obtain ⟨hanswer,hnext⟩ := hm.append name data
  rw [Dir.Answers,hlookup] at hanswer
  rw [Dir.next,hlookup] at hnext
  exact ⟨hanswer,_,hnext,Finmap.lookup_insert _⟩

theorem Holds.writeChunks (fuel : ℕ) (h : Holds fs name d) (written : ℕ) {rest : List UInt8}
    (hfuel : rest.length ≤ chunkSize*fuel) :
    Holds (Edit.writeChunks fs name written rest fuel).2 name
      (d++rest.take (maxFileData-d.length)) := by
  induction fuel generalizing fs d written rest with
  | zero =>
    obtain rfl : rest = [] := List.eq_nil_of_length_eq_zero (by omega)
    rw [take_nil,List.append_nil]
    exact h
  | succ fuel ih =>
    rw [Edit.writeChunks]
    by_cases hrest : rest = []
    · rw [if_pos hrest,hrest,take_nil,List.append_nil]
      exact h
    rw [if_neg hrest]
    obtain ⟨hn,happ⟩ := h.fsAppend (rest.take chunkSize)
    have hpos : 0 < rest.length := List.length_pos_iff.mpr hrest
    have hlen : (rest.take chunkSize).length = min chunkSize rest.length := length_take
    have hsize : chunkSize = 256 := rfl
    rw [Dir.fitting,length_take] at hn
    rw [Dir.fitting,List.take_take] at happ
    dsimp only
    split
    · -- nothing was stored: the file is full
      have hfull : maxFileData-d.length = 0 := by omega
      rw [hfull] at happ
      rw [hfull]
      exact happ
    split
    · -- the chunk was cut: it was the last that fits
      rw [min_eq_left (by omega)] at happ
      exact happ
    · -- the whole chunk was stored, and the loop goes on behind it
      have hchunk : rest.take (min (maxFileData-d.length) chunkSize) = rest.take chunkSize :=
        List.take_eq_take_iff.mpr (by omega)
      rw [hchunk] at happ
      have hdrop : (rest.drop chunkSize).length ≤ chunkSize*fuel := by
        rw [Nat.mul_succ] at hfuel
        rw [List.length_drop]
        omega
      have hgo := ih happ (written+(fs.fsAppend name (rest.take chunkSize)).1) hdrop
      have hsplit : rest.take (maxFileData-d.length) = rest.take chunkSize++
          (rest.drop chunkSize).take (maxFileData-(d++rest.take chunkSize).length) := by
        conv_lhs => rw [← List.take_append_drop chunkSize rest]
        rw [List.take_append,List.take_of_length_le (by omega),length_append,Nat.sub_sub]
      rw [hsplit,← List.append_assoc]
      exact hgo

/-- A write appends what the call takes and the file still holds. -/
theorem Holds.write (h : Holds fs name d) (w : List UInt8) :
    Holds (Edit.write fs name w).2 name (appended d w) := by
  rw [Edit.write]
  by_cases hw : w = []
  · rw [hw,appended,take_nil,take_nil,List.append_nil]
    exact h
  · rw [if_neg hw]
    refine h.writeChunks _ 0 ?_
    rw [length_take]
    exact Nat.min_le_left ..

theorem Holds.writeLines (lines : List Line) (h : Holds fs name d) (total : ℤ) :
    Holds (Edit.writeLines fs name total lines).2 name
      ((lines.intersperse [newline]).foldl appended d) := by
  induction lines generalizing fs d total with
  | nil => exact h
  | cons l ls ih =>
    cases ls with
    | nil => exact h.write l
    | cons l' ls => exact ih ((h.write l).write [newline]) _

end Writes

/-! ### A save -/

theorem flatten_intersperse (lines : List Line) :
    (lines.intersperse [newline]++[[newline]]).flatten = serialise lines := by
  rw [List.flatten_append]
  rfl

theorem mem_intersperse {lines : List Line} {w : Line} (h : w ∈ lines.intersperse [newline]) :
    w ∈ lines ∨ w = [newline] := by
  induction lines with
  | nil => exact absurd h (List.not_mem_nil)
  | cons l ls ih =>
    cases ls with
    | nil => exact .inl h
    | cons l' ls =>
      obtain rfl | h := List.mem_cons.mp h
      · exact .inl (List.mem_cons_self ..)
      obtain rfl | h := List.mem_cons.mp h
      · exact .inr rfl
      · exact (ih h).imp_left (List.mem_cons_of_mem _)

theorem mem_intersperse_of_mem {lines : List Line} {l : Line} (h : l ∈ lines) :
    l ∈ lines.intersperse [newline] := by
  induction lines with
  | nil => exact h
  | cons l' ls ih =>
    cases ls with
    | nil => exact h
    | cons l'' ls =>
      obtain rfl | h := List.mem_cons.mp h
      · exact List.mem_cons_self ..
      · exact List.mem_cons_of_mem _ (List.mem_cons_of_mem _ (ih h))

/-- What the writes of a save leave in the truncated file. -/
def savedBytes (lines : List Line) : List UInt8 :=
  (lines.intersperse [newline]++[[newline]]).foldl appended []

theorem savedBytes_eq_iff (lines : List Line) : savedBytes lines = serialise lines ↔ Fits lines := by
  have hiff := foldl_appended_eq_iff (lines.intersperse [newline]++[[newline]]) (d := [])
    (Nat.zero_le _)
  rw [List.nil_append,flatten_intersperse,List.length_nil,Nat.zero_add] at hiff
  rw [savedBytes,hiff]
  refine and_congr_left fun _ => ⟨fun hall l hl => ?_,fun hall w hw => ?_⟩
  · exact hall l (List.mem_append_left _ (mem_intersperse_of_mem hl))
  · obtain hw | hw := List.mem_append.mp hw
    · obtain hw | rfl := mem_intersperse hw
      · exact hall w hw
      · exact (by decide : 1 ≤ sysWriteMax)
    · rw [List.mem_singleton.mp hw]
      exact (by decide : 1 ≤ sysWriteMax)

/-- `sys_open` succeeds: the process has a free descriptor, and the file is there or there is room
for it. -/
def Opens (fs : FileSystem) (name : String) (slot : Bool) : Prop :=
  slot = true ∧ (0 ≤ fs.fsSize name ∨ fs.freeSlot ≠ none)

section Save

variable {fs : FileSystem} {m : Dir} (name : String) (slot : Bool)

theorem openFileFd_refines (h : fs.Refines m) : ∃ m' : Dir, (openFileFd fs name).2.Refines m' ∧
    ((openFileFd fs name).1 = true → m'.lookup name = some []) := by
  rw [openFileFd,h.fsSize_eq]
  cases hlookup : m.lookup name with
  | some d =>
    obtain ⟨-,hnext⟩ := h.truncate name
    rw [Dir.next,if_pos (Finmap.mem_of_lookup_eq_some hlookup)] at hnext
    exact ⟨_,hnext,fun _ => Finmap.lookup_insert _⟩
  | none =>
    obtain ⟨hanswer,hnext⟩ := h.create name
    refine ⟨_,hnext,fun hok => ?_⟩
    obtain ⟨hnew,hroom⟩ := hanswer.mp hok
    rw [Dir.next,if_neg (not_or.mpr ⟨hnew,hroom⟩)]
    exact Finmap.lookup_insert _

theorem openFileFd_ok :
    (openFileFd fs name).1 = true ↔ 0 ≤ fs.fsSize name ∨ fs.freeSlot ≠ none := by
  rw [openFileFd]
  by_cases hsize : fs.fsSize name < 0
  · have hslot : fs.slotOf name = none := by
      rw [FileSystem.fsSize] at hsize
      cases hslot : fs.slotOf name with
      | none => rfl
      | some i =>
        rw [hslot] at hsize
        exact absurd hsize (by simp)
    rw [FileSystem.fsCreate,hslot]
    cases fs.freeSlot <;> simp [hsize]
  · simp [if_neg hsize,Int.not_lt.mp hsize]

/-- A save succeeds iff the file can be opened, whatever becomes of the writes. -/
theorem saveFile_ok (buf : Buffer) :
    (saveFile fs slot name buf).ok = true ↔ Opens fs name slot := by
  have hopen : (openWrite fs name slot).1 = true ↔ Opens fs name slot := by
    rw [openWrite,Bool.and_eq_true,openFileFd_ok,Opens,and_comm]
  rw [← hopen,saveFile]
  split
  · exact iff_of_true rfl ‹_›
  · exact iff_of_false nofun ‹_›

theorem saveFile_buf (buf : Buffer) : (saveFile fs slot name buf).buf =
    if (saveFile fs slot name buf).ok then { buf with modified := false } else buf := by
  rw [saveFile]
  split <;> rfl

theorem saveFile_refines (h : fs.Refines m) (buf : Buffer) :
    ∃ m' : Dir, (saveFile fs slot name buf).fs.Refines m' ∧
      ((saveFile fs slot name buf).ok = true → m'.lookup name = some (savedBytes buf.lines)) := by
  obtain ⟨m₁,h₁,hnew⟩ := openFileFd_refines name h
  rw [saveFile]
  split
  next hok =>
    have hempty := hnew (Bool.and_eq_true_iff.mp hok).1
    have hlines : Holds _ name _ := Holds.writeLines buf.lines ⟨m₁,h₁,hempty⟩ 0
    obtain ⟨m₂,h₂,hlookup⟩ := hlines.write [newline]
    refine ⟨m₂,h₂,fun _ => ?_⟩
    rw [hlookup,savedBytes,List.foldl_append]
    rfl
  next => exact ⟨m₁,h₁,nofun⟩

/-- After a save that succeeded the file is the buffer iff the buffer fits. -/
theorem saveFile_stores_iff (h : fs.Refines m) {buf : Buffer}
    (hok : (saveFile fs slot name buf).ok = true) :
    (saveFile fs slot name buf).fs.fsRead name = some (serialise buf.lines) ↔ Fits buf.lines := by
  obtain ⟨m',h',hlookup⟩ := saveFile_refines name slot h buf
  rw [h'.fsRead_eq,hlookup hok,Option.some_inj]
  exact savedBytes_eq_iff buf.lines

end Save

/-! ### Whole sessions -/

/-- A command that does not mark the buffer leaves its text alone. -/
def Buffer.Marks (b b' : Buffer) : Prop :=
  b'.modified = true ∨ b'.lines = b.lines ∧ b'.modified = b.modified

namespace Buffer

section

variable (b : Buffer)
include b

theorem marks_clampCX : b.Marks b.clampCX := by
  rw [clampCX]
  split <;> exact .inr ⟨rfl,rfl⟩

theorem marks_deleteBackward : b.Marks b.deleteBackward := by
  rw [deleteBackward]
  split
  · exact .inl rfl
  split
  · exact .inl rfl
  · exact .inr ⟨rfl,rfl⟩

theorem marks_deleteForward : b.Marks b.deleteForward := by
  rw [deleteForward]
  split
  · exact .inl rfl
  split
  · exact .inl rfl
  · exact .inr ⟨rfl,rfl⟩

theorem marks_deleteLine : b.Marks b.deleteLine := by
  rw [deleteLine]
  split <;> exact .inl rfl

theorem marks_cursorRight : b.Marks b.cursorRight := by
  rw [cursorRight]
  split <;> exact .inr ⟨rfl,rfl⟩

theorem marks_cursorUp : b.Marks b.cursorUp := by
  rw [cursorUp]
  split
  · exact marks_clampCX { b with cy := b.cy-1 }
  · exact .inr ⟨rfl,rfl⟩

theorem marks_cursorDown : b.Marks b.cursorDown := by
  rw [cursorDown]
  split
  · exact marks_clampCX { b with cy := b.cy+1 }
  · exact .inr ⟨rfl,rfl⟩

theorem marks_wordForward : b.Marks b.wordForward := by
  rw [wordForward]
  split <;> exact .inr ⟨rfl,rfl⟩

theorem marks_wordBackward : b.Marks b.wordBackward := by
  rw [wordBackward]
  split <;> exact .inr ⟨rfl,rfl⟩

end

end Buffer

theorem Editor.clearMessage_same (e : Editor) (cmd : EditorCmd) :
    (e.clearMessage cmd).filename = e.filename ∧ (e.clearMessage cmd).buf = e.buf ∧
      (e.clearMessage cmd).quit = e.quit := by
  rw [clearMessage]
  split <;> exact ⟨rfl,rfl,rfl⟩

/-- The commands other than the two saves only touch the editor. -/
theorem Editor.execute_marks (e : Editor) (fs : FileSystem) (slot : Bool) {cmd : EditorCmd}
    (hsave : cmd ≠ .save) (hsaveQuit : cmd ≠ .saveQuit) :
    (e.execute fs slot cmd).2 = fs ∧ (e.execute fs slot cmd).1.filename = e.filename ∧
      e.buf.Marks (e.execute fs slot cmd).1.buf := by
  obtain ⟨hname,hbuf,-⟩ := e.clearMessage_same cmd
  rw [execute.eq_def,← hname,← hbuf]
  generalize e.clearMessage cmd = e'
  cases cmd with
  | save => exact absurd rfl hsave
  | saveQuit => exact absurd rfl hsaveQuit
  | up => exact ⟨rfl,rfl,Buffer.marks_cursorUp _⟩
  | down => exact ⟨rfl,rfl,Buffer.marks_cursorDown _⟩
  | right | enterInsertAfter => exact ⟨rfl,rfl,Buffer.marks_cursorRight _⟩
  | top => exact ⟨rfl,rfl,Buffer.marks_clampCX { e'.buf with cy := 0 }⟩
  | bottom => exact ⟨rfl,rfl,Buffer.marks_clampCX { e'.buf with cy := e'.buf.lines.length-1 }⟩
  | wordFwd => exact ⟨rfl,rfl,Buffer.marks_wordForward _⟩
  | wordBack => exact ⟨rfl,rfl,Buffer.marks_wordBackward _⟩
  | deleteBack => exact ⟨rfl,rfl,Buffer.marks_deleteBackward _⟩
  | deleteFwd => exact ⟨rfl,rfl,Buffer.marks_deleteForward _⟩
  | deleteLine => exact ⟨rfl,rfl,Buffer.marks_deleteLine _⟩
  | insert | newline | openBelow | openAbove => exact ⟨rfl,rfl,.inl rfl⟩
  | none | left | home | «end» | enterInsert | exitInsert | enterCommand | forceQuit =>
    exact ⟨rfl,rfl,.inr ⟨rfl,rfl⟩⟩
  | quit =>
    dsimp only
    split <;> exact ⟨rfl,rfl,.inr ⟨rfl,rfl⟩⟩

/-- Both saves leave what `saveFile` leaves. -/
theorem Editor.execute_saves (e : Editor) (fs : FileSystem) (slot : Bool) {cmd : EditorCmd}
    (hcmd : cmd = .save ∨ cmd = .saveQuit) :
    (e.execute fs slot cmd).2 = (saveFile fs slot e.filename e.buf).fs ∧
      (e.execute fs slot cmd).1.filename = e.filename ∧
      (e.execute fs slot cmd).1.buf = (saveFile fs slot e.filename e.buf).buf := by
  obtain ⟨hname,hbuf,-⟩ := e.clearMessage_same cmd
  rw [execute.eq_def,← hname,← hbuf]
  generalize e.clearMessage cmd = e'
  obtain rfl | rfl := hcmd
  · exact ⟨rfl,rfl,rfl⟩
  · dsimp only
    split <;> exact ⟨rfl,rfl,rfl⟩

namespace Session

/-- With the mark off, the file is the buffer, or the buffer is as it was loaded. -/
def Kept (s : Session) : Prop :=
  s.ed.buf.modified = false →
    s.stored = some (serialise s.ed.buf.lines) ∨ s.ed.buf.lines = s.loaded

/-- A save that opens its file has a buffer that fits. -/
def Storable (s : Session) (i : Input) : Prop :=
  s.ed.quit = false → i.cmd = .save ∨ i.cmd = .saveQuit →
    Opens s.fs s.ed.filename s.slot → Fits s.ed.buf.lines

/-- A file that was stored can be opened again, so a later save does not fail on it. -/
structure Inv (s : Session) : Prop where
  refines : ∃ m : Dir, s.fs.Refines m
  kept : s.ed.buf.modified = false →
    s.slot = true ∧ s.stored = some (serialise s.ed.buf.lines) ∨ s.ed.buf.lines = s.loaded

theorem Inv.isKept {s : Session} (h : s.Inv) : s.Kept :=
  fun hmod => (h.kept hmod).imp_left And.right

theorem inv_start {fs : FileSystem} {m : Dir} (h : fs.Refines m) (filename : String)
    (slot : Bool) : (start fs filename slot).Inv :=
  ⟨⟨m,h⟩,fun _ => .inr rfl⟩

end Session

/-- What is seen of a save and of an exit agrees with the file. -/
def Obs.Faithful : Obs → Prop
  | .saved lines stored => stored = some (serialise lines)
  | .quit lines loaded stored => stored = some (serialise lines) ∨ lines = loaded

namespace Session

variable {s : Session} {i : Input}

/-- The state after a turn of the loop. -/
theorem step_fst (hquit : s.ed.quit = false) : (s.step i).1 =
    { s with
      ed := ((s.read i).execute s.fs s.slot i.cmd).1
      fs := ((s.read i).execute s.fs s.slot i.cmd).2 } := by
  rw [step,hquit]
  rfl

/-- What a save leaves of a session. -/
structure AfterSave (s s' : Session) : Prop where
  fs : s'.fs = (saveFile s.fs s.slot s.ed.filename s.ed.buf).fs
  filename : s'.ed.filename = s.ed.filename
  buf : s'.ed.buf = (saveFile s.fs s.slot s.ed.filename s.ed.buf).buf
  slot : s'.slot = s.slot
  loaded : s'.loaded = s.loaded

theorem step_save (hquit : s.ed.quit = false) (hcmd : i.cmd = .save ∨ i.cmd = .saveQuit) :
    s.AfterSave (s.step i).1 := by
  obtain ⟨hfs,hname,hbuf⟩ := (s.read i).execute_saves s.fs s.slot hcmd
  rw [step_fst hquit]
  exact ⟨hfs,hname,hbuf,rfl,rfl⟩

theorem AfterSave.stored {s' : Session} (h : s.AfterSave s') (hinv : s.Inv)
    (hok : (saveFile s.fs s.slot s.ed.filename s.ed.buf).ok = true) (hfits : Fits s.ed.buf.lines) :
    s'.stored = some (serialise s.ed.buf.lines) := by
  obtain ⟨m,hm⟩ := hinv.refines
  rw [Session.stored,h.fs,h.filename]
  exact (saveFile_stores_iff s.ed.filename s.slot hm hok).mpr hfits

theorem AfterSave.inv {s' : Session} (h : s.AfterSave s') (hinv : s.Inv)
    (hfits : Opens s.fs s.ed.filename s.slot → Fits s.ed.buf.lines) : s'.Inv := by
  obtain ⟨m,hm⟩ := hinv.refines
  obtain ⟨m',hm',-⟩ := saveFile_refines s.ed.filename s.slot hm s.ed.buf
  refine ⟨⟨m',h.fs ▸ hm'⟩,fun hmod => ?_⟩
  have hbuf := h.buf
  rw [saveFile_buf] at hbuf
  by_cases hok : (saveFile s.fs s.slot s.ed.filename s.ed.buf).ok = true
  · have hopens := (saveFile_ok s.ed.filename s.slot s.ed.buf).mp hok
    rw [if_pos hok] at hbuf
    refine .inl ⟨h.slot ▸ hopens.1,?_⟩
    rw [h.stored hinv hok (hfits hopens),hbuf]
  · -- a stored file could be opened, so the buffer is as it was loaded
    rw [if_neg hok] at hbuf
    rw [hbuf] at hmod ⊢
    refine .inr ?_
    obtain ⟨hslot,hstored⟩ | hsame := hinv.kept hmod
    · refine absurd ((saveFile_ok s.ed.filename s.slot s.ed.buf).mpr ⟨hslot,.inl ?_⟩) hok
      rw [Session.stored,hm.fsRead_eq] at hstored
      rw [hm.fsSize_eq,hstored]
      exact Int.natCast_nonneg _
    · rw [hsame,h.loaded]

theorem inv_step (hinv : s.Inv) (hg : s.Storable i) : (s.step i).1.Inv := by
  by_cases hquit : s.ed.quit = true
  · rw [step,if_pos hquit]
    exact hinv
  rw [Bool.not_eq_true] at hquit
  by_cases hcmd : i.cmd = .save ∨ i.cmd = .saveQuit
  · exact (step_save hquit hcmd).inv hinv (hg hquit hcmd)
  obtain ⟨hsave,hsaveQuit⟩ := not_or.mp hcmd
  obtain ⟨hfs,hname,hmarks⟩ := (s.read i).execute_marks s.fs s.slot hsave hsaveQuit
  rw [step_fst hquit]
  refine ⟨?_,fun hmod => ?_⟩
  · rw [hfs]
    exact hinv.refines
  obtain hmarked | ⟨hlines,hflag⟩ := hmarks
  · exact absurd hmod (Bool.not_eq_false _ ▸ hmarked)
  · rw [Session.stored,hfs,hname,hlines]
    exact hinv.kept (hflag.symm.trans hmod)

/-- `CmdQuit` ends the loop only with the mark off. -/
theorem step_quit (hquit : s.ed.quit = false) (hcmd : i.cmd = .quit)
    (hend : (s.step i).1.ed.quit = true) : (s.step i).1.ed.buf.modified = false := by
  rw [step_fst hquit,hcmd] at hend ⊢
  have hequit := ((s.read i).clearMessage_same .quit).2.2.trans hquit
  rw [Editor.execute] at hend ⊢
  generalize (s.read i).clearMessage .quit = e at hend hequit ⊢
  cases hmod : e.buf.modified with
  | false => exact hmod
  | true =>
    rw [hmod] at hend
    exact absurd (hequit.symm.trans hend) Bool.false_ne_true

theorem faithful_step (hinv : s.Inv) (hg : s.Storable i) : ∀ o ∈ (s.step i).2, o.Faithful := by
  by_cases hquit : s.ed.quit = true
  · rw [step,if_pos hquit]
    nofun
  have hquit' : s.ed.quit = false := Bool.not_eq_true _ ▸ hquit
  have hsnd : (s.step i).2 = s.shown (s.step i).1 i.cmd := by
    rw [step,if_neg hquit]
  have hinv' := inv_step hinv hg
  rw [hsnd,shown]
  intro o ho
  split at ho
  next hcmd =>
    split at ho
    next hok =>
      rw [List.mem_singleton.mp ho]
      have hopens := (saveFile_ok s.ed.filename s.slot s.ed.buf).mp hok
      exact (step_save hquit' hcmd).stored hinv hok (hg hquit' hcmd hopens)
    next => exact absurd ho List.not_mem_nil
  next =>
    split at ho
    next hcmd =>
      rw [List.mem_singleton.mp ho]
      exact hinv'.isKept (step_quit hquit' hcmd.1 hcmd.2)
    next => exact absurd ho List.not_mem_nil

end Session

/-- In any session whose saves have a buffer that fits, no edit is lost silently: with the mark off
the file is the buffer or the buffer is as loaded, a save that succeeds has stored all of it, and
`CmdQuit` leaves nothing behind. -/
theorem edits_not_lost (ops : List Op) (filename : String) (slot : Bool) (is : List Input)
    (h : Trace.Meets Session.step Session.Storable
      (.start (exec FileSystem.step .empty ops) filename slot) is) :
    (exec Session.step
      (.start (exec FileSystem.step .empty ops) filename slot) is).Kept ∧
      ∀ o ∈ Trace.outs Session.step
        (.start (exec FileSystem.step .empty ops) filename slot) is, o.Faithful := by
  obtain ⟨m,-,hm⟩ := FileSystem.Refines.empty.run ops
  have hstart := Session.inv_start hm filename slot
  have hstep : ∀ s i, Session.Inv s → s.Storable i → (s.step i).1.Inv :=
    fun s i hinv hg => Session.inv_step hinv hg
  refine ⟨(h.inv hstep hstart).isKept,h.all_outs hstep (fun s i hinv hg => ?_) hstart⟩
  exact Session.faithful_step hinv hg

/-- A letter typed, saved and left. -/
theorem edits_not_lost_typed :
    let is : List Input := [⟨.insert,120,.insert,""⟩,⟨.save,0,.normal,""⟩,⟨.quit,0,.normal,""⟩]
    let s := exec Session.step (.start .empty "notes" true) is
    s.Kept ∧ s.ed.quit = true := by
  intro is s
  have hfits : Fits [[120]] := ⟨by decide,by decide⟩
  refine ⟨(edits_not_lost [] "notes" true is ⟨?_,?_,?_,trivial⟩).1,by decide +kernel⟩
  · exact fun _ hcmd => absurd hcmd (by decide)
  · exact fun _ _ _ => hfits
  · exact fun _ hcmd => absurd hcmd (by decide)

/-- The letter `x`, typed. -/
def typeX : Input := ⟨.insert,120,.insert,""⟩

theorem exec_typed (n : ℕ) :
    let s := exec Session.step (.start .empty "notes" true) (List.replicate n typeX)
    s.ed.buf.lines = [List.replicate n 120] ∧ s.ed.buf.cx = n ∧ s.ed.buf.cy = 0 ∧
      s.ed.filename = "notes" ∧ s.ed.quit = false ∧ s.fs = .empty ∧ s.slot = true ∧
      s.loaded = [[]] := by
  induction n with
  | zero => exact ⟨rfl,rfl,rfl,rfl,rfl,rfl,rfl,rfl⟩
  | succ n ih =>
    obtain ⟨hlines,hcx,hcy,hname,hquit,hrest⟩ := ih
    rw [List.replicate_succ',Trace.exec_append,exec,Session.step_fst hquit]
    refine ⟨?_,congrArg (·+1) hcx,hcy,hname,hquit,hrest⟩
    -- the letter is put at the end of the only line
    generalize exec Session.step _ (List.replicate n typeX) = s at hlines hcx hcy ⊢
    have hline : s.ed.buf.line = List.replicate n 120 := by
      rw [Buffer.line,hlines,hcy]
      rfl
    change s.ed.buf.lines.set s.ed.buf.cy
      (s.ed.buf.line.take s.ed.buf.cx++120::s.ed.buf.line.drop s.ed.buf.cx) = _
    rw [hline,hlines,hcx,hcy,List.take_of_length_le (length_replicate ..).le,
      List.drop_of_length_le (length_replicate ..).le,← List.replicate_succ']
    rfl

theorem serialise_singleton (l : Line) : serialise [l] = l++[newline] := by
  simp [serialise]

theorem save_and_quit {s : Session} {m : Dir} (hquit : s.ed.quit = false) (hm : s.fs.Refines m)
    (hopens : Opens s.fs s.ed.filename s.slot) :
    let s' := exec Session.step s [⟨.save,0,.normal,""⟩,⟨.quit,0,.normal,""⟩]
    s'.ed.quit = true ∧ s'.ed.buf.lines = s.ed.buf.lines ∧ s'.ed.buf.modified = false ∧
      s'.stored = some (savedBytes s.ed.buf.lines) ∧ s'.loaded = s.loaded := by
  have hok := (saveFile_ok s.ed.filename s.slot s.ed.buf).mpr hopens
  have hafter := Session.step_save (i := ⟨.save,0,.normal,""⟩) hquit (.inl rfl)
  have hquit' : (s.step ⟨.save,0,.normal,""⟩).1.ed.quit = false := by
    rw [Session.step_fst hquit]
    exact ((s.read _).clearMessage_same .save).2.2.trans hquit
  have hbuf := hafter.buf
  rw [saveFile_buf,if_pos hok] at hbuf
  obtain ⟨m',hm',hlookup⟩ := saveFile_refines s.ed.filename s.slot hm s.ed.buf
  have hstored : (s.step ⟨.save,0,.normal,""⟩).1.stored = some (savedBytes s.ed.buf.lines) := by
    rw [Session.stored,hafter.fs,hafter.filename,hm'.fsRead_eq,hlookup hok]
  -- the second command finds the mark off
  rw [exec,exec]
  generalize (s.step ⟨.save,0,.normal,""⟩).1 = t at hafter hquit' hbuf hstored ⊢
  have hend : (t.step ⟨.quit,0,.normal,""⟩).1 =
      { t with ed := { (t.read ⟨.quit,0,.normal,""⟩).clearMessage .quit with quit := true } } := by
    obtain ⟨-,hsame,-⟩ := (t.read ⟨.quit,0,.normal,""⟩).clearMessage_same .quit
    have hmod : ((t.read ⟨.quit,0,.normal,""⟩).clearMessage .quit).buf.modified = false := by
      exact congrArg Buffer.modified hbuf
    rw [Session.step_fst hquit',Editor.execute,hmod]
    rfl
  rw [hend]
  have hlines : t.ed.buf.lines = s.ed.buf.lines := by rw [hbuf]
  exact ⟨rfl,hlines,congrArg Buffer.modified hbuf,hstored,hafter.loaded⟩

/-- A line of 4097 letters is saved without its last one; the mark goes off, and the editor can be
left. -/
theorem long_line_lost :
    let is := List.replicate 4097 typeX++[⟨.save,0,.normal,""⟩,⟨.quit,0,.normal,""⟩]
    let s := exec Session.step (.start .empty "notes" true) is
    s.ed.quit = true ∧ s.ed.buf.lines = [List.replicate 4097 120] ∧
      s.stored = some (List.replicate 4096 120++[newline]) ∧ ¬ s.Kept := by
  intro is s
  have hs : s = exec Session.step _ _ := Trace.exec_append _ (List.replicate 4097 typeX) _
  obtain ⟨hlines,-,-,hname,hquit,hfs,hslot,hloaded⟩ := exec_typed 4097
  have hopens : Opens FileSystem.empty "notes" true := ⟨rfl,.inr (by decide +kernel)⟩
  rw [hs]
  generalize exec Session.step _ (List.replicate 4097 typeX) = t at *
  have hrefines : t.fs.Refines ∅ := hfs ▸ FileSystem.Refines.empty
  rw [← hfs,← hname,← hslot] at hopens
  obtain ⟨hend,hsame,hmod,hstored,hload⟩ := save_and_quit hquit hrefines hopens
  rw [hlines] at hsame hstored
  rw [hloaded] at hload
  have hbytes : savedBytes [List.replicate 4097 120] = List.replicate 4096 120++[newline] := by
    change appended (appended [] _) [newline] = _
    rw [appended,appended,List.nil_append,List.take_replicate,List.take_replicate,
      length_replicate]
    rfl
  rw [hbytes] at hstored
  refine ⟨hend,hsame,hstored,fun hkept => ?_⟩
  obtain hall | hload' := hkept hmod
  · -- the file is one byte short
    rw [hstored,hsame,serialise_singleton] at hall
    have hlen := congrArg List.length (Option.some.inj hall)
    rw [length_append,length_append,length_replicate,length_replicate] at hlen
    exact absurd hlen (by decide)
  · rw [hsame,hload] at hload'
    have hlen := congrArg List.length (List.cons.inj hload').1
    rw [length_replicate] at hlen
    exact absurd hlen (by decide)

end Gooos.Edit
