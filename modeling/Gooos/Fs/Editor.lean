import Gooos.Fs.FileSystem

/-!
# The text editor and the file it edits

`user/cmd/edit/buffer.go` and `main.go` over the write path of the kernel: `sys_write` takes at
most 4096 bytes of a call, in chunks of 256, and a file takes what still fits. `saveFile` looks at
none of the results.
-/

namespace Gooos.Edit

open Gooos.Fs

abbrev Line := List UInt8

def newline : UInt8 := 10

/-! ### The buffer -/

structure Buffer where
  lines : List Line
  cx : ℕ
  cy : ℕ
  modified : Bool
deriving DecidableEq

def newBuffer : Buffer := ⟨[[]],0,0,false⟩

/-- The loop of `loadFile`; `cur` is what was read since the last newline. -/
def splitLines (cur : Line) : List UInt8 → List Line
  | [] => [cur]
  | b::bs => if b = newline then cur::splitLines [] bs else splitLines (cur++[b]) bs

/-- `ReadFile` has a buffer of 131072 bytes. -/
def loadFile (fs : FileSystem) (name : String) : Buffer :=
  match fs.fsRead name with
  | none => newBuffer
  | some data => ⟨splitLines [] (data.take 131072),0,0,false⟩

namespace Buffer

def line (b : Buffer) : Line := b.lines.getD b.cy []

def clampCX (b : Buffer) : Buffer :=
  if b.line.length < b.cx then { b with cx := b.line.length } else b

def cursorLeft (b : Buffer) : Buffer := { b with cx := b.cx-1 }

def cursorRight (b : Buffer) : Buffer :=
  if b.cx < b.line.length then { b with cx := b.cx+1 } else b

def cursorUp (b : Buffer) : Buffer :=
  if 0 < b.cy then clampCX { b with cy := b.cy-1 } else b

def cursorDown (b : Buffer) : Buffer :=
  if b.cy < b.lines.length-1 then clampCX { b with cy := b.cy+1 } else b

def cursorHome (b : Buffer) : Buffer := { b with cx := 0 }

def cursorEnd (b : Buffer) : Buffer := { b with cx := b.line.length }

def cursorTop (b : Buffer) : Buffer := clampCX { b with cy := 0 }

def cursorBottom (b : Buffer) : Buffer := clampCX { b with cy := b.lines.length-1 }

def isSpace (ch : UInt8) : Bool := ch = 32 || ch = 9

def wordForward (b : Buffer) : Buffer :=
  let x := b.cx+((b.line.drop b.cx).takeWhile fun ch => !isSpace ch).length
  let x := x+((b.line.drop x).takeWhile isSpace).length
  if b.line.length ≤ x ∧ b.cy < b.lines.length-1 then
    { b with cy := b.cy+1, cx := 0 }
  else
    { b with cx := x }

def skipSpaces (line : Line) : ℕ → ℕ
  | 0 => 0
  | x+1 => if isSpace (line.getD (x+1) 0) then skipSpaces line x else x+1

def skipWord (line : Line) : ℕ → ℕ
  | 0 => 0
  | x+1 => if isSpace (line.getD x 0) then x+1 else skipWord line x

def wordBackward (b : Buffer) : Buffer :=
  if b.cx = 0 ∧ 0 < b.cy then
    { b with cy := b.cy-1, cx := (b.lines.getD (b.cy-1) []).length }
  else
    { b with cx := skipWord b.line (skipSpaces b.line (b.cx-1)) }

def insertChar (b : Buffer) (ch : UInt8) : Buffer :=
  { b with
    lines := b.lines.set b.cy (b.line.take b.cx++ch::b.line.drop b.cx)
    cx := b.cx+1
    modified := true }

def insertNewline (b : Buffer) : Buffer :=
  { lines := b.lines.take b.cy++[b.line.take b.cx,b.line.drop b.cx]++b.lines.drop (b.cy+1)
    cx := 0
    cy := b.cy+1
    modified := true }

def deleteBackward (b : Buffer) : Buffer :=
  if 0 < b.cx then
    { b with
      lines := b.lines.set b.cy (b.line.take (b.cx-1)++b.line.drop b.cx)
      cx := b.cx-1
      modified := true }
  else if 0 < b.cy then
    let prev := b.lines.getD (b.cy-1) []
    { lines := (b.lines.set (b.cy-1) (prev++b.line)).eraseIdx b.cy
      cx := prev.length
      cy := b.cy-1
      modified := true }
  else
    b

def deleteForward (b : Buffer) : Buffer :=
  if b.cx < b.line.length then
    { b with
      lines := b.lines.set b.cy (b.line.take b.cx++b.line.drop (b.cx+1))
      modified := true }
  else if b.cy < b.lines.length-1 then
    { b with
      lines := (b.lines.set b.cy (b.line++b.lines.getD (b.cy+1) [])).eraseIdx (b.cy+1)
      modified := true }
  else
    b

def deleteLine (b : Buffer) : Buffer :=
  if b.lines.length = 1 then
    { b with lines := [[]], cx := 0, modified := true }
  else
    let lines := b.lines.eraseIdx b.cy
    let cy := if lines.length ≤ b.cy then lines.length-1 else b.cy
    { clampCX { b with lines := lines, cy := cy } with modified := true }

def openLineBelow (b : Buffer) : Buffer :=
  { lines := b.lines.take (b.cy+1)++[]::b.lines.drop (b.cy+1)
    cx := 0
    cy := b.cy+1
    modified := true }

def openLineAbove (b : Buffer) : Buffer :=
  { b with lines := b.lines.take b.cy++[]::b.lines.drop b.cy, cx := 0, modified := true }

end Buffer

/-! ### Writing to a file -/

def sysWriteMax : ℕ := 4096
def chunkSize : ℕ := 256

def fdErrBad : ℤ := 3

/-- The loop of `sysWriteHandler` on a file; at most `fuel` chunks are left. -/
def writeChunks (fs : FileSystem) (name : String) (written : ℕ) (rest : List UInt8) :
    (fuel : ℕ) → ℤ × FileSystem
  | 0 => (written,fs)
  | fuel+1 =>
    if rest = [] then
      (written,fs)
    else
      let chunk := rest.take chunkSize
      let r := fs.fsAppend name chunk
      -- `fileFd.Write` makes an error of a write that stored nothing
      if r.1 = 0 then
        (if written = 0 then -fdErrBad else written,r.2)
      else if r.1 < chunk.length then
        ((written+r.1 : ℕ),r.2)
      else
        writeChunks r.2 name (written+r.1) (rest.drop chunkSize) fuel

def sysWrite (fs : FileSystem) (name : String) (buf : List UInt8) : ℤ × FileSystem :=
  writeChunks fs name 0 (buf.take sysWriteMax) (sysWriteMax/chunkSize)

/-- `gooos.Write` on the descriptor of an open file. -/
def write (fs : FileSystem) (name : String) (buf : List UInt8) : ℤ × FileSystem :=
  if buf = [] then (0,fs) else sysWrite fs name buf

/-- `openFileFd` to write. -/
def openFileFd (fs : FileSystem) (name : String) : Bool × FileSystem :=
  if fs.fsSize name < 0 then fs.fsCreate name else (true,(fs.fsTruncate name).2)

/-- `sys_open` to write, for a process that has a free descriptor or none. The file is created or
truncated before the descriptor is looked for. -/
def openWrite (fs : FileSystem) (name : String) (slot : Bool) : Bool × FileSystem :=
  ((openFileFd fs name).1 && slot,(openFileFd fs name).2)

/-- The loop of `saveFile`, with the total so far. -/
def writeLines (fs : FileSystem) (name : String) (total : ℤ) : List Line → ℤ × FileSystem
  | [] => (total,fs)
  | [l] => (total+(write fs name l).1,(write fs name l).2)
  | l::l'::ls =>
    let r := write fs name l
    writeLines (write r.2 name [newline]).2 name (total+r.1+1) (l'::ls)

structure Saved where
  total : ℤ
  ok : Bool
  buf : Buffer
  fs : FileSystem

def saveFile (fs : FileSystem) (slot : Bool) (name : String) (buf : Buffer) : Saved :=
  let r := openWrite fs name slot
  if r.1 then
    let w := writeLines r.2 name 0 buf.lines
    let fs := (write w.2 name [newline]).2
    ⟨w.1+1,true,{ buf with modified := false },fs⟩
  else
    ⟨0,false,buf,r.2⟩

/-! ### The editor -/

inductive Mode where
  | normal | insert | command
deriving DecidableEq

inductive EditorCmd where
  | none | up | down | left | right | home | «end» | top | bottom | wordFwd | wordBack
  | insert | newline | deleteBack | deleteFwd | deleteLine
  | enterInsert | enterInsertAfter | openBelow | openAbove | exitInsert | enterCommand
  | save | quit | forceQuit | saveQuit
deriving DecidableEq

structure Editor where
  buf : Buffer
  filename : String
  mode : Mode
  message : String
  insertCh : UInt8
  quit : Bool

def newEditor (fs : FileSystem) (filename : String) : Editor :=
  ⟨loadFile fs filename,filename,.normal,"",0,false⟩

def Editor.saveError (e : Editor) : String := "Error: could not save "++e.filename

/-- Any command clears a message, except in command mode. -/
def Editor.clearMessage (e : Editor) (cmd : EditorCmd) : Editor :=
  if e.mode ≠ .command ∧ cmd ≠ .none then { e with message := "" } else e

/-- `Editor.execute`; `slot` tells whether the process has a free descriptor. -/
def Editor.execute (e : Editor) (fs : FileSystem) (slot : Bool) (cmd : EditorCmd) :
    Editor × FileSystem :=
  let e := e.clearMessage cmd
  let onBuf (b : Buffer) : Editor × FileSystem := ({ e with buf := b },fs)
  match cmd with
  | .none => (e,fs)
  | .up => onBuf e.buf.cursorUp
  | .down => onBuf e.buf.cursorDown
  | .left => onBuf e.buf.cursorLeft
  | .right => onBuf e.buf.cursorRight
  | .home => onBuf e.buf.cursorHome
  | .end => onBuf e.buf.cursorEnd
  | .top => onBuf e.buf.cursorTop
  | .bottom => onBuf e.buf.cursorBottom
  | .wordFwd => onBuf e.buf.wordForward
  | .wordBack => onBuf e.buf.wordBackward
  | .insert => onBuf (e.buf.insertChar e.insertCh)
  | .newline => onBuf e.buf.insertNewline
  | .deleteBack => onBuf e.buf.deleteBackward
  | .deleteFwd => onBuf e.buf.deleteForward
  | .deleteLine => onBuf e.buf.deleteLine
  | .enterInsert => ({ e with mode := .insert },fs)
  | .enterInsertAfter => ({ e with buf := e.buf.cursorRight, mode := .insert },fs)
  | .openBelow => ({ e with buf := e.buf.openLineBelow, mode := .insert },fs)
  | .openAbove => ({ e with buf := e.buf.openLineAbove, mode := .insert },fs)
  | .exitInsert => ({ e with buf := e.buf.cursorLeft, mode := .normal },fs)
  | .enterCommand => ({ e with mode := .command, message := ":" },fs)
  | .save =>
    let r := saveFile fs slot e.filename e.buf
    let message :=
      if r.ok then "\""++e.filename++"\" written, "++toString r.total++" bytes" else e.saveError
    ({ e with buf := r.buf, message := message },r.fs)
  | .quit =>
    if e.buf.modified then
      ({ e with message := "No write since last change (use :q! to override)" },fs)
    else
      ({ e with quit := true },fs)
  | .forceQuit => ({ e with quit := true },fs)
  | .saveQuit =>
    let r := saveFile fs slot e.filename e.buf
    if r.ok then
      ({ e with buf := r.buf, quit := true },r.fs)
    else
      ({ e with buf := r.buf, message := e.saveError },r.fs)

/-- What `readCommand` leaves. -/
structure Input where
  cmd : EditorCmd
  insertCh : UInt8
  mode : Mode
  message : String

/-- The process of the editor; `loaded` keeps what was read at the start. It has a free descriptor
all the time or never: no other call of it takes one. -/
structure Session where
  ed : Editor
  fs : FileSystem
  slot : Bool
  loaded : List Line

inductive Obs where
  /-- `saveFile` returned `ok`. -/
  | saved (lines : List Line) (stored : Option (List UInt8))
  /-- `CmdQuit` ended the loop. -/
  | quit (lines loaded : List Line) (stored : Option (List UInt8))

namespace Session

def start (fs : FileSystem) (filename : String) (slot : Bool) : Session :=
  ⟨newEditor fs filename,fs,slot,(loadFile fs filename).lines⟩

def stored (s : Session) : Option (List UInt8) := s.fs.fsRead s.ed.filename

def read (s : Session) (i : Input) : Editor :=
  { s.ed with insertCh := i.insertCh, mode := i.mode, message := i.message }

/-- What is seen of a command that leads to `s'`. -/
def shown (s s' : Session) (cmd : EditorCmd) : List Obs :=
  if cmd = .save ∨ cmd = .saveQuit then
    if (saveFile s.fs s.slot s.ed.filename s.ed.buf).ok then
      [.saved s.ed.buf.lines s'.stored]
    else
      []
  else if cmd = .quit ∧ s'.ed.quit then
    [.quit s'.ed.buf.lines s'.loaded s'.stored]
  else
    []

/-- One turn of the loop in `main`. -/
def step (s : Session) (i : Input) : Session × List Obs :=
  if s.ed.quit then
    (s,[])
  else
    let r := (s.read i).execute s.fs s.slot i.cmd
    let s' : Session := { s with ed := r.1, fs := r.2 }
    (s',s.shown s' i.cmd)

end Session

end Gooos.Edit
