import Gooos.Fs.EditorText

/-!
# Edits of the buffer's text

The cursor is an offset in the text, and each edit of the buffer is an edit of the text at that
offset.
-/

namespace Gooos.Edit

namespace Buffer

/-- The cursor is in the buffer. -/
structure Valid (b : Buffer) : Prop where
  cy_lt : b.cy < b.lines.length
  cx_le : b.cx ≤ b.line.length

def lineStart (b : Buffer) : ℕ := (above (b.lines.take b.cy)).length

def lineEnd (b : Buffer) : ℕ := b.lineStart+b.line.length

/-- The offset of the cursor in the text. -/
def off (b : Buffer) : ℕ := b.lineStart+b.cx

/-- A buffer by what is before and behind its cursor. -/
def cut (pre : List Line) (u v : Line) (post : List Line) (m : Bool) : Buffer :=
  ⟨pre++(u++v)::post,u.length,pre.length,m⟩

theorem Valid.shape {b : Buffer} (h : b.Valid) : ∃ pre u v post, b = cut pre u v post b.modified := by
  obtain ⟨lines,cx,cy,m⟩ := b
  have hline : lines = lines.take cy++lines.getD cy []::lines.drop (cy+1) := by
    rw [List.getD_eq_getElem _ _ h.cy_lt,List.getElem_cons_drop,List.take_append_drop]
  have hcx : cx ≤ (lines.getD cy []).length := h.cx_le
  refine ⟨lines.take cy,(lines.getD cy []).take cx,(lines.getD cy []).drop cx,lines.drop (cy+1),?_⟩
  rw [cut,List.take_append_drop,← hline,List.length_take_of_le hcx,
    List.length_take_of_le h.cy_lt.le]

section Cut

variable (pre post : List Line) (u v l : Line) (ch : UInt8) (m : Bool)

@[simp]
theorem cx_cut : (cut pre u v post m).cx = u.length := rfl

@[simp]
theorem cy_cut : (cut pre u v post m).cy = pre.length := rfl

@[simp]
theorem line_cut : (cut pre u v post m).line = u++v := by simp [cut,line]

@[simp]
theorem text_cut : text (cut pre u v post m).lines = above pre++(u++(v++below post)) := by
  rw [cut,text_append,text_cons,List.append_assoc]

@[simp]
theorem lineStart_cut : (cut pre u v post m).lineStart = (above pre).length := by
  simp [cut,lineStart]

@[simp]
theorem lineEnd_cut : (cut pre u v post m).lineEnd = (above pre).length+(u.length+v.length) := by
  rw [lineEnd,lineStart_cut,line_cut,List.length_append]

@[simp]
theorem off_cut : (cut pre u v post m).off = (above pre).length+u.length := by
  rw [off,lineStart_cut]
  rfl

/-! ### What each edit makes of it -/

@[simp]
theorem insertChar_cut : (cut pre u v post m).insertChar ch = cut pre (u++[ch]) v post true := by
  rw [insertChar,line_cut]
  simp [cut]

@[simp]
theorem insertNewline_cut : (cut pre u v post m).insertNewline = cut (pre++[u]) [] v post true := by
  rw [insertNewline,line_cut]
  simp [cut,List.drop_append]

@[simp]
theorem deleteBackward_cut : (cut pre (u++[ch]) v post m).deleteBackward = cut pre u v post true := by
  rw [deleteBackward,line_cut]
  simp [cut]

@[simp]
theorem deleteBackward_join :
    (cut (pre++[l]) [] v post m).deleteBackward = cut pre l v post true := by
  rw [deleteBackward,line_cut]
  simp [cut,List.eraseIdx_append]

@[simp]
theorem deleteForward_cut : (cut pre u (ch::v) post m).deleteForward = cut pre u v post true := by
  rw [deleteForward,line_cut]
  simp [cut]

@[simp]
theorem deleteForward_join :
    (cut pre u [] (l::post) m).deleteForward = cut pre u l post true := by
  rw [deleteForward,line_cut]
  simp [cut,List.eraseIdx_append]

@[simp]
theorem deleteForward_end : (cut pre u [] [] m).deleteForward = cut pre u [] [] m := by
  rw [deleteForward,line_cut]
  simp [cut]

@[simp]
theorem openLineBelow_cut :
    (cut pre u v post m).openLineBelow = cut (pre++[u++v]) [] [] post true := by
  simp [openLineBelow,cut,List.take_append,List.drop_append,List.take_of_length_le]

@[simp]
theorem openLineAbove_cut :
    (cut pre u v post m).openLineAbove = cut pre [] [] ((u++v)::post) true := by
  simp [openLineAbove,cut]

theorem clampCX_lines (b : Buffer) : b.clampCX.lines = b.lines := by
  rw [clampCX]
  split <;> rfl

theorem deleteLine_lines : (cut pre u v post m).deleteLine.lines =
    if pre++post = [] then [[]] else pre++post := by
  have herase : (pre++(u++v)::post).eraseIdx pre.length = pre++post := by
    simp [List.eraseIdx_append]
  have hlen : (cut pre u v post m).lines.length = 1 ↔ pre++post = [] := by
    rw [cut,List.length_append,List.length_cons,← List.length_eq_zero_iff,List.length_append]
    omega
  rw [deleteLine]
  by_cases h : pre++post = []
  · rw [if_pos (hlen.mpr h),if_pos h]
  · rw [if_neg (mt hlen.mp h),if_neg h]
    exact (clampCX_lines _).trans herase

end Cut

/-! ### Edits of the text -/

/-- The text of `b'` is that of `b` with `ch` put in at `n`. -/
def Inserts (b : Buffer) (n : ℕ) (ch : UInt8) (b' : Buffer) : Prop :=
  text b'.lines = (text b.lines).take n++ch::(text b.lines).drop n

/-- The text of `b'` is that of `b` without the bytes from `n` up to `k`. -/
def Removes (b : Buffer) (n k : ℕ) (b' : Buffer) : Prop :=
  text b'.lines = (text b.lines).take n++(text b.lines).drop k

/-- Text and cursor are the same. -/
def Alike (b b' : Buffer) : Prop := text b'.lines = text b.lines ∧ b'.cx = b.cx ∧ b'.cy = b.cy

section Edits

variable (pre post : List Line) (u v : Line) (m : Bool)

theorem deleteBackward_refines : let b := cut pre u v post m
    if b.off = 0 then b.deleteBackward = b
      else b.Removes (b.off-1) b.off b.deleteBackward ∧ b.deleteBackward.off = b.off-1 := by
  obtain rfl | ⟨u,ch,rfl⟩ := List.eq_nil_or_concat' u
  · obtain rfl | ⟨pre,l,rfl⟩ := List.eq_nil_or_concat' pre
    · rfl
    · -- at the start of a line: the newline before it goes
      simp [Removes,List.take_length_add_append]
  · simp [Removes,List.take_length_add_append]

theorem deleteForward_refines : let b := cut pre u v post m
    if b.off = (text b.lines).length then b.deleteForward = b
      else b.Removes b.off (b.off+1) b.deleteForward ∧ b.deleteForward.off = b.off := by
  cases v with
  | cons ch v => simp [Removes,List.take_length_add_append,Nat.add_assoc]
  | nil =>
    cases post with
    | nil => simp
    | cons l post => simp [Removes,List.take_length_add_append,Nat.add_assoc]

theorem deleteLine_refines : let b := cut pre u v post m
    if b.cy+1 < b.lines.length then b.Removes b.lineStart (b.lineEnd+1) b.deleteLine
      else b.Removes (b.lineStart-1) b.lineEnd b.deleteLine := by
  intro b
  have hlines := deleteLine_lines pre post u v m
  cases post with
  | cons l post =>
    rw [if_pos (by simp [b,cut])]
    rw [if_neg (by simp)] at hlines
    simp [b,Removes,hlines,text_append,text_cons,Nat.add_assoc]
  | nil =>
    rw [if_neg (by simp [b,cut])]
    obtain rfl | ⟨pre,l,rfl⟩ := List.eq_nil_or_concat' pre
    · simp [b,Removes,hlines,text_cons]
    · -- the last line goes with the newline before it
      rw [if_neg (by simp),List.append_nil] at hlines
      simp [b,Removes,hlines,text_append,text_cons,List.take_length_add_append,Nat.add_assoc]
      omega

end Edits

end Buffer

/-- The edits at the cursor of a valid buffer are the edits of its text at the cursor's offset, and
deleting backward takes an insertion back. -/
theorem edits_refine_text (b : Buffer) (h : b.Valid) :
    (∀ ch, b.Inserts b.off ch (b.insertChar ch) ∧ (b.insertChar ch).off = b.off+1 ∧
      b.Alike (b.insertChar ch).deleteBackward) ∧
    (b.Inserts b.off newline b.insertNewline ∧ b.insertNewline.off = b.off+1 ∧
      b.Alike b.insertNewline.deleteBackward) ∧
    (if b.off = 0 then b.deleteBackward = b
      else b.Removes (b.off-1) b.off b.deleteBackward ∧ b.deleteBackward.off = b.off-1) ∧
    (if b.off = (text b.lines).length then b.deleteForward = b
      else b.Removes b.off (b.off+1) b.deleteForward ∧ b.deleteForward.off = b.off) ∧
    (b.Inserts b.lineEnd newline b.openLineBelow ∧ b.openLineBelow.off = b.lineEnd+1 ∧
      b.openLineBelow.cy = b.cy+1 ∧ b.openLineBelow.line = []) ∧
    (b.Inserts b.lineStart newline b.openLineAbove ∧ b.openLineAbove.off = b.lineStart ∧
      b.openLineAbove.cy = b.cy ∧ b.openLineAbove.line = []) ∧
    (if b.cy+1 < b.lines.length then b.Removes b.lineStart (b.lineEnd+1) b.deleteLine
      else b.Removes (b.lineStart-1) b.lineEnd b.deleteLine) := by
  obtain ⟨pre,u,v,post,hb⟩ := h.shape
  generalize b.modified = m at hb
  subst hb
  refine ⟨fun ch => ?_,?_,Buffer.deleteBackward_refines ..,Buffer.deleteForward_refines ..,?_,?_,
    Buffer.deleteLine_refines ..⟩
  · simp [Buffer.Inserts,Buffer.Alike,List.take_length_add_append,Nat.add_assoc]
  · simp [Buffer.Inserts,Buffer.Alike,List.take_length_add_append,Nat.add_assoc]
  · simp [Buffer.Inserts,List.take_length_add_append,Nat.add_assoc]
  · simp [Buffer.Inserts]

theorem edits_refine_text_joined :
    let b : Buffer := ⟨[[97],[98]],0,1,false⟩
    b.Removes 1 2 b.deleteBackward ∧ b.deleteBackward.off = 1 :=
  (edits_refine_text ⟨[[97],[98]],0,1,false⟩ ⟨by decide,by decide⟩).2.2.1

end Gooos.Edit
