import Mathlib
import Gooos.User.Pointers

/-!
# Handlers that use a pointer as it comes

The handlers of `userspace.go` and `ps.go`: their loops stay within the ranges the call
names, and nothing else keeps those inside the user window.
-/

namespace Gooos.User

open Span
open List (length_cons mem_append mem_cons_self mem_singleton_self)
open Option (ne_none_iff_exists')

variable {f : Frame} {env : CallEnv}

/-- The chunk loop reads within the `length` bytes of the buffer. -/
theorem writeLoop_covered (desc : FileDesc) (buf : UInt64) (length k written : ℕ) {x : Access}
    (hx : x ∈ (writeLoop env desc buf length k written).touched) : x.addr ∈ addrs buf length := by
  -- one chunk starts `written` bytes in and ends before `length`
  have hchunk (w : ℕ) (hw : w < length)
      (h : x ∈ copyIn (buf+UInt64.ofNat w) (min (length-w) 256)) : x.addr ∈ addrs buf length :=
    addrs_sub (by omega) (addr_mem_copyIn h)
  fun_induction writeLoop env desc buf length k written with
  | case1 k written hw chunk src r hok hshort => exact hchunk written hw hx
  | case2 k written hw chunk src r hok hfull ih =>
    obtain hx | hx := mem_append.mp hx
    · exact hchunk written hw hx
    · exact ih hx
  | case3 k hw chunk src r hok => exact hchunk 0 hw hx
  | case4 k written hw chunk src r hok hz => exact hchunk written hw hx
  | case5 k written hw => cases hx

theorem writeLoop_touches (desc : FileDesc) (buf : UInt64) {length : ℕ} (h : 0 < length) :
    (writeLoop env desc buf length 0 0).touched ≠ [] := by
  have hread (as : List Access) : copyIn (buf+UInt64.ofNat 0) (min (length-0) 256)++as ≠ [] := by
    intro hnil
    have := copyIn_eq_nil.mp (List.append_eq_nil_iff.mp hnil).1
    omega
  rw [writeLoop]
  dsimp only
  split_ifs
  · simpa using hread []
  · exact hread _
  · simpa using hread []
  · exact absurd rfl ‹¬0 = 0›

theorem write_spec : HandlerSpec f env .write := by
  refine .unchecked (c := sysWriteHandler f env) rfl rfl ?_ ?_ ?_
  · intro x hx
    refine ⟨_,mem_singleton_self _,?_⟩
    simp only [sysWriteHandler] at hx
    split at hx
    · cases hx
    · exact writeLoop_covered _ _ _ _ _ hx
  · intro h
    simp only [refused] at h
    simp only [sysWriteHandler,h]
    exact ret_fails
  · rintro hr ⟨r,hm,hbad⟩ hnil
    obtain rfl := List.mem_singleton.mp hm
    obtain ⟨d,hd⟩ := ne_none_iff_exists'.mp hr
    simp only [sysWriteHandler,hd] at hnil
    exact absurd hnil (writeLoop_touches d f.rsi (pos_of_not_inRange hbad))

theorem read_spec : HandlerSpec f env .read := by
  refine .unchecked (c := sysReadHandler f env) rfl rfl ?_ ?_ ?_
  · intro x hx
    refine ⟨_,mem_singleton_self _,?_⟩
    simp only [sysReadHandler] at hx
    split at hx
    · cases hx
    · rename_i d hd
      split_ifs at hx
      · cases hx
      · exact addrs_mono (d.read_le _) (addr_mem_copyOut hx)
  · intro h
    simp only [sysReadHandler]
    split
    · exact ret_fails
    · rename_i d hd
      rw [if_pos (h d hd)]
      exact ⟨rfl,failed_sysFail (h d hd).1⟩
  · intro hr hbad hnil
    simp only [refused,not_forall] at hr
    obtain ⟨d,hd,herr⟩ := hr
    simp only [sysReadHandler,hd,if_neg herr]
    refine not_failed_ofNat ?_
    have hread := d.read_le (textLen f.rdx).toNat
    have hlen := textLen_le f.rdx
    omega

/-- The two strings of an exec or a spawn are read if one of them is out of range. -/
theorem textAccesses_touch (h : ∃ r ∈ [(f.rdi,textLen f.rsi),(f.rdx,textLen f.r10)],
    userBufInRange r.1 r.2 = false) : textAccesses f ≠ [] := by
  obtain ⟨r,hm,hbad⟩ := h
  have hpos := pos_of_not_inRange hbad
  intro hnil
  obtain ⟨hpath,hargs⟩ := List.append_eq_nil_iff.mp hnil
  rw [copyIn_eq_nil] at hpath hargs
  simp only [List.mem_cons,List.not_mem_nil,or_false] at hm
  obtain rfl | rfl := hm
  · exact absurd hpath hpos.ne'
  · exact absurd hargs hpos.ne'

theorem textAccesses_covered {x : Access} (hx : x ∈ textAccesses f) :
    ∃ r ∈ [(f.rdi,textLen f.rsi),(f.rdx,textLen f.r10)], x.addr ∈ addrs r.1 r.2.toNat := by
  obtain hx | hx := mem_append.mp hx
  · exact ⟨_,mem_cons_self,addr_mem_copyIn hx⟩
  · exact ⟨_,List.mem_cons_of_mem _ mem_cons_self,addr_mem_copyIn hx⟩

theorem exec_spec : HandlerSpec f env .exec := by
  refine .unchecked (c := sysExecHandler f env) rfl rfl ?_ ?_ ?_
  · intro x hx
    simp only [sysExecHandler] at hx
    split at hx
    · cases hx
    · exact textAccesses_covered hx
  · intro h
    simp only [refused] at h
    simp only [sysExecHandler,h]
    exact ⟨rfl,failed_minusOne⟩
  · intro hr hbad hnil
    obtain ⟨p,hp⟩ := ne_none_iff_exists'.mp hr
    simp only [sysExecHandler,hp] at hnil
    exact absurd hnil (textAccesses_touch hbad)

theorem spawn_spec : HandlerSpec f env .spawn := by
  refine .unchecked (c := sysSpawnHandler f env) rfl rfl ?_ ?_ ?_
  · intro x hx
    simp only [sysSpawnHandler] at hx
    split at hx
    · cases hx
    · exact textAccesses_covered hx
  · intro h
    simp only [refused] at h
    simp only [sysSpawnHandler,h]
    exact ret_fails
  · intro hr hbad hnil
    obtain ⟨p,hp⟩ := ne_none_iff_exists'.mp hr
    simp only [sysSpawnHandler,hp] at hnil
    exact absurd hnil (textAccesses_touch hbad)

theorem open_spec : HandlerSpec f env .open := by
  -- whatever becomes of the file, the path is all that is read
  have htouch (p : Proc) (hp : env.currentProc = some p) :
      (sysOpenHandler f env).touched = copyIn f.rdi (textLen f.rsi).toNat := by
    simp only [sysOpenHandler,hp]
    split
    · rfl
    · split <;> rfl
  refine .unchecked (c := sysOpenHandler f env) rfl rfl ?_ ?_ ?_
  · intro x hx
    refine ⟨_,mem_singleton_self _,?_⟩
    cases hp : env.currentProc with
    | none =>
      simp only [sysOpenHandler,hp] at hx
      cases hx
    | some p =>
      rw [htouch p hp] at hx
      exact addr_mem_copyIn hx
  · intro h
    simp only [refused] at h
    simp only [sysOpenHandler,h]
    exact ret_fails
  · rintro hr ⟨r,hm,hbad⟩ hnil
    obtain rfl := List.mem_singleton.mp hm
    obtain ⟨p,hp⟩ := ne_none_iff_exists'.mp hr
    rw [htouch p hp,copyIn_eq_nil] at hnil
    exact absurd hnil (pos_of_not_inRange hbad).ne'

theorem fsRead_spec : HandlerSpec f env .fsRead := by
  refine .unchecked (c := sysFsReadHandler f env) rfl rfl ?_ ?_ ?_
  · intro x hx
    simp only [sysFsReadHandler] at hx
    split at hx
    · exact ⟨_,mem_cons_self,addr_mem_copyIn hx⟩
    · obtain hx | hx := mem_append.mp hx
      · exact ⟨_,mem_cons_self,addr_mem_copyIn hx⟩
      · refine ⟨_,List.mem_cons_of_mem _ mem_cons_self,?_⟩
        exact addr_mem_copyOut_take hx (min_le_right _ _)
  · rintro ⟨hlen,hfile⟩
    have hz : (textLen f.rsi).toNat = 0 := by rw [hlen]; rfl
    simp only [sysFsReadHandler,hz]
    rw [show env.fetch f.rdi 0 = [] from rfl,hfile]
    exact ⟨rfl,failed_minusOne⟩
  · intro hr hbad hnil
    by_cases hlen : f.rsi = 0
    · -- the empty name was found, so the call succeeds whatever the output pointer is
      have hz : (textLen f.rsi).toNat = 0 := by rw [hlen]; rfl
      have hfile : env.fsSendRead [] ≠ none := fun h => hr ⟨hlen,h⟩
      obtain ⟨data,hdata⟩ := ne_none_iff_exists'.mp hfile
      simp only [sysFsReadHandler,hz]
      rw [show env.fetch f.rdi 0 = [] from rfl,hdata]
      refine not_failed_ofNat ?_
      have hsize : data.1.length ≤ 262144 := data.2
      omega
    · have hpos := textLen_pos hlen
      simp only [sysFsReadHandler] at hnil
      split at hnil
      · exact absurd (copyIn_eq_nil.mp hnil) hpos.ne'
      · exact absurd (copyIn_eq_nil.mp (List.append_eq_nil_iff.mp hnil).1) hpos.ne'

theorem fsWrite_spec : HandlerSpec f env .fsWrite := by
  refine .unchecked (c := sysFsWriteHandler f env) rfl rfl ?_ ?_ ?_
  · intro x hx
    simp only [sysFsWriteHandler] at hx
    split at hx
    · exact ⟨_,mem_cons_self,addr_mem_copyIn hx⟩
    · obtain hx | hx := mem_append.mp hx
      · exact ⟨_,mem_cons_self,addr_mem_copyIn hx⟩
      · exact ⟨_,List.mem_cons_of_mem _ mem_cons_self,addr_mem_copyIn hx⟩
  · rintro ⟨hlen,hbig⟩
    simp only [sysFsWriteHandler,if_pos hbig]
    rw [hlen]
    exact ⟨rfl,failed_minusOne⟩
  · rintro hr ⟨r,hm,hbad⟩ hnil
    exfalso
    have hpos := pos_of_not_inRange hbad
    simp only [sysFsWriteHandler] at hnil
    split at hnil
    · -- the path has been read before the size is looked at
      rename_i hbig
      have hlen : f.rsi ≠ 0 := fun h => hr ⟨h,hbig⟩
      exact absurd (copyIn_eq_nil.mp hnil) (textLen_pos hlen).ne'
    · obtain ⟨hpath,hdata⟩ := List.append_eq_nil_iff.mp hnil
      rw [copyIn_eq_nil] at hpath hdata
      simp only [pointerArgs,List.mem_cons,List.not_mem_nil,or_false] at hm
      obtain rfl | rfl := hm
      · exact absurd hpath hpos.ne'
      · exact absurd hdata hpos.ne'

/-- The name loop writes within the buffer, and counts what it wrote. -/
theorem listLoop_covered (buf maxLen : UInt64) (names : List (List UInt8)) (written : ℕ)
    {x : Access} (hx : x ∈ (listLoop buf maxLen written names).1) :
    x.addr ∈ addrs buf maxLen.toNat := by
  induction names generalizing written with
  | nil => cases hx
  | cons name names ih =>
    simp only [listLoop] at hx
    split at hx
    · cases hx
    · obtain hx | hx := mem_append.mp hx
      · have hname := addr_mem_copyOut hx
        rw [List.length_append,List.length_singleton] at hname
        exact addrs_sub (by omega) hname
      · exact ih _ hx

theorem listLoop_total (buf maxLen : UInt64) (names : List (List UInt8)) (written : ℕ)
    (hshort : ∀ n ∈ names, n.length ≤ 256) :
    (listLoop buf maxLen written names).2 ≤ written+257*names.length := by
  induction names generalizing written with
  | nil => simp [listLoop]
  | cons name names ih =>
    simp only [listLoop]
    split
    · omega
    · have hrest := ih (written+(name.length+1)) (fun n hn => hshort n (List.mem_cons_of_mem _ hn))
      have hname := hshort name mem_cons_self
      rw [length_cons]
      omega

theorem fsList_spec : HandlerSpec f env .fsList := by
  refine .unchecked (c := sysFsListHandler f env) rfl rfl ?_ ?_ ?_
  · intro x hx
    exact ⟨_,mem_singleton_self _,listLoop_covered _ _ _ _ hx⟩
  · intro h
    cases h
  · intro hr hbad hnil
    refine not_failed_ofNat ?_
    have htotal := listLoop_total f.rdi f.rsi env.fsSendList.names 0 env.fsSendList.short
    have hcount : env.fsSendList.names.length ≤ 32 := env.fsSendList.count_le
    omega

theorem getargs_spec : HandlerSpec f env .getargs := by
  refine .unchecked (c := sysGetargsHandler f env) rfl rfl ?_ ?_ ?_
  · intro x hx
    refine ⟨_,mem_singleton_self _,?_⟩
    simp only [sysGetargsHandler] at hx
    split at hx
    · cases hx
    · exact addr_mem_copyOut_take hx (min_le_right _ _)
  · intro h
    cases h
  · intro hr hbad hnil
    simp only [sysGetargsHandler]
    split
    · rintro ⟨v,hv,-⟩
      cases hv
    · rename_i p hp
      refine not_failed_ofNat ?_
      have hargs := p.args_le
      omega

theorem pipe_spec : HandlerSpec f env .pipe := by
  refine .unchecked (c := sysPipeHandler f env) rfl rfl ?_ ?_ ?_
  · intro x hx
    refine ⟨_,mem_singleton_self _,?_⟩
    simp only [sysPipeHandler] at hx
    split at hx
    · cases hx
    · split at hx
      · cases hx
      · split at hx
        · cases hx
        · exact addr_mem_copyOut hx
  · intro h
    simp only [sysPipeHandler]
    split
    · exact ret_fails
    · rename_i p hp
      split
      · exact ret_fails
      · rename_i q fd p1 hq
        rw [h p hp (fd,p1) hq]
        exact ret_fails
  · intro hr hbad hnil
    simp only [refused,not_forall] at hr
    obtain ⟨p,hp,q,hq,hw⟩ := hr
    obtain ⟨w,hw⟩ := ne_none_iff_exists'.mp hw
    simp only [sysPipeHandler,hp,hq,hw]
    exact not_failed_ofNat (n := 0) (by decide)

theorem readKey_spec : HandlerSpec f env .readKey := by
  refine .unchecked (c := sysReadKeyHandler f env) rfl rfl ?_ ?_ ?_
  · intro x hx
    refine ⟨_,mem_singleton_self _,?_⟩
    simp only [sysReadKeyHandler] at hx
    split at hx
    · cases hx
    · exact addr_mem_copyOut hx
  · intro h
    have hno : env.currentProc.isNone ∨ ¬env.foreground := by
      obtain h | h := h
      · exact .inl (by rw [h]; rfl)
      · exact .inr (by rw [h]; decide)
    simp only [sysReadKeyHandler,if_pos hno]
    exact ⟨rfl,failed_minusOne⟩
  · intro hr hbad hnil
    have hyes : ¬(env.currentProc.isNone ∨ ¬env.foreground) := by
      simpa [refused] using hr
    simp only [sysReadKeyHandler,if_neg hyes]
    exact not_failed_ofNat (n := 0) (by decide)

theorem waitpid_spec : HandlerSpec f env .waitpid := by
  refine .unchecked (c := sysWaitpidHandler f env) rfl rfl ?_ ?_ ?_
  · intro x hx
    simp only [sysWaitpidHandler] at hx
    split at hx
    · cases hx
    · cases hx
    · split at hx
      · cases hx
      · by_cases hz : f.rdx = 0
        · rw [if_neg (not_not_intro hz)] at hx
          cases hx
        · rw [if_pos hz] at hx
          refine ⟨(f.rdx,4),?_,copyOutWhile_addrs _ _ _ (List.mem_map_of_mem hx)⟩
          simp only [pointerArgs,if_neg hz]
          exact mem_singleton_self _
  · intro h
    simp only [sysWaitpidHandler]
    obtain h | h := h
    · simp only [h]
      exact ret_fails
    · rw [h]
      split
      · exact ret_fails
      · exact ret_fails
      · rename_i hc
        cases hc
  · intro hr hbad hnil
    simp only [refused,not_or] at hr
    obtain ⟨p,hp⟩ := ne_none_iff_exists'.mp hr.1
    obtain ⟨c,hc⟩ := ne_none_iff_exists'.mp hr.2
    simp only [sysWaitpidHandler,hp,hc]
    split
    · exact not_failed_ofNat (n := 0) (by decide)
    · rintro ⟨v,hv,hneg⟩
      obtain rfl := Option.some.inj hv
      have hpid := f.rdi.toUInt32.toNat_lt
      rw [UInt32.toNat_toUInt64] at hneg
      omega

/-- The entry loop writes within the entries it is given, and counts no more of them. -/
theorem procInfoLoop_covered (buf : UInt64) (infos : List (Vector UInt8 64)) (i : ℕ)
    {x : Access} (hx : x ∈ (procInfoLoop env buf i infos).1) :
    x.addr ∈ addrs buf (64*(i+infos.length)) := by
  induction infos generalizing i with
  | nil => cases hx
  | cons info infos ih =>
    have hone (h : x ∈ (copyOutWhile env.mapped (buf+UInt64.ofNat (64*i)) info.toList).1) :
        x.addr ∈ addrs buf (64*(i+(info::infos).length)) := by
      have hinfo := copyOutWhile_addrs _ _ _ (List.mem_map_of_mem h)
      rw [Vector.length_toList] at hinfo
      exact addrs_sub (by rw [length_cons]; omega) hinfo
    simp only [procInfoLoop] at hx
    split at hx
    · obtain hx | hx := mem_append.mp hx
      · exact hone hx
      · have hrest := ih _ hx
        rwa [show i+1+infos.length = i+(info::infos).length by rw [length_cons]; omega]
          at hrest
    · exact hone hx

theorem procInfoLoop_count (env : CallEnv) (buf : UInt64) (infos : List (Vector UInt8 64)) (i : ℕ) :
    (procInfoLoop env buf i infos).2 ≤ i+infos.length := by
  induction infos generalizing i with
  | nil => exact Nat.le_refl _
  | cons info infos ih =>
    simp only [procInfoLoop]
    rw [length_cons]
    split
    · have hrest := ih (i+1)
      omega
    · omega

theorem listprocs_spec : HandlerSpec f env .listprocs := by
  have hmax : procInfoMax f.rsi ≤ 32 := min_le_right _ _
  have htake : (env.procs.take (procInfoMax f.rsi)).length ≤ procInfoMax f.rsi :=
    List.length_take_le _ _
  refine .unchecked (c := sysListprocsHandler f env) rfl rfl ?_ ?_ ?_
  · intro x hx
    refine ⟨_,mem_singleton_self _,?_⟩
    simp only [sysListprocsHandler] at hx
    split at hx
    · cases hx
    · refine addrs_mono ?_ (procInfoLoop_covered _ _ _ hx)
      rw [UInt64.toNat_ofNat']
      omega
  · intro h
    have hno : env.currentProc.isNone ∨ f.rdi = 0 ∨ f.rsi.toUInt32 = 0 := by
      simpa [refused] using h
    simp only [sysListprocsHandler,if_pos hno]
    exact ret_fails
  · intro hr hbad hnil
    have hyes : ¬(env.currentProc.isNone ∨ f.rdi = 0 ∨ f.rsi.toUInt32 = 0) := by
      simpa [refused] using hr
    simp only [sysListprocsHandler,if_neg hyes]
    refine not_failed_ofNat ?_
    have hcount := procInfoLoop_count env f.rdi (env.procs.take (procInfoMax f.rsi)) 0
    omega

end Gooos.User
