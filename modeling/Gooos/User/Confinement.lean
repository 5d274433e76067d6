import Mathlib
import Gooos.User.Unchecked

/-!
# Confinement of user pointers

The handlers of `netsock.go`, which compare their pointers with the user window, and
from all handlers together the calls that keep to it.
-/

namespace Gooos.User

open Span
open List (mem_singleton)

variable {f : Frame} {env : CallEnv}

/-! ## The handlers that check -/

theorem sendDatagram_covered {x : Access} (hx : x ∈ (sendDatagram f env).touched) :
    x.addr ∈ addrs f.rsi f.rdx.toNat := by
  simp only [sendDatagram] at hx
  split at hx
  · cases hx
  · split at hx
    · cases hx
    · split at hx
      · cases hx
      · exact addr_mem_copyIn hx

theorem sendDatagram_checks (hbad : userBufInRange f.rsi f.rdx = false) :
    (sendDatagram f env).touched = [] ∧ (sendDatagram f env).failed := by
  simp only [sendDatagram,hbad,Bool.not_false,if_true]
  split
  · exact ret_fails
  · exact ret_fails

theorem sendto_spec : HandlerSpec f env .sendto := by
  refine .checked (c := sysSendtoHandler f env) rfl rfl id ?_ ?_
  · exact fun x hx => ⟨_,List.mem_singleton_self _,sendDatagram_covered hx⟩
  · rintro ⟨r,hm,hbad⟩
    obtain rfl := mem_singleton.mp hm
    exact sendDatagram_checks hbad

theorem sendtoBcast_spec : HandlerSpec f env .sendtoBcast := by
  refine .checked (c := sysSendtoBcastHandler f env) rfl rfl id ?_ ?_
  · exact fun x hx => ⟨_,List.mem_singleton_self _,sendDatagram_covered hx⟩
  · rintro ⟨r,hm,hbad⟩
    obtain rfl := mem_singleton.mp hm
    exact sendDatagram_checks hbad

theorem infoAccesses_covered {p : UInt64} {ip : UInt32} {port : UInt16} {x : Access}
    (hx : x ∈ infoAccesses p ip port) : p ≠ 0 ∧ x.addr ∈ addrs p 8 := by
  rw [infoAccesses] at hx
  split at hx
  · rename_i hp
    exact ⟨hp,addr_mem_copyOut hx⟩
  · cases hx

theorem recvfrom_spec : HandlerSpec f env .recvfrom := by
  refine .checked (c := sysRecvfromHandler f env) rfl rfl id ?_ ?_
  · intro x hx
    simp only [sysRecvfromHandler] at hx
    split at hx
    · cases hx
    · split at hx
      · cases hx
      · rename_i hbuf
        split at hx
        · cases hx
        · split at hx
          · cases hx
          · obtain hx | hx := List.mem_append.mp hx
            · refine ⟨_,List.mem_cons_self,addr_mem_copyOut_take hx ?_⟩
              -- the signed length is not negative, so it is the register's value
              have hpos : ¬asInt f.rdx < 0 := fun h => hbuf (.inl h)
              have hval : (asInt f.rdx).toNat ≤ f.rdx.toNat := by
                simp only [asInt,BitVec.toInt_eq_toNat_cond] at hpos ⊢
                simp only [UInt64.toNat_toBitVec] at hpos ⊢
                split at hpos <;> omega
              exact (min_le_right _ _).trans hval
            · obtain ⟨hp,hx⟩ := infoAccesses_covered hx
              refine ⟨(f.r10,8),?_,hx⟩
              simp only [pointerArgs,if_neg hp]
              exact List.mem_cons_of_mem _ (List.mem_singleton_self _)
  · rintro ⟨r,hm,hbad⟩
    simp only [sysRecvfromHandler]
    split
    · exact ret_fails
    · simp only [pointerArgs,List.mem_cons] at hm
      obtain rfl | hm := hm
      · rw [if_pos (.inr (by simpa using hbad))]
        exact ret_fails
      · split_ifs at hm with hz
        · cases hm
        obtain rfl := mem_singleton.mp hm
        split
        · exact ret_fails
        · rw [if_pos ⟨hz,by simpa using hbad⟩]
          exact ret_fails

theorem netConfig_spec : HandlerSpec f env .netConfig := by
  refine .checked (c := sysNetConfigHandler f env) rfl rfl id ?_ ?_
  · intro x hx
    simp only [sysNetConfigHandler] at hx
    split at hx
    · cases hx
    · split at hx
      · rename_i hop
        split at hx
        · cases hx
        · refine ⟨(f.rsi,6),by simp only [pointerArgs,if_pos hop,mem_singleton],?_⟩
          have hmac := addr_mem_copyOut hx
          rwa [Vector.length_toList] at hmac
      · cases hx
  · rintro ⟨r,hm,hbad⟩
    simp only [pointerArgs] at hm
    split at hm
    · rename_i hop
      obtain rfl := mem_singleton.mp hm
      simp only [sysNetConfigHandler,if_pos hop]
      split
      · exact ret_fails
      · rw [if_pos (by simpa using hbad)]
        exact ret_fails
    · cases hm

theorem accept_spec : HandlerSpec f env .accept := by
  refine .checked (c := sysAcceptHandler f env) rfl rfl id ?_ ?_
  · intro x hx
    simp only [sysAcceptHandler] at hx
    split at hx
    · split at hx
      · cases hx
      · split at hx
        · cases hx
        · split at hx
          · cases hx
          · obtain ⟨hp,hx⟩ := infoAccesses_covered hx
            exact ⟨(f.rsi,8),by simp only [pointerArgs,if_neg hp,mem_singleton],hx⟩
    · cases hx
  · rintro ⟨r,hm,hbad⟩
    simp only [pointerArgs] at hm
    split at hm
    · cases hm
    · rename_i hz
      obtain rfl := mem_singleton.mp hm
      simp only [sysAcceptHandler]
      split
      · rw [if_pos ⟨hz,by simpa using hbad⟩]
        exact ret_fails
      · exact ret_fails

theorem toUInt32_le (r : UInt64) : r.toUInt32.toNat ≤ r.toNat := by
  exact Nat.mod_le _ _

theorem tcpSend_spec : HandlerSpec f env .tcpSend := by
  refine .checked (c := sysTcpSendHandler f env) rfl rfl id ?_ ?_
  · intro x hx
    refine ⟨_,List.mem_singleton_self _,?_⟩
    simp only [sysTcpSendHandler] at hx
    split at hx
    · cases hx
    · split_ifs at hx
      · cases hx
      · cases hx
      · split at hx
        · cases hx
        · split_ifs at hx
          · cases hx
          · refine addrs_mono ?_ (addr_mem_copyIn hx)
            exact (min_le_left _ _).trans (toUInt32_le f.rdx)
  · rintro ⟨r,hm,hbad⟩
    obtain rfl := mem_singleton.mp hm
    have hlen : f.rdx ≠ 0 := ne_zero_of_not_inRange hbad
    simp only [sysTcpSendHandler,if_neg hlen]
    split
    · exact ret_fails
    · rw [if_pos (by simpa using hbad)]
      exact ret_fails

theorem tcpRecv_spec : HandlerSpec f env .tcpRecv := by
  refine .checked (c := sysTcpRecvHandler f env) rfl rfl id ?_ ?_
  · intro x hx
    refine ⟨_,List.mem_singleton_self _,?_⟩
    simp only [sysTcpRecvHandler] at hx
    split at hx
    · cases hx
    · split_ifs at hx
      · cases hx
      · cases hx
      · split at hx
        · cases hx
        · split at hx
          · cases hx
          · cases hx
          · cases hx
          · refine addr_mem_copyOut_take hx ?_
            exact ((min_le_left _ _).trans (min_le_right _ _)).trans (toUInt32_le f.rdx)
  · rintro ⟨r,hm,hbad⟩
    obtain rfl := mem_singleton.mp hm
    have hlen : f.rdx ≠ 0 := ne_zero_of_not_inRange hbad
    simp only [sysTcpRecvHandler,if_neg hlen]
    split
    · exact ret_fails
    · rw [if_pos (by simpa using hbad)]
      exact ret_fails

/-- A handler without pointer arguments. -/
theorem plain_spec {s : Sysno} (hp : pointerArgs f s = []) (hr : ¬refused f env s)
    (ht : (handler s f env).touched = []) : HandlerSpec f env s where
  covered := by
    intro x hx
    rw [ht] at hx
    cases hx
  refuses := fun h => absurd h hr
  checks := by
    rintro - ⟨r,hm,-⟩
    rw [hp] at hm
    cases hm
  goesOn := by
    rintro - - ⟨r,hm,-⟩
    rw [hp] at hm
    cases hm

theorem handler_spec (s : Sysno) : HandlerSpec f env s := by
  cases s with
  | write => exact write_spec
  | read => exact read_spec
  | exec => exact exec_spec
  | fsRead => exact fsRead_spec
  | fsWrite => exact fsWrite_spec
  | fsList => exact fsList_spec
  | getargs => exact getargs_spec
  | «open» => exact open_spec
  | spawn => exact spawn_spec
  | pipe => exact pipe_spec
  | readKey => exact readKey_spec
  | sendto => exact sendto_spec
  | recvfrom => exact recvfrom_spec
  | netConfig => exact netConfig_spec
  | sendtoBcast => exact sendtoBcast_spec
  | accept => exact accept_spec
  | tcpSend => exact tcpSend_spec
  | tcpRecv => exact tcpRecv_spec
  | waitpid => exact waitpid_spec
  | listprocs => exact listprocs_spec
  | _ => exact plain_spec rfl id rfl

/-! ## Every call -/

/-- A range is outside the window exactly if the check says so. -/
theorem badRange_iff {s : Sysno} : BadRange f s ↔
    ∃ r ∈ pointerArgs f s, ∃ a ∈ addrs r.1 r.2.toNat, ¬InWindow a := by
  refine exists_congr fun r => and_congr_right fun _ => ?_
  rw [← Bool.not_eq_true,userBufInRange_iff]
  push Not
  rfl

theorem confined_handler (s : Sysno) (hs : Sysno.all[f.rax.toNat]? = some s) :
    Confined f env ↔
      s.checksRange ∨ refused f env s ∨ ∀ r ∈ pointerArgs f s, userBufInRange r.1 r.2 := by
  have hspec : HandlerSpec f env s := handler_spec s
  have hcall : syscallDispatch f env = handler s f env := by rw [syscallDispatch,hs]
  have hptrs : callPointers f = pointerArgs f s := by rw [callPointers,hs]; rfl
  rw [Confined,hcall,hptrs,← badRange_iff]
  -- a call without accesses is inside the window whatever it names
  have hnone (h : (handler s f env).touched = [] ∧ (handler s f env).failed) :
      (∀ x ∈ (handler s f env).touched, InWindow x.addr) ∧
        (BadRange f s → (handler s f env).touched = [] ∧ (handler s f env).failed) := by
    refine ⟨?_,fun _ => h⟩
    rw [h.1]
    exact fun x hx => absurd hx List.not_mem_nil
  have hgood (h : ∀ r ∈ pointerArgs f s, userBufInRange r.1 r.2) :
      (∀ x ∈ (handler s f env).touched, InWindow x.addr) ∧
        (BadRange f s → (handler s f env).touched = [] ∧ (handler s f env).failed) := by
    constructor
    · intro x hx
      obtain ⟨r,hr,hx⟩ := hspec.covered x hx
      exact (userBufInRange_iff r.1 r.2).mp (h r hr) _ hx
    · rintro ⟨r,hr,hbad⟩
      rw [h r hr] at hbad
      cases hbad
  by_cases hbad : BadRange f s
  · constructor
    · rintro ⟨-,hfail⟩
      obtain ⟨hnil,hfailed⟩ := hfail hbad
      by_contra hno
      push Not at hno
      obtain ⟨hcheck,hr,-⟩ := hno
      exact hspec.goesOn (by simpa using hcheck) hr hbad hnil hfailed
    · rintro (hcheck | hr | hin)
      · exact hnone (hspec.checks hcheck hbad)
      · exact hnone (hspec.refuses hr)
      · exact hgood hin
  · have hin : ∀ r ∈ pointerArgs f s, userBufInRange r.1 r.2 := by
      intro r hr
      by_contra hno
      exact hbad ⟨r,hr,by simpa using hno⟩
    exact ⟨fun _ => .inr (.inr hin),fun _ => hgood hin⟩

/-- For every register content and kernel state, a call keeps to the user window exactly
if its pointers are in order. -/
theorem syscall_confined_iff (f : Frame) (env : CallEnv) :
    Confined f env ↔ PointersInOrder f env := by
  cases hs : Sysno.all[f.rax.toNat]? with
  | some s =>
    rw [confined_handler s hs]
    constructor
    · intro h s' hs'
      obtain rfl := Option.some.inj (hs.symm.trans hs')
      exact h
    · exact fun h => h s hs
  | none =>
    -- an unknown number touches nothing and names nothing
    have hcall : syscallDispatch f env = .ret minusOne := by rw [syscallDispatch,hs]
    have hptrs : callPointers f = [] := by rw [callPointers,hs]; rfl
    constructor
    · intro _ s hs'
      rw [hs] at hs'
      cases hs'
    · intro _
      rw [Confined,hcall,hptrs]
      refine ⟨fun x hx => absurd hx List.not_mem_nil,?_⟩
      rintro ⟨r,hr,-⟩
      cases hr

/-- A process without descriptors, and a kernel in which nothing else happens. -/
def idleEnv : CallEnv :=
  let desc : FileDesc := ⟨fun _ => ([],.eof),fun _ _ => (0,.bad),none,fun _ => Nat.zero_le _,
    fun _ _ => Nat.zero_le _⟩
  { mem := fun _ => 0, currentProc := some ⟨fun _ => none,[],Nat.zero_le _⟩, foreground := true,
    event := 0, fsSendRead := fun _ => none, fsSendWrite := fun _ _ => false,
    fsSendList := ⟨[],Nat.zero_le _,fun _ h => absurd h List.not_mem_nil⟩,
    elfExec := fun _ _ => none, elfSpawn := fun _ _ => none, openFileFd := fun _ _ => none,
    newPipe := (desc,desc), child := fun _ => none, mapped := fun _ => false, procs := [],
    mac := .replicate 6 0, answer := fun _ => none }

/-- `sys_pipe` with a pointer to the kernel's own memory at one megabyte. -/
def kernelPipe : Frame := { rax := 17, rdi := 0x100000, rsi := 0, rdx := 0, r10 := 0 }

/-- The pair of descriptors is written over the kernel, and the call succeeds. -/
theorem pipe_writes_kernel :
    syscallDispatch kernelPipe idleEnv =
      ⟨copyOut 0x100000 [0,0,0,0,0,0,0,0,1,0,0,0,0,0,0,0],some 0⟩ ∧
    ¬InWindow 0x100000 ∧ ¬Confined kernelPipe idleEnv := by
  have hcall : syscallDispatch kernelPipe idleEnv =
      ⟨copyOut 0x100000 [0,0,0,0,0,0,0,0,1,0,0,0,0,0,0,0],some 0⟩ := by decide
  refine ⟨hcall,by decide,?_⟩
  rintro ⟨hin,-⟩
  exact absurd (hin (.write 0x100000 0) (by decide)) (by decide)

end Gooos.User
