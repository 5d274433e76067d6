import Mathlib
import Gooos.Tcp.Pointers

/-!
# Connection handles

Which connection a descriptor stands for, and when the calls through it act on that
connection. A ledger beside the kernel books the connection with which a socket
became `sockKindTCPConn`.
-/

namespace Gooos

open Interleave Function

/-! ## Sockets and their owners -/

/-- The socket a `sys_listen` or `sys_connect` in progress will turn into another kind. -/
def ProcPc.opening : ProcPc → Option ℕ
  | .listen c | .connPort c _ _ _ | .connAlloc c _ _ _ _ | .connInit c _ _ | .connRollback c _ _
  | .connSend c _ _ _ | .connRestore c _ _ _ _ | .connPoll c _ _ => some c
  | _ => none

/-- The TCB a call through the descriptor of a connection works on. -/
def ProcPc.viaConn : ProcPc → Option TcbRef
  | .sendEnqueue t _ | .drain t _ | .drainSend t _ _ | .drainCommit t _ _ | .recv t _ _ _
  | .shutdownReset t => some t
  | .closeMark t (.closeConn _) | .closeMark t (.shutdown _) => some t
  | .closeSend t (.closeConn _) | .closeSend t (.shutdown _) => some t
  | .closeCommit t (.closeConn _) | .closeCommit t (.shutdown _) => some t
  | _ => none

/-- How a process section writes a socket. -/
inductive SockWrite (s : Shared) (l : ProcPc) : ℕ → SocketFd → Prop where
  | created : SockWrite s l s.nSock ⟨.tcpIdle,0,false,none,none⟩
  | accepted (t) : SockWrite s l s.nSock ⟨.tcpConn,0,false,none,some t⟩
  | listening (c x) (hl : l.opening = some c) (hx : x.kind = .tcpListener) : SockWrite s l c x
  | connected (c x t) (hl : l.opening = some c) (hx : x.kind = .tcpConn)
    (ht : x.tcpTCB = some t) : SockWrite s l c x
  | updated (c x) (hx : x.kind = (s.sock c).kind)
    (ht : x.tcpTCB = none ∨ x.tcpTCB = (s.sock c).tcpTCB) : SockWrite s l c x

/-- What a section of process `p` at `l` does to sockets and descriptors. -/
structure ProcStep (s : Shared) (p : ProcSlot) (l : ProcPc) (f : Effect ProcPc) : Prop where
  sock : ∀ c x, f.sock = some (c,x) → SockWrite s l c x
  fd : ∀ q i d, f.fd = some (q,i,d) →
    q = p ∧ (d = none ∨ d = some (.socket s.nSock) ∧ ∃ x, f.sock = some (s.nSock,x))
  opening : ∀ c, f.next.opening = some c → f.sock = none ∧ f.fd = none ∧
    (l.opening = some c ∨ (s.sock c).kind = .tcpIdle ∧ ∃ i, s.fds p i = some (.socket c))
  viaConn : ∀ t, l.viaConn = some t → f.next = .idle ∨ f.next.viaConn = some t

theorem procSocket_fds {s : Shared} {p : ProcSlot} {fd c : ℕ} (h : procSocket s p fd = some c) :
    ∃ i, s.fds p i = some (.socket c) := by
  unfold procSocket at h
  split at h
  · split at h
    · cases h
      exact ⟨_,‹_›⟩
    · cases h
  · cases h

theorem requireTCP_spec {s : Shared} {p : ProcSlot} {fd c : ℕ} {kind : SockKind}
    (h : requireTCP s p fd kind = some c) :
    procSocket s p fd = some c ∧ (s.sock c).kind = kind := by
  obtain ⟨hp,hk⟩ := Option.filter_eq_some_iff.mp h
  exact ⟨hp,by simpa using hk⟩

theorem sysEntry_procStep (s : Shared) (p : ProcSlot) (c : Syscall) :
    ProcStep s p .idle (sysEntry s p c) where
  sock j x h := by
    rcases sysEntry_sock h with ⟨rfl,rfl⟩ | ⟨hk,hx,ht⟩
    · exact .created
    · exact .updated _ _ (hx.trans hk.symm) (.inr ht)
  fd q i d h := by
    cases c with
    | socket =>
      simp only [sysEntry] at h ⊢
      split at h
      · cases h
      · cases h
        exact ⟨rfl,.inr ⟨rfl,_,rfl⟩⟩
    | close fd =>
      simp only [sysEntry,sysReturn] at h
      repeat' split at h
      all_goals cases h
      all_goals exact ⟨rfl,.inl rfl⟩
    | _ =>
      simp only [sysEntry,sysReturn] at h
      repeat' split at h
      all_goals cases h
  opening j h := by
    cases c with
    | listen fd =>
      simp only [sysEntry] at h ⊢
      split at h
      · cases h
      · rename_i hreq
        split at h
        · rename_i hb
          cases h
          obtain ⟨hp,hk⟩ := requireTCP_spec hreq
          rw [if_pos hb]
          exact ⟨rfl,rfl,.inr ⟨hk,procSocket_fds hp⟩⟩
        · cases h
    | connect fd dstIP dstPort timeout =>
      simp only [sysEntry] at h ⊢
      split at h
      · cases h
      · rename_i hreq
        cases h
        obtain ⟨hp,hk⟩ := requireTCP_spec hreq
        exact ⟨rfl,rfl,.inr ⟨hk,procSocket_fds hp⟩⟩
    | _ =>
      simp only [sysEntry,sysReturn] at h
      repeat' split at h
      all_goals cases h
  viaConn t h := by cases h

variable {t : TcbRef} {L' : Ledger} {q : ProcSlot} {c : ℕ}

section Section

variable {s : Shared} {ok : Bool} {p : ProcSlot} {l : ProcPc}

theorem procSection_sock {x : SocketFd} (h : (procSection s ok p l).sock = some (c,x)) :
    SockWrite s l c x := by
  cases l with
  | listen j =>
    simp only [procSection,sysReturn] at h
    split at h <;> cases h
    exact .listening _ _ rfl rfl
  | acceptFd t info =>
    simp only [procSection] at h
    split at h <;> cases h
    exact .accepted t
  | connPoll j t deadline =>
    simp only [procSection,sysReturn] at h
    repeat' split at h
    all_goals cases h
    exact .connected _ _ t rfl rfl rfl
  | listenerClear ts j =>
    cases ts <;> cases h
    exact .updated _ _ rfl (.inr rfl)
  | closeMark | closeSend | closeCommit =>
    simp only [procSection,afterClose,sysReturn] at h
    repeat' split at h
    all_goals cases h
    all_goals exact .updated _ _ rfl (.inl rfl)
  | _ =>
    simp only [procSection,sysReturn] at h
    repeat' split at h
    all_goals cases h

/-- Only `sys_accept` makes a descriptor. -/
theorem procSection_fd {i : Fin 16} {d : Option FileDesc}
    (h : (procSection s ok p l).fd = some (q,i,d)) :
    q = p ∧ (d = none ∨ d = some (.socket s.nSock) ∧
      ∃ x, (procSection s ok p l).sock = some (s.nSock,x)) := by
  cases l with
  | acceptFd t info =>
    cases hfd : procAllocFD s p <;> simp only [procSection,hfd] at h ⊢ <;> cases h
    exact ⟨rfl,.inr ⟨rfl,_,rfl⟩⟩
  | listenerClear ts j => cases ts <;> cases h
  | _ =>
    simp only [procSection,afterClose,sysReturn] at h
    repeat' split at h
    all_goals cases h

/-- A section that writes a socket or a descriptor is the last one of its syscall. -/
theorem procSection_last
    (h : ¬((procSection s ok p l).sock = none ∧ (procSection s ok p l).fd = none)) :
    (procSection s ok p l).next = .idle := by
  cases l with
  | listenerClear ts j => cases ts <;> simp_all [procSection,sysReturn]
  | _ =>
    simp only [procSection,afterClose,sysReturn] at h ⊢
    repeat' split at h
    all_goals simp_all

theorem procSection_procStep (s : Shared) (ok : Bool) (p : ProcSlot) (l : ProcPc) :
    ProcStep s p l (procSection s ok p l) where
  sock c x h := procSection_sock h
  fd q i d h := procSection_fd h
  opening j h := by
    have hquiet : (procSection s ok p l).sock = none ∧ (procSection s ok p l).fd = none := by
      by_contra hw
      rw [procSection_last hw] at h
      cases h
    refine ⟨hquiet.1,hquiet.2,.inl ?_⟩
    have hgo := proc_goes s ok p l
    generalize (procSection s ok p l).next = l' at h hgo
    cases hgo with
    | closeSkip _ _ _ _ hl | closeFail _ _ _ hl | closeCommit _ _ _ hl => cases hl <;> cases h
    | _ => first | exact h | cases h
  viaConn t h := by
    have hgo := proc_goes s ok p l
    generalize (procSection s ok p l).next = l' at hgo ⊢
    cases hgo with
    | idle => exact .inl rfl
    | closeMark t c | closeSend t c => cases c <;> exact .inr h
    | closeSkip t c _ _ hl | closeFail t c _ hl | closeCommit t c _ hl =>
      cases hl with
      | idle => exact .inl rfl
      | shutdownReset => exact .inr h
      | listenerCheck => cases h
    | _ => exact .inr h

end Section

/-! ## Which connection a descriptor stands for -/

/-- The descriptor of a call that acts on a connection. -/
def Syscall.connFd : Syscall → Option ℕ
  | .send fd _ _ | .recv fd _ _ _ | .shutdown fd _ | .close fd => some fd
  | _ => none

/-- Beside a run of the kernel: which connection a descriptor was made for. -/
structure Ledger where
  /-- the connection with which a socket became `sockKindTCPConn` -/
  conn : ℕ → Option TcbRef
  /-- the connection of the descriptor that a process's last call went through -/
  call : ProcSlot → Option TcbRef

namespace Ledger

def empty : Ledger := ⟨fun _ => none,fun _ => none⟩

/-- A process enters a syscall. -/
def enter (L : Ledger) (k : Kernel) : Ev → Ledger
  | .sys p c =>
    if k.pc (.proc p) = ProcPc.idle then
      let x := c.connFd.bind fun fd => (procSocket k.shared p fd).bind L.conn
      { L with call := update L.call p x }
    else L
  | _ => L

/-- Enter the sockets that have become connections; an entry is never changed. -/
def book (L : Ledger) (s : Shared) : Ledger :=
  let got c := if (s.sock c).kind = .tcpConn then (s.sock c).tcpTCB else none
  { L with conn := fun c => (L.conn c).or (got c) }

end Ledger

/-- A step of the kernel with the ledger. -/
def ledgerStep (σ : Kernel × Ledger) (e : Ev) : (Kernel × Ledger) × List Obs :=
  let r := σ.1.step e
  ((r.1,(σ.2.enter σ.1 e).book r.1.shared),r.2)

/-- The ledger agrees with the sockets, and each socket has one owner. -/
structure Booked (k : Kernel) (L : Ledger) : Prop where
  fresh : ∀ c, k.shared.nSock ≤ c →
    (k.shared.sock c).kind = .tcpIdle ∧ (k.shared.sock c).tcpTCB = none
  used : ∀ p i c, k.shared.fds p i = some (.socket c) → c < k.shared.nSock
  owner : ∀ p q i j c, k.shared.fds p i = some (.socket c) →
    k.shared.fds q j = some (.socket c) → p = q
  conn : ∀ c, (k.shared.sock c).kind = .tcpConn →
    ∃ x, L.conn c = some x ∧ ∀ t, (k.shared.sock c).tcpTCB = some t → t = x
  unconn : ∀ c, (k.shared.sock c).kind ≠ .tcpConn → L.conn c = none
  opening : ∀ p c, ProcPc.opening (k.pc (.proc p)) = some c →
    (k.shared.sock c).kind = .tcpIdle ∧ ∃ i, k.shared.fds p i = some (.socket c)
  call : ∀ p x, L.call p = some x → k.pc (.proc p) = ProcPc.idle ∨
    ProcPc.viaConn (k.pc (.proc p)) = some x

theorem booked_boot : Booked .boot .empty where
  fresh c _ := ⟨rfl,rfl⟩
  used p i c h := by
    simp only [Kernel.boot] at h
    split at h <;> cases h
  owner p q i j c h _ := by
    simp only [Kernel.boot] at h
    split at h <;> cases h
  conn c h := by cases h
  unconn c _ := rfl
  opening p c h := by cases h
  call p x h := by cases h

namespace Booked

variable {k : Kernel} {L : Ledger}

/-- A call through a descriptor starts with the TCB of the connection it stands for. -/
theorem entry (hb : Booked k L) {p : ProcSlot} {c : Syscall} {x : TcbRef}
    (h : (c.connFd.bind fun fd => (procSocket k.shared p fd).bind L.conn) = some x) :
    (sysEntry k.shared p c).next = .idle ∨ (sysEntry k.shared p c).next.viaConn = some x := by
  have htcb : ∀ {fd j t}, (procSocket k.shared p fd).bind L.conn = some x →
      procSocket k.shared p fd = some j → (k.shared.sock j).kind = .tcpConn →
      (k.shared.sock j).tcpTCB = some t → t = x := by
    intro fd j t hx hj hkind ht
    rw [hj,Option.bind_some] at hx
    obtain ⟨y,hy,heq⟩ := hb.conn j hkind
    rw [hx] at hy
    cases hy
    exact heq t ht
  cases c with
  | send | recv =>
    simp only [sysEntry]
    split
    · exact .inl rfl
    · rename_i j hreq
      obtain ⟨hj,hkind⟩ := requireTCP_spec hreq
      split
      · exact .inl rfl
      · split
        · exact .inl rfl
        · split
          · exact .inl rfl
          · rename_i t ht
            exact .inr (congrArg some (htcb h hj hkind ht))
  | shutdown fd how =>
    simp only [sysEntry]
    split
    · exact .inl rfl
    · rename_i j hreq
      obtain ⟨hj,hkind⟩ := requireTCP_spec hreq
      split
      · exact .inl rfl
      · rename_i t ht
        split
        · exact .inr (congrArg some (htcb h hj hkind ht))
        · exact .inl rfl
  | close fd =>
    simp only [sysEntry]
    split
    · rename_i hfd
      split
      · exact .inl rfl
      · exact .inl rfl
      · rename_i j hj
        have hj' : procSocket k.shared p fd = some j := by simp [procSocket,hfd,hj]
        split
        · rename_i hkind _
          have hnone := hb.unconn j (by rw [hkind]; decide)
          simp only [Syscall.connFd,Option.bind_some,hj',hnone] at h
          cases h
        · rename_i t hkind ht
          exact .inr (congrArg some (htcb h hj' hkind ht))
        · exact .inl rfl
    · exact .inl rfl
  | _ => cases h

/-- The ledger of a state in which no socket changed. -/
theorem book_eq (hb : Booked k L) (hL : L'.conn = L.conn) {s : Shared}
    (hs : s.sock = k.shared.sock) : (L'.book s).conn = L.conn := by
  funext c
  simp only [Ledger.book,hL,hs]
  split
  · rename_i hkind
    obtain ⟨x,hx,-⟩ := hb.conn c hkind
    rw [hx,Option.some_or]
  · rw [Option.or_none]

end Booked

theorem nSock_apply {s : Shared} {π : Type} (f : Effect π) : s.nSock ≤ (s.apply f).nSock := by
  simp only [Shared.apply]
  split
  · exact le_max_left _ _
  · exact le_rfl

namespace ProcStep

variable {s : Shared} {p : ProcSlot} {l : ProcPc} {f : Effect ProcPc}

theorem sock_apply (hp : ProcStep s p l f) (c : ℕ) : (s.apply f).sock c = s.sock c ∨
    SockWrite s l c ((s.apply f).sock c) ∧ c < (s.apply f).nSock := by
  cases hs : f.sock with
  | none => exact .inl (by simp only [Shared.apply,hs,put_none])
  | some w =>
    obtain ⟨j,x⟩ := w
    by_cases hc : c = j
    · subst hc
      have hx : (s.apply f).sock c = x := by simp only [Shared.apply,hs,put_same]
      have hn : (s.apply f).nSock = max s.nSock (c+1) := by simp only [Shared.apply,hs]
      exact .inr ⟨hx ▸ hp.sock c x hs,by omega⟩
    · exact .inl (by simp only [Shared.apply,hs,put_of_ne _ _ hc])

theorem fds_apply (hp : ProcStep s p l f) {i : Fin 16}
    (h : (s.apply f).fds q i = some (.socket c)) : s.fds q i = some (.socket c) ∨
    q = p ∧ c = s.nSock ∧ s.nSock < (s.apply f).nSock := by
  cases hf : f.fd with
  | none =>
    simp only [Shared.apply,hf] at h
    exact .inl h
  | some w =>
    obtain ⟨r,j,d⟩ := w
    obtain ⟨rfl,hd⟩ := hp.fd r j d hf
    simp only [Shared.apply,hf] at h
    by_cases hq : q = r
    · subst hq
      rw [update_self] at h
      by_cases hi : i = j
      · subst hi
        rw [update_self] at h
        rcases hd with rfl | ⟨rfl,x,hx⟩
        · cases h
        · cases h
          have hn : (s.apply f).nSock = max s.nSock (s.nSock+1) := by simp only [Shared.apply,hx]
          exact .inr ⟨rfl,rfl,by omega⟩
      · rw [update_of_ne hi] at h
        exact .inl h
    · rw [update_of_ne hq] at h
      exact .inl h

theorem fds_other (hp : ProcStep s p l f) (hq : q ≠ p) : (s.apply f).fds q = s.fds q := by
  cases hf : f.fd with
  | none => simp only [Shared.apply,hf]
  | some w =>
    obtain ⟨r,j,d⟩ := w
    obtain ⟨rfl,-⟩ := hp.fd r j d hf
    simp only [Shared.apply,hf]
    exact update_of_ne hq _ _

end ProcStep

namespace Booked

variable {k : Kernel} {L : Ledger}

/-- The connection of a socket that a section wrote. -/
theorem write (hb : Booked k L) {p : ProcSlot} {x : SocketFd}
    (h : SockWrite k.shared (k.pc (.proc p)) c x) :
    if x.kind = .tcpConn then
      ∃ r, (L.conn c).or x.tcpTCB = some r ∧ ∀ t, x.tcpTCB = some t → t = r
    else L.conn c = none := by
  have hidle : (k.shared.sock c).kind = .tcpIdle → L.conn c = none := fun hk =>
    hb.unconn c (by rw [hk]; decide)
  cases h with
  | created => exact hidle (hb.fresh _ le_rfl).1
  | accepted t =>
    refine ⟨t,?_,fun r hr => (Option.some.inj hr).symm⟩
    rw [hidle (hb.fresh _ le_rfl).1,Option.none_or]
  | listening _ _ hl hx =>
    rw [hx]
    exact hidle (hb.opening p c hl).1
  | connected _ _ t hl hx ht =>
    rw [if_pos hx,ht]
    refine ⟨t,?_,fun r hr => (Option.some.inj hr).symm⟩
    rw [hidle (hb.opening p c hl).1,Option.none_or]
  | updated _ _ hx ht =>
    rw [hx]
    split
    · rename_i hkind
      obtain ⟨r,hr,heq⟩ := hb.conn c hkind
      refine ⟨r,by rw [hr,Option.some_or],fun t htx => ?_⟩
      rcases ht with ht | ht
      · rw [ht] at htx; cases htx
      · exact heq t (ht ▸ htx)
    · exact hb.unconn c ‹_›

/-- The kind of a socket that another process is opening does not change. -/
theorem opening_stable (hb : Booked k L) {p q : ProcSlot} {f : Effect ProcPc}
    (hp : ProcStep k.shared p (k.pc (.proc p)) f) (hq : q ≠ p)
    (hc : ProcPc.opening (k.pc (.proc q)) = some c) :
    ((k.shared.apply f).sock c).kind = .tcpIdle := by
  obtain ⟨hkind,i,hi⟩ := hb.opening q c hc
  have hlt := hb.used q i c hi
  have hown : ProcPc.opening (k.pc (.proc p)) ≠ some c := by
    intro h
    obtain ⟨-,j,hj⟩ := hb.opening p c h
    exact hq (hb.owner q p i j c hi hj)
  rcases hp.sock_apply c with h | ⟨h,-⟩
  · rw [h,hkind]
  · cases hx : (k.shared.apply f).sock c with
    | mk kind port bound ls t =>
      rw [hx] at h
      cases h with
      | created => rfl
      | accepted t => exact absurd hlt (lt_irrefl _)
      | listening _ _ hl | connected _ _ _ hl => exact absurd hl hown
      | updated _ _ hk => exact hk.trans hkind

/-- Step lemma for a process; `hcall` is left to the caller of the entry and of a section. -/
theorem proc (hb : Booked k L) {p : ProcSlot} {f : Effect ProcPc}
    (hp : ProcStep k.shared p (k.pc (.proc p)) f) (hL : L'.conn = L.conn)
    (hcall : ∀ q x, L'.call q = some x → if q = p then f.next = .idle ∨ f.next.viaConn = some x
      else L.call q = some x) :
    Booked (k.move (.proc p) (k.shared.apply f) f.next) (L'.book (k.shared.apply f)) where
  fresh c hc := by
    rcases hp.sock_apply c with h | ⟨-,hlt⟩
    · simp only [Conf.move,h]
      exact hb.fresh c ((nSock_apply f).trans hc)
    · exact absurd hlt (not_lt.mpr hc)
  used q i c h := by
    rcases hp.fds_apply h with h | ⟨-,rfl,hlt⟩
    · exact (hb.used q i c h).trans_le (nSock_apply f)
    · exact hlt
  owner q r i j c hq hr := by
    rcases hp.fds_apply hq with hq | ⟨rfl,hc,-⟩
    · rcases hp.fds_apply hr with hr | ⟨-,hc,-⟩
      · exact hb.owner q r i j c hq hr
      · exact absurd (hb.used q i c hq) (by omega)
    · rcases hp.fds_apply hr with hr | ⟨rfl,-,-⟩
      · exact absurd (hb.used r j c hr) (by omega)
      · rfl
  conn c hkind := by
    simp only [Conf.move] at hkind ⊢
    simp only [Ledger.book,hL,hkind,if_true]
    rcases hp.sock_apply c with h | ⟨h,-⟩
    · rw [h] at hkind ⊢
      obtain ⟨x,hx,heq⟩ := hb.conn c hkind
      exact ⟨x,by rw [hx,Option.some_or],heq⟩
    · have := hb.write h
      rwa [if_pos hkind] at this
  unconn c hkind := by
    simp only [Conf.move] at hkind
    simp only [Ledger.book,hL,hkind,if_false,Option.or_none]
    rcases hp.sock_apply c with h | ⟨h,-⟩
    · exact hb.unconn c (h ▸ hkind)
    · have := hb.write h
      rwa [if_neg hkind] at this
  opening q c h := by
    by_cases hq : q = p
    · subst hq
      simp only [Conf.move,update_self] at h ⊢
      obtain ⟨hs,hf,ho⟩ := hp.opening c h
      simp only [Shared.apply,hs,hf,put_none]
      rcases ho with ho | ho
      · exact hb.opening q c ho
      · exact ho
    · have hne : Tid.proc q ≠ .proc p := fun h => hq (Tid.proc.inj h)
      simp only [Conf.move,update_of_ne hne,hp.fds_other hq] at h ⊢
      exact ⟨hb.opening_stable hp hq h,(hb.opening q c h).2⟩
  call q x h := by
    have hx := hcall q x h
    by_cases hq : q = p
    · subst hq
      simpa only [Conf.move,update_self,if_true] using hx
    · have hne : Tid.proc q ≠ .proc p := fun h => hq (Tid.proc.inj h)
      simp only [Conf.move,update_of_ne hne]
      exact hb.call q x (by simpa only [if_neg hq] using hx)

/-- A move that changes no socket, no descriptor and no process's control point. -/
theorem frame (hb : Booked k L) {k' : Kernel} (hs : k'.shared.sock = k.shared.sock)
    (hn : k'.shared.nSock = k.shared.nSock) (hf : k'.shared.fds = k.shared.fds)
    (hpc : ∀ p, k'.pc (.proc p) = k.pc (.proc p)) (hL : L'.conn = L.conn)
    (hcall : L'.call = L.call) : Booked k' L' where
  fresh := by rw [hs,hn]; exact hb.fresh
  used := by rw [hf,hn]; exact hb.used
  owner := by rw [hf]; exact hb.owner
  conn := by rw [hs,hL]; exact hb.conn
  unconn := by rw [hs,hL]; exact hb.unconn
  opening p := by rw [hs,hf,hpc p]; exact hb.opening p
  call p := by rw [hpc p,hcall]; exact hb.call p

end Booked

theorem booked_service {k : Kernel} {L : Ledger} (hb : Booked k L) {τ : Tid}
    {f : Effect (PcOf τ)} (hτ : ∀ p, τ ≠ .proc p) (hs : f.sock = none) (hf : f.fd = none) :
    Booked (k.move τ (k.shared.apply f) f.next) (L.book (k.shared.apply f)) := by
  have hsock : (k.shared.apply f).sock = k.shared.sock := by simp only [Shared.apply,hs,put_none]
  refine hb.frame hsock ?_ ?_ (fun p => ?_) (hb.book_eq rfl hsock) rfl
  · simp only [Conf.move,Shared.apply,hs]
  · simp only [Conf.move,Shared.apply,hf]
  · exact update_of_ne (hτ p).symm _ _

theorem booked_step {σ : Kernel × Ledger} (e : Ev) (hb : Booked σ.1 σ.2) :
    Booked (ledgerStep σ e).1.1 (ledgerStep σ e).1.2 := by
  obtain ⟨k,L⟩ := σ
  cases he : e.effect k with
  | none =>
    simp only [ledgerStep,Kernel.step,he]
    have henter : L.enter k e = L := by
      cases e with
      | sys p c =>
        have hbusy : k.pc (.proc p) ≠ ProcPc.idle := by
          intro hidle
          rw [Ev.effect,if_pos hidle] at he
          cases he
        exact if_neg hbusy
      | _ => rfl
    have hsock : (e.env k.shared).sock = k.shared.sock := by cases e <;> rfl
    rw [henter]
    refine hb.frame hsock ?_ ?_ (fun p => rfl) (hb.book_eq rfl hsock) rfl
    · cases e <;> rfl
    · cases e <;> rfl
  | some w =>
    obtain ⟨τ,f⟩ := w
    simp only [ledgerStep,Kernel.step,he]
    cases Ev.moved he with
    | segment | scan | echo => exact booked_service hb (by rintro _ ⟨⟩) rfl rfl
    | sys p c hidle =>
      simp only [Ledger.enter,if_pos hidle]
      refine hb.proc (by rw [hidle]; exact sysEntry_procStep k.shared p c) rfl fun q x h => ?_
      by_cases hq : q = p
      · subst hq
        simp only [update_self] at h
        rw [if_pos rfl]
        exact hb.entry h
      · simp only [update_of_ne hq] at h
        rwa [if_neg hq]
    | run τ ok =>
      simp only [Ledger.enter]
      cases τ with
      | proc p =>
        have hp := procSection_procStep k.shared ok p (k.pc (.proc p))
        refine hb.proc hp rfl fun q x h => ?_
        by_cases hq : q = p
        · subst hq
          rw [if_pos rfl]
          rcases hb.call q x h with hidle | hvia
          · rw [hidle]
            exact .inl rfl
          · exact hp.viaConn x hvia
        · rwa [if_neg hq]
      | rx => exact booked_service hb (by rintro _ ⟨⟩) (rxSection_quiet ..).1 (rxSection_quiet ..).2
      | scan =>
        have hquiet := scanSection_quiet k.shared ok (k.pc .scan)
        exact booked_service hb (by rintro _ ⟨⟩) hquiet.1 hquiet.2.1
      | echo =>
        have hquiet := echoSection_quiet k.shared ok (k.pc .echo)
        exact booked_service hb (by rintro _ ⟨⟩) hquiet.1 hquiet.2.1

/-- Whatever slots `tcbAlloc` takes, a connection's socket points to the TCB it was made for, or
to none. -/
theorem socket_keeps_tcb (es : List Ev) (c : ℕ) :
    let σ := Trace.exec ledgerStep (.boot,.empty) es
    (σ.1.shared.sock c).kind ≠ .tcpConn ∨ (σ.1.shared.sock c).tcpTCB = none ∨
      (σ.1.shared.sock c).tcpTCB = σ.2.conn c := by
  intro σ
  have hb : Booked σ.1 σ.2 := Trace.Meets.inv (I := fun σ : Kernel × Ledger => Booked σ.1 σ.2)
    (fun σ e h _ => booked_step e h) booked_boot (Trace.meets_of_forall (fun _ _ => trivial) _ es)
  by_contra! h
  obtain ⟨hk,hn,hne⟩ := h
  obtain ⟨x,hx,heq⟩ := hb.conn c hk
  obtain ⟨t,ht⟩ := Option.ne_none_iff_exists'.mp hn
  exact hne (by rw [ht,hx,heq t ht])

/-! ## Isolation -/

/-- A thread, a socket or a listener queue points to slot `i`. -/
def Kernel.pointsAt (k : Kernel) (i : Slot) : Bool :=
  (List.range k.shared.nSock).any (fun c => (k.shared.sock c).tcpTCB.any (·.slot == i)) ||
  (List.finRange 4).any (fun l => (k.shared.listener l).refs.any (·.slot == i)) ||
  (RxPc.refs (k.pc .rx)).any (·.slot == i) ||
  (List.finRange 32).any fun p => (ProcPc.refs (k.pc (.proc p))).any (·.slot == i)

/-- The event does not make `tcbAlloc` claim a slot that something still points to. -/
def Kernel.allocsUnused (k : Kernel) (e : Ev) : Bool :=
  match (e.effect k).bind (·.2.op) with
  | some (i,op) => !op.isAlloc || !k.pointsAt i
  | none => true

theorem pointsAt_of_holds {k : Kernel} {L : Ledger} (hb : Booked k L)
    (h : k.Holds t) : k.pointsAt t.slot = true := by
  simp only [Kernel.pointsAt,Bool.or_eq_true,List.any_eq_true,List.mem_range,List.mem_finRange,
    true_and,beq_iff_eq]
  rcases h with (⟨c,h⟩ | ⟨l,h⟩) | ⟨τ,h⟩
  · refine .inl (.inl (.inl ⟨c,?_,by simp [h]⟩))
    by_contra hc
    have hnone := (hb.fresh c (not_lt.mp hc)).2
    rw [h] at hnone
    cases hnone
  · exact .inl (.inl (.inr ⟨l,t,h,rfl⟩))
  · cases τ with
    | rx => exact .inl (.inr ⟨t,h,rfl⟩)
    | scan | echo => cases h
    | proc p => exact .inr ⟨p,t,h,rfl⟩

theorem sound_boot : Kernel.Sound .boot := by
  rintro t ((⟨c,h⟩ | ⟨l,h⟩) | ⟨τ,h⟩)
  · cases h
  · have hl : ∀ l, (Kernel.boot.shared.listener l).refs = [] := by decide
    rw [hl] at h
    cases h
  · cases τ <;> cases h

theorem sound_step {σ : Kernel × Ledger} {e : Ev} (hb : Booked σ.1 σ.2) (hk : σ.1.Sound)
    (hG : σ.1.allocsUnused e = true) : (ledgerStep σ e).1.1.Sound := by
  obtain ⟨k,L⟩ := σ
  cases he : e.effect k with
  | none =>
    simp only [ledgerStep,Kernel.step,he]
    have hshared : (e.env k.shared).gen = k.shared.gen ∧ (e.env k.shared).sock = k.shared.sock ∧
        (e.env k.shared).listener = k.shared.listener := by
      cases e <;> exact ⟨rfl,rfl,rfl⟩
    obtain ⟨hgen,hsock,hls⟩ := hshared
    intro t ht
    simp only [Kernel.Holds,Shared.Stores,hsock,hls] at ht
    simp only [Shared.Current,hgen]
    exact hk t ht
  | some w =>
    obtain ⟨τ,f⟩ := w
    simp only [ledgerStep,Kernel.step,he]
    refine hk.effect he fun i op hop ha t ht hi => ?_
    subst hi
    have hp := pointsAt_of_holds hb ht
    simp [Kernel.allocsUnused,he,hop,ha,hp] at hG

/-- A section of a call through a connection's descriptor works on that TCB only. -/
theorem viaConn_op {s : Shared} {ok : Bool} {p : ProcSlot} {l : ProcPc} {i : Slot}
    {op : TcbOp} (h : l.viaConn = some t) (hop : (procSection s ok p l).op = some (i,op)) :
    i = t.slot := by
  cases l with
  | closeMark r c | closeSend r c | closeCommit r c =>
    cases c <;> cases h <;> (cases proc_does hop; rfl)
  | sendEnqueue | drainSend | drainCommit | recv | shutdownReset =>
    cases h; cases proc_does hop; rfl
  | drain r n => cases proc_does hop
  | _ => cases h

theorem viaConn_mem {l : ProcPc} (h : l.viaConn = some t) : t ∈ l.refs := by
  cases l with
  | closeMark r c | closeSend r c | closeCommit r c =>
    cases c <;> cases h <;> exact List.mem_cons_self
  | _ => cases h <;> exact List.mem_singleton.mpr rfl

/-- As long as `tcbAlloc` claims only slots nothing points to, a call through a descriptor
reads and writes the TCB of the connection the descriptor was made for, and that TCB still
belongs to this connection. -/
theorem handle_isolated (es : List Ev) (p : ProcSlot) (x : TcbRef)
    (hm : Trace.Meets ledgerStep (fun σ e => σ.1.allocsUnused e = true) (.boot,.empty) es) :
    let σ := Trace.exec ledgerStep (.boot,.empty) es
    σ.2.call p = some x → σ.1.pc (.proc p) ≠ ProcPc.idle →
      ProcPc.viaConn (σ.1.pc (.proc p)) = some x ∧ σ.1.shared.ref x.slot = x ∧
      ∀ ok i op, (procSection σ.1.shared ok p (σ.1.pc (.proc p))).op = some (i,op) →
        i = x.slot := by
  intro σ hcall hbusy
  have hinv : Booked σ.1 σ.2 ∧ σ.1.Sound := by
    refine Trace.Meets.inv (I := fun σ => Booked σ.1 σ.2 ∧ σ.1.Sound) ?_
      ⟨booked_boot,sound_boot⟩ hm
    rintro σ e ⟨hb,hk⟩ hG
    exact ⟨booked_step e hb,sound_step hb hk hG⟩
  have hvia := (hinv.1.call p x hcall).resolve_left hbusy
  have hx : x ∈ pcRefs (.proc p) (σ.1.pc (.proc p)) := viaConn_mem hvia
  exact ⟨hvia,Shared.current_iff_ref.mp (hinv.2 x (.inr ⟨.proc p,hx⟩)),fun _ _ _ => viaConn_op hvia⟩

/-- The peer resets the connection of process 0, which closes its descriptor; process 1 connects,
gets the same slot and calls `sys_tcp_recv`. -/
def reusedRecv : List Ev :=
  clientHandshake++[fromPeer 1001 0 tcpFlagRST []]++runs .rx 3++
  .sys 0 (.close 3) :: runs (.proc 0) 3++
  [.sys 1 .socket,.sys 1 (.connect 3 peerIP 80 0)]++runs (.proc 1) 6++
  [fromPeer 1000 1 (tcpFlagSYN ||| tcpFlagACK) []]++runs .rx 4++runs (.proc 1) 1++
  [.sys 1 (.recv 3 userAddrMin 10 0)]

theorem handle_isolated_recv :
    let σ := Trace.exec ledgerStep (.boot,.empty) reusedRecv
    ProcPc.viaConn (σ.1.pc (.proc 1)) = some ⟨0,2⟩ ∧ σ.1.shared.ref 0 = ⟨0,2⟩ ∧
      ∀ ok i op, (procSection σ.1.shared ok 1 (σ.1.pc (.proc 1))).op = some (i,op) → i = 0 :=
  handle_isolated reusedRecv 1 ⟨0,2⟩ (by decide +kernel) (by decide +kernel) (by decide +kernel)

/-- The peer resets the connection of process 0; process 1 connects and gets the same slot,
and a byte arrives for it. Then process 0 calls `sys_tcp_recv` on its old descriptor. -/
def staleRecv : List Ev :=
  clientHandshake++[fromPeer 1001 0 tcpFlagRST []]++runs .rx 3++
  [.sys 1 .socket,.sys 1 (.connect 3 peerIP 80 0)]++runs (.proc 1) 6++
  [fromPeer 1000 1 (tcpFlagSYN ||| tcpFlagACK) []]++runs .rx 4++runs (.proc 1) 1++
  [fromPeer 1001 1 tcpFlagACK [0x59]]++runs .rx 4++
  [.sys 0 (.recv 3 userAddrMin 10 0)]

/-- The call made for connection 1 of the slot reads the byte of connection 2. -/
theorem handle_reads_successor :
    let σ := Trace.exec ledgerStep (.boot,.empty) staleRecv
    σ.2.call 0 = some ⟨0,1⟩ ∧ σ.2.conn 1 = some ⟨0,2⟩ ∧ σ.1.shared.ref 0 = ⟨0,2⟩ ∧
      (ledgerStep σ (.run (.proc 0) true)).2 = [.delivered 0 [0x59],.returned 0 1] := by
  decide +kernel

end Gooos
