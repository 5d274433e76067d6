import Mathlib
import Gooos.Lib.BigEndian
import Gooos.Tcp.Segment

/-!
# TCP options

`tcpParseOptions` with its index and checked reads, and the grammar of an option block
that it walks.
-/

namespace Gooos

open BigEndian

/-- The loop of `tcpParseOptions` at index `i`, with `iter` iterations left of its cap. A read
outside the block is `none`. -/
def tcpParseOptionsLoop (opts : List UInt8) : ℕ → ℕ → UInt16 → Option (UInt16 × Bool)
  | 0, _, peerMSS => some (peerMSS,true)
  | iter+1, i, peerMSS =>
    if opts.length ≤ i then some (peerMSS,true) else do
    let kind ← opts[i]?
    if kind = tcpOptEnd then some (peerMSS,true)
    else if kind = tcpOptNop then tcpParseOptionsLoop opts iter (i+1) peerMSS
    else if opts.length ≤ i+1 then some (tcpDefaultMSS,false)
    else do
      let length ← opts[i+1]?
      if length < 2 ∨ opts.length < i+length.toNat then some (tcpDefaultMSS,false)
      else if kind = tcpOptMSS ∧ length = 4 then do
        let hi ← opts[i+2]?
        let lo ← opts[i+3]?
        tcpParseOptionsLoop opts iter (i+length.toNat) (word16 hi lo)
      else tcpParseOptionsLoop opts iter (i+length.toNat) peerMSS

/-- One option of a block: padding, or a kind with the bytes after its length. -/
inductive TCPOption
  | nop
  | tlv (kind : UInt8) (body : List UInt8)
  deriving DecidableEq, Repr

/-- The options of a block up to the end of the list, `none` when one of them is malformed:
its length byte is missing, below two or runs over the end. -/
def optionsOf : List UInt8 → Option (List TCPOption)
  | [] => some []
  | kind :: rest =>
    if kind = tcpOptEnd then some []
    else if kind = tcpOptNop then (optionsOf rest).map (TCPOption.nop :: ·)
    else match rest with
      | [] => none
      | length :: body =>
        if length < 2 ∨ body.length+2 < length.toNat then none
        else (optionsOf (body.drop (length.toNat-2))).map
          (TCPOption.tlv kind (body.take (length.toNat-2)) :: ·)
termination_by bytes => bytes.length

/-- The value of a well-formed MSS option. -/
def TCPOption.mss : TCPOption → Option UInt16
  | .tlv kind [hi,lo] => if kind = tcpOptMSS then some (word16 hi lo) else none
  | _ => none

/-- The last MSS option of the list, `d` without one. -/
def lastMSS (os : List TCPOption) (d : UInt16) : UInt16 := (os.filterMap TCPOption.mss).getLast?.getD d

/-- What a walk over the whole block returns. -/
def optionsResult (d : UInt16) : Option (List TCPOption) → UInt16 × Bool
  | none => (tcpDefaultMSS,false)
  | some os => (lastMSS os d,true)

theorem lastMSS_cons (o : TCPOption) (os : List TCPOption) (d : UInt16) :
    lastMSS (o :: os) d = lastMSS os (o.mss.getD d) := by
  unfold lastMSS
  cases ho : o.mss with
  | none => rw [List.filterMap_cons_none ho,Option.getD_none]
  | some v => rw [List.filterMap_cons_some ho,List.getLast?_cons,Option.getD_some,Option.getD_some]

theorem optionsResult_cons (o : TCPOption) (d : UInt16) (os : Option (List TCPOption)) :
    optionsResult d (os.map (o :: ·)) = optionsResult (o.mss.getD d) os := by
  cases os with
  | none => rfl
  | some os => exact congrArg (·,true) (lastMSS_cons o os d)

/-- An option of four bytes is an MSS option exactly when its kind says so. -/
theorem mss_tlv (kind length : UInt8) (body : List UInt8) (d : UInt16)
    (hmin : ¬length < 2) (hfit : ¬body.length+2 < length.toNat) :
    (TCPOption.tlv kind (body.take (length.toNat-2))).mss.getD d =
      if kind = tcpOptMSS ∧ length = 4 then word16 (body.getD 0 0) (body.getD 1 0) else d := by
  have htake : (body.take (length.toNat-2)).length = length.toNat-2 := by
    rw [List.length_take]
    omega
  by_cases h4 : length = 4
  · subst h4
    match body, hfit with
    | hi :: lo :: rest, _ =>
      change (if kind = tcpOptMSS then some (word16 hi lo) else none).getD d = _
      by_cases hk : kind = tcpOptMSS
      · rw [if_pos hk,if_pos ⟨hk,rfl⟩]
        rfl
      · rw [if_neg hk,if_neg (fun h => hk h.1)]
        rfl
    | [hi], h => exact absurd (show 1+2 < 4 by decide) h
    | [], h => exact absurd (show 0+2 < 4 by decide) h
  · have hne : length.toNat ≠ 4 := fun h => h4 (UInt8.toNat_inj.mp h)
    rw [if_neg (fun h => h4 h.2)]
    -- two bytes of body would make the length four
    match hb : body.take (length.toNat-2), htake with
    | [], _ => rfl
    | [_], _ => rfl
    | [_,_], h => exact absurd h (by simp only [List.length_cons,List.length_nil]; omega)
    | _ :: _ :: _ :: _, _ => rfl

/-- With one iteration for each byte that is left, the walk returns what the options say. -/
theorem tcpParseOptionsFrom_eq (iter : ℕ) (bytes : List UInt8) (peerMSS : UInt16)
    (h : bytes.length ≤ iter) :
    tcpParseOptionsFrom iter bytes peerMSS = optionsResult peerMSS (optionsOf bytes) := by
  -- every iteration consumes at least one byte, so the bound goes down with `iter`
  induction iter generalizing bytes peerMSS with
  | zero =>
    obtain rfl := List.length_eq_zero_iff.mp (Nat.le_zero.mp h)
    rw [optionsOf]
    rfl
  | succ iter ih =>
    cases bytes with
    | nil =>
      rw [optionsOf]
      rfl
    | cons kind rest =>
      have hrest : rest.length ≤ iter := Nat.succ_le_succ_iff.mp h
      rw [optionsOf.eq_def,tcpParseOptionsFrom.eq_def]
      simp only
      by_cases hend : kind = tcpOptEnd
      · rw [if_pos hend,if_pos hend]
        rfl
      rw [if_neg hend,if_neg hend]
      by_cases hnop : kind = tcpOptNop
      · rw [if_pos hnop,if_pos hnop,optionsResult_cons]
        exact ih rest peerMSS hrest
      rw [if_neg hnop,if_neg hnop]
      cases rest with
      | nil => rfl
      | cons length body =>
        simp only
        by_cases hbad : length < 2 ∨ body.length+2 < length.toNat
        · have hbad' : length < 2 ∨ (length :: body).length+1 < length.toNat := hbad
          rw [if_pos hbad,if_pos hbad']
          rfl
        have hbad' : ¬(length < 2 ∨ (length :: body).length+1 < length.toNat) := hbad
        rw [if_neg hbad,if_neg hbad',optionsResult_cons,mss_tlv kind length body peerMSS
          (fun h => hbad (Or.inl h)) (fun h => hbad (Or.inr h))]
        obtain ⟨m,hm⟩ : ∃ m, length.toNat = m+2 := by
          have hmin : ¬length < 2 := fun h => hbad (Or.inl h)
          rw [UInt8.lt_iff_toNat_lt] at hmin
          simp only [UInt8.reduceToNat] at hmin
          exact ⟨length.toNat-2,by omega⟩
        rw [hm]
        refine ih (body.drop m) _ ?_
        rw [List.length_drop]
        simp only [List.length_cons] at hrest
        omega

/-- The index walks over the tails of the block, and every read is inside it. -/
theorem tcpParseOptionsLoop_eq (opts : List UInt8) (iter i : ℕ) (peerMSS : UInt16) :
    tcpParseOptionsLoop opts iter i peerMSS =
      some (tcpParseOptionsFrom iter (opts.drop i) peerMSS) := by
  induction iter generalizing i peerMSS with
  | zero => rfl
  | succ iter ih =>
    rw [tcpParseOptionsLoop]
    by_cases hi : opts.length ≤ i
    · rw [if_pos hi,List.drop_eq_nil_of_le hi]
      rfl
    rw [if_neg hi]
    have hlt : i < opts.length := Nat.lt_of_not_le hi
    have hdrop : opts.drop i = opts[i] :: opts.drop (i+1) := List.drop_eq_getElem_cons hlt
    have hlen : (opts.drop (i+1)).length+1 = opts.length-i := by
      rw [List.length_drop]
      omega
    rw [List.getElem?_eq_getElem hlt,hdrop,tcpParseOptionsFrom.eq_def]
    simp only [Option.bind_eq_bind,Option.bind_some]
    generalize opts[i] = kind
    by_cases hend : kind = tcpOptEnd
    · rw [if_pos hend,if_pos hend]
    rw [if_neg hend,if_neg hend]
    by_cases hnop : kind = tcpOptNop
    · rw [if_pos hnop,if_pos hnop]
      exact ih (i+1) peerMSS
    rw [if_neg hnop,if_neg hnop]
    by_cases hlast : opts.length ≤ i+1
    · rw [if_pos hlast,List.drop_eq_nil_of_le hlast]
    rw [if_neg hlast]
    have hlt' : i+1 < opts.length := Nat.lt_of_not_le hlast
    have hdrop' : opts.drop (i+1) = opts[i+1] :: opts.drop (i+2) := List.drop_eq_getElem_cons hlt'
    have hread : ∀ k, (opts.drop (i+1)).getD k 0 = opts.getD (i+1+k) 0 := by
      intro k
      rw [List.getD_eq_getElem?_getD,List.getD_eq_getElem?_getD,List.getElem?_drop]
    rw [List.getElem?_eq_getElem hlt',Option.bind_some]
    rw [hdrop'] at hread hlen ⊢
    simp only [hread,hlen]
    generalize opts[i+1] = length
    by_cases hbad : length < 2 ∨ opts.length < i+length.toNat
    · have hbad' : length < 2 ∨ opts.length-i < length.toNat := by
        refine hbad.imp_right fun h => ?_
        omega
      rw [if_pos hbad,if_pos hbad']
    have hbad' : ¬(length < 2 ∨ opts.length-i < length.toNat) := by
      refine fun h => hbad (h.imp_right fun h => ?_)
      omega
    have htail : (kind :: length :: opts.drop (i+2)).drop length.toNat =
        opts.drop (i+length.toNat) := by
      have hmin : ¬length < 2 := fun h => hbad (Or.inl h)
      rw [UInt8.lt_iff_toNat_lt] at hmin
      simp only [UInt8.reduceToNat] at hmin
      obtain ⟨m,hm⟩ : ∃ m, length.toNat = m+2 := ⟨length.toNat-2,by omega⟩
      rw [hm,List.drop_succ_cons,List.drop_succ_cons,List.drop_drop]
      congr 1
      omega
    rw [if_neg hbad,if_neg hbad',htail]
    by_cases hmss : kind = tcpOptMSS ∧ length = 4
    · have h4 : ¬opts.length < i+4 := by
        intro h
        rw [hmss.2] at hbad
        exact hbad (Or.inr h)
      have hhi : opts[i+2]? = some (opts.getD (i+1+1) 0) := by
        rw [List.getElem?_eq_getElem (by omega),List.getD_eq_getElem _ _ (by omega)]
      have hlo : opts[i+3]? = some (opts.getD (i+1+2) 0) := by
        rw [List.getElem?_eq_getElem (by omega),List.getD_eq_getElem _ _ (by omega)]
      rw [if_pos hmss,if_pos hmss,hhi,hlo]
      exact ih _ _
    · rw [if_neg hmss,if_neg hmss]
      exact ih _ _

/-- For a block of at most forty bytes the walk reads only inside the block and returns what
the grammar says, and no larger cap would change its result. -/
theorem option_walk_complete (opts : List UInt8) (h : opts.length ≤ 40) :
    tcpParseOptionsLoop opts 40 0 tcpDefaultMSS =
      some (optionsResult tcpDefaultMSS (optionsOf opts)) ∧
    tcpParseOptions opts = optionsResult tcpDefaultMSS (optionsOf opts) ∧
    ∀ cap, 40 ≤ cap → tcpParseOptionsLoop opts cap 0 tcpDefaultMSS =
      tcpParseOptionsLoop opts 40 0 tcpDefaultMSS := by
  have hwalk : ∀ cap, 40 ≤ cap → tcpParseOptionsLoop opts cap 0 tcpDefaultMSS =
      some (optionsResult tcpDefaultMSS (optionsOf opts)) := by
    intro cap hcap
    rw [tcpParseOptionsLoop_eq,List.drop_zero,tcpParseOptionsFrom_eq cap opts _ (h.trans hcap)]
  refine ⟨hwalk 40 le_rfl,tcpParseOptionsFrom_eq 40 opts _ h,fun cap hcap => ?_⟩
  rw [hwalk cap hcap,hwalk 40 le_rfl]

/-- Forty bytes of padding with the MSS option last. -/
theorem option_walk_complete_padded :
    let opts := List.replicate 36 tcpOptNop++tcpBuildMSSOption 1460
    opts.length = 40 ∧ tcpParseOptionsLoop opts 40 0 tcpDefaultMSS = some (1460,true) ∧
      optionsResult tcpDefaultMSS (optionsOf opts) = (1460,true) := by
  intro opts
  have hloop : tcpParseOptionsLoop opts 40 0 tcpDefaultMSS = some (1460,true) := by decide
  have hspec := (option_walk_complete opts (by decide)).1
  exact ⟨by decide,hloop,Option.some.inj (hspec.symm.trans hloop)⟩

end Gooos
