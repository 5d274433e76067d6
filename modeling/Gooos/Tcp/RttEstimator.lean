import Gooos.Lib.Trace
import Gooos.Tcp.Sections

/-!
# The round-trip estimator over runs

`tcpRTTInit` and `tcpRTTUpdate` of `tcp_rtt.go` fed with any samples, with retransmissions and
re-arming of the timer in between. `srttTicks` is eight times the average, `rttvarTicks` four times
the deviation.
-/

namespace Gooos

open UInt32 (lt_iff_toNat_lt reduceToNat toNat_add toNat_div toNat_mul)

/-- A sample as the estimator counts it. -/
def sampleTicks (r : UInt32) : UInt32 := if r = 0 then 1 else r

/-- `tcpRTOMinTicks` to `tcpRTOMaxTicks`. -/
def RtoInRange (v : UInt32) : Prop := tcpRTOMinTicks ≤ v ∧ v ≤ tcpRTOMaxTicks

instance : DecidablePred RtoInRange := fun _ => inferInstanceAs (Decidable (_ ∧ _))

theorem rtoInRange_iff (v : UInt32) : RtoInRange v ↔ 100 ≤ v.toNat ∧ v.toNat ≤ 6000 := by
  simp only [RtoInRange,UInt32.le_iff_toNat_le,tcpRTOMinTicks,tcpRTOMaxTicks,reduceToNat]

theorem clampRTO_toNat (v : UInt32) : (clampRTO v).toNat = max 100 (min v.toNat 6000) := by
  simp only [clampRTO,lt_iff_toNat_lt,tcpRTOMinTicks,tcpRTOMaxTicks,reduceToNat]
  split
  · simp only [reduceToNat]
    omega
  · split
    · simp only [reduceToNat]
      omega
    · omega

inductive RttEv where
  | sample (rTicks : UInt32)
  | rtoFire (now : UInt64)
  | armRTO (now : UInt64)
  deriving DecidableEq, Repr

def rttStep (t : TCB) : RttEv → TCB × List Empty
  | .sample r => (tcpRTTUpdate t r,[])
  | .rtoFire now => ((tcpRTOFireBegin now t).1,[])
  | .armRTO now => (tcpArmRTO now t,[])

/-- The estimator's results as the formulas give them without a word size. -/
structure RttExact (t : TCB) (r : ℕ) (t' : TCB) : Prop where
  srtt : t'.srttTicks.toNat = if t.rttInitialized then 7*(t.srttTicks.toNat/8)+r else 8*r
  rttvar : t'.rttvarTicks.toNat = if t.rttInitialized
    then 3*(t.rttvarTicks.toNat/4)+(max (t.srttTicks.toNat/8) r-min (t.srttTicks.toNat/8) r)
    else if r/2*4 = 0 then 4 else r/2*4
  rto : (rttvarBasedRTO t').toNat = t'.srttTicks.toNat/8+max 1 t'.rttvarTicks.toNat

/-- What a step has to do when all samples are in `[lo,hi]`. -/
def RttSound (lo hi : ℕ) (t : TCB) (e : RttEv) : Prop :=
  let t' := (rttStep t e).1
  (t'.rtoTicks ≠ 0 → RtoInRange t'.rtoTicks) ∧ match e with
  | .sample r => RttExact t (sampleTicks r).toNat t' ∧
      8*lo ≤ t'.srttTicks.toNat ∧ t'.srttTicks.toNat ≤ 8*hi ∧ t'.rtoTicks ≠ 0 ∧
      min (t'.srttTicks.toNat/8) tcpRTOMaxTicks.toNat ≤ t'.rtoTicks.toNat
  | .rtoFire _ => (t.rtoTicks*2).toNat = t.rtoTicks.toNat*2
  | .armRTO _ => t'.rtoTicks ≠ 0

/-- The samples of a run. -/
def RttEv.Within (lo hi : ℕ) : RttEv → Prop
  | .sample r => lo ≤ (sampleTicks r).toNat ∧ (sampleTicks r).toNat ≤ hi
  | .rtoFire _ | .armRTO _ => True

instance (lo hi : ℕ) : DecidablePred (RttEv.Within lo hi)
  | .sample _ => inferInstanceAs (Decidable (_ ∧ _))
  | .rtoFire _ | .armRTO _ => .isTrue trivial

/-- Between steps. -/
structure RttInv (lo hi : ℕ) (t : TCB) : Prop where
  rto : t.rtoTicks ≠ 0 → RtoInRange t.rtoTicks
  srtt : t.rttInitialized → 8*lo ≤ t.srttTicks.toNat ∧ t.srttTicks.toNat ≤ 8*hi
  rttvar : t.rttInitialized → t.rttvarTicks.toNat ≤ 2^30

section

variable {lo hi : ℕ} {t : TCB}

theorem rtoTicks_of_clampRTO (t : TCB) : RtoInRange (clampRTO (rttvarBasedRTO t)) := by
  rw [rtoInRange_iff,clampRTO_toNat]
  omega

theorem ne_zero_of_rtoInRange {v : UInt32} (h : RtoInRange v) : v ≠ 0 := by
  rintro rfl
  exact absurd h.1 (by decide)

theorem rttvarBasedRTO_toNat (hs : t.srttTicks.toNat < 2^31) (hv : t.rttvarTicks.toNat ≤ 2^30) :
    (rttvarBasedRTO t).toNat = t.srttTicks.toNat/8+max 1 t.rttvarTicks.toNat := by
  have hdiv : (t.srttTicks/8).toNat = t.srttTicks.toNat/8 := toNat_div _ _
  have hk : (if t.rttvarTicks < 1 then 1 else t.rttvarTicks : UInt32).toNat =
      max 1 t.rttvarTicks.toNat := by
    simp only [lt_iff_toNat_lt,reduceToNat]
    split
    · simp only [reduceToNat]
      omega
    · omega
  rw [rttvarBasedRTO]
  simp only [toNat_add,hk,hdiv]
  omega

/-- The first sample. -/
theorem tcpRTTInit_exact (h : t.rttInitialized = false) {r : UInt32}
    (hr : (sampleTicks r).toNat < 2^28) :
    RttExact t (sampleTicks r).toNat (tcpRTTInit t r) ∧
      (tcpRTTInit t r).rttvarTicks.toNat ≤ 2^30 := by
  have hsrtt : (tcpRTTInit t r).srttTicks.toNat = 8*(sampleTicks r).toNat := by
    change (sampleTicks r*8).toNat = _
    rw [toNat_mul]
    simp only [reduceToNat]
    omega
  have hhalf : (sampleTicks r/2*4).toNat = (sampleTicks r).toNat/2*4 := by
    rw [toNat_mul,toNat_div]
    simp only [reduceToNat]
    omega
  have hrttvar : (tcpRTTInit t r).rttvarTicks.toNat =
      if (sampleTicks r).toNat/2*4 = 0 then 4 else (sampleTicks r).toNat/2*4 := by
    change (if sampleTicks r/2*4 = 0 then 1*4 else sampleTicks r/2*4 : UInt32).toNat = _
    simp only [← UInt32.toNat_inj,hhalf,reduceToNat]
    split
    · rfl
    · exact hhalf
  have hbound : (tcpRTTInit t r).rttvarTicks.toNat ≤ 2^30 := by
    rw [hrttvar]
    split <;> omega
  refine ⟨⟨?_,?_,rttvarBasedRTO_toNat (by omega) hbound⟩,hbound⟩
  · rw [hsrtt,h]
    rfl
  · rw [hrttvar,h]
    rfl

/-- A later sample. -/
theorem tcpRTTUpdate_exact (h : t.rttInitialized = true) {r : UInt32}
    (hr : (sampleTicks r).toNat < 2^28) (hs : t.srttTicks.toNat < 2^31)
    (hv : t.rttvarTicks.toNat ≤ 2^30) :
    RttExact t (sampleTicks r).toNat (tcpRTTUpdate t r) ∧
      (tcpRTTUpdate t r).rttvarTicks.toNat ≤ 2^30 := by
  have hdiv : (t.srttTicks/8).toNat = t.srttTicks.toNat/8 := toNat_div _ _
  have hupdate : tcpRTTUpdate t r = { t with
      rttvarTicks := 3*(t.rttvarTicks/4)+if sampleTicks r < t.srttTicks/8
        then t.srttTicks/8-sampleTicks r else sampleTicks r-t.srttTicks/8
      srttTicks := 7*(t.srttTicks/8)+sampleTicks r
      rtoTicks := (tcpRTTUpdate t r).rtoTicks } := by
    rw [tcpRTTUpdate,h]
    rfl
  have hsrtt : (tcpRTTUpdate t r).srttTicks.toNat =
      7*(t.srttTicks.toNat/8)+(sampleTicks r).toNat := by
    rw [hupdate]
    rw [toNat_add,toNat_mul]
    simp only [reduceToNat]
    omega
  have hdelta : (if sampleTicks r < t.srttTicks/8
      then t.srttTicks/8-sampleTicks r else sampleTicks r-t.srttTicks/8 : UInt32).toNat =
      max (t.srttTicks.toNat/8) (sampleTicks r).toNat-
        min (t.srttTicks.toNat/8) (sampleTicks r).toNat := by
    simp only [lt_iff_toNat_lt,hdiv]
    split
    · rw [UInt32.toNat_sub_of_le _ _ (UInt32.le_iff_toNat_le.mpr (by omega))]
      omega
    · rw [UInt32.toNat_sub_of_le _ _ (UInt32.le_iff_toNat_le.mpr (by omega))]
      omega
  have hrttvar : (tcpRTTUpdate t r).rttvarTicks.toNat = 3*(t.rttvarTicks.toNat/4)+
      (max (t.srttTicks.toNat/8) (sampleTicks r).toNat-
        min (t.srttTicks.toNat/8) (sampleTicks r).toNat) := by
    rw [hupdate]
    rw [toNat_add,toNat_mul,toNat_div]
    simp only [reduceToNat]
    omega
  have hbound : (tcpRTTUpdate t r).rttvarTicks.toNat ≤ 2^30 := by
    omega
  refine ⟨⟨?_,?_,rttvarBasedRTO_toNat (by omega) hbound⟩,hbound⟩
  · rw [hsrtt,h]
    rfl
  · rw [hrttvar,h]
    rfl

/-- Either way a sample is taken without wrapping, and the timer follows. -/
theorem sample_exact {r : UInt32} (hr : (sampleTicks r).toNat < 2^28)
    (hs : t.rttInitialized → t.srttTicks.toNat < 2^31)
    (hv : t.rttInitialized → t.rttvarTicks.toNat ≤ 2^30) :
    RttExact t (sampleTicks r).toNat (tcpRTTUpdate t r) ∧
      (tcpRTTUpdate t r).rttvarTicks.toNat ≤ 2^30 ∧ (tcpRTTUpdate t r).rttInitialized = true ∧
      (tcpRTTUpdate t r).rtoTicks = clampRTO (rttvarBasedRTO (tcpRTTUpdate t r)) := by
  cases h : t.rttInitialized with
  | false =>
    have hinit : tcpRTTUpdate t r = tcpRTTInit t r := by
      rw [tcpRTTUpdate,h]
      rfl
    obtain ⟨hexact,hbound⟩ := tcpRTTInit_exact h hr
    rw [hinit]
    exact ⟨hexact,hbound,rfl,rfl⟩
  | true =>
    obtain ⟨hexact,hbound⟩ := tcpRTTUpdate_exact h hr (hs h) (hv h)
    refine ⟨hexact,hbound,?_,?_⟩
    · rw [tcpRTTUpdate,if_neg (by rw [h]; decide)]
      exact h
    · rw [tcpRTTUpdate,h]
      rfl

theorem sound_sample {r : UInt32} (h : RttInv lo hi t) (hhi : hi < 2^28)
    (hlo : lo ≤ (sampleTicks r).toNat) (hr : (sampleTicks r).toNat ≤ hi) :
    RttSound lo hi t (.sample r) ∧ RttInv lo hi (tcpRTTUpdate t r) := by
  obtain ⟨hexact,hbound,-,hrto⟩ := sample_exact (t := t) (r := r) (by omega)
    (fun hi' => by have := (h.srtt hi').2; omega) h.rttvar
  have hrange : RtoInRange (tcpRTTUpdate t r).rtoTicks := hrto ▸ rtoTicks_of_clampRTO _
  have hsrtt : 8*lo ≤ (tcpRTTUpdate t r).srttTicks.toNat ∧
      (tcpRTTUpdate t r).srttTicks.toNat ≤ 8*hi := by
    rw [hexact.srtt]
    split
    next hinit =>
      obtain ⟨h1,h2⟩ := h.srtt hinit
      omega
    next => omega
  have hmin : min ((tcpRTTUpdate t r).srttTicks.toNat/8) tcpRTOMaxTicks.toNat ≤
      (tcpRTTUpdate t r).rtoTicks.toNat := by
    rw [hrto,clampRTO_toNat,hexact.rto]
    simp only [tcpRTOMaxTicks,reduceToNat]
    omega
  exact ⟨⟨fun _ => hrange,hexact,hsrtt.1,hsrtt.2,ne_zero_of_rtoInRange hrange,hmin⟩,
    fun _ => hrange,fun _ => hsrtt,fun _ => hbound⟩

/-- The back-off. -/
theorem rtoBackoff_rtoTicks (now : UInt64) (head : TcpRetxEntry) (t : TCB) :
    (rtoBackoff now head t).rtoTicks =
      if tcpRTOMaxTicks < t.rtoTicks*2 then tcpRTOMaxTicks else t.rtoTicks*2 := by
  rw [rtoBackoff]
  cases t.rtoFastRetx <;> rfl

theorem double_rtoTicks (h : t.rtoTicks ≠ 0 → RtoInRange t.rtoTicks) :
    (t.rtoTicks*2).toNat = t.rtoTicks.toNat*2 := by
  rw [toNat_mul]
  simp only [reduceToNat]
  by_cases h0 : t.rtoTicks = 0
  · rw [h0]
    rfl
  · have := (rtoInRange_iff _).mp (h h0)
    omega

/-- `tcpRTOFire` leaves the estimate alone, and the timer too or doubles it. -/
theorem tcpRTOFireBegin_rtt (now : UInt64) (t : TCB) :
    let t' := (tcpRTOFireBegin now t).1
    t'.rttInitialized = t.rttInitialized ∧ t'.srttTicks = t.srttTicks ∧
      t'.rttvarTicks = t.rttvarTicks ∧ (t'.rtoTicks = t.rtoTicks ∨
        t'.rtoTicks = if tcpRTOMaxTicks < t.rtoTicks*2 then tcpRTOMaxTicks else t.rtoTicks*2) := by
  intro t'
  have hbackoff : ∀ head, (rtoBackoff now head t).rttInitialized = t.rttInitialized ∧
      (rtoBackoff now head t).srttTicks = t.srttTicks ∧
      (rtoBackoff now head t).rttvarTicks = t.rttvarTicks := fun head => by
    rw [rtoBackoff]
    cases t.rtoFastRetx <;> exact ⟨rfl,rfl,rfl⟩
  change (tcpRTOFireBegin now t).1.rttInitialized = _ ∧ (tcpRTOFireBegin now t).1.srttTicks = _ ∧
    (tcpRTOFireBegin now t).1.rttvarTicks = _ ∧ ((tcpRTOFireBegin now t).1.rtoTicks = _ ∨
      (tcpRTOFireBegin now t).1.rtoTicks = _)
  rw [tcpRTOFireBegin]
  split
  · exact ⟨rfl,rfl,rfl,.inl rfl⟩
  split
  · exact ⟨rfl,rfl,rfl,.inl rfl⟩
  split
  · exact ⟨rfl,rfl,rfl,.inl rfl⟩
  split
  · exact ⟨rfl,rfl,rfl,.inl rfl⟩
  next head _ =>
    obtain ⟨h1,h2,h3⟩ := hbackoff head
    have h4 := rtoBackoff_rtoTicks now head t
    split
    · exact ⟨h1,h2,h3,.inr h4⟩
    · exact ⟨h1,h2,h3,.inr h4⟩

theorem sound_rtoFire (h : RttInv lo hi t) (now : UInt64) :
    RttSound lo hi t (.rtoFire now) ∧ RttInv lo hi (tcpRTOFireBegin now t).1 := by
  obtain ⟨hinit,hsrtt,hrttvar,hrto⟩ := tcpRTOFireBegin_rtt now t
  have hdouble := double_rtoTicks h.rto
  have hrange : (tcpRTOFireBegin now t).1.rtoTicks ≠ 0 →
      RtoInRange (tcpRTOFireBegin now t).1.rtoTicks := by
    obtain hsame | hdoubled := hrto
    · rw [hsame]
      exact h.rto
    · rw [hdoubled]
      split
      next => exact fun _ => by decide
      next hle =>
        intro hne
        have h0 : t.rtoTicks ≠ 0 := fun h0 => hne (by rw [h0]; rfl)
        have hold := (rtoInRange_iff _).mp (h.rto h0)
        rw [lt_iff_toNat_lt] at hle
        simp only [tcpRTOMaxTicks,reduceToNat] at hle
        rw [rtoInRange_iff]
        omega
  refine ⟨⟨hrange,hdouble⟩,hrange,fun h' => ?_,fun h' => ?_⟩
  · rw [hsrtt]
    exact h.srtt (hinit ▸ h')
  · rw [hrttvar]
    exact h.rttvar (hinit ▸ h')

theorem sound_armRTO (h : RttInv lo hi t) (now : UInt64) :
    RttSound lo hi t (.armRTO now) ∧ RttInv lo hi (tcpArmRTO now t) := by
  have hrange : RtoInRange (tcpArmRTO now t).rtoTicks := by
    change RtoInRange (if t.rtoTicks = 0 then tcpRTOInitTicks else t.rtoTicks)
    split
    next => decide
    next h0 => exact h.rto h0
  exact ⟨⟨fun _ => hrange,ne_zero_of_rtoInRange hrange⟩,fun _ => hrange,h.srtt,h.rttvar⟩

theorem rttSound_step (h : RttInv lo hi t) (hhi : hi < 2^28) {e : RttEv} (he : e.Within lo hi) :
    RttSound lo hi t e ∧ RttInv lo hi (rttStep t e).1 := by
  cases e with
  | sample r => exact sound_sample h hhi he.1 he.2
  | rtoFire now => exact sound_rtoFire h now
  | armRTO now => exact sound_armRTO h now

/-- From a connection without an estimate, whose timer was never set out of its range. -/
theorem rtt_estimator_bounded (lo hi : ℕ) (hhi : hi < 2^28) (t : TCB)
    (hinit : t.rttInitialized = false) (hrto : t.rtoTicks ≠ 0 → RtoInRange t.rtoTicks)
    (es : List RttEv) (hes : ∀ e ∈ es, e.Within lo hi) :
    Trace.Meets rttStep (RttSound lo hi) t es := by
  have hinv : RttInv lo hi t := by
    refine ⟨hrto,fun h => ?_,fun h => ?_⟩
    · rw [hinit] at h
      cases h
    · rw [hinit] at h
      cases h
  clear hinit hrto
  induction es generalizing t with
  | nil => trivial
  | cons e es ih =>
    obtain ⟨hsound,hnext⟩ := rttSound_step hinv hhi (hes e List.mem_cons_self)
    exact ⟨hsound,ih _ (fun e' h => hes e' (List.mem_cons_of_mem e h)) hnext⟩

/-- A connection that waits for the acknowledgement of 100 bytes: the timer is doubled. -/
theorem rtt_estimator_bounded_run :
    let t := (retxPush { TCB.zero with active := true } ⟨1,101,tcpFlagACK,0,100,0,0⟩).1
    let es := [.armRTO 5,.sample 20,.rtoFire 300]
    (Trace.exec rttStep t es).rtoTicks = 2*(tcpRTTUpdate t 20).rtoTicks ∧
      Trace.Meets rttStep (RttSound 3 20) t (es++[.sample 3,.rtoFire 900,.sample 7]) :=
  ⟨by decide +kernel,rtt_estimator_bounded 3 20 (by decide) _ rfl (fun h => absurd rfl h) _
    (by decide)⟩

/-! ### Rounding -/

/-- The exact average after one more sample. -/
def exactSRTT (avg : ℚ) (r : UInt32) : ℚ := 7/8*avg+1/8*r.toNat

theorem sampleTicks_of_pos {r : UInt32} (h : 1 ≤ r.toNat) : sampleTicks r = r :=
  if_neg fun h0 => by
    rw [h0] at h
    exact absurd h (by decide)

/-- Truncation by at most seven parts of eight is passed on with weight 7/8, so 49 is never left. -/
theorem error_step {n r : ℕ} {E : ℚ} (hlow : (n : ℚ) ≤ 8*E) (hhigh : 8*E-n ≤ 49) :
    ((7*(n/8)+r : ℕ) : ℚ) ≤ 8*(7/8*E+1/8*r) ∧ 8*(7/8*E+1/8*r)-(7*(n/8)+r : ℕ) ≤ 49 := by
  have hmod : ((n%8 : ℕ) : ℚ) ≤ 7 := by
    have := Nat.mod_lt n (show 0 < 8 by decide)
    exact_mod_cast Nat.le_of_lt_succ this
  have hsplit : (n : ℚ) = 8*((n/8 : ℕ) : ℚ)+((n%8 : ℕ) : ℚ) := by
    exact_mod_cast (Nat.div_add_mod n 8).symm
  push_cast
  constructor <;> linarith

/-- The run of later samples. -/
theorem error_run (rs : List UInt32) (hrs : ∀ r ∈ rs, 1 ≤ r.toNat ∧ r.toNat < 2^28) {t : TCB}
    {E : ℚ} (hinit : t.rttInitialized = true) (hs : t.srttTicks.toNat < 2^31)
    (hv : t.rttvarTicks.toNat ≤ 2^30) (hlow : (t.srttTicks.toNat : ℚ) ≤ 8*E)
    (hhigh : 8*E-t.srttTicks.toNat ≤ 49) :
    ((rs.foldl tcpRTTUpdate t).srttTicks.toNat : ℚ) ≤ 8*rs.foldl exactSRTT E ∧
      8*rs.foldl exactSRTT E-(rs.foldl tcpRTTUpdate t).srttTicks.toNat ≤ 49 := by
  induction rs generalizing t E with
  | nil => exact ⟨hlow,hhigh⟩
  | cons r rs ih =>
    obtain ⟨hpos,hlt⟩ := hrs r List.mem_cons_self
    have hr := sampleTicks_of_pos hpos
    obtain ⟨hexact,hbound,hinit',-⟩ := sample_exact (t := t) (r := r) (by rw [hr]; exact hlt)
      (fun _ => hs) (fun _ => hv)
    have hsrtt : (tcpRTTUpdate t r).srttTicks.toNat = 7*(t.srttTicks.toNat/8)+r.toNat := by
      rw [hexact.srtt,if_pos hinit,hr]
    obtain ⟨hlow',hhigh'⟩ := error_step (r := r.toNat) hlow hhigh
    rw [← hsrtt] at hlow' hhigh'
    exact ih (fun r' h => hrs r' (List.mem_cons_of_mem r h)) hinit' (by omega) hbound hlow' hhigh'

/-- `srttTicks` never exceeds eight times the exact average and stays within 49 of it. -/
theorem srtt_rounding_bounded (t : TCB) (hinit : t.rttInitialized = false) (r : UInt32)
    (rs : List UInt32) (hrs : ∀ r' ∈ r::rs, 1 ≤ r'.toNat ∧ r'.toNat < 2^28) :
    let srtt : ℚ := ((r::rs).foldl tcpRTTUpdate t).srttTicks.toNat
    let E : ℚ := rs.foldl exactSRTT r.toNat
    srtt ≤ 8*E ∧ 8*E-srtt ≤ 49 := by
  intro srtt E
  obtain ⟨hpos,hlt⟩ := hrs r List.mem_cons_self
  have hr := sampleTicks_of_pos hpos
  obtain ⟨hexact,hbound,hinit',-⟩ := sample_exact (t := t) (r := r) (by rw [hr]; exact hlt)
    (fun h => absurd (hinit.symm.trans h) Bool.false_ne_true)
    (fun h => absurd (hinit.symm.trans h) Bool.false_ne_true)
  have hsrtt : (tcpRTTUpdate t r).srttTicks.toNat = 8*r.toNat := by
    rw [hexact.srtt,if_neg (by rw [hinit]; decide),hr]
  refine error_run rs (fun r' h => hrs r' (List.mem_cons_of_mem r h)) hinit' (by omega) hbound ?_ ?_
  · rw [hsrtt]
    push_cast
    exact le_rfl
  · rw [hsrtt]
    push_cast
    linarith

theorem srtt_rounding_bounded_three :
    let rs : List UInt32 := [1,1]
    let srtt : ℚ := ((9::rs).foldl tcpRTTUpdate TCB.zero).srttTicks.toNat
    let E : ℚ := rs.foldl exactSRTT (9 : UInt32).toNat
    srtt ≤ 8*E ∧ 8*E-srtt ≤ 49 :=
  srtt_rounding_bounded TCB.zero rfl 9 [1,1] (by simp)

end

end Gooos
