import Mathlib
import Gooos.Tcp.Threads

/-!
# The RTO scanner and the echo server

`tcpRTOScanPass` of `tcp_retx.go` and `tcpEchoPass` of `tcp.go`, section by section.
Both walk the table by slot number.
-/

namespace Gooos

def nextSlot (i : Slot) : Option Slot :=
  if h : i.val+1 < 16 then some ⟨i.val+1,h⟩ else none

/-- The selection loop of `tcpRTOScanPass`. -/
def scanSelect (now : UInt64) (tcb : Slot → TCB) : FireSet where
  rto i := (tcb i).active && (tcb i).rtoDeadline != 0 && decide ((tcb i).rtoDeadline ≤ now)
  timeWait i := (tcb i).active && (tcb i).state == .timeWait &&
    (tcb i).timeWaitDeadline != 0 && decide ((tcb i).timeWaitDeadline ≤ now)
  persist i := (tcb i).active && (tcb i).persistDeadline != 0 &&
    decide ((tcb i).persistDeadline ≤ now)
  delack i := (tcb i).active && (tcb i).delackDeadline != 0 &&
    decide ((tcb i).delackDeadline ≤ now)

/-- The firing loop of `tcpRTOScanPass` after slot `i`. -/
def scanNext (i : Slot) (f : FireSet) : ScanPc :=
  match nextSlot i with
  | some j => .rto j f
  | none => .idle

/-- One section of the scanner. -/
def scanSection (s : Shared) (ok : Bool) : ScanPc → Effect ScanPc
  | .idle => { next := .idle }
  | .select => { next := .rto 0 (scanSelect s.pitTicks s.tcb) }
  | .rto i f =>
    if f.rto i then
      let r := tcpRTOFireBegin s.pitTicks (s.tcb i)
      { next := match r.2 with
          | .spurious => .persist i f
          | .abandon => .rtoFree i f
          | .resend retxFlags saved => .rtoSend i f retxFlags saved
        op := some (i,.rtoBegin)
        obs := if r.2 = .spurious then [] else [.rtoFired i] }
    else { next := .persist i f }
  | .rtoFree i f => { next := .persist i f, op := some (i,.free) }
  | .rtoSend i f retxFlags saved =>
    let next := if hasFlag retxFlags tcpFlagSYN then .rtoRestore i f saved else .persist i f
    match rtoSegment retxFlags (s.tcb i) with
    | some (flags,options) =>
      let r := tcpSendSegment s.ourIP ok (s.tcb i) flags options []
      { next := next, op := some (i,.send s.ourIP ok flags options []), obs := sentObs i r.2 }
    | none => { next := next }
  | .rtoRestore i f saved =>
    { next := .persist i f, op := some (i,.rtoRestore saved) }
  | .persist i f =>
    if f.persist i then
      let r := tcpPersistFireBegin s.pitTicks (s.tcb i)
      { next := match r.2 with
          | some probe => .persistSend i f probe
          | none => .delack i f
        op := some (i,.persistBegin)
        obs := if r.2.isSome then [.persistFired i] else [] }
    else { next := .delack i f }
  | .persistSend i f probe =>
    let r := tcpSendSegment s.ourIP ok (s.tcb i) (tcpFlagACK ||| tcpFlagPSH) [] probe
    { next := .delack i f
      op := some (i,.send s.ourIP ok (tcpFlagACK ||| tcpFlagPSH) [] probe)
      obs := sentObs i r.2 }
  | .delack i f =>
    if f.delack i then
      let r := tcpDelackFireBegin s.pitTicks (s.tcb i)
      { next := if r.2 then .delackSend i f else .timeWait i f, op := some (i,.delackBegin) }
    else { next := .timeWait i f }
  | .delackSend i f =>
    let r := tcpSendSegment s.ourIP ok (s.tcb i) tcpFlagACK [] []
    { next := .timeWait i f
      op := some (i,.send s.ourIP ok tcpFlagACK [] [])
      obs := sentObs i r.2 }
  | .timeWait i f =>
    if f.timeWait i then { next := scanNext i f, op := some (i,.free) }
    else { next := scanNext i f }

def echoNext (i : Slot) : EchoPc :=
  match nextSlot i with
  | some j => .check j
  | none => .idle

/-- One section of the echo server. -/
def echoSection (s : Shared) (ok : Bool) : EchoPc → Effect EchoPc
  | .idle => { next := .idle }
  | .check i =>
    let x := s.tcb i
    if !x.active || x.localPort != tcpEchoListenPort then { next := echoNext i }
    else match x.state with
      | .established =>
        if x.rxBuf.rbLen = 0 then { next := echoNext i }
        else
          let r := echoTake x
          { next := if r.2 = [] then echoNext i else .send i r.2
            op := some (i,.echoTake) }
      | .closeWait => { next := if x.rxBuf.rbLen = 0 then .finSend i else echoNext i }
      | _ => { next := echoNext i }
  | .send i bytes =>
    let r := tcpSendSegment s.ourIP ok (s.tcb i) (tcpFlagACK ||| tcpFlagPSH) [] bytes
    { next := if r.2.isSome then .commit i bytes.length else echoNext i
      op := some (i,.send s.ourIP ok (tcpFlagACK ||| tcpFlagPSH) [] bytes)
      obs := sentObs i r.2 }
  | .commit i n => { next := echoNext i, op := some (i,.echoDataCommit n) }
  | .finSend i =>
    let r := tcpSendSegment s.ourIP ok (s.tcb i) (tcpFlagFIN ||| tcpFlagACK) [] []
    { next := if r.2.isSome then .finCommit i else echoNext i
      op := some (i,.send s.ourIP ok (tcpFlagFIN ||| tcpFlagACK) [] [])
      obs := sentObs i r.2 }
  | .finCommit i => { next := echoNext i, op := some (i,.echoFinCommit) }

end Gooos
