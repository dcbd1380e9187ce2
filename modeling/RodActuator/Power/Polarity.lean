import RodActuator.Arb.Kernel
import RodActuator.Sys.Event

/-! The direction of the power supply (`Dev/dev_power/dev_polarity.c`). The pin is sampled into a window; a
    full window of equal samples is a direction, and a change of it goes to the state machine and, as a run
    command, to the arbiter. -/

namespace RodActuator.Power
open Arb Sys

inductive PolarityState where
  | unknown | unpowered | fwd | rev | abnormal
  deriving DecidableEq, Repr

def polarityWinSize : Nat := 5
def polarityArbRunDutyPct : Nat := 98

/-- `PolarityWin_t` and the last stable state. -/
structure Polarity where
  state : PolarityState
  win : BitVec 16
  cnt : Nat
  deriving DecidableEq, Repr

inductive PolarityOut where
  | sysEvent (bits : BitVec 32)
  | arbSendCommand (msg : Msg)
  deriving DecidableEq, Repr

namespace Polarity

def init : Polarity := ⟨.unknown, 0, 0⟩

def winPush (bit : Bool) (p : Polarity) : Polarity :=
  { p with
    win := (p.win <<< 1) ||| (BitVec.ofBool bit).setWidth 16
    cnt := if p.cnt < polarityWinSize then p.cnt + 1 else p.cnt }

def winFull (p : Polarity) : Bool := polarityWinSize ≤ p.cnt

def winAllZero (p : Polarity) : Bool := p.winFull && p.win == 0

def winAllOne (p : Polarity) : Bool := p.winFull && p.win == BitVec.ofNat 16 (2 ^ polarityWinSize - 1)

def eval (p : Polarity) : PolarityState :=
  if p.winAllZero then .fwd else if p.winAllOne then .rev else .unknown

def forceUnpowered (p : Polarity) : Polarity := { p with win := 0, cnt := 0, state := .unpowered }

/-- The change of the direction and the run command of its power input. -/
def turned (deviceId : DeviceId) (cmdType : CmdType) : List PolarityOut :=
  [.sysEvent (SysEvt.mask .polarityChg),
    .arbSendCommand ⟨0, deviceId, prioPower, cmdType, polarityArbRunDutyPct, 0⟩]

/-- `Polarity_Scan` with the pin, and what it sends in order. -/
def scan (underVoltage pin : Bool) (p : Polarity) : Polarity × List PolarityOut :=
  if underVoltage then (p.forceUnpowered, [])
  else
    let p := p.winPush pin
    let st := p.eval
    if st = .unknown ∨ st = p.state then (p, [])
    else ({ p with state := st }, match st with
      | .fwd => turned .powerPos .runFwd
      | .rev => turned .powerNeg .runRev
      | _ => [])

/-- What a scan sends belongs to a change of the direction. -/
theorem mem_scan {underVoltage pin : Bool} {p : Polarity} {o : PolarityOut} (h : o ∈ (p.scan underVoltage pin).2) :
    o ∈ turned .powerPos .runFwd ∨ o ∈ turned .powerNeg .runRev := by
  unfold scan at h
  dsimp only at h
  split_ifs at h
  · cases h
  · cases h
  · split at h
    · exact .inl h
    · exact .inr h
    · cases h

end Polarity

end RodActuator.Power
