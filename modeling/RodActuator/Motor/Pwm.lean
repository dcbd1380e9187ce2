import Mathlib.Data.BitVec

/-! The PWM output of the motor (`Dev/dev_pwm/dev_pwm.c`, `Adp/hc32_drv_pwm.c`). Two groups of outputs drive the two
    sides of the bridge with a duty each; a thread takes the duties to their targets in small steps, and the polarity of
    the outputs tells a running bridge from a stopped one. A compare value waits for the next peak of the counter, while a
    polarity does not. -/

namespace RodActuator.Motor

def pwmRunDutyPct : BitVec 8 := 20
def pwmRampStepPct : BitVec 8 := 2
def pwmRampStepStopPct : BitVec 8 := 10
def pwmDutyMin : BitVec 8 := 2
def pwmDutyMax : BitVec 8 := 98
def pwmDutyStop : BitVec 32 := 50
def pwmFreqDftHz : BitVec 32 := 6500

inductive PwmGrp where
  | u | v
  deriving DecidableEq, Repr

/-- The outputs of a group in phase, or the low one inverted. -/
inductive PwmPolarity where
  | run | stop
  deriving DecidableEq, Repr

/-- The registers of the timer: for each output the compare value that was written and the one in force, which the counter
    loaded at its last peak, and the polarity of each group, which is in force at once. -/
structure PwmHw where
  period : BitVec 16
  compareH : PwmGrp → BitVec 16
  compareL : PwmGrp → BitVec 16
  loadedH : PwmGrp → BitVec 16
  loadedL : PwmGrp → BitVec 16
  polarity : PwmGrp → PwmPolarity

inductive PwmWrite where
  | setCompare (grp : PwmGrp) (cmp : BitVec 16)
  | setPolarity (grp : PwmGrp) (polarity : PwmPolarity)
  deriving DecidableEq, Repr

namespace PwmHw

def dutyToCompare (period : BitVec 16) (dutyPct : BitVec 32) : BitVec 16 :=
  let dutyPct := if 100 < dutyPct then 100 else dutyPct
  ((period.setWidth 32 + 1) * dutyPct / 100).setWidth 16

/-- `PwmHw4_Init` at a clock of `pclk1`, when the counter has passed its first peak. -/
def init (pclk1 freqHz : BitVec 32) : PwmHw :=
  let period := (pclk1 / (if freqHz = 0 then pwmFreqDftHz else freqHz) - 1).setWidth 16
  let half := fun _ => dutyToCompare period pwmDutyStop
  ⟨period, half, half, half, half, fun _ => .stop⟩

/-- A peak of the counter loads what was written (`TMR4_OC_BUF_COND_PEAK`). -/
def peak (hw : PwmHw) : PwmHw := { hw with loadedH := hw.compareH, loadedL := hw.compareL }

/-- `PwmHw4_SetCompare` gives both outputs of a group the same value, `PwmHw4_SetRunPolarity` and `PwmHw4_SetStopPolarity`
    switch the polarity without waiting for a peak. -/
def write (hw : PwmHw) : PwmWrite → PwmHw
  | .setCompare grp cmp =>
    { hw with compareH := Function.update hw.compareH grp cmp, compareL := Function.update hw.compareL grp cmp }
  | .setPolarity grp polarity => { hw with polarity := Function.update hw.polarity grp polarity }

end PwmHw

inductive PwmCmdDir where
  | stop | fwd | rev
  deriving DecidableEq, Repr

inductive PwmState where
  | stop | ramp | run
  deriving DecidableEq, Repr

/-- The command and the state of the ramp. -/
structure Pwm where
  cmdDir : PwmCmdDir
  cmdDuty : BitVec 8
  st : PwmState
  runDir : PwmCmdDir
  uCur : BitVec 8
  vCur : BitVec 8
  uTgt : BitVec 8
  vTgt : BitVec 8
  uApplied : BitVec 8
  vApplied : BitVec 8
  deriving DecidableEq, Repr

namespace Pwm

def init : Pwm := ⟨.stop, 0, .stop, .stop, 50, 50, 50, 50, 0xFF, 0xFF⟩

/-- One step towards the target, and not beyond it. -/
def rampStep8 (cur tgt step : BitVec 8) : BitVec 8 :=
  if cur < tgt then if tgt < cur + step then tgt else cur + step
  else if tgt < cur then if tgt + step < cur then cur - step else tgt
  else cur

/-- Writes a duty that the timer does not have yet; the duty that it has then, and the write. -/
def applyDuty (period : BitVec 16) (grp : PwmGrp) (applied duty : BitVec 8) : BitVec 8 × List PwmWrite :=
  if applied ≠ duty then (duty, [.setCompare grp (PwmHw.dutyToCompare period (duty.setWidth 32))]) else (applied, [])

/-- The duty of a command within its limits. -/
def effDuty (duty : BitVec 8) : BitVec 8 :=
  let eff := if duty = 0 then pwmRunDutyPct else duty
  let eff := if eff < pwmDutyMin then pwmDutyMin else eff
  if pwmDutyMax < eff then pwmDutyMax else eff

/-- The targets of the two groups. -/
def targets (p : Pwm) : BitVec 8 × BitVec 8 :=
  match p.cmdDir with
  | .stop => (50, 50)
  | .fwd => (100 - effDuty p.cmdDuty, effDuty p.cmdDuty)
  | .rev => (effDuty p.cmdDuty, 100 - effDuty p.cmdDuty)

/-- `Cmd_Post`. -/
def cmdPost (dir : PwmCmdDir) (dutyPct : BitVec 8) (p : Pwm) : Pwm := { p with cmdDir := dir, cmdDuty := dutyPct }

/-- A stopped bridge that is to run takes the polarity of a running one. -/
def startRun (p : Pwm) : Pwm × List PwmWrite :=
  if p.st = .stop then
    ({ p with runDir := p.cmdDir, uCur := 50, vCur := 50, uApplied := 0xFF, vApplied := 0xFF, st := .ramp },
      [.setPolarity .u .run, .setPolarity .v .run])
  else (p, [])

def rampStepOf (dir : PwmCmdDir) : BitVec 8 := if dir = .stop then pwmRampStepStopPct else pwmRampStepPct

/-- The duties one step nearer to their targets, in the timer too. -/
def approach (period : BitVec 16) (p : Pwm) : Pwm × List PwmWrite :=
  let uCur := rampStep8 p.uCur p.uTgt (rampStepOf p.cmdDir)
  let vCur := rampStep8 p.vCur p.vTgt (rampStepOf p.cmdDir)
  let u := applyDuty period .u p.uApplied uCur
  let v := applyDuty period .v p.vApplied vCur
  ({ p with uCur := uCur, vCur := vCur, uApplied := u.1, vApplied := v.1 }, u.2 ++ v.2)

/-- The state after a step; a bridge that has come to a stop takes the polarity of a stopped one. -/
def settle (p : Pwm) : Pwm × List PwmWrite :=
  if p.uCur = p.uTgt ∧ p.vCur = p.vTgt then
    if p.cmdDir = .stop then ({ p with st := .stop }, [.setPolarity .u .stop, .setPolarity .v .stop])
    else ({ p with runDir := p.cmdDir, st := .run }, [])
  else ({ p with st := .ramp, runDir := if p.cmdDir ≠ .stop then p.cmdDir else p.runDir }, [])

/-- `Pwm_RampTick`: the state after it, and its writes in order. -/
def rampTick (period : BitVec 16) (p : Pwm) : Pwm × List PwmWrite :=
  let p := { p with uTgt := p.targets.1, vTgt := p.targets.2 }
  if p.st = .stop ∧ p.cmdDir = .stop then (p, [])
  else
    let started := p.startRun
    let stepped := started.1.approach period
    let settled := stepped.1.settle
    (settled.1, started.2 ++ stepped.2 ++ settled.2)

/-- `Dev_PwmMotor_EStop`. -/
def eStop (period : BitVec 16) (p : Pwm) : Pwm × List PwmWrite :=
  ({ p with cmdDir := .stop, cmdDuty := 0, uCur := 50, vCur := 50, uApplied := 50, vApplied := 50, st := .stop },
    [.setCompare .u (PwmHw.dutyToCompare period 50), .setCompare .v (PwmHw.dutyToCompare period 50),
      .setPolarity .u .stop, .setPolarity .v .stop])

end Pwm

/-- What happens to the PWM output: a command, a tick of its thread, an emergency stop, or a peak of the counter. -/
inductive PwmAct where
  | cmdPost (dir : PwmCmdDir) (dutyPct : BitVec 8)
  | tick
  | eStop
  | peak
  deriving DecidableEq, Repr

structure PwmMotor where
  pwm : Pwm
  hw : PwmHw

namespace PwmMotor

/-- After `Dev_Pwm_Init`. -/
def init (pclk1 : BitVec 32) : PwmMotor := ⟨.init, .init pclk1 pwmFreqDftHz⟩

/-- The state and the writes of an act; the counter itself writes nothing. -/
def act (s : PwmMotor) : PwmAct → Pwm × List PwmWrite
  | .cmdPost dir dutyPct => (s.pwm.cmdPost dir dutyPct, [])
  | .tick => s.pwm.rampTick s.hw.period
  | .eStop => s.pwm.eStop s.hw.period
  | .peak => (s.pwm, [])

/-- The registers after the writes of an act, and after the peak. -/
def next (s : PwmMotor) (a : PwmAct) : PwmMotor :=
  let hw := (s.act a).2.foldl PwmHw.write s.hw
  ⟨(s.act a).1, if a = .peak then hw.peak else hw⟩

def step (s : PwmMotor) (a : PwmAct) : Option PwmMotor := some (s.next a)

end PwmMotor

end RodActuator.Motor
