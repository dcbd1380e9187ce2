import RodActuator.Lib.Binary32
import RodActuator.Arb.Arbiter
import RodActuator.Sys.Event

/-! The over-current detector (`Dev/dev_power/dev_cur_sensor.c`) and the motor pins that mask it. Each millisecond
    the current is compared with the threshold; a start or a turn of the motor switches the comparison off for
    some milliseconds, while the inrush current flows. -/

namespace RodActuator.Power
open Binary32 Sys Arb

structure CurCfg where
  overThMa : Single
  windowMs : BitVec 16
  blockMs : BitVec 16
  deriving DecidableEq, Repr

/-- `g_cur_cfg` as it is set up: 1000 mA, 30 ms and 30 ms. -/
def CurCfg.default : CurCfg := ⟨0x447A0000#32, 30, 30⟩

structure CurrentSensor where
  currMa : Single
  status : Bool
  overMs : BitVec 16
  blockMs : BitVec 16
  faultMa : Single
  deriving DecidableEq, Repr

namespace CurrentSensor

def init : CurrentSensor := ⟨zero, false, 0, 0, zero⟩

/-- `CUR_SENSITIVITY_MA_PER_V` is 500 mA/V, and `CUR_SENSOR_ZERO_V` is 0 V. -/
def toMa (F : Binary32) (volt : Single) : Single := F.mul (F.sub volt zero) 0x43FA0000#32

/-- The window counter after a current over the threshold; it does not run past the window. -/
def overNext (cfg : CurCfg) (overMs : BitVec 16) : BitVec 16 :=
  if overMs < cfg.windowMs then overMs + 1 else overMs

/-- `CurrentSensor_Isr1ms` with the mean voltage of the last 10 ms, and the events it sends. -/
def isr1ms (F : Binary32) (cfg : CurCfg) (volt : Single) (s : CurrentSensor) : CurrentSensor × BitVec 32 :=
  let currMa := toMa F volt
  let s := { s with currMa := currMa }
  if s.blockMs ≠ 0 then
    ({ s with blockMs := s.blockMs - 1, overMs := 0, status := false }, 0)
  else
    let prev := s.status
    let s : CurrentSensor :=
      if F.lt cfg.overThMa currMa then
        let overMs := overNext cfg s.overMs
        { s with overMs := overMs, status := s.status || decide (cfg.windowMs ≤ overMs) }
      else { s with overMs := 0, status := false }
    if s.status ≠ prev ∧ s.status = true then ({ s with faultMa := currMa }, SysEvt.mask .overCurrent) else (s, 0)

def reqBlock (blockMs : BitVec 16) (s : CurrentSensor) : CurrentSensor := { s with blockMs := blockMs }

end CurrentSensor

/-- The pins with the detector that they mask. -/
structure Drive where
  motor : MotorGpio
  cur : CurrentSensor
  deriving DecidableEq, Repr

/-- `MotorGpio_WritePair` with its request to mask the detector. -/
def Drive.writePair (cfg : CurCfg) (fwdEn revEn : Bool) (d : Drive) : Drive :=
  let motor := d.motor.writePair fwdEn revEn
  { motor := motor
    cur :=
      if motor.prevOutDir ≠ none ∧ motor.prevOutDir ≠ d.motor.prevOutDir ∧ cfg.blockMs ≠ 0 then
        d.cur.reqBlock cfg.blockMs
      else d.cur }

end RodActuator.Power
