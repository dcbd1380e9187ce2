import RodActuator.Lib.Binary32

/-! The rod position (`Dev/dev_rod/dev_rod_position.c`): hall pulses are summed up to a position, and a
    limit that is hit while calibration is allowed sets the position and calibrates it. -/

namespace RodActuator.Rod
open Binary32

inductive CalibState where
  | notCalibrated | calibrated
  deriving DecidableEq, Repr

/-- The calibration windows: `a` to `b` at the lower limit, `d` to `c` at the upper one. -/
structure CalibWindow where
  a : Single
  b : Single
  c : Single
  d : Single
  deriving DecidableEq, Repr

structure Position where
  positionMm : Single
  calibState : CalibState
  calibPending : Bool
  calibAllowed : Bool
  inCalibZoneMin : Bool
  inCalibZoneMax : Bool
  minLimitTriggered : Bool
  maxLimitTriggered : Bool
  strokeMm : Single
  reductionRatio : Single
  pulseToMm : Single
  calibWin : CalibWindow
  stopMarginMm : Single
  deriving DecidableEq, Repr

namespace Position

/-- `RodPosition_Init` on the zeroed position of a power-up, with the windows 1.0 and 24.0; it leaves the
    stop margin alone. -/
def init : Position where
  positionMm := zero
  calibState := .notCalibrated
  calibPending := true
  calibAllowed := true
  inCalibZoneMin := false
  inCalibZoneMax := false
  minLimitTriggered := false
  maxLimitTriggered := false
  strokeMm := zero
  reductionRatio := one
  pulseToMm := zero
  calibWin := ⟨one, one, 0x41C00000#32, 0x41C00000#32⟩
  stopMarginMm := zero

def setParams (F : Binary32) (strokeMm reductionRatio hallPulsesPerRev screwLeadMm : Single) (pos : Position) :
    Position :=
  { pos with
    strokeMm := strokeMm
    reductionRatio := reductionRatio
    pulseToMm := F.div screwLeadMm (F.mul reductionRatio hallPulsesPerRev) }

def inZoneMin (F : Binary32) (w : CalibWindow) (mm : Single) : Bool :=
  if F.lt w.a w.b then F.le w.a mm && F.le mm w.b else F.le mm w.a

def inZoneMax (F : Binary32) (w : CalibWindow) (mm : Single) : Bool :=
  if F.lt w.d w.c then F.le w.d mm && F.le mm w.c else F.le w.c mm

def update (F : Binary32) (deltaPulses : Int) (pos : Position) : Position :=
  let mm := F.add pos.positionMm (F.mul (F.ofInt deltaPulses) pos.pulseToMm)
  let zoneMin := inZoneMin F pos.calibWin mm
  let zoneMax := inZoneMax F pos.calibWin mm
  { pos with
    positionMm := mm
    inCalibZoneMin := zoneMin
    inCalibZoneMax := zoneMax
    calibAllowed := if pos.calibState = .notCalibrated then true else zoneMin || zoneMax }

/-- Takes `mm` as the position when a limit is hit and calibration is allowed. -/
def calibrateAt (mm : Single) (triggered : Bool) (pos : Position) : Bool × Position :=
  if triggered && pos.calibAllowed then
    (true, { pos with positionMm := mm, calibState := .calibrated, calibPending := false })
  else (false, pos)

def onMinLimit (triggered : Bool) (pos : Position) : Bool × Position :=
  calibrateAt zero triggered { pos with minLimitTriggered := triggered }

def onMaxLimit (triggered : Bool) (pos : Position) : Bool × Position :=
  calibrateAt pos.strokeMm triggered { pos with maxLimitTriggered := triggered }

def isCalibrated (pos : Position) : Bool := pos.calibState == .calibrated

end Position

end RodActuator.Rod
