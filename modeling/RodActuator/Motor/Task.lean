import RodActuator.Motor.Hall

/-! The task of the hall sensors (`Dev/dev_hall_motor/dev_hall_motor.c`). Every 10 ms it makes a speed of the stored
    interval and looks whether the motor has stopped; at each run it takes the new edges over as signed pulses. -/

namespace RodActuator.Motor
open Adp Binary32

inductive MotorHallStatus where
  | none | aOnly | bOnly | both | error
  deriving DecidableEq, Repr

def motorHallStopDetectionMs : BitVec 64 := 50
def motorHallStallDetectionMs : BitVec 64 := 500
def motorHallCheckIntervalMs : BitVec 32 := 1000
def motorHallWarningThreshold : BitVec 32 := 10
def motorHallTaskPeriodMs : BitVec 32 := 10
def motorHallPolePairs : Nat := 3

/-- The whole of `MotorHallInst_t`. Its two rings have six places each; an index is one of them, and a count is at most
    six. -/
structure MotorHall extends MotorHallInst where
  filteredRpm : Single
  activeHallCount : BitVec 8
  hallALastSecondCount : BitVec 32
  hallBLastSecondCount : BitVec 32
  hallStatus : MotorHallStatus
  isRunning : Bool
  measurementValid : Bool
  totalMeasurements : BitVec 32
  rpmWindow : Fin 6 → Single
  writeIndex : Fin 6
  validCount : Fin 7
  intervalHistory : Fin 6 → BitVec 32
  intervalIdx : Fin 6
  intervalValidCount : Fin 7
  rpmLastMs : BitVec 32
  checkLastMs : BitVec 32
  lastCheckTime : BitVec 32
  lastTotal : BitVec 32
  firstRun : Bool
  pulseAccum : BitVec 32

namespace MotorHall

/-- Both halls have an interrupt channel. -/
def calcActiveHalls : Nat := 2

/-- After `MotorHall_Init` at power-up. -/
def init (nowMs : BitVec 32) : MotorHall where
  toMotorHallInst := MotorHallInst.init
  filteredRpm := zero
  activeHallCount := BitVec.ofNat 8 calcActiveHalls
  hallALastSecondCount := 0
  hallBLastSecondCount := 0
  hallStatus := .none
  isRunning := false
  measurementValid := false
  totalMeasurements := 0
  rpmWindow := fun _ => zero
  writeIndex := 0
  validCount := 0
  intervalHistory := fun _ => 0
  intervalIdx := 0
  intervalValidCount := 0
  rpmLastMs := nowMs
  checkLastMs := nowMs
  lastCheckTime := 0
  lastTotal := 0
  firstRun := true
  pulseAccum := 0

/-- The places of a ring that are filled. -/
def filled (count : Fin 7) : List (Fin 6) := (List.finRange 6).take count

def succCount (count : Fin 7) : Fin 7 := if count < 6 then count + 1 else count

def updateRpmFilter (F : Fpu) (newRpm : Single) (m : MotorHall) : MotorHall :=
  let rpmWindow := Function.update m.rpmWindow m.writeIndex newRpm
  let validCount := succCount m.validCount
  let sum := (filled validCount).foldl (fun sum i => F.add sum (rpmWindow i)) zero
  { m with
    rpmWindow := rpmWindow
    writeIndex := m.writeIndex + 1
    validCount := validCount
    filteredRpm := F.div sum (F.ofInt validCount) }

/-- `MotorHall_AverageInterval` first takes the last interval once more into its history. -/
def pushInterval (m : MotorHall) : MotorHall :=
  if Hall.InWindow m.lastPulseInterval then
    { m with
      intervalHistory := Function.update m.intervalHistory m.intervalIdx m.lastPulseInterval
      intervalIdx := m.intervalIdx + 1
      intervalValidCount := succCount m.intervalValidCount
      measurementValid := true }
  else m

/-- The mean of the history, which is 0 for fewer than two intervals. -/
def averageInterval (F : Fpu) (m : MotorHall) : Single :=
  if m.intervalValidCount < 2 then zero
  else
    let sum := (filled m.intervalValidCount).foldl (fun sum i => sum + m.intervalHistory i) (0 : BitVec 32)
    F.div (F.ofInt sum.toNat) (F.ofInt m.intervalValidCount)

/-- 60000000 µs a minute, 12 edges a turn, and at most 1000000 turns a minute. -/
def intervalToRpm (F : Fpu) (intervalUs : BitVec 32) : Single :=
  if intervalUs = 0 ∨ motorHallMaxPulseIntervalUs < intervalUs then zero
  else
    let pulsesPerRev := motorHallPolePairs * 2 * calcActiveHalls
    let rpm := F.div 0x4C64E1C0#32 (F.mul (F.ofInt intervalUs.toNat) (F.ofInt pulsesPerRev))
    if F.lt 0x49742400#32 rpm then 0x49742400#32 else rpm

def calculateRpm (F : Fpu) (m : MotorHall) : MotorHall :=
  let m := m.pushInterval
  let avg := m.averageInterval F
  if F.le avg zero && F.le zero avg then { m with currentRpm := zero, filteredRpm := zero }
  else
    let rawRpm := intervalToRpm F (F.toUInt32 avg)
    if F.lt zero rawRpm then
      let m := { m with currentRpm := rawRpm }.updateRpmFilter F rawRpm
      { m with totalMeasurements := m.totalMeasurements + 1 }
    else { m with currentRpm := zero, filteredRpm := zero }

/-- A motor that turns and has had no pulse for 50 ms is stopped, and one without a pulse for 500 ms stands still. -/
def performStallDetection (F : Fpu) (currentTimeUs : BitVec 64) (m : MotorHall) : MotorHall :=
  let timeSinceLastPulse := currentTimeUs - m.lastPulseTimeUs
  let m :=
    if F.lt zero m.currentRpm ∧ motorHallStopDetectionMs * 1000 < timeSinceLastPulse then
      let m :=
        if m.currentDirection ≠ .stop then
          { m with
            currentDirection := .stop
            directionConfidence := 0
            directionConfirmCount := 0
            directionChanged := true }
        else m
      { m with isRunning := false }
    else if F.lt zero m.currentRpm then { m with isRunning := true }
    else m
  if motorHallStallDetectionMs * 1000 < timeSinceLastPulse then
    { m with stalled := true, currentRpm := zero, filteredRpm := zero, isRunning := false }
  else m

/-- The state of the two sensors by their counts. -/
def checkHallStatus (currentTime : BitVec 32) (m : MotorHall) : MotorHall :=
  if currentTime - m.lastCheckTime < motorHallCheckIntervalMs then m
  else
    let a := m.hallPulseCountA
    let b := m.hallPulseCountB
    let m := { m with lastCheckTime := currentTime, hallALastSecondCount := a, hallBLastSecondCount := b }
    if a = 0 ∧ b = 0 then { m with hallStatus := .none }
    else if b = 0 then { m with hallStatus := .aOnly, activeHallCount := 1 }
    else if a = 0 then { m with hallStatus := .bOnly, activeHallCount := 1 }
    else
      let diff := if b < a then a - b else b - a
      let total := a + b
      if 0 < total ∧ motorHallWarningThreshold < diff * 100 / total then { m with hallStatus := .error }
      else { m with hallStatus := .both, activeHallCount := 2 }

/-- The direction, or the last valid one while there is none. -/
def effectiveDirection (m : MotorHall) : MotorHallDir :=
  if m.currentDirection = .stop ∨ m.currentDirection = .none then m.lastValidDirection else m.currentDirection

/-- The new edges as signed pulses. -/
def accumulatePulses (m : MotorHall) : MotorHall :=
  let total := m.hallPulseCountA + m.hallPulseCountB
  let m := if m.firstRun then { m with lastTotal := total, firstRun := false } else m
  if total ≠ m.lastTotal then
    let delta := if m.lastTotal < total then total - m.lastTotal else m.lastTotal - total
    { m with
      pulseAccum := match m.effectiveDirection with
        | .forward => m.pulseAccum + delta
        | .reverse => m.pulseAccum - delta
        | _ => m.pulseAccum
      lastTotal := total }
  else m

/-- The measurement of a task run. -/
def measures (nowMs : BitVec 32) (m : MotorHall) : Bool := motorHallTaskPeriodMs ≤ nowMs - m.rpmLastMs

/-- The part of a task run that measures every 10 ms. -/
def rpmTimer (F : Fpu) (nowMs : BitVec 32) (timestampUs : BitVec 64) (m : MotorHall) : MotorHall :=
  if m.measures nowMs then { (m.calculateRpm F).performStallDetection F timestampUs with rpmLastMs := nowMs } else m

/-- The part that checks the sensors every second. -/
def hallCheckTimer (nowMs : BitVec 32) (m : MotorHall) : MotorHall :=
  if motorHallCheckIntervalMs ≤ nowMs - m.checkLastMs then { m.checkHallStatus nowMs with checkLastMs := nowMs } else m

/-- `MotorHall_Task` for the axis of the motor, at a tick and a timestamp. -/
def task (F : Fpu) (nowMs : BitVec 32) (timestampUs : BitVec 64) (m : MotorHall) : MotorHall :=
  if m.valid then ((m.rpmTimer F nowMs timestampUs).hallCheckTimer nowMs).accumulatePulses else m

/-- `MotorHall_GetDeltaPulses`: what it returns, and the instance after it. -/
def getDeltaPulses (m : MotorHall) : BitVec 32 × MotorHall := (m.pulseAccum, { m with pulseAccum := 0 })

/-! ### What each part changes -/

theorem pushInterval_eq (m : MotorHall) : m.pushInterval = { m with
    intervalHistory := m.pushInterval.intervalHistory
    intervalIdx := m.pushInterval.intervalIdx
    intervalValidCount := m.pushInterval.intervalValidCount
    measurementValid := m.pushInterval.measurementValid } := by
  unfold pushInterval
  split <;> rfl

theorem calculateRpm_eq (F : Fpu) (m : MotorHall) : m.calculateRpm F = { m.pushInterval with
    currentRpm := (m.calculateRpm F).currentRpm
    filteredRpm := (m.calculateRpm F).filteredRpm
    rpmWindow := (m.calculateRpm F).rpmWindow
    writeIndex := (m.calculateRpm F).writeIndex
    validCount := (m.calculateRpm F).validCount
    totalMeasurements := (m.calculateRpm F).totalMeasurements } := by
  unfold calculateRpm
  dsimp only
  split_ifs <;> rfl

theorem performStallDetection_eq (F : Fpu) (currentTimeUs : BitVec 64) (m : MotorHall) :
    m.performStallDetection F currentTimeUs = { m with
      currentRpm := (m.performStallDetection F currentTimeUs).currentRpm
      filteredRpm := (m.performStallDetection F currentTimeUs).filteredRpm
      isRunning := (m.performStallDetection F currentTimeUs).isRunning
      stalled := (m.performStallDetection F currentTimeUs).stalled
      currentDirection := (m.performStallDetection F currentTimeUs).currentDirection
      directionConfidence := (m.performStallDetection F currentTimeUs).directionConfidence
      directionConfirmCount := (m.performStallDetection F currentTimeUs).directionConfirmCount
      directionChanged := (m.performStallDetection F currentTimeUs).directionChanged } := by
  unfold performStallDetection
  dsimp only
  split_ifs <;> rfl

theorem hallCheckTimer_eq (nowMs : BitVec 32) (m : MotorHall) : m.hallCheckTimer nowMs = { m with
    checkLastMs := (m.hallCheckTimer nowMs).checkLastMs
    lastCheckTime := (m.hallCheckTimer nowMs).lastCheckTime
    hallALastSecondCount := (m.hallCheckTimer nowMs).hallALastSecondCount
    hallBLastSecondCount := (m.hallCheckTimer nowMs).hallBLastSecondCount
    hallStatus := (m.hallCheckTimer nowMs).hallStatus
    activeHallCount := (m.hallCheckTimer nowMs).activeHallCount } := by
  unfold hallCheckTimer checkHallStatus
  dsimp only
  split_ifs <;> rfl

theorem accumulatePulses_eq (m : MotorHall) : m.accumulatePulses = { m with
    lastTotal := m.accumulatePulses.lastTotal
    firstRun := m.accumulatePulses.firstRun
    pulseAccum := m.accumulatePulses.pulseAccum } := by
  unfold accumulatePulses
  dsimp only
  split_ifs <;> rfl

end MotorHall

/-- The instance and the timebase. -/
structure MotorAxis where
  m : MotorHall
  timer : Timer6

namespace MotorAxis

/-- The instance and the timebase after an interrupt. -/
def ofHall (s : MotorAxis) (h : Hall) : MotorAxis := ⟨{ s.m with toMotorHallInst := h.inst }, h.timer⟩

def hallA (counter : BitVec 16) (s : MotorAxis) : MotorAxis := s.ofHall (Hall.hallA counter ⟨s.m.toMotorHallInst, s.timer⟩)

def hallB (F : Fpu) (invertDir aHigh bHigh : Bool) (counter : BitVec 16) (s : MotorAxis) : MotorAxis :=
  s.ofHall (Hall.hallB F.toBinary32 invertDir aHigh bHigh counter ⟨s.m.toMotorHallInst, s.timer⟩)

/-- A task run reads the timebase at a value of the counter. -/
def task (F : Fpu) (counter : BitVec 16) (nowMs : BitVec 32) (s : MotorAxis) : MotorAxis :=
  if s.m.valid then
    let timer := s.timer.updateTimestamp counter
    ⟨s.m.task F nowMs timer.totalElapsedUs, timer⟩
  else s

end MotorAxis

/-- An interrupt of a sensor, a run of the task, or a read of the pulses. -/
inductive MotorAct where
  | hallA (counter : BitVec 16)
  | hallB (invertDir aHigh bHigh : Bool) (counter : BitVec 16)
  | task (counter : BitVec 16) (nowMs : BitVec 32)
  | getDeltaPulses
  deriving DecidableEq, Repr

def MotorAxis.step (F : Fpu) (s : MotorAxis) : MotorAct → MotorAxis
  | .hallA counter => s.hallA counter
  | .hallB invertDir aHigh bHigh counter => s.hallB F invertDir aHigh bHigh counter
  | .task counter nowMs => s.task F counter nowMs
  | .getDeltaPulses => { s with m := s.m.getDeltaPulses.2 }

end RodActuator.Motor
