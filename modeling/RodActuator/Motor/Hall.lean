import RodActuator.Adp.Timebase
import RodActuator.Lib.Binary32

/-! The interrupts of the two hall sensors (`Dev/dev_hall_motor/dev_hall_motor.c`). Each edge takes the interval since
    the last edge of either sensor off the timebase, and a falling edge of B shows the direction by the level of A. -/

namespace RodActuator.Motor
open Adp Binary32

inductive MotorHallDir where
  | none | forward | reverse | stop
  deriving DecidableEq, Repr

/-- The fields of `MotorHallInst_t` that the interrupts read and write, and the level of B that they remember. -/
structure MotorHallInst where
  valid : Bool
  lastPulseInterval : BitVec 32
  lastPulseTimeUs : BitVec 64
  pulseCounter : BitVec 32
  speedDataReady : Bool
  currentRpm : Single
  hallPulseCountA : BitVec 32
  hallPulseCountB : BitVec 32
  currentDirection : MotorHallDir
  lastValidDirection : MotorHallDir
  directionConfidence : BitVec 8
  directionConfirmCount : BitVec 8
  directionDataReady : Bool
  directionChanged : Bool
  stalled : Bool
  hallBLast : Option Bool
  deriving DecidableEq, Repr

/-- After `MotorHall_Init`, for the axis of the interrupts. -/
def MotorHallInst.init : MotorHallInst where
  valid := true
  lastPulseInterval := 0
  lastPulseTimeUs := 0
  pulseCounter := 0
  speedDataReady := false
  currentRpm := zero
  hallPulseCountA := 0
  hallPulseCountB := 0
  currentDirection := .none
  lastValidDirection := .none
  directionConfidence := 0
  directionConfirmCount := 0
  directionDataReady := false
  directionChanged := false
  stalled := false
  hallBLast := none

/-- The instance of the motor with the timebase that it measures by. -/
structure Hall where
  inst : MotorHallInst
  timer : Timer6
  deriving DecidableEq, Repr

def motorHallMinPulseIntervalUs : BitVec 32 := 50
def motorHallMaxPulseIntervalUs : BitVec 32 := 200000
def motorHallDirectionConfirmCnt : BitVec 8 := 3

namespace Hall

/-- The interval is neither too short nor too long. -/
def InWindow (us : BitVec 32) : Prop := motorHallMinPulseIntervalUs ≤ us ∧ us ≤ motorHallMaxPulseIntervalUs

instance (us : BitVec 32) : Decidable (InWindow us) := inferInstanceAs (Decidable (_ ∧ _))

/-- Takes over an interval in the window. -/
def accept (intervalUs : BitVec 32) (now : BitVec 64) (inst : MotorHallInst) : MotorHallInst :=
  if InWindow intervalUs then
    { inst with
      lastPulseInterval := intervalUs
      lastPulseTimeUs := now
      pulseCounter := inst.pulseCounter + 1
      stalled := false
      speedDataReady := true }
  else inst

/-- What the two callbacks have in common. -/
def measure (counter : BitVec 16) (h : Hall) : Hall :=
  let r := h.timer.getDelta counter
  ⟨accept (r.2.deltaToUs r.1) r.2.totalElapsedUs h.inst, r.2⟩

/-- `Hall_A_IrqCallback` at a value of the counter. -/
def hallA (counter : BitVec 16) (h : Hall) : Hall :=
  if h.inst.valid then
    measure counter { h with inst := { h.inst with hallPulseCountA := h.inst.hallPulseCountA + 1 } }
  else h

/-- A direction is taken over when it was detected three times in a row. -/
def confirm (detected : MotorHallDir) (inst : MotorHallInst) : MotorHallInst :=
  if inst.currentDirection ≠ detected then
    let count := inst.directionConfirmCount + 1
    if motorHallDirectionConfirmCnt ≤ count then
      { inst with
        currentDirection := detected
        directionConfidence := 100
        lastValidDirection := detected
        directionConfirmCount := 0
        directionChanged := true }
    else { inst with directionConfirmCount := count }
  else { inst with directionConfirmCount := 0 }

/-- The direction at an edge of B, with the levels of the pins; it is not taken while the speed is 0. -/
def direct (F : Binary32) (invertDir aHigh bHigh : Bool) (inst : MotorHallInst) : MotorHallInst :=
  let inst := { inst with directionDataReady := true }
  let stopped := F.le inst.currentRpm zero && F.le zero inst.currentRpm
  let inst :=
    if inst.hallBLast = some true ∧ bHigh = false ∧ stopped = false then
      confirm (if aHigh = invertDir then .reverse else .forward) inst
    else inst
  { inst with hallBLast := some bHigh }

/-- `Hall_B_IrqCallback` at a value of the counter. -/
def hallB (F : Binary32) (invertDir aHigh bHigh : Bool) (counter : BitVec 16) (h : Hall) : Hall :=
  if h.inst.valid then
    let h := measure counter { h with inst := { h.inst with hallPulseCountB := h.inst.hallPulseCountB + 1 } }
    { h with inst := direct F invertDir aHigh bHigh h.inst }
  else h

/-! ### What an edge stores -/

/-- The microseconds that an edge reads. -/
def intervalUs (counter : BitVec 16) (h : Hall) : BitVec 32 := h.timer.deltaToUs (h.timer.getDelta counter).1

/-- An edge counts a pulse and stores its interval if that is in the window, and leaves both otherwise; the next edge
    measures from it. -/
structure Stores (counter : BitVec 16) (h h' : Hall) : Prop where
  valid : h'.inst.valid = h.inst.valid
  timer : h'.timer = (h.timer.getDelta counter).2
  accepted : InWindow (intervalUs counter h) →
    h'.inst.pulseCounter = h.inst.pulseCounter + 1 ∧ h'.inst.lastPulseInterval = intervalUs counter h
  rejected : ¬InWindow (intervalUs counter h) → h'.inst.pulseCounter = h.inst.pulseCounter

variable {counter : BitVec 16} {h : Hall}

theorem measure_inst (counter : BitVec 16) (h : Hall) :
    (measure counter h).inst = accept (intervalUs counter h) h.timer.totalElapsedUs h.inst := rfl

/-- Only the last pulse changes. -/
theorem measure_eq (counter : BitVec 16) (h : Hall) : (measure counter h).inst = { h.inst with
    lastPulseInterval := (measure counter h).inst.lastPulseInterval
    lastPulseTimeUs := (measure counter h).inst.lastPulseTimeUs
    pulseCounter := (measure counter h).inst.pulseCounter
    stalled := (measure counter h).inst.stalled
    speedDataReady := (measure counter h).inst.speedDataReady } := by
  rw [measure_inst, accept]
  split <;> rfl

theorem stores_measure (counter : BitVec 16) (h : Hall) : Stores counter h (measure counter h) := by
  refine ⟨?_, rfl, fun hin => ?_, fun hout => ?_⟩ <;> rw [measure_inst, accept]
  · split <;> rfl
  · rw [if_pos hin]
    exact ⟨rfl, rfl⟩
  · rw [if_neg hout]

theorem stores_hallA (hvalid : h.inst.valid = true) : Stores counter h (hallA counter h) := by
  have hmeasure := stores_measure counter { h with inst := { h.inst with hallPulseCountA := h.inst.hallPulseCountA + 1 } }
  rw [hallA, if_pos hvalid]
  exact ⟨hmeasure.valid, hmeasure.timer, hmeasure.accepted, hmeasure.rejected⟩

/-- Only the direction changes. -/
theorem direct_eq (F : Binary32) (invertDir aHigh bHigh : Bool) (inst : MotorHallInst) :
    direct F invertDir aHigh bHigh inst = { inst with
      currentDirection := (direct F invertDir aHigh bHigh inst).currentDirection
      lastValidDirection := (direct F invertDir aHigh bHigh inst).lastValidDirection
      directionConfidence := (direct F invertDir aHigh bHigh inst).directionConfidence
      directionConfirmCount := (direct F invertDir aHigh bHigh inst).directionConfirmCount
      directionDataReady := true
      directionChanged := (direct F invertDir aHigh bHigh inst).directionChanged
      hallBLast := some bHigh } := by
  unfold direct confirm
  dsimp only
  split_ifs <;> rfl

theorem stores_hallB (F : Binary32) (invertDir aHigh bHigh : Bool) (hvalid : h.inst.valid = true) :
    Stores counter h (hallB F invertDir aHigh bHigh counter h) := by
  have hmeasure := stores_measure counter { h with inst := { h.inst with hallPulseCountB := h.inst.hallPulseCountB + 1 } }
  rw [hallB, if_pos hvalid]
  dsimp only
  rw [direct_eq]
  exact ⟨hmeasure.valid, hmeasure.timer, hmeasure.accepted, hmeasure.rejected⟩

/-- A pulse is counted exactly where the interval is in the window, and then it is stored. -/
theorem Stores.counts_iff {h' : Hall} (hstores : Stores counter h h') :
    h'.inst.pulseCounter ≠ h.inst.pulseCounter ↔ InWindow (intervalUs counter h) := by
  by_cases hin : InWindow (intervalUs counter h)
  · have hcounted := (hstores.accepted hin).1
    refine iff_of_true (fun hsame => ?_) hin
    rw [hcounted] at hsame
    bv_omega
  · exact iff_of_false (not_not.mpr (hstores.rejected hin)) hin

end Hall

end RodActuator.Motor
