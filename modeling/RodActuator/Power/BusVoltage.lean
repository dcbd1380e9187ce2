import RodActuator.Lib.Binary32
import RodActuator.Sys.Event

/-! The bus voltage detector (`Dev/dev_power/dev_bus_voltage.c`). Each millisecond the mean of the bus voltage
    is compared with the thresholds; a fault is held until the voltage has been back for the recovery delay,
    and each change is sent as an event. -/

namespace RodActuator.Power
open Binary32 Sys

inductive VoltStatus where
  | normal | under | over
  deriving DecidableEq, Repr

structure VoltCfg where
  overTh : Single
  underTh : Single
  hyst : Single
  recoverMs : BitVec 32
  deriving DecidableEq, Repr

structure BusVoltage where
  volt : Single
  status : VoltStatus
  seenValid : Bool
  fault : VoltStatus
  waiting : Bool
  recoverCnt : BitVec 32
  faultVolt : Single
  deriving DecidableEq, Repr

namespace BusVoltage

def zeroed : BusVoltage := ⟨zero, .normal, false, .normal, false, 0, zero⟩

/-- `BusVoltage_Init`; that a valid voltage was seen is not forgotten. -/
def init (v : BusVoltage) : BusVoltage := { zeroed with seenValid := v.seenValid }

/-- `VOL_OFFSET` in volts is `1200.0f * 0.001f`. -/
def sample (F : Binary32) (mean : Single) : Single := F.add mean (F.mul 0x44960000#32 0x3A83126F#32)

/-- The voltage is back by more than the hysteresis. -/
def recovers (F : Binary32) (cfg : VoltCfg) (volt : Single) : VoltStatus → Bool
  | .over => F.lt volt (F.sub cfg.overTh cfg.hyst)
  | _ => F.lt (F.add cfg.underTh cfg.hyst) volt

def hold (F : Binary32) (cfg : VoltCfg) (volt : Single) (v : BusVoltage) : BusVoltage × BitVec 32 :=
  if recovers F cfg volt v.fault then
    if v.waiting then
      let cnt := v.recoverCnt + 1
      if cfg.recoverMs ≤ cnt then ({ v with fault := .normal, waiting := false, recoverCnt := 0 }, 0)
      else ({ v with recoverCnt := cnt }, 0)
    else ({ v with waiting := true, recoverCnt := 0 }, SysEvt.mask .voltRecoverWait)
  else ({ v with waiting := false, recoverCnt := 0 }, 0)

def detect (F : Binary32) (cfg : VoltCfg) (volt : Single) (v : BusVoltage) : BusVoltage :=
  if F.lt cfg.overTh volt then { v with fault := .over, faultVolt := volt }
  else if F.lt volt cfg.underTh then { v with fault := .under, faultVolt := volt }
  else v

/-- The event of a change from the fault `prev`, and the voltage of a recovery. -/
def report (volt : Single) (prev : VoltStatus) (v : BusVoltage) : BusVoltage × BitVec 32 :=
  if v.fault = prev then (v, 0)
  else match v.fault with
    | .over => (v, SysEvt.mask .voltOver)
    | .under => (v, SysEvt.mask .voltUnder)
    | .normal => ({ v with faultVolt := volt }, SysEvt.mask .voltNormal)

/-- `BusVoltage_Isr1ms` with the mean of the last 10 ms, and the events it sends. -/
def isr1ms (F : Binary32) (cfg : VoltCfg) (mean : Single) (v : BusVoltage) : BusVoltage × BitVec 32 :=
  let volt := sample F mean
  let v := { v with volt := volt, seenValid := v.seenValid || F.lt (F.add cfg.underTh cfg.hyst) volt }
  let r := if v.fault = .normal then (detect F cfg volt v, 0) else hold F cfg volt v
  let r' := report volt v.fault { r.1 with status := r.1.fault }
  (r'.1, r.2 ||| r'.2)

def isUnderVoltage (v : BusVoltage) : Bool := v.status = .under

def Synced (v : BusVoltage) : Prop := v.status = v.fault

theorem report_status (volt : Single) (prev : VoltStatus) (v : BusVoltage) :
    (report volt prev v).1.status = v.status ∧ (report volt prev v).1.fault = v.fault := by
  unfold report
  split
  · exact ⟨rfl, rfl⟩
  · split <;> exact ⟨rfl, rfl⟩

theorem synced_isr1ms (F : Binary32) (cfg : VoltCfg) (mean : Single) (v : BusVoltage) :
    Synced (isr1ms F cfg mean v).1 := by
  unfold isr1ms Synced
  dsimp only
  rw [(report_status _ _ _).1, (report_status _ _ _).2]

theorem isr1ms_fault (F : Binary32) (cfg : VoltCfg) (mean : Single) {v : BusVoltage} (synced : Synced v)
    (h : (isr1ms F cfg mean v).1.status ≠ .normal) :
    v.status ≠ .normal ∨ SysEvt.isIn .voltOver (isr1ms F cfg mean v).2 = true ∨
      SysEvt.isIn .voltUnder (isr1ms F cfg mean v).2 = true := by
  by_cases hfault : v.fault = .normal
  · right
    unfold isr1ms at h ⊢
    dsimp only at h ⊢
    rw [(report_status _ _ _).1] at h
    simp only [hfault, if_true] at h ⊢
    simp only [SysEvt.isIn_or, report]
    rw [if_neg h]
    split
    · exact .inl (by simp)
    · exact .inr (by simp)
    · exact absurd ‹_› h
  · exact .inl fun hstatus => hfault (synced.symm.trans hstatus)

theorem isr1ms_events (F : Binary32) (cfg : VoltCfg) (mean : Single) (v : BusVoltage) {e : SysEvt}
    (h : e.isIn (isr1ms F cfg mean v).2 = true) :
    e ∈ [SysEvt.voltOver, .voltUnder, .voltNormal, .voltRecoverWait] := by
  have hreport : ∀ volt prev v, e.isIn (report volt prev v).2 = true →
      e = .voltOver ∨ e = .voltUnder ∨ e = .voltNormal := by
    intro volt prev v hin
    unfold report at hin
    split at hin
    · simp at hin
    · split at hin <;> rw [SysEvt.isIn_mask_iff] at hin <;> simp [hin]
  have hhold : ∀ volt v, e.isIn (hold F cfg volt v).2 = true → e = .voltRecoverWait := by
    intro volt v hin
    unfold hold at hin
    dsimp only at hin
    split_ifs at hin
    · simp at hin
    · simp at hin
    · exact (SysEvt.isIn_mask_iff _ _).mp hin
    · simp at hin
  unfold isr1ms at h
  dsimp only at h
  rw [SysEvt.isIn_or, Bool.or_eq_true] at h
  rcases h with h | h
  · split at h
    · simp at h
    · simp [hhold _ _ h]
  · rcases hreport _ _ _ h with h | h | h <;> simp [h]

end BusVoltage

end RodActuator.Power
