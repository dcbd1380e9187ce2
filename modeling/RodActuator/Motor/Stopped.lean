import RodActuator.Lib.IeeeBounds
import RodActuator.Lib.Transition
import RodActuator.Motor.Task

/-! The speed of a motor that has stopped. Each measurement makes a speed of the stored intervals before it looks how
    long the last pulse is ago, and only after 500 ms the speed is cleared; after 50 ms it is measured anew. -/

namespace RodActuator.Motor
open Adp Binary32 Ieee Transition

/-! ### Callbacks at given readings -/

namespace Hall

/-- `Hall_A_IrqCallback` where the timebase shows an interval and a timestamp. -/
def edgeA (intervalUs : BitVec 32) (us : BitVec 64) (inst : MotorHallInst) : MotorHallInst :=
  if inst.valid then accept intervalUs us { inst with hallPulseCountA := inst.hallPulseCountA + 1 } else inst

/-- `Hall_B_IrqCallback`, with the levels of the pins. -/
def edgeB (F : Binary32) (invertDir aHigh bHigh : Bool) (intervalUs : BitVec 32) (us : BitVec 64)
    (inst : MotorHallInst) : MotorHallInst :=
  if inst.valid then
    direct F invertDir aHigh bHigh (accept intervalUs us { inst with hallPulseCountB := inst.hallPulseCountB + 1 })
  else inst

/-- The callbacks on the timebase take these readings off it. -/
theorem hallA_inst (counter : BitVec 16) (h : Hall) :
    (hallA counter h).inst = edgeA (intervalUs counter h) h.timer.totalElapsedUs h.inst := by
  unfold hallA edgeA
  split <;> rfl

theorem hallB_inst (F : Binary32) (invertDir aHigh bHigh : Bool) (counter : BitVec 16) (h : Hall) :
    (hallB F invertDir aHigh bHigh counter h).inst =
      edgeB F invertDir aHigh bHigh (intervalUs counter h) h.timer.totalElapsedUs h.inst := by
  unfold hallB edgeB
  split <;> rfl

/-- What a callback leaves: the speed, and the last pulse but for an interval in the window. -/
structure Takes (intervalUs : BitVec 32) (us : BitVec 64) (inst inst' : MotorHallInst) : Prop where
  valid : inst'.valid = inst.valid
  currentRpm : inst'.currentRpm = inst.currentRpm
  accepted : InWindow intervalUs → inst'.lastPulseInterval = intervalUs ∧ inst'.lastPulseTimeUs = us
  rejected : ¬InWindow intervalUs →
    inst'.lastPulseInterval = inst.lastPulseInterval ∧ inst'.lastPulseTimeUs = inst.lastPulseTimeUs

theorem takes_accept (intervalUs : BitVec 32) (us : BitVec 64) (inst : MotorHallInst) :
    Takes intervalUs us inst (accept intervalUs us inst) := by
  unfold accept
  by_cases hin : InWindow intervalUs
  · rw [if_pos hin]
    exact ⟨rfl, rfl, fun _ => ⟨rfl, rfl⟩, fun hout => absurd hin hout⟩
  · rw [if_neg hin]
    exact ⟨rfl, rfl, fun h => absurd h hin, fun _ => ⟨rfl, rfl⟩⟩

variable {intervalUs : BitVec 32} {us : BitVec 64} {inst : MotorHallInst}

theorem takes_edgeA (hvalid : inst.valid = true) : Takes intervalUs us inst (edgeA intervalUs us inst) := by
  obtain ⟨hkept, hrpm, haccepted, hrejected⟩ :=
    takes_accept intervalUs us { inst with hallPulseCountA := inst.hallPulseCountA + 1 }
  rw [edgeA, if_pos hvalid]
  exact ⟨hkept, hrpm, haccepted, hrejected⟩

theorem takes_edgeB (F : Binary32) (invertDir aHigh bHigh : Bool) (hvalid : inst.valid = true) :
    Takes intervalUs us inst (edgeB F invertDir aHigh bHigh intervalUs us inst) := by
  obtain ⟨hkept, hrpm, haccepted, hrejected⟩ :=
    takes_accept intervalUs us { inst with hallPulseCountB := inst.hallPulseCountB + 1 }
  rw [edgeB, if_pos hvalid, direct_eq]
  exact ⟨hkept, hrpm, haccepted, hrejected⟩

end Hall

namespace MotorHall

/-! ### The speed of a measurement -/

def Windowed (m : MotorHall) : Prop := ∀ i ∈ filled m.intervalValidCount, Hall.InWindow (m.intervalHistory i)

theorem mem_filled {count : Fin 7} {i : Fin 6} : i ∈ filled count ↔ i.val < count.val := by
  revert count i
  decide

theorem length_filled (count : Fin 7) : (filled count).length = count := by
  revert count
  decide

/-- A sum of intervals in the window does not wrap. -/
theorem sum_between (history : Fin 6 → BitVec 32) (places : List (Fin 6)) (start : BitVec 32) (k : Nat)
    (h : ∀ i ∈ places, Hall.InWindow (history i)) (hlen : k + places.length ≤ 6)
    (hstart : 50 * k ≤ start.toNat ∧ start.toNat ≤ 200000 * k) :
    50 * (k + places.length) ≤ (places.foldl (fun sum i => sum + history i) start).toNat ∧
      (places.foldl (fun sum i => sum + history i) start).toNat ≤ 200000 * (k + places.length) := by
  induction places generalizing start k with
  | nil => exact hstart
  | cons i places ih =>
    obtain ⟨hmin, hmax⟩ : 50 ≤ (history i).toNat ∧ (history i).toNat ≤ 200000 := h i List.mem_cons_self
    rw [List.length_cons] at hlen ⊢
    have hadd : (start + history i).toNat = start.toNat + (history i).toNat := by
      rw [BitVec.toNat_add]
      exact Nat.mod_eq_of_lt (by omega)
    have hrest := ih (start + history i) (k + 1) (fun j hj => h j (List.mem_cons_of_mem _ hj)) (by omega) (by omega)
    rwa [Nat.add_right_comm, Nat.add_assoc] at hrest

variable {m : MotorHall}

/-- The mean of at least two intervals in the window is there too. -/
theorem between_averageInterval (hwindowed : m.Windowed) (hcount : 2 ≤ m.intervalValidCount.val) :
    Between 50 200000 (m.averageInterval ieeeFpu) := by
  have hnot : ¬m.intervalValidCount < 2 := Nat.not_lt.mpr hcount
  have hbound := m.intervalValidCount.isLt
  obtain ⟨hlower, hupper⟩ := sum_between m.intervalHistory (filled m.intervalValidCount) 0 0 hwindowed
    (by rw [length_filled]; omega) ⟨by decide, by decide⟩
  rw [length_filled, Nat.zero_add] at hlower hupper
  rw [averageInterval, if_neg hnot]
  have hsum := between_ofInt (by omega) hlower hupper
  have hplaces := between_ofInt (by omega) (Nat.le_refl m.intervalValidCount.val) (Nat.le_refl _)
  exact between_div hsum hplaces (by omega) (by decide) (Nat.le_refl _) (Nat.le_refl _)

/-- 60000000.0 -/
theorem between_minute : Between 60000000 60000000 0x4C64E1C0#32 :=
  ⟨by decide, by decide, by decide +kernel, by decide +kernel⟩

theorem intervalToRpm_pos {us : BitVec 32} (hmin : 50 ≤ us.toNat) (hmax : us.toNat ≤ 200000) :
    lt zero (intervalToRpm ieeeFpu us) = true := by
  have hin : ¬(us = 0 ∨ motorHallMaxPulseIntervalUs < us) := by
    rintro (rfl | hlt)
    · exact absurd hmin (by decide)
    · exact absurd hmax (Nat.not_le.mpr hlt)
  have hinterval := between_ofInt (by decide) hmin hmax
  have hedges := between_ofInt (by decide) (Nat.le_refl 12) (Nat.le_refl 12)
  have hproduct := between_mul hinterval hedges (by decide)
  have hrpm : Between 25 100000 _ := between_div between_minute hproduct (by decide) (by decide) (by decide) (by decide)
  rw [intervalToRpm, if_neg hin]
  dsimp only
  split
  · decide
  · exact hrpm.pos (by decide)

/-! ### One measurement -/

/-- A speed compares equal to 0. -/
def isZero (x : Single) : Bool := ieeeFpu.le x zero && ieeeFpu.le zero x

/-- The motor does not run and has no speed. -/
structure Zeroed (m : MotorHall) : Prop where
  isRunning : m.isRunning = false
  currentRpm : isZero m.currentRpm = true
  filteredRpm : isZero m.filteredRpm = true

instance : DecidablePred Zeroed := fun _ => decidable_of_iff (_ ∧ _ ∧ _)
  ⟨fun h => ⟨h.1, h.2.1, h.2.2⟩, fun h => ⟨h.1, h.2, h.3⟩⟩

theorem isZero_zero : isZero zero = true := by decide

theorem not_zero_of_pos {x : Single} (h : lt zero x = true) : isZero x = false := by
  have hpos := (lt_iff.mp h).2.2
  refine Bool.eq_false_iff.mpr fun hzero => ?_
  have hle := (le_iff.mp (Bool.and_eq_true_iff.mp hzero).1).2.2
  omega

/-- The places of the history are filled in order, with intervals in the window. -/
structure Stored (m : MotorHall) : Prop where
  windowed : m.Windowed
  next : m.intervalValidCount.val < 6 → m.intervalIdx.val = m.intervalValidCount.val

theorem val_succCount (count : Fin 7) : (succCount count).val = min (count.val + 1) 6 := by
  revert count
  decide

theorem Stored.pushInterval (h : Stored m) : Stored m.pushInterval := by
  unfold MotorHall.pushInterval
  split
  · rename_i hin
    refine ⟨fun i hi => ?_, fun hfew => ?_⟩
    · rw [mem_filled, val_succCount] at hi
      dsimp only
      by_cases hnew : i = m.intervalIdx
      · rw [hnew, Function.update_self]
        exact hin
      · rw [Function.update_of_ne hnew]
        refine h.windowed i (mem_filled.mpr ?_)
        have hnext := h.next
        have hi6 := i.isLt
        rw [Fin.ext_iff] at hnew
        omega
    · rw [val_succCount] at hfew
      have hnext := h.next (by omega)
      rw [val_succCount, Fin.val_add_eq_of_add_lt] <;> simp only [Fin.val_one] <;> omega
  · exact h

/-- What a step of the task leaves of the last pulse and of the history. -/
structure SameIntervals (m m' : MotorHall) : Prop where
  valid : m'.valid = m.valid
  lastPulseInterval : m'.lastPulseInterval = m.lastPulseInterval
  lastPulseTimeUs : m'.lastPulseTimeUs = m.lastPulseTimeUs
  intervalHistory : m'.intervalHistory = m.intervalHistory
  intervalIdx : m'.intervalIdx = m.intervalIdx
  intervalValidCount : m'.intervalValidCount = m.intervalValidCount

structure SameSpeed (m m' : MotorHall) : Prop where
  isRunning : m'.isRunning = m.isRunning
  currentRpm : m'.currentRpm = m.currentRpm
  filteredRpm : m'.filteredRpm = m.filteredRpm

variable {m' m'' : MotorHall}

theorem SameIntervals.trans (h : SameIntervals m m') (h' : SameIntervals m' m'') : SameIntervals m m'' :=
  ⟨h'.1.trans h.1, h'.2.trans h.2, h'.3.trans h.3, h'.4.trans h.4, h'.5.trans h.5, h'.6.trans h.6⟩

theorem SameSpeed.trans (h : SameSpeed m m') (h' : SameSpeed m' m'') : SameSpeed m m'' :=
  ⟨h'.1.trans h.1, h'.2.trans h.2, h'.3.trans h.3⟩

theorem SameSpeed.zeroed_iff (h : SameSpeed m m') : Zeroed m' ↔ Zeroed m := by
  obtain ⟨hrunning, hrpm, hfiltered⟩ := h
  constructor <;> rintro ⟨hr, hc, hf⟩
  · exact ⟨hrunning ▸ hr, hrpm ▸ hc, hfiltered ▸ hf⟩
  · exact ⟨hrunning.trans hr, by rwa [hrpm], by rwa [hfiltered]⟩

theorem SameIntervals.stored (h : SameIntervals m m') (hstored : Stored m) : Stored m' := by
  refine ⟨fun i hi => ?_, fun hfew => ?_⟩
  · rw [h.intervalValidCount] at hi
    rw [h.intervalHistory]
    exact hstored.windowed i hi
  · rw [h.intervalValidCount] at hfew ⊢
    rw [h.intervalIdx]
    exact hstored.next hfew

/-- The pulse that a measurement takes over stays the last one. -/
theorem pushInterval_kept (m : MotorHall) : m.pushInterval.valid = m.valid ∧
    m.pushInterval.lastPulseInterval = m.lastPulseInterval ∧ m.pushInterval.lastPulseTimeUs = m.lastPulseTimeUs ∧
    m.pushInterval.isRunning = m.isRunning := by
  rw [pushInterval_eq]
  exact ⟨rfl, rfl, rfl, rfl⟩

theorem calculateRpm_kept (m : MotorHall) : SameIntervals m.pushInterval (m.calculateRpm ieeeFpu) ∧
    (m.calculateRpm ieeeFpu).isRunning = m.pushInterval.isRunning := by
  rw [calculateRpm_eq]
  exact ⟨⟨rfl, rfl, rfl, rfl, rfl, rfl⟩, rfl⟩

theorem performStallDetection_kept (us : BitVec 64) (m : MotorHall) :
    SameIntervals m (m.performStallDetection ieeeFpu us) := by
  rw [performStallDetection_eq]
  exact ⟨rfl, rfl, rfl, rfl, rfl, rfl⟩

/-- The speed after the stall detection: nothing once the last pulse is 500 ms ago, and until then the measured one. -/
theorem performStallDetection_speed (us : BitVec 64) (m : MotorHall) :
    (motorHallStallDetectionMs * 1000 < us - m.lastPulseTimeUs → Zeroed (m.performStallDetection ieeeFpu us)) ∧
      (¬motorHallStallDetectionMs * 1000 < us - m.lastPulseTimeUs →
        (m.performStallDetection ieeeFpu us).currentRpm = m.currentRpm ∧
        (m.performStallDetection ieeeFpu us).filteredRpm = m.filteredRpm ∧
        (lt zero m.currentRpm = false → (m.performStallDetection ieeeFpu us).isRunning = m.isRunning)) := by
  have hlt : ieeeFpu.lt zero m.currentRpm = lt zero m.currentRpm := rfl
  unfold performStallDetection
  dsimp only
  rw [hlt]
  refine ⟨fun hlong => ?_, fun hrecent => ?_⟩
  · rw [if_pos hlong]
    exact ⟨rfl, isZero_zero, isZero_zero⟩
  · rw [if_neg hrecent]
    refine ⟨by split_ifs <;> rfl, by split_ifs <;> rfl, fun hstill => ?_⟩
    rw [hstill]
    rfl

/-- Fewer than two intervals are no speed. -/
theorem calculateRpm_of_few (h : m.pushInterval.intervalValidCount.val < 2) :
    (m.calculateRpm ieeeFpu).currentRpm = zero ∧ (m.calculateRpm ieeeFpu).filteredRpm = zero := by
  have havg : m.pushInterval.averageInterval ieeeFpu = zero := if_pos h
  unfold calculateRpm
  dsimp only
  rw [havg, if_pos (by decide)]
  exact ⟨rfl, rfl⟩

/-- Two intervals are a speed. -/
theorem calculateRpm_pos (hstored : Stored m.pushInterval) (h : 2 ≤ m.pushInterval.intervalValidCount.val) :
    lt zero (m.calculateRpm ieeeFpu).currentRpm = true := by
  have havg := between_averageInterval hstored.windowed h
  have hnonzero : isZero (m.pushInterval.averageInterval ieeeFpu) = false := not_zero_of_pos (havg.pos (by decide))
  obtain ⟨hmin, hmax⟩ := between_toUInt32 havg (by decide)
  have hrpm : ieeeFpu.lt zero (intervalToRpm ieeeFpu (ieeeFpu.toUInt32 (m.pushInterval.averageInterval ieeeFpu))) =
      true := intervalToRpm_pos hmin hmax
  unfold calculateRpm
  generalize m.pushInterval = m at hnonzero hrpm
  dsimp only
  rw [if_neg (by rw [Bool.not_eq_true]; exact hnonzero), if_pos hrpm]
  exact hrpm

section
variable {us : BitVec 64}

/-- The measurement of a task run. -/
def measurement (us : BitVec 64) (m : MotorHall) : MotorHall :=
  (m.calculateRpm ieeeFpu).performStallDetection ieeeFpu us

/-- The measurement looks at the pulse that the motor had before it. -/
theorem lastPulseTimeUs_calculateRpm (m : MotorHall) : (m.calculateRpm ieeeFpu).lastPulseTimeUs = m.lastPulseTimeUs :=
  (calculateRpm_kept m).1.lastPulseTimeUs.trans (pushInterval_kept m).2.2.1

theorem zeroed_of_stalled (h : motorHallStallDetectionMs * 1000 < us - m.lastPulseTimeUs) : Zeroed (m.measurement us) := by
  rw [← lastPulseTimeUs_calculateRpm] at h
  exact (performStallDetection_speed us _).1 h

theorem zeroed_of_few (h : m.pushInterval.intervalValidCount.val < 2) (hrunning : m.isRunning = false) :
    Zeroed (m.measurement us) := by
  obtain ⟨hrpm, hfiltered⟩ := calculateRpm_of_few h
  have hstill : (m.calculateRpm ieeeFpu).isRunning = false :=
    (calculateRpm_kept m).2.trans ((pushInterval_kept m).2.2.2.trans hrunning)
  obtain ⟨hlong, hrecent⟩ := performStallDetection_speed us (m.calculateRpm ieeeFpu)
  by_cases hstalled : motorHallStallDetectionMs * 1000 < us - (m.calculateRpm ieeeFpu).lastPulseTimeUs
  · exact hlong hstalled
  · obtain ⟨hrpm', hfiltered', hrunning'⟩ := hrecent hstalled
    refine ⟨(hrunning' (by rw [hrpm]; decide)).trans hstill, ?_, ?_⟩
    · rw [measurement, hrpm', hrpm]
      exact isZero_zero
    · rw [measurement, hfiltered', hfiltered]
      exact isZero_zero

theorem not_zeroed (hstored : Stored m) (h : 2 ≤ m.pushInterval.intervalValidCount.val)
    (hrecent : ¬motorHallStallDetectionMs * 1000 < us - m.lastPulseTimeUs) : ¬Zeroed (m.measurement us) := by
  rw [← lastPulseTimeUs_calculateRpm] at hrecent
  have hpos := not_zero_of_pos (calculateRpm_pos hstored.pushInterval h)
  intro hzeroed
  have hzero := hzeroed.currentRpm
  rw [measurement, ((performStallDetection_speed us _).2 hrecent).1, hpos] at hzero
  cases hzero

/-- A measurement after an accepted pulse reads 0 exactly where the pulse is 500 ms ago or nothing was measured before. -/
theorem measurement_zeroed_iff (hstored : Stored m) (hidle : m.intervalValidCount.val < 2 → Zeroed m)
    (hin : Hall.InWindow m.lastPulseInterval) : Zeroed (m.measurement us) ↔
      (¬motorHallStallDetectionMs * 1000 < us - m.lastPulseTimeUs → m.intervalValidCount.val = 0) := by
  have hcount : m.pushInterval.intervalValidCount.val = min (m.intervalValidCount.val + 1) 6 := by
    rw [MotorHall.pushInterval, if_pos hin]
    exact val_succCount _
  constructor
  · intro hzeroed hrecent
    by_contra hsome
    exact not_zeroed hstored (by omega) hrecent hzeroed
  · intro hcond
    by_cases hlong : motorHallStallDetectionMs * 1000 < us - m.lastPulseTimeUs
    · exact zeroed_of_stalled hlong
    · have hnone := hcond hlong
      exact zeroed_of_few (by omega) (hidle (by omega)).isRunning

end

/-! ### A task run -/

theorem le_pushInterval (m : MotorHall) : m.intervalValidCount.val ≤ m.pushInterval.intervalValidCount.val := by
  have hbound := m.intervalValidCount.isLt
  unfold pushInterval
  split
  · rw [val_succCount]
    omega
  · exact Nat.le_refl _

theorem hallCheckTimer_kept (nowMs : BitVec 32) (m : MotorHall) :
    SameIntervals m (m.hallCheckTimer nowMs) ∧ SameSpeed m (m.hallCheckTimer nowMs) := by
  rw [hallCheckTimer_eq]
  exact ⟨⟨rfl, rfl, rfl, rfl, rfl, rfl⟩, rfl, rfl, rfl⟩

theorem accumulatePulses_kept (m : MotorHall) :
    SameIntervals m m.accumulatePulses ∧ SameSpeed m m.accumulatePulses := by
  rw [accumulatePulses_eq]
  exact ⟨⟨rfl, rfl, rfl, rfl, rfl, rfl⟩, rfl, rfl, rfl⟩

/-- The motor after the measurement of a task run, if it is time for one. -/
def measured (nowMs : BitVec 32) (us : BitVec 64) (m : MotorHall) : MotorHall :=
  if m.measures nowMs then m.measurement us else m

theorem rpmTimer_kept (nowMs : BitVec 32) (us : BitVec 64) (m : MotorHall) :
    SameIntervals (m.measured nowMs us) (m.rpmTimer ieeeFpu nowMs us) ∧
      SameSpeed (m.measured nowMs us) (m.rpmTimer ieeeFpu nowMs us) := by
  unfold measured rpmTimer
  split <;> exact ⟨⟨rfl, rfl, rfl, rfl, rfl, rfl⟩, rfl, rfl, rfl⟩

/-- The rest of a task run leaves the speed and the intervals. -/
theorem task_kept (nowMs : BitVec 32) (us : BitVec 64) (hvalid : m.valid = true) :
    SameIntervals (m.measured nowMs us) (m.task ieeeFpu nowMs us) ∧
      SameSpeed (m.measured nowMs us) (m.task ieeeFpu nowMs us) := by
  obtain ⟨hrpm, hrpmSpeed⟩ := rpmTimer_kept nowMs us m
  obtain ⟨hcheck, hcheckSpeed⟩ := hallCheckTimer_kept nowMs (m.rpmTimer ieeeFpu nowMs us)
  obtain ⟨haccum, haccumSpeed⟩ := accumulatePulses_kept ((m.rpmTimer ieeeFpu nowMs us).hallCheckTimer nowMs)
  rw [task, if_pos hvalid]
  exact ⟨hrpm.trans (hcheck.trans haccum), hrpmSpeed.trans (hcheckSpeed.trans haccumSpeed)⟩

theorem measurement_kept (us : BitVec 64) (m : MotorHall) : SameIntervals m.pushInterval (m.measurement us) :=
  (calculateRpm_kept m).1.trans (performStallDetection_kept us _)

/-- What a measurement leaves of the history and of the last pulse, and how it starts. -/
theorem measured_spec (nowMs : BitVec 32) (us : BitVec 64) (hstored : Stored m)
    (hidle : m.intervalValidCount.val < 2 → Zeroed m) : Stored (m.measured nowMs us) ∧
    ((m.measured nowMs us).intervalValidCount.val < 2 → Zeroed (m.measured nowMs us)) ∧
    (m.measured nowMs us).valid = m.valid ∧ (m.measured nowMs us).lastPulseInterval = m.lastPulseInterval ∧
    (m.measured nowMs us).lastPulseTimeUs = m.lastPulseTimeUs := by
  unfold measured
  split
  · have hkept := measurement_kept us m
    obtain ⟨hvalid, hinterval, htime, -⟩ := pushInterval_kept m
    refine ⟨hkept.stored hstored.pushInterval, fun hfew => ?_, hkept.valid.trans hvalid,
      hkept.lastPulseInterval.trans hinterval, hkept.lastPulseTimeUs.trans htime⟩
    rw [hkept.intervalValidCount] at hfew
    exact zeroed_of_few hfew (hidle (Nat.lt_of_le_of_lt (le_pushInterval m) hfew)).isRunning
  · exact ⟨hstored, hidle, rfl, rfl, rfl⟩

end MotorHall

/-! ### Runs -/

/-- The motor with the time, the time of the last accepted pulse, and whether a measurement since has found the motor
    stopped. -/
structure Observed where
  m : MotorHall
  now : BitVec 64
  lastPulse : Option (BitVec 64)
  stopped : Bool

/-- An edge of a sensor with its interval, or a run of the task at a tick, at a time. -/
inductive TimedAct where
  | hallA (intervalUs : BitVec 32) (us : BitVec 64)
  | hallB (invertDir aHigh bHigh : Bool) (intervalUs : BitVec 32) (us : BitVec 64)
  | task (nowMs : BitVec 32) (us : BitVec 64)
  deriving DecidableEq, Repr

namespace TimedAct

def us : TimedAct → BitVec 64
  | .hallA _ us | .hallB _ _ _ _ us | .task _ us => us

def on (a : TimedAct) (m : MotorHall) : MotorHall :=
  match a with
  | .hallA intervalUs us => { m with toMotorHallInst := Hall.edgeA intervalUs us m.toMotorHallInst }
  | .hallB invertDir aHigh bHigh intervalUs us =>
    { m with toMotorHallInst := Hall.edgeB ieee invertDir aHigh bHigh intervalUs us m.toMotorHallInst }
  | .task nowMs us => m.task ieeeFpu nowMs us

/-- An edge whose pulse is accepted. -/
def Accepted : TimedAct → Prop
  | .hallA intervalUs _ | .hallB _ _ _ intervalUs _ => Hall.InWindow intervalUs
  | .task _ _ => False

instance : DecidablePred Accepted := fun a => by cases a <;> unfold Accepted <;> infer_instance

end TimedAct

namespace Observed
open MotorHall

/-- After `MotorHall_Init` at power-up. -/
def start (nowMs : BitVec 32) (now : BitVec 64) : Observed := ⟨MotorHall.init nowMs, now, none, false⟩

/-- A task run that measures more than 50 ms after the last accepted pulse. -/
def Late (s : Observed) : TimedAct → Prop
  | .task nowMs us => s.m.measures nowMs = true ∧ ∃ p ∈ s.lastPulse, motorHallStopDetectionMs * 1000 < us - p
  | _ => False

instance (s : Observed) : DecidablePred s.Late
  | .hallA _ _ | .hallB _ _ _ _ _ => inferInstanceAs (Decidable False)
  | .task nowMs us => decidable_of_iff
    (s.m.measures nowMs = true ∧ s.lastPulse.any (fun p => decide (motorHallStopDetectionMs * 1000 < us - p)) = true)
    (by simp only [Late, Option.any_eq_true, decide_eq_true_eq, Option.mem_def])

/-- Time does not run back. -/
def step (s : Observed) (a : TimedAct) : Option Observed :=
  if a.us < s.now then none
  else some {
    m := a.on s.m
    now := a.us
    lastPulse := if a.Accepted then some a.us else s.lastPulse
    stopped := (s.stopped || decide (s.Late a)) && !decide a.Accepted }

/-- From a late measurement to the next pulse the motor reads no speed. -/
def ReadsZero (s : Observed) (a : TimedAct) : Prop := ∀ s', step s a = some s' → s'.stopped = true → Zeroed s'.m

/-- A late measurement comes more than 500 ms after the last accepted pulse, or no interval has been stored before it. -/
def Forgotten (s : Observed) (a : TimedAct) : Prop :=
  s.Late a → ∀ p ∈ s.lastPulse, ¬motorHallStallDetectionMs * 1000 < a.us - p → s.m.intervalValidCount.val = 0

/-- The history holds intervals in the window, and the last pulse is the last accepted one. -/
structure Inv (s : Observed) : Prop where
  valid : s.m.valid = true
  stored : Stored s.m
  idle : s.m.intervalValidCount.val < 2 → Zeroed s.m
  pulsed : ∀ p ∈ s.lastPulse, Hall.InWindow s.m.lastPulseInterval ∧ s.m.lastPulseTimeUs = p ∧ p ≤ s.now
  stopped : s.stopped = true → Zeroed s.m ∧ ∃ p ∈ s.lastPulse, motorHallStopDetectionMs * 1000 < s.now - p

variable {s s' : Observed} {a : TimedAct} {us : BitVec 64}

/-- What is late stays late. -/
theorem later {p now us limit : BitVec 64} (hp : p ≤ now) (hnow : ¬us < now) (hlate : limit < now - p) :
    limit < us - p := by
  bv_omega

/-! ### An edge -/

theorem inv_edge {intervalUs : BitVec 32} {inst' : MotorHallInst} (hinv : Inv s) (hnow : ¬us < s.now)
    (htakes : Hall.Takes intervalUs us s.m.toMotorHallInst inst') :
    Inv ⟨{ s.m with toMotorHallInst := inst' }, us, if Hall.InWindow intervalUs then some us else s.lastPulse,
      s.stopped && !decide (Hall.InWindow intervalUs)⟩ := by
  have hspeed : SameSpeed s.m { s.m with toMotorHallInst := inst' } := ⟨rfl, htakes.currentRpm, rfl⟩
  refine ⟨htakes.valid.trans hinv.valid, ⟨hinv.stored.windowed, hinv.stored.next⟩,
    fun hfew => hspeed.zeroed_iff.mpr (hinv.idle hfew), ?_, ?_⟩
  · intro p hp
    dsimp only at hp ⊢
    by_cases hin : Hall.InWindow intervalUs
    · obtain ⟨hinterval, htime⟩ := htakes.accepted hin
      rw [if_pos hin] at hp
      obtain rfl := Option.some.inj hp
      rw [hinterval]
      exact ⟨hin, htime, BitVec.le_refl _⟩
    · obtain ⟨hinterval, htime⟩ := htakes.rejected hin
      rw [if_neg hin] at hp
      obtain ⟨hwindow, hlast, hle⟩ := hinv.pulsed p hp
      rw [hinterval, htime]
      exact ⟨hwindow, hlast, BitVec.le_trans hle (BitVec.not_lt.mp hnow)⟩
  · intro hstopped
    dsimp only at hstopped ⊢
    obtain ⟨hstill, hout⟩ := Bool.and_eq_true_iff.mp hstopped
    have hout : ¬Hall.InWindow intervalUs := by simpa using hout
    obtain ⟨hzeroed, p, hp, hlate⟩ := hinv.stopped hstill
    have hle := (hinv.pulsed p hp).2.2
    rw [if_neg hout]
    exact ⟨hspeed.zeroed_iff.mpr hzeroed, p, hp, later hle hnow hlate⟩

/-! ### A task run -/

section
variable {nowMs : BitVec 32}

/-- The state after a task run. -/
def afterTask (nowMs : BitVec 32) (us : BitVec 64) (s : Observed) : Observed :=
  ⟨s.m.task ieeeFpu nowMs us, us, s.lastPulse, s.stopped || decide (s.Late (.task nowMs us))⟩

theorem zeroed_task_iff (hvalid : s.m.valid = true) :
    Zeroed (s.m.task ieeeFpu nowMs us) ↔ Zeroed (s.m.measured nowMs us) :=
  (task_kept nowMs us hvalid).2.zeroed_iff

/-- A measurement while the motor is known to have stopped is late. -/
theorem late_of_stopped (hinv : Inv s) (hnow : ¬us < s.now) (hstopped : s.stopped = true)
    (hmeasures : s.m.measures nowMs = true) : s.Late (.task nowMs us) := by
  obtain ⟨-, p, hp, hlate⟩ := hinv.stopped hstopped
  exact ⟨hmeasures, p, hp, later (hinv.pulsed p hp).2.2 hnow hlate⟩

theorem inv_task (hinv : Inv s) (hnow : ¬us < s.now)
    (hzero : (s.afterTask nowMs us).stopped = true → Zeroed (s.m.task ieeeFpu nowMs us)) :
    Inv (s.afterTask nowMs us) := by
  obtain ⟨hkept, hspeed⟩ := task_kept nowMs us hinv.valid
  obtain ⟨hstored, hidle, hvalid, hinterval, htime⟩ := measured_spec nowMs us hinv.stored hinv.idle
  refine ⟨hkept.valid.trans (hvalid.trans hinv.valid), hkept.stored hstored, fun hfew => ?_, fun p hp => ?_, ?_⟩
  · have hfew : (s.m.measured nowMs us).intervalValidCount.val < 2 := by rwa [← hkept.intervalValidCount]
    exact hspeed.zeroed_iff.mpr (hidle hfew)
  · obtain ⟨hwindow, hlast, hle⟩ := hinv.pulsed p hp
    dsimp only [afterTask]
    rw [hkept.lastPulseInterval, hkept.lastPulseTimeUs, hinterval, htime]
    exact ⟨hwindow, hlast, BitVec.le_trans hle (BitVec.not_lt.mp hnow)⟩
  · intro hstopped
    refine ⟨hzero hstopped, ?_⟩
    rcases Bool.or_eq_true_iff.mp hstopped with hstill | hlate
    · obtain ⟨-, p, hp, hlate⟩ := hinv.stopped hstill
      exact ⟨p, hp, later (hinv.pulsed p hp).2.2 hnow hlate⟩
    · exact (of_decide_eq_true hlate).2

/-- A late measurement reads 0 exactly where it is not to remember a speed. -/
theorem zeroed_of_late_iff (hinv : Inv s) (hlate : s.Late (.task nowMs us)) :
    Zeroed (s.m.task ieeeFpu nowMs us) ↔ s.Forgotten (.task nowMs us) := by
  obtain ⟨hmeasures, p, hp, -⟩ := id hlate
  obtain ⟨hwindow, htime, -⟩ := hinv.pulsed p hp
  have hmeasured : s.m.measured nowMs us = s.m.measurement us := if_pos hmeasures
  rw [zeroed_task_iff hinv.valid, hmeasured, measurement_zeroed_iff hinv.stored hinv.idle hwindow, htime]
  refine ⟨fun h _ q hq hrecent => ?_, fun h hrecent => h hlate p hp hrecent⟩
  obtain rfl := Option.some.inj (hp.symm.trans hq)
  exact h hrecent

theorem zero_task_iff (hinv : Inv s) (hnow : ¬us < s.now) :
    ((s.afterTask nowMs us).stopped = true → Zeroed (s.m.task ieeeFpu nowMs us)) ↔ s.Forgotten (.task nowMs us) := by
  by_cases hlate : s.Late (.task nowMs us)
  · have hstopped : (s.afterTask nowMs us).stopped = true := by
      rw [afterTask, decide_eq_true hlate, Bool.or_true]
    rw [← zeroed_of_late_iff hinv hlate]
    exact ⟨fun h => h hstopped, fun h _ => h⟩
  · refine iff_of_true (fun hstopped => ?_) fun h => absurd h hlate
    rw [afterTask, decide_eq_false hlate, Bool.or_false] at hstopped
    -- The run does not measure, so it leaves the speed.
    have hnot : ¬s.m.measures nowMs = true := fun hmeasures => hlate (late_of_stopped hinv hnow hstopped hmeasures)
    have hmeasured : s.m.measured nowMs us = s.m := if_neg hnot
    rw [zeroed_task_iff hinv.valid, hmeasured]
    exact (hinv.stopped hstopped).1

end

/-! ### All runs -/

/-- The cases of a step: an edge that keeps the invariant, or a task run. -/
theorem step_cases (hinv : Inv s) (hstep : step s a = some s') :
    Inv s' ∧ s.Forgotten a ∨ ∃ nowMs us, a = .task nowMs us ∧ ¬us < s.now ∧ s' = s.afterTask nowMs us := by
  unfold step at hstep
  split at hstep
  · cases hstep
  · rename_i hnow
    obtain rfl := Option.some.inj hstep
    cases a with
    | hallA intervalUs us =>
      have hnext := inv_edge hinv hnow (@Hall.takes_edgeA intervalUs us _ hinv.valid)
      have hstopped : (s.stopped || decide (s.Late (.hallA intervalUs us))) = s.stopped := Bool.or_false _
      rw [hstopped]
      exact .inl ⟨hnext, fun hlate => hlate.elim⟩
    | hallB invertDir aHigh bHigh intervalUs us =>
      have hnext := inv_edge hinv hnow
        (@Hall.takes_edgeB intervalUs us _ ieee invertDir aHigh bHigh hinv.valid)
      have hstopped : (s.stopped || decide (s.Late (.hallB invertDir aHigh bHigh intervalUs us))) = s.stopped :=
        Bool.or_false _
      rw [hstopped]
      exact .inl ⟨hnext, fun hlate => hlate.elim⟩
    | task nowMs us =>
      refine .inr ⟨nowMs, us, rfl, hnow, ?_⟩
      rw [afterTask, if_neg (show ¬(TimedAct.task nowMs us).Accepted from id),
        decide_eq_false (show ¬(TimedAct.task nowMs us).Accepted from id), Bool.not_false, Bool.and_true]
      rfl

theorem readsZero_iff (hinv : Inv s) (hstep : step s a = some s') : ReadsZero s a ↔ s.Forgotten a := by
  have hlaw : ReadsZero s a ↔ (s'.stopped = true → Zeroed s'.m) := by
    unfold ReadsZero
    rw [hstep]
    simp only [Option.some.injEq, forall_eq']
  rw [hlaw]
  rcases step_cases hinv hstep with ⟨hnext, hforgotten⟩ | ⟨nowMs, us, rfl, hnow, rfl⟩
  · exact iff_of_true (fun hstopped => (hnext.stopped hstopped).1) hforgotten
  · exact zero_task_iff hinv hnow

theorem inv_step (hinv : Inv s) (hzero : ReadsZero s a) (hstep : step s a = some s') : Inv s' := by
  have hread := hzero s' hstep
  rcases step_cases hinv hstep with ⟨hnext, -⟩ | ⟨nowMs, us, rfl, hnow, rfl⟩
  · exact hnext
  · exact inv_task hinv hnow hread

theorem inv_start (nowMs : BitVec 32) (now : BitVec 64) : Inv (start nowMs now) where
  valid := rfl
  stored := ⟨fun _ hi => absurd (mem_filled.mp hi) (Nat.not_lt_zero _), fun _ => rfl⟩
  idle _ := ⟨rfl, isZero_zero, isZero_zero⟩
  pulsed _ hp := by cases hp
  stopped h := by cases h

/-- Along every run, a motor that has stopped reads no speed exactly where each late measurement comes more than 500 ms
    after the last accepted pulse or is the first one that stores an interval. -/
theorem reads_zero_iff_forgotten (nowMs : BitVec 32) (now : BitVec 64) (as : List TimedAct) (s : Observed) :
    Run step ReadsZero (start nowMs now) as s ↔ Run step Forgotten (start nowMs now) as s :=
  Run.congr_of_keep (inv_start nowMs now) (fun _ _ _ hinv hzero hstep => inv_step hinv hzero hstep)
    fun _ _ _ hinv hstep => readsZero_iff hinv hstep

/-- A pulse of 10 ms, two measurements, and a third one 70 ms after the pulse: there is a speed. -/
theorem speed_after_stop :
    ∃ s s', exec step (start 1000 1000000) [.hallA 10000 1000000, .task 1010 1010000, .task 1020 1020000] = some s ∧
      step s (.task 1070 1070000) = some s' ∧ s.Late (.task 1070 1070000) ∧ s'.m.isRunning = false ∧
      isZero s'.m.currentRpm = false ∧ isZero s'.m.filteredRpm = false ∧ ¬ReadsZero s (.task 1070 1070000) := by
  obtain ⟨s, hexec, hlate, hany⟩ := exists_of_any (P := fun s : Observed => s.Late (.task 1070 1070000) ∧
    (step s (.task 1070 1070000)).any fun s' => decide (s'.stopped = true ∧ s'.m.isRunning = false ∧
      isZero s'.m.currentRpm = false ∧ isZero s'.m.filteredRpm = false))
    (o := exec step (start 1000 1000000) [.hallA 10000 1000000, .task 1010 1010000, .task 1020 1020000])
    (by decide +kernel)
  obtain ⟨s', hstep, hstopped, hrunning, hrpm, hfiltered⟩ := exists_of_any hany
  refine ⟨s, s', hexec, hstep, hlate, hrunning, hrpm, hfiltered, fun hlaw => ?_⟩
  have hzero := (hlaw s' hstep hstopped).currentRpm
  rw [hrpm] at hzero
  cases hzero

end Observed

end RodActuator.Motor
