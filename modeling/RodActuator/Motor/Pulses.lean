import RodActuator.Lib.Ieee754
import RodActuator.Lib.Transition
import RodActuator.Motor.Task

/-! The edges of the hall sensors against the pulses that come out of the task. Each task run takes the distance of the
    total from that of the last one, whichever of the two is larger, so that a total that has wrapped counts in the
    wrong direction. -/

namespace RodActuator.Motor
open Adp Binary32 Transition

namespace MotorHall

/-- `MotorHall_GetTotalPulseCount`. -/
def getTotalPulseCount (m : MotorHall) : BitVec 32 := m.hallPulseCountA + m.hallPulseCountB

/-! ### What the measurement leaves -/

/-- The fields that the pulses hang on. -/
structure SamePulses (m m' : MotorHall) : Prop where
  valid : m'.valid = m.valid
  total : m'.getTotalPulseCount = m.getTotalPulseCount
  lastTotal : m'.lastTotal = m.lastTotal
  firstRun : m'.firstRun = m.firstRun
  pulseAccum : m'.pulseAccum = m.pulseAccum

variable {m m' m'' : MotorHall} {F : Fpu}

theorem SamePulses.refl (m : MotorHall) : SamePulses m m := ⟨rfl, rfl, rfl, rfl, rfl⟩

theorem SamePulses.trans (h : SamePulses m m') (h' : SamePulses m' m'') : SamePulses m m'' :=
  ⟨h'.valid.trans h.valid, h'.total.trans h.total, h'.lastTotal.trans h.lastTotal, h'.firstRun.trans h.firstRun,
    h'.pulseAccum.trans h.pulseAccum⟩

theorem samePulses_calculateRpm (F : Fpu) (m : MotorHall) : SamePulses m (m.calculateRpm F) := by
  rw [calculateRpm_eq, pushInterval_eq]
  exact ⟨rfl, rfl, rfl, rfl, rfl⟩

theorem samePulses_performStallDetection (F : Fpu) (currentTimeUs : BitVec 64) (m : MotorHall) :
    SamePulses m (m.performStallDetection F currentTimeUs) := by
  rw [performStallDetection_eq]
  exact ⟨rfl, rfl, rfl, rfl, rfl⟩

theorem samePulses_rpmTimer (F : Fpu) (nowMs : BitVec 32) (timestampUs : BitVec 64) (m : MotorHall) :
    SamePulses m (m.rpmTimer F nowMs timestampUs) := by
  unfold rpmTimer
  split
  · obtain ⟨hvalid, htotal, hlast, hfirst, haccum⟩ :=
      (samePulses_calculateRpm F m).trans (samePulses_performStallDetection F timestampUs _)
    exact ⟨hvalid, htotal, hlast, hfirst, haccum⟩
  · exact .refl m

theorem samePulses_hallCheckTimer (nowMs : BitVec 32) (m : MotorHall) : SamePulses m (m.hallCheckTimer nowMs) := by
  rw [hallCheckTimer_eq]
  exact ⟨rfl, rfl, rfl, rfl, rfl⟩

/-! ### What one task run adds -/

/-- A number of pulses in a direction. -/
def toward (reverse : Bool) (n : BitVec 32) : BitVec 32 := if reverse then -n else n

def dirOf (reverse : Bool) : MotorHallDir := if reverse then .reverse else .forward

/-- The edges that a task run takes for new. -/
def delta (m : MotorHall) : BitVec 32 :=
  if m.firstRun then 0#32
  else if m.lastTotal ≤ m.getTotalPulseCount then m.getTotalPulseCount - m.lastTotal
  else m.lastTotal - m.getTotalPulseCount

theorem toward_zero (reverse : Bool) : toward reverse 0#32 = 0#32 := by
  cases reverse <;> rfl

theorem toward_add (reverse : Bool) (x y : BitVec 32) : toward reverse (x + y) = toward reverse x + toward reverse y := by
  cases reverse
  · rfl
  · simp only [toward, if_true]
    bv_omega

theorem toward_inj {reverse : Bool} {x y : BitVec 32} : toward reverse x = toward reverse y ↔ x = y := by
  cases reverse
  · rfl
  · simp only [toward, if_true]
    exact neg_inj

/-- What a task run leaves of the pulses, where its direction is known. -/
structure Accumulates (reverse : Bool) (m m' : MotorHall) : Prop where
  valid : m'.valid = m.valid
  total : m'.getTotalPulseCount = m.getTotalPulseCount
  lastTotal : m'.lastTotal = m.getTotalPulseCount
  firstRun : m'.firstRun = false
  pulseAccum : m'.pulseAccum = m.pulseAccum + toward reverse m.delta

theorem effectiveDirection_accumulatePulses (m : MotorHall) :
    m.accumulatePulses.effectiveDirection = m.effectiveDirection := by
  rw [accumulatePulses_eq]
  rfl

theorem accumulates (reverse : Bool) (hdir : m.effectiveDirection = dirOf reverse) :
    Accumulates reverse m m.accumulatePulses := by
  have hfold : m.hallPulseCountA + m.hallPulseCountB = m.getTotalPulseCount := rfl
  unfold accumulatePulses
  simp only [hfold]
  by_cases hfirst : m.firstRun = true
  · -- The first run takes the total over and has nothing to add.
    simp only [hfirst, if_true, ne_eq, not_true_eq_false, if_false]
    refine ⟨rfl, rfl, rfl, rfl, ?_⟩
    rw [delta, if_pos hfirst, toward_zero]
    exact (BitVec.add_zero _).symm
  · have hnot : m.firstRun = false := Bool.eq_false_iff.mpr hfirst
    rw [if_neg hfirst]
    split
    · rename_i hnew
      refine ⟨rfl, rfl, rfl, hnot, ?_⟩
      have hdelta : (if m.lastTotal < m.getTotalPulseCount then m.getTotalPulseCount - m.lastTotal
          else m.lastTotal - m.getTotalPulseCount) = m.delta := by
        rw [delta, if_neg hfirst]
        split_ifs <;> first | rfl | bv_omega
      rw [hdir, hdelta]
      cases reverse
      · rfl
      · exact BitVec.sub_eq_add_neg ..
    · rename_i hsame
      have hsame : m.getTotalPulseCount = m.lastTotal := not_not.mp hsame
      refine ⟨rfl, rfl, hsame.symm, hnot, ?_⟩
      rw [delta, if_neg hfirst, if_pos (BitVec.le_of_eq hsame.symm), hsame, BitVec.sub_self, toward_zero]
      exact (BitVec.add_zero _).symm

/-- A task run in a direction is its accumulation. -/
theorem accumulates_task (reverse : Bool) {nowMs : BitVec 32} {timestampUs : BitVec 64} (hvalid : m.valid = true)
    (hdir : (m.task F nowMs timestampUs).effectiveDirection = dirOf reverse) :
    Accumulates reverse m (m.task F nowMs timestampUs) := by
  rw [task, if_pos hvalid] at hdir ⊢
  rw [effectiveDirection_accumulatePulses] at hdir
  obtain ⟨hvalid, htotal, hlast, hfirst, haccum⟩ :=
    (samePulses_rpmTimer F nowMs timestampUs m).trans (samePulses_hallCheckTimer nowMs _)
  obtain ⟨hvalid', htotal', hlast', hfirst', haccum'⟩ := accumulates reverse hdir
  refine ⟨hvalid'.trans hvalid, htotal'.trans htotal, hlast'.trans htotal, hfirst', ?_⟩
  rw [haccum', haccum, delta, delta, hfirst, hlast, htotal]

end MotorHall

/-! ### Runs -/

/-- The motor with the sum of the pulses that were read, the edges counted between the first and the latest task run,
    and those since the latest. -/
structure Pulses where
  axis : MotorAxis
  returned : BitVec 32
  counted : Nat
  fresh : Nat

namespace Pulses
open MotorHall

/-- Any motor whose pulses `MotorHall_Init` has cleared, with any counts of edges. -/
def start (axis : MotorAxis) : Pulses :=
  ⟨{ axis with m := { axis.m with valid := true, firstRun := true, pulseAccum := 0 } }, 0, 0, 0⟩

def step (F : Fpu) (s : Pulses) (a : MotorAct) : Option Pulses :=
  let axis := s.axis.step F a
  match a with
  | .hallA _ | .hallB _ _ _ _ => some { s with axis := axis, fresh := s.fresh + 1 }
  | .task _ _ =>
    some { s with axis := axis, counted := if s.axis.m.firstRun then s.counted else s.counted + s.fresh, fresh := 0 }
  | .getDeltaPulses => some { s with axis := axis, returned := s.returned + s.axis.m.getDeltaPulses.1 }

/-- The effective direction after a step is the given one. -/
def Alike (F : Fpu) (reverse : Bool) (s : Pulses) (a : MotorAct) : Prop :=
  (s.axis.step F a).m.effectiveDirection = dirOf reverse

def IsTask : MotorAct → Prop
  | .task _ _ => True
  | _ => False

/-- Between two task runs are fewer than `2 ^ 31` edges. -/
def Few (s : Pulses) (a : MotorAct) : Prop := IsTask a → s.axis.m.firstRun = false → s.fresh < 2 ^ 31

/-- The pulses read and the pending ones are the edges counted. -/
def Conserved (reverse : Bool) (s : Pulses) : Prop :=
  s.returned + s.axis.m.pulseAccum = toward reverse (BitVec.ofNat 32 s.counted)

def Conserves (F : Fpu) (reverse : Bool) (s : Pulses) (a : MotorAct) : Prop :=
  ∀ s', step F s a = some s' → Conserved reverse s'

/-- The total has not wrapped since the last task run. -/
def NoWrap (s : Pulses) (a : MotorAct) : Prop :=
  IsTask a → s.axis.m.firstRun = false → s.axis.m.lastTotal ≤ s.axis.m.getTotalPulseCount

/-- Between the acts the new edges lie between the last total and the total. -/
structure Inv (reverse : Bool) (s : Pulses) : Prop where
  valid : s.axis.m.valid = true
  behind : s.axis.m.firstRun = false → s.axis.m.lastTotal + BitVec.ofNat 32 s.fresh = s.axis.m.getTotalPulseCount
  conserved : Conserved reverse s

variable {F : Fpu} {reverse : Bool} {s s' : Pulses} {a : MotorAct}

/-! ### One act -/

/-- An edge adds one to the total and leaves the rest. -/
structure CountsEdge (s s' : MotorAxis) : Prop where
  valid : s'.m.valid = s.m.valid
  total : s'.m.getTotalPulseCount = s.m.getTotalPulseCount + 1
  lastTotal : s'.m.lastTotal = s.m.lastTotal
  firstRun : s'.m.firstRun = s.m.firstRun
  pulseAccum : s'.m.pulseAccum = s.m.pulseAccum

theorem countsEdge_hallA (counter : BitVec 16) {s : MotorAxis} (hvalid : s.m.valid = true) :
    CountsEdge s (s.hallA counter) := by
  rw [MotorAxis.hallA, Hall.hallA, if_pos hvalid]
  dsimp only [MotorAxis.ofHall]
  rw [Hall.measure_eq]
  refine ⟨rfl, ?_, rfl, rfl, rfl⟩
  rw [getTotalPulseCount, getTotalPulseCount, add_right_comm]

theorem countsEdge_hallB (F : Fpu) (invertDir aHigh bHigh : Bool) (counter : BitVec 16) {s : MotorAxis}
    (hvalid : s.m.valid = true) : CountsEdge s (s.hallB F invertDir aHigh bHigh counter) := by
  rw [MotorAxis.hallB, Hall.hallB, if_pos hvalid]
  dsimp only [MotorAxis.ofHall]
  rw [Hall.direct_eq, Hall.measure_eq]
  refine ⟨rfl, ?_, rfl, rfl, rfl⟩
  rw [getTotalPulseCount, getTotalPulseCount, BitVec.add_assoc]

/-- A task run with few new edges counts them exactly where the total has not wrapped. -/
theorem delta_eq_iff {m : MotorHall} {fresh : Nat} (hbehind : m.lastTotal + BitVec.ofNat 32 fresh = m.getTotalPulseCount)
    (hfirst : m.firstRun = false) (hfew : fresh < 2 ^ 31) :
    m.delta = BitVec.ofNat 32 fresh ↔ m.lastTotal ≤ m.getTotalPulseCount := by
  have hfresh : (BitVec.ofNat 32 fresh).toNat = fresh := Nat.mod_eq_of_lt (by omega)
  rw [delta, hfirst, if_neg Bool.false_ne_true]
  generalize BitVec.ofNat 32 fresh = n at hbehind hfresh
  split
  · rename_i hle
    refine iff_of_true ?_ hle
    bv_omega
  · -- The distance is the other one, and the two are the same only at half of the numbers.
    rename_i hwrap
    refine iff_of_false ?_ hwrap
    bv_omega

theorem accumulates_axis {counter : BitVec 16} {nowMs : BitVec 32} (hvalid : s.axis.m.valid = true)
    (halike : Alike F reverse s (.task counter nowMs)) :
    Accumulates reverse s.axis.m (s.axis.step F (.task counter nowMs)).m := by
  have htask : (s.axis.step F (.task counter nowMs)).m =
      s.axis.m.task F nowMs (s.axis.timer.updateTimestamp counter).totalElapsedUs := by
    rw [MotorAxis.step, MotorAxis.task, if_pos hvalid]
  rw [Alike, htask] at halike
  rw [htask]
  exact accumulates_task reverse hvalid halike

/-- What is counted stays in step with the pulses where a task run takes the new edges over. -/
theorem conserved_task {axis' : MotorAxis} (hinv : Inv reverse s) (haccum : Accumulates reverse s.axis.m axis'.m)
    (hfew : s.axis.m.firstRun = false → s.fresh < 2 ^ 31) :
    Conserved reverse ⟨axis', s.returned, if s.axis.m.firstRun then s.counted else s.counted + s.fresh, 0⟩ ↔
      (s.axis.m.firstRun = false → s.axis.m.lastTotal ≤ s.axis.m.getTotalPulseCount) := by
  have hconserved := hinv.conserved
  unfold Conserved at hconserved ⊢
  dsimp only
  rw [haccum.pulseAccum, ← BitVec.add_assoc, hconserved, ← toward_add, toward_inj]
  cases hfirst : s.axis.m.firstRun with
  | true =>
    rw [delta, hfirst]
    exact iff_of_true (BitVec.add_zero _) fun h => by cases h
  | false =>
    rw [if_neg Bool.false_ne_true, BitVec.ofNat_add, BitVec.add_right_inj,
      delta_eq_iff (hinv.behind hfirst) hfirst (hfew hfirst), forall_prop_of_true rfl]

theorem inv_edge {axis' : MotorAxis} (hinv : Inv reverse s) (hedge : CountsEdge s.axis axis') :
    Inv reverse { s with axis := axis', fresh := s.fresh + 1 } := by
  refine ⟨hedge.valid.trans hinv.valid, fun hfirst => ?_, ?_⟩
  · have hbehind := hinv.behind (hedge.firstRun.symm.trans hfirst)
    dsimp only
    rw [hedge.lastTotal, hedge.total, ← hbehind, BitVec.ofNat_add, BitVec.add_assoc]
    rfl
  · have hconserved := hinv.conserved
    unfold Conserved at hconserved ⊢
    dsimp only
    rw [hedge.pulseAccum, hconserved]

/-- A step that conserves the pulses keeps the invariant. -/
theorem inv_step (hinv : Inv reverse s) (halike : Alike F reverse s a) (hconserves : Conserves F reverse s a)
    (hstep : step F s a = some s') : Inv reverse s' := by
  have hconserved := hconserves s' hstep
  cases a with
  | hallA counter =>
    cases hstep
    exact inv_edge hinv (countsEdge_hallA counter hinv.valid)
  | hallB invertDir aHigh bHigh counter =>
    cases hstep
    exact inv_edge hinv (countsEdge_hallB F invertDir aHigh bHigh counter hinv.valid)
  | task counter nowMs =>
    cases hstep
    have haccum := accumulates_axis hinv.valid halike
    refine ⟨haccum.valid.trans hinv.valid, fun _ => ?_, hconserved⟩
    exact (BitVec.add_zero _).trans (haccum.lastTotal.trans haccum.total.symm)
  | getDeltaPulses =>
    cases hstep
    exact ⟨hinv.valid, hinv.behind, hconserved⟩

/-- A step in the direction conserves the pulses exactly where the total has not wrapped at it. -/
theorem conserves_iff (hinv : Inv reverse s) (halike : Alike F reverse s a) (hfew : Few s a) :
    Conserves F reverse s a ↔ NoWrap s a := by
  cases a with
  | hallA counter =>
    have hkept := (inv_edge hinv (countsEdge_hallA counter hinv.valid)).conserved
    exact iff_of_true (fun _ hstep => by cases hstep; exact hkept) fun h => h.elim
  | hallB invertDir aHigh bHigh counter =>
    have hkept := (inv_edge hinv (countsEdge_hallB F invertDir aHigh bHigh counter hinv.valid)).conserved
    exact iff_of_true (fun _ hstep => by cases hstep; exact hkept) fun h => h.elim
  | task counter nowMs =>
    have htask := conserved_task hinv (accumulates_axis hinv.valid halike) (hfew trivial)
    refine ⟨fun h _ => htask.mp (h _ rfl), fun h s' hstep => ?_⟩
    cases hstep
    exact htask.mpr (h trivial)
  | getDeltaPulses =>
    refine iff_of_true (fun s' hstep => ?_) fun h => h.elim
    cases hstep
    have hconserved := hinv.conserved
    unfold Conserved at hconserved ⊢
    rw [← hconserved]
    exact BitVec.add_zero _

theorem inv_start (reverse : Bool) (axis : MotorAxis) : Inv reverse (start axis) :=
  ⟨rfl, (fun h => by cases h), (toward_zero reverse).symm⟩

/-- Along the runs in one direction with few edges between two task runs, the pulses are conserved exactly where the
    total of the edges never wraps between two task runs. -/
theorem conserved_iff (F : Fpu) (reverse : Bool) (axis : MotorAxis) (as : List MotorAct) (s : Pulses) :
    Run (step F) (fun s a => Alike F reverse s a ∧ Few s a ∧ Conserves F reverse s a) (start axis) as s ↔
      Run (step F) (fun s a => Alike F reverse s a ∧ Few s a ∧ NoWrap s a) (start axis) as s := by
  refine Run.congr_of_keep (inv_start reverse axis) (fun _ _ _ hinv ⟨halike, _, hconserves⟩ hstep =>
    inv_step hinv halike hconserves hstep) fun s a _ hinv _ => ?_
  refine and_congr_right fun halike => and_congr_right fun hfew => ?_
  exact conserves_iff hinv halike hfew

instance : Decidable (Alike F reverse s a) := inferInstanceAs (Decidable (_ = _))

instance : DecidablePred IsTask := fun a => by cases a <;> unfold IsTask <;> infer_instance

instance : Decidable (Few s a) := inferInstanceAs (Decidable (_ → _ → _))

instance : Decidable (Conserved reverse s) := inferInstanceAs (Decidable (_ = _))

/-- A motor that turns forward, with one edge left before its counts wrap. -/
def beforeWrap : MotorAxis where
  m := { MotorHall.init 0 with
    hallPulseCountA := 0xFFFFFFFF#32
    currentDirection := .forward
    lastValidDirection := .forward }
  timer := Timer6.init 3125000

/-- That edge is counted as one pulse back. -/
theorem edge_of_wrap_goes_back :
    ∃ s, Run (step ieeeFpu) (fun s a => Alike ieeeFpu false s a ∧ Few s a) (start beforeWrap)
        [.task 0 0, .hallA 3000, .task 6000 1] s ∧
      s.counted = 1 ∧ s.axis.m.pulseAccum = -1 ∧ ¬Conserved false s := by
  obtain ⟨s, hexec, hend⟩ := exists_of_any (P := fun s : Pulses =>
    s.counted = 1 ∧ s.axis.m.pulseAccum = -1 ∧ ¬Conserved false s)
    (o := exec (guarded (step ieeeFpu) fun s a => Alike ieeeFpu false s a ∧ Few s a) (start beforeWrap)
      [.task 0 0, .hallA 3000, .task 6000 1]) (by decide +kernel)
  exact ⟨s, Run.of_exec hexec, hend⟩

end Pulses

end RodActuator.Motor
