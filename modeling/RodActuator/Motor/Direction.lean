import RodActuator.Lib.Ieee754
import RodActuator.Lib.Transition
import RodActuator.Motor.Task

/-! How a direction of the motor is confirmed. One count serves for every direction: it counts the samples that differ
    from the direction in force. Out of FORWARD or REVERSE these are all of the other one, but out of NONE or STOP both
    count. -/

namespace RodActuator.Motor
open Adp Binary32 Transition

/-! ### Turns -/

def IsTurning (d : MotorHallDir) : Prop := d = .forward ∨ d = .reverse

instance : DecidablePred IsTurning := fun _ => inferInstanceAs (Decidable (_ ∨ _))

def MotorHallDir.other (d : MotorHallDir) : MotorHallDir := if d = .forward then .reverse else .forward

/-- What an act does to the direction and the count, with the direction that it samples. -/
inductive Turn : Option MotorHallDir → MotorHallDir → BitVec 8 → MotorHallDir → BitVec 8 → Prop where
  | kept {dir : MotorHallDir} {count : BitVec 8} : Turn none dir count dir count
  | stopped {dir : MotorHallDir} {count : BitVec 8} : Turn none dir count .stop 0
  | agrees {d : MotorHallDir} {count : BitVec 8} : Turn (some d) d count d 0
  | counts {d dir : MotorHallDir} {count : BitVec 8} :
      dir ≠ d → ¬motorHallDirectionConfirmCnt ≤ count + 1 → Turn (some d) dir count dir (count + 1)
  | confirms {d dir : MotorHallDir} {count : BitVec 8} :
      dir ≠ d → motorHallDirectionConfirmCnt ≤ count + 1 → Turn (some d) dir count d 0

/-- The count is below three, and while the motor turns it counts samples of the other direction, newest first. -/
structure Opposed (dir : MotorHallDir) (count : BitVec 8) (samples : List MotorHallDir) : Prop where
  bound : count.toNat ≤ 2
  newest : IsTurning dir → samples.take count.toNat = List.replicate count.toNat dir.other

theorem opposed_zero (dir : MotorHallDir) (samples : List MotorHallDir) : Opposed dir 0 samples :=
  ⟨by decide, fun _ => rfl⟩

theorem IsTurning.eq_other {d dir : MotorHallDir} (hd : IsTurning d) (hdir : IsTurning dir) (hne : dir ≠ d) :
    d = dir.other := by
  rcases hd with rfl | rfl <;> rcases hdir with rfl | rfl <;> first | rfl | exact absurd rfl hne

section
variable {sample : Option MotorHallDir} {dir dir' : MotorHallDir} {count count' : BitVec 8} {samples : List MotorHallDir}

theorem toNat_count_succ (h : count.toNat ≤ 2) : (count + 1).toNat = count.toNat + 1 := by
  have hone : (1 : BitVec 8).toNat = 1 := rfl
  rw [BitVec.toNat_add, hone]
  exact Nat.mod_eq_of_lt (by omega)

theorem confirmCnt_le_iff (h : count.toNat ≤ 2) : motorHallDirectionConfirmCnt ≤ count + 1 ↔ count = 2 := by
  rw [BitVec.le_def, toNat_count_succ h, BitVec.toNat_eq]
  have hthree : motorHallDirectionConfirmCnt.toNat = 3 := rfl
  have htwo : (2 : BitVec 8).toNat = 2 := rfl
  omega

theorem Turn.trans {dir'' : MotorHallDir} {count'' : BitVec 8} (h : Turn none dir count dir' count')
    (h' : Turn none dir' count' dir'' count'') : Turn none dir count dir'' count'' := by
  cases h' with
  | kept => exact h
  | stopped => exact .stopped

theorem Turn.opposed (turn : Turn sample dir count dir' count') (hsample : ∀ d ∈ sample, IsTurning d)
    (h : Opposed dir count samples) : Opposed dir' count' (sample.toList ++ samples) := by
  cases turn with
  | kept => exact h
  | stopped => exact opposed_zero ..
  | agrees => exact opposed_zero ..
  | @counts d dir count hne hfew =>
    have hsucc := toNat_count_succ h.bound
    have hnot : count.toNat ≠ 2 := fun htwo => hfew ((confirmCnt_le_iff h.bound).mpr (BitVec.eq_of_toNat_eq htwo))
    have hbound := h.bound
    refine ⟨by omega, fun hdir => ?_⟩
    have hother : d = dir.other := (hsample d rfl).eq_other hdir hne
    rw [hsucc, Option.toList_some, List.singleton_append, List.take_succ_cons, h.newest hdir, List.replicate_succ, hother]
  | confirms => exact opposed_zero ..

/-- A direction is confirmed by three samples of it exactly where the two before a confirmation out of NONE or STOP are
    of the same direction. -/
theorem Turn.by_three_iff (turn : Turn sample dir count dir' count') (hsample : ∀ d ∈ sample, IsTurning d)
    (h : Opposed dir count samples) :
    (dir' ≠ dir → IsTurning dir' → sample = some dir' ∧ (sample.toList ++ samples).take 3 = List.replicate 3 dir') ↔
      ∀ d ∈ sample, ¬IsTurning dir → count = 2 → samples.take 2 = List.replicate 2 d := by
  cases turn with
  | kept => exact iff_of_true (fun hne => absurd rfl hne) fun d hd => by cases hd
  | stopped => exact iff_of_true (fun _ hdir => by rcases hdir with h | h <;> cases h) fun d hd => by cases hd
  | agrees =>
    refine iff_of_true (fun hne => absurd rfl hne) fun d hd hnot => ?_
    obtain rfl := Option.some.inj hd
    exact absurd (hsample _ rfl) hnot
  | counts hne hfew =>
    refine iff_of_true (fun hne => absurd rfl hne) fun d hd _ htwo => ?_
    exact absurd ((confirmCnt_le_iff h.bound).mpr htwo) hfew
  | confirms hne hfull =>
    have htwo : count = 2 := (confirmCnt_le_iff h.bound).mp hfull
    have htake : ((some dir').toList ++ samples).take 3 = List.replicate 3 dir' ↔
        samples.take 2 = List.replicate 2 dir' := by
      rw [Option.toList_some, List.singleton_append, List.take_succ_cons, List.replicate_succ, List.cons.injEq]
      exact and_iff_right rfl
    rw [htake]
    constructor
    · intro hlaw d' hd' _ _
      obtain rfl := Option.some.inj hd'
      exact (hlaw (fun heq => hne heq.symm) (hsample _ rfl)).2
    · intro hcond _ hturning
      refine ⟨rfl, ?_⟩
      by_cases hdir : IsTurning dir
      · have hnewest := h.newest hdir
        rw [← hturning.eq_other hdir hne, htwo] at hnewest
        exact hnewest
      · exact hcond dir' rfl hdir htwo

end

/-! ### The code takes turns -/

namespace Hall

/-- The direction that the levels at an edge of B show, where it falls and the motor turns. -/
def sample (F : Binary32) (invertDir aHigh bHigh : Bool) (inst : MotorHallInst) : Option MotorHallDir :=
  if inst.hallBLast = some true ∧ bHigh = false ∧ (F.le inst.currentRpm zero && F.le zero inst.currentRpm) = false then
    some (if aHigh = invertDir then .reverse else .forward)
  else none

variable {F : Binary32} {invertDir aHigh bHigh : Bool} {inst : MotorHallInst}

theorem isTurning_of_sample {d : MotorHallDir} (h : d ∈ sample F invertDir aHigh bHigh inst) : IsTurning d := by
  unfold sample at h
  split at h
  · obtain rfl := Option.some.inj h
    split
    · exact .inr rfl
    · exact .inl rfl
  · cases h

theorem turn_confirm (d : MotorHallDir) (inst : MotorHallInst) :
    Turn (some d) inst.currentDirection inst.directionConfirmCount (confirm d inst).currentDirection
      (confirm d inst).directionConfirmCount := by
  unfold confirm
  dsimp only
  split
  · rename_i hne
    split
    · rename_i hfull
      exact .confirms hne hfull
    · rename_i hfew
      exact .counts hne hfew
  · rename_i hsame
    rw [not_not.mp hsame]
    exact .agrees

theorem turn_direct (F : Binary32) (invertDir aHigh bHigh : Bool) (inst : MotorHallInst) :
    Turn (sample F invertDir aHigh bHigh inst) inst.currentDirection inst.directionConfirmCount
      (direct F invertDir aHigh bHigh inst).currentDirection
      (direct F invertDir aHigh bHigh inst).directionConfirmCount := by
  unfold direct sample
  dsimp only
  split
  · exact turn_confirm _ { inst with directionDataReady := true }
  · exact .kept

theorem turn_edge (F : Binary32) (invertDir aHigh bHigh : Bool) (counter : BitVec 16) (h : Hall) :
    Turn (sample F invertDir aHigh bHigh h.inst) h.inst.currentDirection h.inst.directionConfirmCount
      (direct F invertDir aHigh bHigh (measure counter h).inst).currentDirection
      (direct F invertDir aHigh bHigh (measure counter h).inst).directionConfirmCount := by
  have hturn := turn_direct F invertDir aHigh bHigh (measure counter h).inst
  have hsample : sample F invertDir aHigh bHigh (measure counter h).inst = sample F invertDir aHigh bHigh h.inst := by
    rw [measure_eq]
    rfl
  have hdir : (measure counter h).inst.currentDirection = h.inst.currentDirection := by rw [measure_eq]
  have hcount : (measure counter h).inst.directionConfirmCount = h.inst.directionConfirmCount := by rw [measure_eq]
  rwa [hsample, hdir, hcount] at hturn

end Hall

namespace MotorHall

/-- A part of a task run keeps the direction and its count, or stops the direction and clears the count. -/
def Halts (m m' : MotorHall) : Prop :=
  Turn none m.currentDirection m.directionConfirmCount m'.currentDirection m'.directionConfirmCount

variable {m m' m'' : MotorHall}

theorem halts_of_eq (hdir : m'.currentDirection = m.currentDirection)
    (hcount : m'.directionConfirmCount = m.directionConfirmCount) : Halts m m' := by
  rw [Halts, hdir, hcount]
  exact .kept

theorem Halts.trans (h : Halts m m') (h' : Halts m' m'') : Halts m m'' := Turn.trans h h'

theorem halts_calculateRpm (F : Fpu) (m : MotorHall) : Halts m (m.calculateRpm F) := by
  rw [calculateRpm_eq, pushInterval_eq]
  exact halts_of_eq rfl rfl

theorem halts_performStallDetection (F : Fpu) (currentTimeUs : BitVec 64) (m : MotorHall) :
    Halts m (m.performStallDetection F currentTimeUs) := by
  unfold performStallDetection
  dsimp only
  split_ifs <;> first | exact halts_of_eq rfl rfl | exact Turn.stopped

theorem halts_task (F : Fpu) (nowMs : BitVec 32) (timestampUs : BitVec 64) (m : MotorHall) :
    Halts m (m.task F nowMs timestampUs) := by
  have hrpm : Halts m (m.rpmTimer F nowMs timestampUs) := by
    unfold rpmTimer
    split
    · exact (halts_calculateRpm F m).trans (halts_performStallDetection F timestampUs _)
    · exact halts_of_eq rfl rfl
  have hcheck : ∀ m : MotorHall, Halts m (m.hallCheckTimer nowMs) := by
    intro m
    rw [hallCheckTimer_eq]
    exact halts_of_eq rfl rfl
  have haccum : ∀ m : MotorHall, Halts m m.accumulatePulses := by
    intro m
    rw [accumulatePulses_eq]
    exact halts_of_eq rfl rfl
  unfold task
  split
  · exact hrpm.trans ((hcheck _).trans (haccum _))
  · exact halts_of_eq rfl rfl

end MotorHall

/-! ### Runs -/

/-- The motor with the directions sampled so far, newest first. -/
structure Directed where
  axis : MotorAxis
  samples : List MotorHallDir

namespace Directed

/-- After `MotorHall_Init` at power-up. -/
def start (nowMs : BitVec 32) (timer : Timer6) : Directed := ⟨⟨MotorHall.init nowMs, timer⟩, []⟩

/-- The direction that an act samples. -/
def sample (F : Fpu) (s : Directed) : MotorAct → Option MotorHallDir
  | .hallB invertDir aHigh bHigh _ =>
    if s.axis.m.valid then Hall.sample F.toBinary32 invertDir aHigh bHigh s.axis.m.toMotorHallInst else none
  | _ => none

def step (F : Fpu) (s : Directed) (a : MotorAct) : Option Directed :=
  some ⟨s.axis.step F a, (s.sample F a).toList ++ s.samples⟩

/-- The direction changes to FORWARD or REVERSE only with the last of three samples of it in a row. -/
def Confirmed (F : Fpu) (s : Directed) (a : MotorAct) : Prop :=
  ∀ s', step F s a = some s' → s'.axis.m.currentDirection ≠ s.axis.m.currentDirection →
    IsTurning s'.axis.m.currentDirection → s.sample F a = some s'.axis.m.currentDirection ∧
      s'.samples.take 3 = List.replicate 3 s'.axis.m.currentDirection

/-- The third sample that counts while the direction is NONE or STOP is of the direction of the two samples before. -/
def Unmixed (F : Fpu) (s : Directed) (a : MotorAct) : Prop :=
  ∀ d ∈ s.sample F a, ¬IsTurning s.axis.m.currentDirection → s.axis.m.directionConfirmCount = 2 →
    s.samples.take 2 = List.replicate 2 d

variable {F : Fpu} {s s' : Directed} {a : MotorAct}

theorem isTurning_of_sample {d : MotorHallDir} (h : d ∈ s.sample F a) : IsTurning d := by
  cases a with
  | hallB invertDir aHigh bHigh counter =>
    rw [sample] at h
    split at h
    · exact Hall.isTurning_of_sample h
    · cases h
  | _ => cases h

theorem turn_step (F : Fpu) (s : Directed) (a : MotorAct) :
    Turn (s.sample F a) s.axis.m.currentDirection s.axis.m.directionConfirmCount
      (s.axis.step F a).m.currentDirection (s.axis.step F a).m.directionConfirmCount := by
  unfold sample
  cases a with
  | hallA counter =>
    dsimp only
    rw [MotorAxis.step, MotorAxis.hallA, Hall.hallA]
    split
    · dsimp only [MotorAxis.ofHall]
      rw [Hall.measure_eq]
      exact .kept
    · exact .kept
  | hallB invertDir aHigh bHigh counter =>
    dsimp only
    rw [MotorAxis.step, MotorAxis.hallB, Hall.hallB]
    split
    · exact Hall.turn_edge F.toBinary32 invertDir aHigh bHigh counter
        ⟨{ s.axis.m.toMotorHallInst with hallPulseCountB := s.axis.m.hallPulseCountB + 1 }, s.axis.timer⟩
    · exact .kept
  | task counter nowMs =>
    dsimp only
    rw [MotorAxis.step, MotorAxis.task]
    split
    · exact MotorHall.halts_task ..
    · exact .kept
  | getDeltaPulses => exact .kept

/-- While the motor turns, the samples that count are all of the other direction. -/
def Inv (s : Directed) : Prop := Opposed s.axis.m.currentDirection s.axis.m.directionConfirmCount s.samples

theorem inv_step (hinv : Inv s) (hstep : step F s a = some s') : Inv s' := by
  cases hstep
  exact (turn_step F s a).opposed (fun _ => isTurning_of_sample) hinv

theorem confirmed_iff_unmixed (hinv : Inv s) : Confirmed F s a ↔ Unmixed F s a := by
  unfold Confirmed Unmixed
  simp only [step, Option.some.injEq, forall_eq']
  exact (turn_step F s a).by_three_iff (fun _ => isTurning_of_sample) hinv

/-- Along every run, each direction is confirmed by three samples of it exactly where no confirmation out of NONE or
    STOP mixes the two directions. -/
theorem confirmed_iff (F : Fpu) (nowMs : BitVec 32) (timer : Timer6) (as : List MotorAct) (s : Directed) :
    Run (step F) (Confirmed F) (start nowMs timer) as s ↔ Run (step F) (Unmixed F) (start nowMs timer) as s :=
  Run.congr (opposed_zero _ _) (fun _ _ _ hinv hstep => inv_step hinv hstep) fun _ _ hinv => confirmed_iff_unmixed hinv

/-- An edge after 200 µs and two runs of the task measure a speed; then B falls with A low, and again with A high. -/
def mixedActs : List MotorAct :=
  [.hallB false false true 625, .task 31250 10, .task 62500 20, .hallB false false false 625, .hallB false true true 1250,
    .hallB false true false 1875, .hallB false false true 2500]

/-- REVERSE, FORWARD and FORWARD confirm FORWARD. -/
theorem mixed_samples_confirm :
    ∃ s s', exec (step ieeeFpu) (start 0 (Timer6.init 3125000)) mixedActs = some s ∧
      step ieeeFpu s (.hallB false true false 3125) = some s' ∧
      s.axis.m.currentDirection = .none ∧ s'.axis.m.currentDirection = .forward ∧
      s'.samples = [.forward, .forward, .reverse] ∧ ¬Confirmed ieeeFpu s (.hallB false true false 3125) := by
  refine ⟨_, _, rfl, rfl, by decide +kernel, by decide +kernel, by decide +kernel, fun hlaw => ?_⟩
  have hsamples := (hlaw _ rfl (by decide +kernel) (by decide +kernel)).2
  revert hsamples
  decide +kernel

end Directed

end RodActuator.Motor
