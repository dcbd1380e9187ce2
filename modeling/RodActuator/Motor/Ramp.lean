import RodActuator.Lib.Transition
import RodActuator.Motor.Pwm

/-! The safety of the ramp. The duties of the two groups are stepped apart from each other and with steps of two sizes;
    they stay mirror images all the same. The polarity of the bridge is switched when both duties have been written as
    50 %, but the counter goes on with the values of its last peak: where these are others, the switch comes too early. -/

namespace RodActuator.Motor
open Transition

namespace Pwm

def cur (p : Pwm) : PwmGrp → BitVec 8
  | .u => p.uCur
  | .v => p.vCur

def applied (p : Pwm) : PwmGrp → BitVec 8
  | .u => p.uApplied
  | .v => p.vApplied

def tgt (p : Pwm) : PwmGrp → BitVec 8
  | .u => p.uTgt
  | .v => p.vTgt

/-- No sum and no difference of a step leaves eight bits. -/
structure Fits (cur tgt step : BitVec 8) : Prop where
  up : cur < tgt → cur.toNat + step.toNat < 2 ^ 8
  down : tgt < cur → tgt.toNat + step.toNat < 2 ^ 8
  back : tgt < cur → tgt + step < cur → step ≤ cur

/-! ### One step of a duty -/

section
variable {step : BitVec 8}

theorem toNat_rampStep8 (cur tgt : BitVec 8) (hcur : cur.toNat ≤ 98) (htgt : tgt.toNat ≤ 98) (hstep : step.toNat ≤ 10) :
    (rampStep8 cur tgt step).toNat =
      if cur.toNat < tgt.toNat then min (cur.toNat + step.toNat) tgt.toNat
      else max (cur.toNat - step.toNat) tgt.toNat := by
  have hup : (cur + step).toNat = cur.toNat + step.toNat := by
    rw [BitVec.toNat_add]
    exact Nat.mod_eq_of_lt (by omega)
  have hdown : (tgt + step).toNat = tgt.toNat + step.toNat := by
    rw [BitVec.toNat_add]
    exact Nat.mod_eq_of_lt (by omega)
  simp only [rampStep8, BitVec.lt_def, hup, hdown]
  by_cases hlow : cur.toNat < tgt.toNat
  · rw [if_pos hlow, if_pos hlow]
    split <;> omega
  · rw [if_neg hlow, if_neg hlow]
    split
    · split
      · rename_i hfar
        rw [BitVec.toNat_sub_of_le (BitVec.le_def.mpr (by omega))]
        omega
      · omega
    · omega

theorem fits_rampStep8 (cur tgt : BitVec 8) (hcur : cur.toNat ≤ 98) (htgt : tgt.toNat ≤ 98) (hstep : step.toNat ≤ 10) :
    Fits cur tgt step := by
  refine ⟨fun _ => by omega, fun _ => by omega, fun _ hfar => ?_⟩
  have hdown : (tgt + step).toNat = tgt.toNat + step.toNat := by
    rw [BitVec.toNat_add]
    exact Nat.mod_eq_of_lt (by omega)
  rw [BitVec.lt_def, hdown] at hfar
  rw [BitVec.le_def]
  omega

end

theorem fifty_bounds : 2 ≤ (50 : BitVec 8).toNat ∧ (50 : BitVec 8).toNat ≤ 98 := by decide

theorem toNat_rampStepOf (dir : PwmCmdDir) : (rampStepOf dir).toNat ≤ 10 := by cases dir <;> decide

theorem effDuty_bounds (duty : BitVec 8) : 2 ≤ (effDuty duty).toNat ∧ (effDuty duty).toNat ≤ 98 := by
  have hbounds : ∀ eff : BitVec 8, let low := if eff < pwmDutyMin then pwmDutyMin else eff
      2 ≤ (if pwmDutyMax < low then pwmDutyMax else low).toNat ∧
        (if pwmDutyMax < low then pwmDutyMax else low).toNat ≤ 98 := by
    intro eff
    have hmin : pwmDutyMin.toNat = 2 := rfl
    have hmax : pwmDutyMax.toNat = 98 := rfl
    simp only [BitVec.lt_def, hmin, hmax]
    split <;> split <;> omega
  exact hbounds _

/-- The targets are mirror images within the limits. -/
theorem targets_mirror (p : Pwm) : p.targets.1.toNat + p.targets.2.toNat = 100 ∧
    2 ≤ p.targets.1.toNat ∧ p.targets.1.toNat ≤ 98 := by
  have hbounds := effDuty_bounds p.cmdDuty
  have hmirror : (100 - effDuty p.cmdDuty).toNat = 100 - (effDuty p.cmdDuty).toNat :=
    BitVec.toNat_sub_of_le (BitVec.le_def.mpr (by have : (100 : BitVec 8).toNat = 100 := rfl; omega))
  unfold targets
  split
  · decide
  · dsimp only
    omega
  · dsimp only
    omega

end Pwm

namespace PwmHw

/-- Each write meets the condition where it is made. -/
def EachAt (ok : PwmHw → PwmWrite → Prop) : PwmHw → List PwmWrite → Prop
  | _, [] => True
  | hw, w :: ws => ok hw w ∧ EachAt ok (hw.write w) ws

/-- Both outputs of both groups run at 50 %. -/
def Halves (hw : PwmHw) : Prop := ∀ grp,
  hw.loadedH grp = dutyToCompare hw.period 50 ∧ hw.loadedL grp = dutyToCompare hw.period 50

/-- The polarity is switched at 50 % only. -/
def SwitchesAtHalf (hw : PwmHw) (w : PwmWrite) : Prop := ∀ grp polarity,
  w = .setPolarity grp polarity → hw.polarity grp ≠ polarity → hw.Halves

/-- The timer was given the duties. -/
def Shows (cur : PwmGrp → BitVec 8) (hw : PwmHw) : Prop := ∀ grp,
  hw.compareH grp = dutyToCompare hw.period ((cur grp).setWidth 32) ∧
    hw.compareL grp = dutyToCompare hw.period ((cur grp).setWidth 32)

/-- The write gives a group a compare value. -/
def IsCompare (w : PwmWrite) : Prop := ∃ grp cmp, w = .setCompare grp cmp

section
variable {ok : PwmHw → PwmWrite → Prop} {hw : PwmHw} {cur : PwmGrp → BitVec 8} {ws : List PwmWrite}

theorem eachAt_append (ws ws' : List PwmWrite) :
    EachAt ok hw (ws ++ ws') ↔ EachAt ok hw ws ∧ EachAt ok (ws.foldl write hw) ws' := by
  induction ws generalizing hw with
  | nil => simp [EachAt]
  | cons w ws ih => rw [List.cons_append, EachAt, EachAt, List.foldl_cons, ih, and_assoc]

@[simp] theorem write_period (w : PwmWrite) : (hw.write w).period = hw.period := by cases w <;> rfl

@[simp] theorem write_loadedH (w : PwmWrite) : (hw.write w).loadedH = hw.loadedH := by cases w <;> rfl

@[simp] theorem write_loadedL (w : PwmWrite) : (hw.write w).loadedL = hw.loadedL := by cases w <;> rfl

theorem foldl_period (ws : List PwmWrite) : (ws.foldl write hw).period = hw.period := by
  induction ws generalizing hw with
  | nil => rfl
  | cons w ws ih => rw [List.foldl_cons, ih, write_period]

/-- No write changes what is in force. -/
theorem foldl_halves (ws : List PwmWrite) : (ws.foldl write hw).Halves ↔ hw.Halves := by
  induction ws generalizing hw with
  | nil => rfl
  | cons w ws ih =>
    rw [List.foldl_cons, ih]
    simp only [Halves, write_period, write_loadedH, write_loadedL]

/-- At a peak the duties that were given come into force. -/
theorem Shows.peak_halves (h : Shows cur hw) (hcur : ∀ grp, cur grp = 50) : hw.peak.Halves := by
  intro grp
  have hgrp := h grp
  rwa [hcur grp] at hgrp

theorem compare_polarity (h : ∀ w ∈ ws, IsCompare w) : (ws.foldl write hw).polarity = hw.polarity := by
  induction ws generalizing hw with
  | nil => rfl
  | cons w ws ih =>
    obtain ⟨grp, cmp, rfl⟩ := h w List.mem_cons_self
    rw [List.foldl_cons, ih fun w hmem => h w (List.mem_cons_of_mem _ hmem)]
    rfl

theorem eachAt_compare (h : ∀ w ∈ ws, IsCompare w) : EachAt SwitchesAtHalf hw ws := by
  induction ws generalizing hw with
  | nil => trivial
  | cons w ws ih =>
    obtain ⟨grp, cmp, rfl⟩ := h w List.mem_cons_self
    exact ⟨fun _ _ heq => (by cases heq), ih fun w hmem => h w (List.mem_cons_of_mem _ hmem)⟩

/-- The polarity of both groups, and nothing else. -/
theorem write_polarity (hw : PwmHw) (polarity : PwmPolarity) :
    [PwmWrite.setPolarity .u polarity, .setPolarity .v polarity].foldl write hw =
      { hw with polarity := fun _ => polarity } := by
  have hall : Function.update (Function.update hw.polarity .u polarity) .v polarity = fun _ => polarity := by
    funext grp
    cases grp <;> simp
  simp only [List.foldl_cons, List.foldl_nil, write, hall]

theorem eachAt_polarity_iff {old : PwmPolarity} (hold : ∀ grp, hw.polarity grp = old) (polarity : PwmPolarity) :
    EachAt SwitchesAtHalf hw [.setPolarity .u polarity, .setPolarity .v polarity] ↔ (old ≠ polarity → hw.Halves) := by
  constructor
  · intro h hne
    refine h.1 .u polarity rfl ?_
    rwa [hold]
  · intro h
    have hboth : ∀ hw' : PwmHw, hw'.Halves = hw.Halves → hw'.polarity .v = old →
        SwitchesAtHalf hw' (.setPolarity .v polarity) := by
      rintro hw' hhalves hv grp _ ⟨⟩ hne
      rw [hhalves]
      exact h (hv ▸ hne)
    refine ⟨?_, hboth _ rfl ?_, trivial⟩
    · rintro grp _ ⟨⟩ hne
      exact h (hold .u ▸ hne)
    · have hother : PwmGrp.v ≠ .u := by decide
      exact (Function.update_of_ne hother polarity hw.polarity).trans (hold .v)

end

end PwmHw

namespace Pwm
open PwmHw

/-- What every act keeps of the ramp and the timer. -/
structure Sound (p : Pwm) (hw : PwmHw) : Prop where
  mirror : p.uCur.toNat + p.vCur.toNat = 100
  low : 2 ≤ p.uCur.toNat ∧ p.uCur.toNat ≤ 98
  shown : hw.Shows p.cur
  applied : ∀ grp, p.applied grp = p.cur grp ∨ p.applied grp = 0xFF
  polarity : ∀ grp, hw.polarity grp = if p.st = .stop then .stop else .run
  stopped : p.st = .stop → ∀ grp, p.cur grp = 50

/-- How far the duties are from 50 %. -/
def distance (p : Pwm) : Nat := (p.uCur.toNat - 50) + (50 - p.uCur.toNat)

section
variable {p : Pwm} {hw : PwmHw} {period : BitVec 16}

/-! ### The parts of a tick -/

theorem applyDuty_isCompare {grp : PwmGrp} {applied duty : BitVec 8} {w : PwmWrite}
    (h : w ∈ (applyDuty period grp applied duty).2) : IsCompare w := by
  unfold applyDuty at h
  split at h
  · exact ⟨_, _, List.mem_singleton.mp h⟩
  · cases h

/-- A group whose duty is written where it is new. -/
theorem applyDuty_spec {grp : PwmGrp} {applied old duty : BitVec 8}
    (hshown : hw.compareH grp = dutyToCompare period (old.setWidth 32) ∧
      hw.compareL grp = dutyToCompare period (old.setWidth 32))
    (happlied : applied = old ∨ applied = 0xFF) (hduty : duty ≠ 0xFF) :
    let r := applyDuty period grp applied duty
    r.1 = duty ∧ (r.2.foldl write hw).compareH grp = dutyToCompare period (duty.setWidth 32) ∧
      (r.2.foldl write hw).compareL grp = dutyToCompare period (duty.setWidth 32) ∧
      ∀ g ≠ grp, (r.2.foldl write hw).compareH g = hw.compareH g ∧ (r.2.foldl write hw).compareL g = hw.compareL g := by
  intro r
  by_cases hsame : applied = duty
  · have hr : r = (applied, []) := if_neg (not_not.mpr hsame)
    obtain rfl : duty = old := by
      rcases happlied with hold | hnone
      · exact hsame.symm.trans hold
      · exact absurd (hsame.symm.trans hnone) hduty
    rw [hr]
    exact ⟨hsame, hshown.1, hshown.2, fun _ _ => ⟨rfl, rfl⟩⟩
  · have hr : r = (duty, [.setCompare grp (dutyToCompare period (duty.setWidth 32))]) := if_pos hsame
    rw [hr]
    refine ⟨rfl, ?_, ?_, fun g hg => ?_⟩
    · exact Function.update_self ..
    · exact Function.update_self ..
    · exact ⟨Function.update_of_ne hg _ _, Function.update_of_ne hg _ _⟩

/-- Out of STOP both polarities are written, and else nothing. -/
theorem startRun_cases (p : Pwm) :
    (p.st = .stop ∧ p.startRun.2 = [.setPolarity .u .run, .setPolarity .v .run] ∧ p.startRun.1.st = .ramp) ∨
      (p.st ≠ .stop ∧ p.startRun = (p, [])) := by
  unfold startRun
  by_cases hst : p.st = .stop
  · rw [if_pos hst]
    exact .inl ⟨hst, rfl, rfl⟩
  · rw [if_neg hst]
    exact .inr ⟨hst, rfl⟩

theorem startRun_st (p : Pwm) : p.startRun.1.st ≠ .stop := by
  rcases p.startRun_cases with ⟨-, -, hst⟩ | ⟨hst, heq⟩
  · rw [hst]
    decide
  · rwa [heq]

theorem startRun_kept (p : Pwm) :
    p.startRun.1.cmdDir = p.cmdDir ∧ p.startRun.1.uTgt = p.uTgt ∧ p.startRun.1.vTgt = p.vTgt := by
  unfold Pwm.startRun
  split <;> exact ⟨rfl, rfl, rfl⟩

theorem Sound.startRun (h : Sound p hw) : Sound p.startRun.1 (p.startRun.2.foldl write hw) := by
  unfold Pwm.startRun
  by_cases hst : p.st = .stop
  · have hcur := h.stopped hst
    rw [if_pos hst, write_polarity]
    refine ⟨rfl, fifty_bounds, fun grp => ?_, fun grp => ?_, fun _ => rfl, fun h => by cases h⟩
    · have hgrp := h.shown grp
      rw [hcur grp] at hgrp
      cases grp <;> exact hgrp
    · cases grp <;> exact .inr rfl
  · rw [if_neg hst]
    exact h

theorem ne_unset (duty : BitVec 8) (h : duty.toNat ≤ 98) : duty ≠ 0xFF := by
  intro heq
  rw [heq] at h
  exact absurd h (by decide)

theorem approach_isCompare {w : PwmWrite} (h : w ∈ (p.approach period).2) : IsCompare w := by
  rcases List.mem_append.mp h with h | h
  · exact applyDuty_isCompare h
  · exact applyDuty_isCompare h

theorem Sound.approach (h : Sound p hw) (hst : p.st ≠ .stop) (hmirror : p.uTgt.toNat + p.vTgt.toNat = 100)
    (hlow : 2 ≤ p.uTgt.toNat ∧ p.uTgt.toNat ≤ 98) :
    Sound (p.approach hw.period).1 ((p.approach hw.period).2.foldl write hw) := by
  have hpolarity : ((p.approach hw.period).2.foldl write hw).polarity = hw.polarity :=
    compare_polarity fun w => approach_isCompare
  have hcur := h.mirror
  have hrange := h.low
  have hstep := toNat_rampStepOf p.cmdDir
  have hu := toNat_rampStep8 p.uCur p.uTgt (by omega) (by omega) hstep
  have hv := toNat_rampStep8 p.vCur p.vTgt (by omega) (by omega) hstep
  have hboth : (rampStep8 p.uCur p.uTgt (rampStepOf p.cmdDir)).toNat + (rampStep8 p.vCur p.vTgt (rampStepOf p.cmdDir)).toNat = 100 ∧
      2 ≤ (rampStep8 p.uCur p.uTgt (rampStepOf p.cmdDir)).toNat ∧ (rampStep8 p.uCur p.uTgt (rampStepOf p.cmdDir)).toNat ≤ 98 := by
    rw [hu, hv]
    split <;> split <;> omega
  unfold Pwm.approach at hpolarity ⊢
  dsimp only at hpolarity ⊢
  generalize rampStep8 p.uCur p.uTgt (rampStepOf p.cmdDir) = u at hboth hpolarity ⊢
  generalize rampStep8 p.vCur p.vTgt (rampStepOf p.cmdDir) = v at hboth hpolarity ⊢
  obtain ⟨huApplied, huH, huL, huRest⟩ := applyDuty_spec (h.shown .u) (h.applied .u) (ne_unset u (by omega))
  have hv₀ := h.shown .v
  rw [← (huRest .v (by decide)).1, ← (huRest .v (by decide)).2] at hv₀
  obtain ⟨hvApplied, hvH, hvL, hvRest⟩ := applyDuty_spec hv₀ (h.applied .v) (ne_unset v (by omega))
  refine ⟨hboth.1, hboth.2, fun grp => ?_, fun grp => ?_, fun grp => ?_, fun hstop => absurd hstop hst⟩
  · rw [List.foldl_append, foldl_period, foldl_period]
    cases grp with
    | u =>
      obtain ⟨hH, hL⟩ := hvRest .u (by decide)
      exact ⟨hH.trans huH, hL.trans huL⟩
    | v => exact ⟨hvH, hvL⟩
  · cases grp with
    | u => exact .inl huApplied
    | v => exact .inl hvApplied
  · rw [hpolarity]
    exact h.polarity grp

/-- A bridge that has come to a stop gets both polarities, and else nothing is written. -/
theorem settle_cases (p : Pwm) :
    ((p.uCur = p.uTgt ∧ p.vCur = p.vTgt) ∧ p.cmdDir = .stop ∧
        p.settle = ({ p with st := .stop }, [.setPolarity .u .stop, .setPolarity .v .stop])) ∨
      (¬((p.uCur = p.uTgt ∧ p.vCur = p.vTgt) ∧ p.cmdDir = .stop) ∧ p.settle.2 = [] ∧ p.settle.1.st ≠ .stop ∧
        p.settle.1 = { p with st := p.settle.1.st, runDir := p.settle.1.runDir }) := by
  unfold settle
  by_cases hthere : p.uCur = p.uTgt ∧ p.vCur = p.vTgt
  · rw [if_pos hthere]
    by_cases hdir : p.cmdDir = .stop
    · rw [if_pos hdir]
      exact .inl ⟨hthere, hdir, rfl⟩
    · rw [if_neg hdir]
      exact .inr ⟨fun h => hdir h.2, rfl, by simp, rfl⟩
  · rw [if_neg hthere]
    exact .inr ⟨fun h => hthere h.1, rfl, by simp, rfl⟩

theorem Sound.settle (h : Sound p hw) (hst : p.st ≠ .stop) (hstop : p.cmdDir = .stop → p.uTgt = 50) :
    Sound p.settle.1 (p.settle.2.foldl write hw) := by
  have hrunning : ∀ grp, hw.polarity grp = .run := fun grp => (h.polarity grp).trans (if_neg hst)
  rcases p.settle_cases with ⟨hthere, hdir, heq⟩ | ⟨-, hno, hst', heq⟩
  · have hu : p.uCur = 50 := hthere.1.trans (hstop hdir)
    have hv : p.vCur = 50 := by
      have hsum := h.mirror
      have hfifty : (50 : BitVec 8).toNat = 50 := rfl
      rw [hu] at hsum
      exact BitVec.eq_of_toNat_eq (by omega)
    have hcur : ∀ grp, p.cur grp = 50 := by
      intro grp
      cases grp
      · exact hu
      · exact hv
    rw [heq, write_polarity]
    exact ⟨h.mirror, h.low, h.shown, h.applied, fun _ => rfl, fun _ => hcur⟩
  · rw [hno, heq]
    refine ⟨h.mirror, h.low, h.shown, h.applied, fun grp => ?_, fun hstop => absurd hstop hst'⟩
    exact (hrunning grp).trans (if_neg hst').symm

/-- The state with the targets of its command. -/
def aimed (p : Pwm) : Pwm := { p with uTgt := p.targets.1, vTgt := p.targets.2 }

theorem Sound.aimed (h : Sound p hw) : Sound p.aimed hw := ⟨h.mirror, h.low, h.shown, h.applied, h.polarity, h.stopped⟩

theorem targets_stop (h : p.cmdDir = .stop) : p.targets = (50, 50) := by
  unfold targets
  rw [h]

/-! ### Whole ticks and emergency stops -/

/-- A bridge that is not to run and does not run is left alone. -/
theorem rampTick_idle (hst : p.st = .stop) (hdir : p.cmdDir = .stop) : p.rampTick period = (p.aimed, []) :=
  if_pos ⟨hst, hdir⟩

theorem rampTick_eq (h : ¬(p.st = .stop ∧ p.cmdDir = .stop)) :
    p.rampTick period = ((p.aimed.startRun.1.approach period).1.settle.1, p.aimed.startRun.2 ++
      (p.aimed.startRun.1.approach period).2 ++ (p.aimed.startRun.1.approach period).1.settle.2) := if_neg h

theorem rampTick_cmdDir (period : BitVec 16) (p : Pwm) : (p.rampTick period).1.cmdDir = p.cmdDir := by
  by_cases hidle : p.st = .stop ∧ p.cmdDir = .stop
  · rw [rampTick_idle hidle.1 hidle.2]
    rfl
  · have hstarted : (p.aimed.startRun.1.approach period).1.cmdDir = p.cmdDir := p.aimed.startRun_kept.1
    rw [rampTick_eq hidle]
    rcases (p.aimed.startRun.1.approach period).1.settle_cases with ⟨-, -, heq⟩ | ⟨-, -, -, heq⟩
    · rw [heq]
      exact hstarted
    · exact (congrArg Pwm.cmdDir heq).trans hstarted

/-- A tick stops a bridge that runs only under a stop command. -/
theorem rampTick_stops (hst : p.st ≠ .stop) (hst' : (p.rampTick period).1.st = .stop) : p.cmdDir = .stop := by
  rw [rampTick_eq fun h => hst h.1] at hst'
  rcases (p.aimed.startRun.1.approach period).1.settle_cases with ⟨-, hdir, -⟩ | ⟨-, -, hno, -⟩
  · exact p.aimed.startRun_kept.1.symm.trans hdir
  · exact absurd hst' hno

/-- The bridge before it is settled, after all other parts of a tick. -/
theorem Sound.unsettled (h : Sound p hw) :
    let ws := p.aimed.startRun.2 ++ (p.aimed.startRun.1.approach hw.period).2
    Sound (p.aimed.startRun.1.approach hw.period).1 (ws.foldl write hw) ∧
      (p.aimed.startRun.1.approach hw.period).1.st ≠ .stop ∧
      (p.aimed.startRun.1.approach hw.period).1.cmdDir = p.cmdDir := by
  obtain ⟨hmirror, hlow⟩ := p.targets_mirror
  obtain ⟨hdir, hu, hv⟩ := p.aimed.startRun_kept
  have hstepped := h.aimed.startRun.approach p.aimed.startRun_st (by rw [hu, hv]; exact hmirror) (by rw [hu]; exact hlow)
  rw [foldl_period, ← List.foldl_append] at hstepped
  exact ⟨hstepped, p.aimed.startRun_st, hdir⟩

theorem Sound.rampTick (h : Sound p hw) : Sound (p.rampTick hw.period).1 ((p.rampTick hw.period).2.foldl write hw) := by
  by_cases hidle : p.st = .stop ∧ p.cmdDir = .stop
  · rw [rampTick_idle hidle.1 hidle.2]
    exact h.aimed
  · obtain ⟨hstepped, hst, hdir⟩ := h.unsettled
    rw [rampTick_eq hidle, List.foldl_append]
    refine hstepped.settle hst fun hstop => ?_
    exact (p.aimed.startRun_kept.2.1).trans (congrArg Prod.fst (targets_stop (hdir.symm.trans hstop)))

/-- A tick switches the polarity exactly where the bridge leaves STOP or comes to it. -/
theorem Sound.rampTick_switches (h : Sound p hw) : EachAt SwitchesAtHalf hw (p.rampTick hw.period).2 ↔
    (¬(p.st = .stop ↔ (p.rampTick hw.period).1.st = .stop) → hw.Halves) := by
  by_cases hidle : p.st = .stop ∧ p.cmdDir = .stop
  · rw [rampTick_idle hidle.1 hidle.2]
    exact iff_of_true trivial fun hne => absurd Iff.rfl hne
  · obtain ⟨hstepped, hst, hdir⟩ := h.unsettled
    have hrunning : ∀ grp, ((p.aimed.startRun.2 ++ (p.aimed.startRun.1.approach hw.period).2).foldl write hw).polarity grp =
        .run := fun grp => (hstepped.polarity grp).trans (if_neg hst)
    have happroach : ∀ hw', EachAt SwitchesAtHalf hw' (p.aimed.startRun.1.approach hw.period).2 :=
      fun _ => eachAt_compare fun _ => approach_isCompare
    rw [rampTick_eq hidle, eachAt_append, eachAt_append, and_iff_left (happroach _)]
    rcases p.aimed.startRun_cases with ⟨hstop, hstarts, -⟩ | ⟨hmoves, hstarts⟩
    · -- The start switches; what follows cannot stop the bridge, as its command is to run.
      have hold : ∀ grp, hw.polarity grp = .stop := fun grp => (h.polarity grp).trans (if_pos hstop)
      rcases (p.aimed.startRun.1.approach hw.period).1.settle_cases with ⟨-, hstop', -⟩ | ⟨-, hno, hst', -⟩
      · exact absurd ⟨hstop, hdir.symm.trans hstop'⟩ hidle
      · rw [hno, EachAt, and_true, hstarts, eachAt_polarity_iff hold]
        have hflip : ¬(p.st = .stop ↔ (p.aimed.startRun.1.approach hw.period).1.settle.1.st = .stop) :=
          fun hiff => hst' (hiff.mp hstop)
        exact ⟨fun himp _ => himp (by decide), fun himp _ => himp hflip⟩
    · have hnone : EachAt SwitchesAtHalf hw p.aimed.startRun.2 := by
        rw [hstarts]
        trivial
      have hmoves' : ¬p.st = .stop := hmoves
      rw [and_iff_right hnone]
      rcases (p.aimed.startRun.1.approach hw.period).1.settle_cases with ⟨-, -, heq⟩ | ⟨-, hno, hst', -⟩
      · rw [heq, eachAt_polarity_iff hrunning, foldl_halves]
        exact ⟨fun himp _ => himp (by decide), fun himp _ => himp fun hiff => hmoves' (hiff.mpr rfl)⟩
      · rw [hno]
        exact iff_of_true trivial fun hne => absurd (iff_of_false hmoves' hst') hne

theorem eStop_writes (p : Pwm) (period : BitVec 16) : (p.eStop period).2 = [.setCompare .u (dutyToCompare period 50),
    .setCompare .v (dutyToCompare period 50)] ++ [.setPolarity .u .stop, .setPolarity .v .stop] := rfl

theorem sound_eStop (p : Pwm) (hw : PwmHw) : Sound (p.eStop hw.period).1 ((p.eStop hw.period).2.foldl write hw) := by
  rw [eStop_writes, List.foldl_append, write_polarity]
  refine ⟨rfl, fifty_bounds, fun grp => ?_, fun grp => ?_, fun _ => rfl, fun _ grp => ?_⟩
  · cases grp <;> exact ⟨rfl, rfl⟩
  · cases grp <;> exact .inl rfl
  · cases grp <;> rfl

/-- An emergency stop switches the polarity of a bridge that is not in STOP. -/
theorem Sound.eStop_switches (h : Sound p hw) :
    EachAt SwitchesAtHalf hw (p.eStop hw.period).2 ↔ (p.st ≠ .stop → hw.Halves) := by
  have hcompare : ∀ w ∈ [PwmWrite.setCompare .u (dutyToCompare hw.period 50),
      .setCompare .v (dutyToCompare hw.period 50)], IsCompare w := by
    intro w hw
    rcases List.mem_pair.mp hw with rfl | rfl <;> exact ⟨_, _, rfl⟩
  have hold := h.polarity
  rw [← compare_polarity hcompare] at hold
  rw [eStop_writes, eachAt_append, and_iff_right (eachAt_compare hcompare), eachAt_polarity_iff hold, foldl_halves]
  by_cases hst : p.st = .stop
  · rw [if_pos hst]
    exact ⟨fun _ hne => absurd hst hne, fun _ hne => absurd rfl hne⟩
  · rw [if_neg hst]
    exact ⟨fun himp _ => himp (by decide), fun himp _ => himp hst⟩

/-! ### A stop that is held -/

/-- A tick under a stop command stops a bridge within one step of 50 %, and takes any other nearer by a whole step. -/
theorem Sound.stop_tick (h : Sound p hw) (hdir : p.cmdDir = .stop) (hst : p.st ≠ .stop) (period : BitVec 16) :
    ((p.rampTick period).1.st = .stop ↔ p.distance ≤ pwmRampStepStopPct.toNat) ∧
      (p.distance ≤ pwmRampStepStopPct.toNat ∨
        (p.rampTick period).1.distance + pwmRampStepStopPct.toNat = p.distance) := by
  have hmirror := h.mirror
  have hlow := h.low
  have htgt := targets_stop hdir
  have hstep : rampStepOf p.cmdDir = pwmRampStepStopPct := if_pos hdir
  have hfifty : (50 : BitVec 8).toNat = 50 := rfl
  have hten : pwmRampStepStopPct.toNat = 10 := rfl
  have hu := toNat_rampStep8 p.uCur 50 (by omega) (by omega) (Nat.le_of_eq hten)
  have hv := toNat_rampStep8 p.vCur 50 (by omega) (by omega) (Nat.le_of_eq hten)
  have htick : (p.rampTick period).1 = (p.aimed.approach period).1.settle.1 := by
    have hstarted : p.aimed.startRun = (p.aimed, []) := if_neg hst
    rw [rampTick_eq fun h => hst h.1, hstarted]
  obtain ⟨hu', hv', hut, hvt, hdir'⟩ : (p.aimed.approach period).1.uCur = rampStep8 p.uCur 50 pwmRampStepStopPct ∧
      (p.aimed.approach period).1.vCur = rampStep8 p.vCur 50 pwmRampStepStopPct ∧
      (p.aimed.approach period).1.uTgt = 50 ∧ (p.aimed.approach period).1.vTgt = 50 ∧
      (p.aimed.approach period).1.cmdDir = .stop := by
    have hut : p.aimed.uTgt = 50 := congrArg Prod.fst htgt
    have hvt : p.aimed.vTgt = 50 := congrArg Prod.snd htgt
    have hdir' : rampStepOf p.aimed.cmdDir = pwmRampStepStopPct := hstep
    unfold Pwm.approach
    dsimp only
    rw [hut, hvt, hdir']
    exact ⟨rfl, rfl, rfl, rfl, hdir⟩
  rw [htick]
  generalize (p.aimed.approach period).1 = p' at hu' hv' hut hvt hdir' ⊢
  have hthere : (p'.uCur = p'.uTgt ∧ p'.vCur = p'.vTgt) ↔ p.distance ≤ pwmRampStepStopPct.toNat := by
    rw [hut, hvt, hu', hv', BitVec.toNat_eq, BitVec.toNat_eq, hu, hv, hfifty, hten, distance]
    constructor
    · rintro ⟨hnear, -⟩
      split at hnear <;> omega
    · intro hnear
      constructor <;> split <;> omega
  rcases p'.settle_cases with ⟨hhere, -, heq⟩ | ⟨hnot, -, hst', heq⟩
  · rw [heq]
    exact ⟨iff_of_true rfl (hthere.mp hhere), .inl (hthere.mp hhere)⟩
  · have hfar : ¬p.distance ≤ pwmRampStepStopPct.toNat := fun hnear => hnot ⟨hthere.mpr hnear, hdir'⟩
    refine ⟨iff_of_false hst' hfar, .inr ?_⟩
    have hcur : p'.settle.1.uCur = p'.uCur := by rw [heq]
    rw [distance, hten] at hfar
    rw [distance, hcur, hu', hu, hfifty, hten, distance]
    split <;> omega

end

end Pwm

namespace PwmMotor
open PwmHw Pwm

/-- The act leaves a stop command standing. -/
def holdsStop : PwmAct → Prop
  | .cmdPost dir _ => dir = .stop
  | .tick | .eStop | .peak => True

/-- The ticks from the widest duty to 50 %. -/
def pwmStopTicks : Nat := (48 + pwmRampStepStopPct.toNat - 1) / pwmRampStepStopPct.toNat

/-- What holds of the duties, the values given to the timer and the polarity; and a stop command that is held stops the
    bridge within `pwmStopTicks` ticks. -/
structure Safe (s : PwmMotor) : Prop where
  mirror : s.pwm.uCur.toNat + s.pwm.vCur.toNat = 100
  range : ∀ grp, pwmDutyMin ≤ s.pwm.cur grp ∧ s.pwm.cur grp ≤ pwmDutyMax
  compare : s.hw.Shows s.pwm.cur
  polarity : ∀ grp, s.hw.polarity grp = .run ↔ s.pwm.st ≠ .stop
  stops : s.pwm.cmdDir = .stop → ∀ held : List PwmAct, (∀ a ∈ held, holdsStop a) → pwmStopTicks ≤ held.count .tick →
    (held.foldl next s).pwm.st = .stop

/-- What holds of an act: its writes switch the polarity only while both groups run at 50 %, a tick steps within eight
    bits, and a peak loads the current duties. -/
structure SafeAct (s : PwmMotor) (a : PwmAct) : Prop where
  switches : EachAt SwitchesAtHalf s.hw (s.act a).2
  fits : a = .tick → ∀ grp,
    Fits (s.pwm.aimed.startRun.1.cur grp) (s.pwm.aimed.startRun.1.tgt grp) (rampStepOf s.pwm.cmdDir)
  loads : a = .peak → ∀ grp, (s.next a).hw.loadedH grp = dutyToCompare s.hw.period ((s.pwm.cur grp).setWidth 32) ∧
    (s.next a).hw.loadedL grp = dutyToCompare s.hw.period ((s.pwm.cur grp).setWidth 32)

/-- The law of a ramp, before an act, of the act and after it. -/
structure Lawful (s : PwmMotor) (a : PwmAct) : Prop where
  before : Safe s
  act : SafeAct s a
  after : Safe (s.next a)

/-- A bridge that runs is stopped only while its groups run at 50 %: by an emergency stop, or by the tick that finds the
    duties within its step of 50 %. -/
def StopsLoaded (s : PwmMotor) : PwmAct → Prop
  | .eStop => s.pwm.st ≠ .stop → s.hw.Halves
  | .tick => s.pwm.st ≠ .stop → s.pwm.cmdDir = .stop → s.pwm.distance ≤ pwmRampStepStopPct.toNat → s.hw.Halves
  | .cmdPost _ _ | .peak => True

section
variable {s : PwmMotor} {a : PwmAct}

theorem sound_init (pclk1 : BitVec 32) : Sound (init pclk1).pwm (init pclk1).hw := by
  refine ⟨rfl, fifty_bounds, fun grp => ?_, fun grp => ?_, fun _ => rfl, fun _ grp => ?_⟩
  · cases grp <;> exact ⟨rfl, rfl⟩
  · cases grp <;> exact .inr rfl
  · cases grp <;> rfl

theorem sound_next (h : Sound s.pwm s.hw) (a : PwmAct) : Sound (s.next a).pwm (s.next a).hw := by
  cases a with
  | cmdPost dir dutyPct => exact ⟨h.mirror, h.low, h.shown, h.applied, h.polarity, h.stopped⟩
  | tick => exact h.rampTick
  | eStop => exact sound_eStop s.pwm s.hw
  | peak => exact ⟨h.mirror, h.low, h.shown, h.applied, h.polarity, h.stopped⟩

theorem sound_foldl (h : Sound s.pwm s.hw) (acts : List PwmAct) :
    Sound (acts.foldl next s).pwm (acts.foldl next s).hw := by
  induction acts generalizing s with
  | nil => exact h
  | cons a acts ih => exact ih (sound_next h a)

theorem exec_step (s : PwmMotor) (acts : List PwmAct) : exec step s acts = some (acts.foldl next s) := by
  induction acts generalizing s with
  | nil => rfl
  | cons a acts ih => exact ih (s.next a)

theorem next_idle (hst : s.pwm.st = .stop) (hdir : s.pwm.cmdDir = .stop) : s.next .tick = ⟨s.pwm.aimed, s.hw⟩ := by
  have hact : s.act .tick = (s.pwm.aimed, []) := rampTick_idle hst hdir
  rw [next, hact]
  rfl

/-- A bridge in STOP stays there while a stop command is held. -/
theorem stopped_held (hst : s.pwm.st = .stop) (hdir : s.pwm.cmdDir = .stop) {held : List PwmAct}
    (hheld : ∀ a ∈ held, holdsStop a) : (held.foldl next s).pwm.st = .stop := by
  induction held generalizing s with
  | nil => exact hst
  | cons a held ih =>
    rw [List.foldl_cons]
    have hrest := fun b hb => hheld b (List.mem_cons_of_mem _ hb)
    cases a with
    | cmdPost dir dutyPct => exact ih hst (hheld _ List.mem_cons_self) hrest
    | eStop => exact ih rfl rfl hrest
    | peak => exact ih hst hdir hrest
    | tick =>
      rw [next_idle hst hdir]
      exact ih hst hdir hrest

/-- Under a stop command each tick takes the duties nearer to 50 % by a whole step, or has stopped the bridge. -/
theorem stops_held (h : Sound s.pwm s.hw) (hdir : s.pwm.cmdDir = .stop) {held : List PwmAct}
    (hheld : ∀ a ∈ held, holdsStop a) :
    (held.foldl next s).pwm.st = .stop ∨ pwmRampStepStopPct.toNat * held.count .tick ≤ s.pwm.distance := by
  induction held generalizing s with
  | nil => exact .inr (Nat.zero_le _)
  | cons a held ih =>
    rw [List.foldl_cons]
    have hrest := fun b hb => hheld b (List.mem_cons_of_mem _ hb)
    have hsound := sound_next h a
    cases a with
    | cmdPost dir dutyPct => exact ih hsound (hheld _ List.mem_cons_self) hrest
    | eStop => exact .inl (stopped_held rfl rfl hrest)
    | peak => exact ih hsound hdir hrest
    | tick =>
      have hdir' : (s.next .tick).pwm.cmdDir = .stop := (rampTick_cmdDir ..).trans hdir
      by_cases hst : s.pwm.st = .stop
      · have hst' : (s.next .tick).pwm.st = .stop := by rwa [next_idle hst hdir]
        exact .inl (stopped_held hst' hdir' hrest)
      · obtain ⟨hstops, hnear | hfar⟩ := h.stop_tick hdir hst s.hw.period
        · exact .inl (stopped_held (hstops.mpr hnear) hdir' hrest)
        · rcases ih hsound hdir' hrest with hstop | hticks
          · exact .inl hstop
          · right
            rw [List.count_cons_self, Nat.mul_add, Nat.mul_one, ← hfar]
            exact Nat.add_le_add_right hticks _

theorem safe_of_sound (h : Sound s.pwm s.hw) : Safe s where
  mirror := h.mirror
  range grp := by
    have hmirror := h.mirror
    have hlow := h.low
    have hmin : pwmDutyMin.toNat = 2 := rfl
    have hmax : pwmDutyMax.toNat = 98 := rfl
    rw [BitVec.le_def, BitVec.le_def, hmin, hmax]
    cases grp <;> simp only [Pwm.cur] <;> omega
  compare := h.shown
  polarity grp := by
    rw [h.polarity grp]
    split
    · rename_i hstop
      exact iff_of_false (by simp) (not_not.mpr hstop)
    · rename_i hrun
      exact iff_of_true rfl hrun
  stops hdir held hheld hticks := by
    rcases stops_held h hdir hheld with hstop | hfar
    · exact hstop
    · have hlow := h.low
      have hten : pwmRampStepStopPct.toNat = 10 := rfl
      have hfive : pwmStopTicks = 5 := rfl
      rw [hfive] at hticks
      rw [hten, distance] at hfar
      omega

theorem fits_of_sound (h : Sound s.pwm s.hw) (grp : PwmGrp) :
    Fits (s.pwm.aimed.startRun.1.cur grp) (s.pwm.aimed.startRun.1.tgt grp) (rampStepOf s.pwm.cmdDir) := by
  obtain ⟨hmirror, hlow⟩ := s.pwm.targets_mirror
  obtain ⟨-, hu, hv⟩ := s.pwm.aimed.startRun_kept
  have hut : s.pwm.aimed.uTgt = s.pwm.targets.1 := rfl
  have hvt : s.pwm.aimed.vTgt = s.pwm.targets.2 := rfl
  have hcur := h.aimed.startRun
  have hsum := hcur.mirror
  have hrange := hcur.low
  have hstep := toNat_rampStepOf s.pwm.cmdDir
  cases grp
  · refine fits_rampStep8 _ _ hrange.2 ?_ hstep
    rw [tgt, hu, hut]
    exact hlow.2
  · refine fits_rampStep8 _ _ ?_ ?_ hstep
    · rw [Pwm.cur]
      omega
    · rw [tgt, hv, hvt]
      omega

/-- The polarity is switched where the bridge leaves STOP or comes to it. -/
theorem switches_iff (h : Sound s.pwm s.hw) (a : PwmAct) : EachAt SwitchesAtHalf s.hw (s.act a).2 ↔
    (¬(s.pwm.st = .stop ↔ (s.next a).pwm.st = .stop) → s.hw.Halves) := by
  cases a with
  | cmdPost dir dutyPct => exact iff_of_true trivial fun hne => absurd Iff.rfl hne
  | tick => exact h.rampTick_switches
  | eStop =>
    refine h.eStop_switches.trans ?_
    have hstops : (s.next .eStop).pwm.st = .stop := rfl
    rw [hstops, iff_true_intro (rfl : PwmState.stop = .stop), iff_true]
  | peak => exact iff_of_true trivial fun hne => absurd Iff.rfl hne

theorem not_switchesAtHalf (h : Sound s.pwm s.hw) (hflip : ¬(s.pwm.st = .stop ↔ (s.next a).pwm.st = .stop))
    (hhalves : ¬s.hw.Halves) : ¬EachAt SwitchesAtHalf s.hw (s.act a).2 := fun hat =>
  hhalves ((switches_iff h a).mp hat hflip)

/-- An act is lawful exactly where the bridge leaves STOP or comes to it at 50 %. -/
theorem lawful_iff (h : Sound s.pwm s.hw) (a : PwmAct) :
    Lawful s a ↔ (¬(s.pwm.st = .stop ↔ (s.next a).pwm.st = .stop) → s.hw.Halves) := by
  rw [← switches_iff h]
  refine ⟨fun hlaw => hlaw.act.switches, fun hat => ⟨safe_of_sound h, ⟨hat, fun _ => fits_of_sound h, ?_⟩,
    safe_of_sound (sound_next h a)⟩⟩
  rintro rfl
  exact h.shown

/-- A bridge in STOP runs at 50 %. -/
structure Rests (s : PwmMotor) : Prop where
  sound : Sound s.pwm s.hw
  halves : s.pwm.st = .stop → s.hw.Halves

/-- A lawful act keeps 50 % in force while the bridge is in STOP. -/
theorem rests_next (h : Rests s) (hlaw : Lawful s a) : Rests (s.next a) := by
  refine ⟨sound_next h.sound a, fun hst' => ?_⟩
  by_cases hpeak : a = .peak
  · subst hpeak
    exact h.sound.shown.peak_halves (h.sound.stopped hst')
  · have hhalves : s.hw.Halves := by
      by_cases hst : s.pwm.st = .stop
      · exact h.halves hst
      · exact (lawful_iff h.sound a).mp hlaw fun hiff => hst (hiff.mpr hst')
    have hhw : (s.next a).hw = (s.act a).2.foldl write s.hw := if_neg hpeak
    rw [hhw]
    exact (foldl_halves _).mpr hhalves

/-- The bridge leaves STOP at 50 %, so that only its stops matter. -/
theorem lawful_iff_stopsLoaded (h : Rests s) (a : PwmAct) : Lawful s a ↔ StopsLoaded s a := by
  rw [lawful_iff h.sound a]
  by_cases hst : s.pwm.st = .stop
  · have hstops : StopsLoaded s a := by
      cases a with
      | tick => exact fun hne => absurd hst hne
      | eStop => exact fun hne => absurd hst hne
      | _ => trivial
    exact iff_of_true (fun _ => h.halves hst) hstops
  · have hflips : ¬(s.pwm.st = .stop ↔ (s.next a).pwm.st = .stop) ↔ (s.next a).pwm.st = .stop := by
      rw [iff_false_intro hst, false_iff, not_not]
    rw [hflips]
    cases a with
    | cmdPost dir dutyPct => exact iff_of_true (fun hst' => absurd hst' hst) trivial
    | peak => exact iff_of_true (fun hst' => absurd hst' hst) trivial
    | eStop => exact ⟨fun himp _ => himp rfl, fun himp _ => himp hst⟩
    | tick =>
      constructor
      · intro himp _ hdir hnear
        exact himp ((h.sound.stop_tick hdir hst s.hw.period).1.mpr hnear)
      · intro himp hst'
        have hdir := rampTick_stops hst hst'
        exact himp hst hdir ((h.sound.stop_tick hdir hst s.hw.period).1.mp hst')

end

/-- In every run of commands, ticks, emergency stops and peaks the law of the ramp holds at every act exactly where every
    stop finds 50 % in force. -/
theorem ramp_safe_iff (pclk1 : BitVec 32) (acts : List PwmAct) (s : PwmMotor) :
    Run step Lawful (init pclk1) acts s ↔ Run step StopsLoaded (init pclk1) acts s := by
  refine Run.congr_of_keep (⟨sound_init pclk1, fun _ _ => ⟨rfl, rfl⟩⟩ : Rests (init pclk1)) ?_ ?_
  · rintro s a s' h hlaw ⟨⟩
    exact rests_next h hlaw
  · exact fun s a _ h _ => lawful_iff_stopsLoaded h a

/-- The run command at the full duty, until the duties are 2 % and 98 %. -/
def fullSpeed : List PwmAct := .cmdPost .fwd 98 :: (List.replicate 24 [.tick, .peak]).flatten

/-- The stop command at the full duty, until the duties are 42 % and 58 %. -/
def slowedDown : List PwmAct := fullSpeed ++ .cmdPost .stop 0 :: (List.replicate 4 [.tick, .peak]).flatten

/-- At the full duty an emergency stop switches the polarity with 2 % in force, and the last tick of a stop with 42 %. -/
theorem polarity_outruns_duty :
    (∃ s, exec step (init 100000000) fullSpeed = some s ∧ s.pwm.st = .run ∧ s.pwm.uCur = 2 ∧
        ¬EachAt SwitchesAtHalf s.hw (s.act .eStop).2) ∧
      ∃ s, exec step (init 100000000) slowedDown = some s ∧ s.pwm.st = .ramp ∧ s.pwm.uCur = 42 ∧
        ¬EachAt SwitchesAtHalf s.hw (s.act .tick).2 := by
  refine ⟨⟨_, exec_step .., by decide +kernel, by decide +kernel, ?_⟩,
    ⟨_, exec_step .., by decide +kernel, by decide +kernel, ?_⟩⟩
  · refine not_switchesAtHalf (sound_foldl (sound_init _) fullSpeed) (by decide +kernel) fun hhalves => ?_
    exact absurd (hhalves .u).1 (by decide +kernel)
  · refine not_switchesAtHalf (sound_foldl (sound_init _) slowedDown) (by decide +kernel) fun hhalves => ?_
    exact absurd (hhalves .u).1 (by decide +kernel)

end PwmMotor

end RodActuator.Motor
