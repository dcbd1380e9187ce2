import RodActuator.Lib.Ieee754
import RodActuator.Power.Hysteresis

/-! A voltage that crosses from one fault region into the other. While a fault is held only its own side is looked
    at: an over-voltage is far above the recovery threshold of an under-voltage, so it counts as a good bus. -/

namespace RodActuator.Power
open Binary32 Sys

namespace BusVoltage
variable (cfg : VoltCfg) (v₀ : BusVoltage) (past : List Single) (mean : Single)

/-- A good bus is reported only between the thresholds, and a bus in a fault region has the status of it. -/
structure Truthful : Prop where
  good : SysEvt.isIn .voltNormal (sent ieee cfg v₀ past mean) = true →
    ieee.le cfg.underTh (sample ieee mean) = true ∧ ieee.le (sample ieee mean) cfg.overTh = true
  underVolt : ieee.lt (sample ieee mean) cfg.underTh = true → (after ieee cfg v₀ (past ++ [mean])).status = .under
  overVolt : ieee.lt cfg.overTh (sample ieee mean) = true → (after ieee cfg v₀ (past ++ [mean])).status = .over

/-- The sample of a tick is not in the region of the fault that is not held. -/
structure Uncrossed : Prop where
  underVolt : (after ieee cfg v₀ past).status = .under → ieee.lt cfg.overTh (sample ieee mean) = false
  overVolt : (after ieee cfg v₀ past).status = .over → ieee.lt (sample ieee mean) cfg.underTh = false

theorem after_synced (F : Binary32) (cfg : VoltCfg) (v₀ : BusVoltage) (past : List Single) :
    (after F cfg v₀ past).status = (after F cfg v₀ past).fault := by
  rcases past.eq_nil_or_concat' with rfl | ⟨past, mean, rfl⟩
  · rfl
  · rw [after_concat]
    exact synced_isr1ms F cfg mean _

/-! ### The four thresholds in order -/

/-- The order of the thresholds: a lower one for each fault and the recoveries between them. -/
structure Ordered : Prop where
  underVolt : Ieee.isNaN cfg.underTh = false ∧ Ieee.key cfg.underTh ≤ Ieee.key (ieee.add cfg.underTh cfg.hyst)
  between : Ieee.key (ieee.add cfg.underTh cfg.hyst) ≤ Ieee.key (ieee.sub cfg.overTh cfg.hyst)
  overVolt : Ieee.isNaN cfg.overTh = false ∧ Ieee.key (ieee.sub cfg.overTh cfg.hyst) ≤ Ieee.key cfg.overTh

variable {cfg}

theorem ordered (hhyst : ieee.lt zero cfg.hyst = true)
    (hgap : ieee.le (ieee.add cfg.underTh cfg.hyst) (ieee.sub cfg.overTh cfg.hyst) = true) : Ordered cfg := by
  obtain ⟨-, -, hpos⟩ := Ieee.lt_iff.mp hhyst
  obtain ⟨hunder, hover, hbetween⟩ := Ieee.le_iff.mp hgap
  have hzero : Ieee.key zero = 0 := by decide
  rw [hzero] at hpos
  exact ⟨Ieee.key_le_add hpos hunder, hbetween, Ieee.key_sub_le hpos hover⟩

variable {v₀ past mean} {volt : Single}

theorem Ordered.not_both (h : Ordered cfg) (hunder : ieee.lt volt cfg.underTh = true) :
    ieee.lt cfg.overTh volt = false := by
  obtain ⟨-, -, hlt⟩ := Ieee.lt_iff.mp hunder
  refine Bool.eq_false_of_not_eq_true fun hover => ?_
  obtain ⟨-, -, hlt'⟩ := Ieee.lt_iff.mp hover
  have := h.underVolt.2
  have := h.between
  have := h.overVolt.2
  omega

/-- A voltage in the region of a fault does not recover from it. -/
theorem Ordered.under_holds (h : Ordered cfg) (hunder : ieee.lt volt cfg.underTh = true) :
    recovers ieee cfg volt .under = false := by
  obtain ⟨-, -, hlt⟩ := Ieee.lt_iff.mp hunder
  refine Bool.eq_false_of_not_eq_true fun hrecovers => ?_
  obtain ⟨-, -, hlt'⟩ := Ieee.lt_iff.mp hrecovers
  have := h.underVolt.2
  omega

theorem Ordered.over_holds (h : Ordered cfg) (hover : ieee.lt cfg.overTh volt = true) :
    recovers ieee cfg volt .over = false := by
  obtain ⟨-, -, hlt⟩ := Ieee.lt_iff.mp hover
  refine Bool.eq_false_of_not_eq_true fun hrecovers => ?_
  obtain ⟨-, -, hlt'⟩ := Ieee.lt_iff.mp hrecovers
  have := h.overVolt.2
  omega

/-- A voltage that recovers from one fault is out of the region of that fault. -/
theorem Ordered.recovered (h : Ordered cfg) {fault : VoltStatus} (hfault : fault ≠ .normal)
    (hrecovers : recovers ieee cfg volt fault = true) (hunder : fault = .under → ieee.lt cfg.overTh volt = false)
    (hover : fault = .over → ieee.lt volt cfg.underTh = false) :
    ieee.le cfg.underTh volt = true ∧ ieee.le volt cfg.overTh = true := by
  obtain ⟨hnanUnder, hu⟩ := h.underVolt
  obtain ⟨hnanOver, ho⟩ := h.overVolt
  cases fault with
  | normal => exact absurd rfl hfault
  | under =>
    obtain ⟨-, hnan, hlt⟩ := Ieee.lt_iff.mp hrecovers
    have hnot := mt Ieee.lt_iff.mpr (Bool.eq_false_iff.mp (hunder rfl))
    refine ⟨Ieee.le_iff.mpr ⟨hnanUnder, hnan, by omega⟩, Ieee.le_iff.mpr ⟨hnan, hnanOver, ?_⟩⟩
    by_contra hgt
    exact hnot ⟨hnanOver, hnan, by omega⟩
  | «over» =>
    obtain ⟨hnan, -, hlt⟩ := Ieee.lt_iff.mp hrecovers
    have hnot := mt Ieee.lt_iff.mpr (Bool.eq_false_iff.mp (hover rfl))
    refine ⟨Ieee.le_iff.mpr ⟨hnanUnder, hnan, ?_⟩, Ieee.le_iff.mpr ⟨hnan, hnanOver, by omega⟩⟩
    by_contra hgt
    exact hnot ⟨hnan, hnanUnder, by omega⟩

/-! ### The reports -/

/-- A fault that the voltage does not recover from is kept. -/
theorem fault_stays {fault : VoltStatus} (hfault : (after ieee cfg v₀ past).fault = fault) (hne : fault ≠ .normal)
    (hholds : recovers ieee cfg (sample ieee mean) fault = false) :
    (after ieee cfg v₀ (past ++ [mean])).fault = fault := by
  subst hfault
  cases after_tick ieee cfg v₀ past mean with
  | breaks _ _ hafter => exact hafter
  | waits _ hrecovers | counts _ hrecovers | clears _ hrecovers =>
    rw [hholds] at hrecovers
    cases hrecovers
  | normal hfault | overVolt hfault | underVolt hfault => exact absurd hfault hne

theorem Uncrossed.truthful (h : Ordered cfg) (huncrossed : Uncrossed cfg v₀ past mean) : Truthful cfg v₀ past mean := by
  obtain ⟨hunder, hover⟩ := huncrossed
  rw [after_synced] at hunder hover
  have hlaw := hysteresis_tick ieee cfg v₀ past mean
  refine ⟨fun hgood => ?_, fun hlow => ?_, fun hhigh => ?_⟩
  · obtain ⟨hfault, hnormal⟩ := hlaw.normal.mp hgood
    cases after_tick ieee cfg v₀ past mean with
    | clears _ hrecovers => exact h.recovered hfault hrecovers hunder hover
    | normal hno | overVolt hno | underVolt hno => exact absurd hno hfault
    | breaks _ _ hafter | waits _ _ _ hafter | counts _ _ _ _ hafter => exact absurd (hafter.symm.trans hnormal) hfault
  · rw [after_synced]
    cases hfault : (after ieee cfg v₀ past).fault with
    | normal =>
      rw [hlaw.set hfault, h.not_both hlow, hlow]
      rfl
    | under => exact fault_stays hfault (by decide) (h.under_holds hlow)
    | «over» =>
      rw [hover hfault] at hlow
      cases hlow
  · rw [after_synced]
    cases hfault : (after ieee cfg v₀ past).fault with
    | normal =>
      rw [hlaw.set hfault, hhigh]
      rfl
    | under =>
      rw [hunder hfault] at hhigh
      cases hhigh
    | «over» => exact fault_stays hfault (by decide) (h.over_holds hhigh)

/-- A held fault never becomes the other one. -/
theorem Truthful.uncrossed (htruthful : Truthful cfg v₀ past mean) : Uncrossed cfg v₀ past mean := by
  have hclear := (hysteresis_tick ieee cfg v₀ past mean).clear
  constructor
  · intro hunder
    rw [after_synced] at hunder
    refine Bool.eq_false_of_not_eq_true fun hhigh => ?_
    have hstatus := htruthful.overVolt hhigh
    rw [after_synced] at hstatus
    rcases (hclear (by simp [hunder])).2 with hafter | hafter <;> rw [hstatus] at hafter
    · cases hafter
    · rw [hunder] at hafter
      cases hafter
  · intro hover
    rw [after_synced] at hover
    refine Bool.eq_false_of_not_eq_true fun hlow => ?_
    have hstatus := htruthful.underVolt hlow
    rw [after_synced] at hstatus
    rcases (hclear (by simp [hover])).2 with hafter | hafter <;> rw [hstatus] at hafter
    · cases hafter
    · rw [hover] at hafter
      cases hafter

/-- The bus is told truthfully at exactly the ticks that do not cross from one fault region into the other. The two
    sums are rounded, so that they may be equal where the exact ones are apart. -/
theorem truthful_iff (cfg : VoltCfg) (hhyst : ieee.lt zero cfg.hyst = true)
    (hgap : ieee.le (ieee.add cfg.underTh cfg.hyst) (ieee.sub cfg.overTh cfg.hyst) = true) (v₀ : BusVoltage)
    (past : List Single) (mean : Single) : Truthful cfg v₀ past mean ↔ Uncrossed cfg v₀ past mean :=
  ⟨Truthful.uncrossed, Uncrossed.truthful (ordered hhyst hgap)⟩

/-- 26 V, 20 V and 1 V, and a recovery delay of 20 ms. -/
def busCfg : VoltCfg := ⟨0x41D00000#32, 0x41A00000#32, one, 20⟩

/-- A bus that goes from 24 V to 10 V. -/
theorem truthful_under : Truthful busCfg zeroed [0x41C00000#32] 0x41200000#32 := by
  have hiff := truthful_iff busCfg (by decide +kernel) (by decide +kernel) zeroed [0x41C00000#32] 0x41200000#32
  exact hiff.mpr ⟨fun h => absurd h (by decide +kernel), fun h => absurd h (by decide +kernel)⟩

/-- After an under-voltage 30 V are reported as a good bus, and until then as an under-voltage. -/
theorem overvoltage_reported_good :
    ieee.lt zero busCfg.hyst = true ∧
      ieee.lt (ieee.add busCfg.underTh busCfg.hyst) (ieee.sub busCfg.overTh busCfg.hyst) = true ∧
      ieee.lt busCfg.overTh (sample ieee 0x41F00000#32) = true ∧
      (after ieee busCfg zeroed [zero, 0x41F00000#32]).status = .under ∧
      SysEvt.isIn .voltNormal (sent ieee busCfg zeroed (zero :: List.replicate 20 0x41F00000#32) 0x41F00000#32) = true ∧
      ¬Truthful busCfg zeroed [zero] 0x41F00000#32 := by
  have hover : ieee.lt busCfg.overTh (sample ieee 0x41F00000#32) = true := by decide +kernel
  have hstatus : (after ieee busCfg zeroed [zero, 0x41F00000#32]).status = .under := by decide +kernel
  refine ⟨by decide +kernel, by decide +kernel, hover, hstatus, by decide +kernel, fun htruthful => ?_⟩
  have hafter := htruthful.overVolt hover
  rw [List.singleton_append, hstatus] at hafter
  cases hafter

end BusVoltage

end RodActuator.Power
