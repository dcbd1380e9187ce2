import RodActuator.Lib.Alternation
import RodActuator.Lib.Streak
import RodActuator.Power.BusVoltage

/-! Hysteresis and recovery delay of the bus voltage. A fault is set at once and held until the voltage has been
    back for the recovery delay without a break; the waiting flag and the counter hold the length of that run. -/

namespace RodActuator.Power
open Binary32 Sys Streak Alternation

namespace BusVoltage

/-- After `BusVoltage_Init` on `v₀` and the ticks with the means `past`. -/
def after (F : Binary32) (cfg : VoltCfg) (v₀ : BusVoltage) (past : List Single) : BusVoltage :=
  past.foldl (fun v mean => (isr1ms F cfg mean v).1) v₀.init

/-- What a tick sends. -/
def sent (F : Binary32) (cfg : VoltCfg) (v₀ : BusVoltage) (past : List Single) (mean : Single) : BitVec 32 :=
  (isr1ms F cfg mean (after F cfg v₀ past)).2

/-! ### One tick -/

/-- All that a tick with the voltage `volt` can do. -/
inductive Tick (F : Binary32) (cfg : VoltCfg) (volt : Single) (v v' : BusVoltage) (bits : BitVec 32) : Prop where
  | normal (hfault : v.fault = .normal) (hover : F.lt cfg.overTh volt = false) (hunder : F.lt volt cfg.underTh = false)
      (hafter : v'.fault = .normal) (hwaiting : v'.waiting = v.waiting) (hcnt : v'.recoverCnt = v.recoverCnt)
      (hbits : bits = 0)
  | overVolt (hfault : v.fault = .normal) (hover : F.lt cfg.overTh volt = true)
      (hafter : v'.fault = .over) (hwaiting : v'.waiting = v.waiting) (hcnt : v'.recoverCnt = v.recoverCnt)
      (hbits : bits = SysEvt.mask .voltOver)
  | underVolt (hfault : v.fault = .normal) (hover : F.lt cfg.overTh volt = false) (hunder : F.lt volt cfg.underTh = true)
      (hafter : v'.fault = .under) (hwaiting : v'.waiting = v.waiting) (hcnt : v'.recoverCnt = v.recoverCnt)
      (hbits : bits = SysEvt.mask .voltUnder)
  | breaks (hfault : v.fault ≠ .normal) (hrecovers : recovers F cfg volt v.fault = false)
      (hafter : v'.fault = v.fault) (hwaiting : v'.waiting = false) (hcnt : v'.recoverCnt = 0) (hbits : bits = 0)
  | waits (hfault : v.fault ≠ .normal) (hrecovers : recovers F cfg volt v.fault = true) (hbefore : v.waiting = false)
      (hafter : v'.fault = v.fault) (hwaiting : v'.waiting = true) (hcnt : v'.recoverCnt = 0)
      (hbits : bits = SysEvt.mask .voltRecoverWait)
  | counts (hfault : v.fault ≠ .normal) (hrecovers : recovers F cfg volt v.fault = true) (hbefore : v.waiting = true)
      (hmore : ¬cfg.recoverMs ≤ v.recoverCnt + 1)
      (hafter : v'.fault = v.fault) (hwaiting : v'.waiting = true) (hcnt : v'.recoverCnt = v.recoverCnt + 1)
      (hbits : bits = 0)
  | clears (hfault : v.fault ≠ .normal) (hrecovers : recovers F cfg volt v.fault = true) (hbefore : v.waiting = true)
      (henough : cfg.recoverMs ≤ v.recoverCnt + 1)
      (hafter : v'.fault = .normal) (hwaiting : v'.waiting = false) (hcnt : v'.recoverCnt = 0)
      (hbits : bits = SysEvt.mask .voltNormal)

theorem report_same (volt : Single) {prev : VoltStatus} {v : BusVoltage} (h : v.fault = prev) :
    report volt prev v = (v, 0) := if_pos h

theorem isr1ms_tick (F : Binary32) (cfg : VoltCfg) (mean : Single) (v : BusVoltage) :
    Tick F cfg (sample F mean) v (isr1ms F cfg mean v).1 (isr1ms F cfg mean v).2 := by
  by_cases hfault : v.fault = .normal
  · simp only [isr1ms, hfault, if_true, detect]
    cases hover : F.lt cfg.overTh (sample F mean) with
    | true => exact .overVolt hfault hover rfl rfl rfl (by simp [report])
    | false =>
      cases hunder : F.lt (sample F mean) cfg.underTh with
      | true => exact .underVolt hfault hover hunder rfl rfl rfl (by simp [report])
      | false => exact .normal hfault hover hunder rfl rfl rfl (by simp [report])
  · simp only [isr1ms, hfault, if_false, hold]
    cases hrecovers : recovers F cfg (sample F mean) v.fault with
    | false =>
      simp only [Bool.false_eq_true, if_false, report_same]
      exact .breaks hfault hrecovers rfl rfl rfl (by simp)
    | true =>
      cases hbefore : v.waiting with
      | false =>
        simp only [if_true, Bool.false_eq_true, if_false, report_same]
        exact .waits hfault hrecovers hbefore rfl rfl rfl (by simp)
      | true =>
        by_cases henough : cfg.recoverMs ≤ v.recoverCnt + 1
        · simp only [if_true, henough, report, if_neg (Ne.symm hfault)]
          exact .clears hfault hrecovers hbefore henough rfl rfl rfl (by simp)
        · simp only [if_true, henough, if_false, report_same]
          exact .counts hfault hrecovers hbefore henough rfl rfl rfl (by simp)

section
variable {F : Binary32} {cfg : VoltCfg} {volt : Single} {v v' : BusVoltage} {bits : BitVec 32}

theorem Tick.over_iff (h : Tick F cfg volt v v' bits) :
    SysEvt.isIn .voltOver bits = true ↔ v.fault = .normal ∧ F.lt cfg.overTh volt = true := by
  cases h <;> simp_all [SysEvt.isIn_mask_iff]

theorem Tick.under_iff (h : Tick F cfg volt v v' bits) : SysEvt.isIn .voltUnder bits = true ↔
    v.fault = .normal ∧ F.lt cfg.overTh volt = false ∧ F.lt volt cfg.underTh = true := by
  cases h <;> simp_all [SysEvt.isIn_mask_iff]

theorem Tick.normal_iff (h : Tick F cfg volt v v' bits) :
    SysEvt.isIn .voltNormal bits = true ↔ v.fault ≠ .normal ∧ v'.fault = .normal := by
  cases h <;> simp_all [SysEvt.isIn_mask_iff]

theorem Tick.wait_iff (h : Tick F cfg volt v v' bits) : SysEvt.isIn .voltRecoverWait bits = true ↔
    (v.fault ≠ .normal ∧ recovers F cfg volt v.fault = true) ∧ v.waiting = false := by
  cases h <;> simp_all [SysEvt.isIn_mask_iff]

theorem Tick.set (h : Tick F cfg volt v v' bits) (hfault : v.fault = .normal) :
    v'.fault = if F.lt cfg.overTh volt then .over else if F.lt volt cfg.underTh then .under else .normal := by
  cases h <;> simp_all

/-- A fault that is held is cleared where the counter is full, or else held on. -/
theorem Tick.held (h : Tick F cfg volt v v' bits) (hfault : v.fault ≠ .normal) :
    (v'.fault = .normal ↔ recovers F cfg volt v.fault = true ∧ v.waiting = true ∧ cfg.recoverMs ≤ v.recoverCnt + 1) ∧
      (v'.fault = .normal ∨ v'.fault = v.fault) := by
  cases h <;> simp_all

end

section
variable (F : Binary32) (cfg : VoltCfg) (v₀ : BusVoltage) (past : List Single) (mean : Single)

theorem after_concat : after F cfg v₀ (past ++ [mean]) = (isr1ms F cfg mean (after F cfg v₀ past)).1 := by
  rw [after, List.foldl_append]
  rfl

theorem after_tick : Tick F cfg (sample F mean) (after F cfg v₀ past) (after F cfg v₀ (past ++ [mean]))
    (sent F cfg v₀ past mean) := by
  rw [after_concat]
  exact isr1ms_tick F cfg mean _

/-! ### The law -/

/-- A tick that finds a fault held and the voltage back from it. -/
def Waits : Prop := (after F cfg v₀ past).fault ≠ .normal ∧
  recovers F cfg (sample F mean) (after F cfg v₀ past).fault = true

instance : Decidable (Waits F cfg v₀ past mean) := inferInstanceAs (Decidable (_ ∧ _))

/-- The run of waiting ticks that the history ends. -/
def waited (past : List Single) : Nat := streak (fun _ => true) (Waits F cfg v₀) past

theorem waited_concat : waited F cfg v₀ (past ++ [mean]) =
    if Waits F cfg v₀ past mean then waited F cfg v₀ past + 1 else 0 := streak_concat _ _ _ _

/-- The length of a run of waiting ticks that clears a fault. -/
def recoverTicks (cfg : VoltCfg) : Nat := max cfg.recoverMs.toNat 1 + 1

/-- The law for a tick with the mean `mean` that follows the ticks `past`. -/
structure Hysteresis : Prop where
  overVolt : SysEvt.isIn .voltOver (sent F cfg v₀ past mean) = true ↔
    (after F cfg v₀ past).fault = .normal ∧ F.lt cfg.overTh (sample F mean) = true
  underVolt : SysEvt.isIn .voltUnder (sent F cfg v₀ past mean) = true ↔ (after F cfg v₀ past).fault = .normal ∧
    F.lt cfg.overTh (sample F mean) = false ∧ F.lt (sample F mean) cfg.underTh = true
  set : (after F cfg v₀ past).fault = .normal → (after F cfg v₀ (past ++ [mean])).fault =
    if F.lt cfg.overTh (sample F mean) then .over else if F.lt (sample F mean) cfg.underTh then .under else .normal
  clear : (after F cfg v₀ past).fault ≠ .normal →
    ((after F cfg v₀ (past ++ [mean])).fault = .normal ↔
      EndsRun (fun _ => true) (Waits F cfg v₀) (recoverTicks cfg) (past ++ [mean])) ∧
      ((after F cfg v₀ (past ++ [mean])).fault = .normal ∨
        (after F cfg v₀ (past ++ [mean])).fault = (after F cfg v₀ past).fault)
  normal : SysEvt.isIn .voltNormal (sent F cfg v₀ past mean) = true ↔ (after F cfg v₀ past).fault ≠ .normal ∧
    (after F cfg v₀ (past ++ [mean])).fault = .normal
  wait : SysEvt.isIn .voltRecoverWait (sent F cfg v₀ past mean) = true ↔ Waits F cfg v₀ past mean ∧
    ∀ past' mean', past = past' ++ [mean'] → ¬Waits F cfg v₀ past' mean'
  seen : (after F cfg v₀ past).seenValid = true → (after F cfg v₀ (past ++ [mean])).seenValid = true

/-- The flag and the counter hold the run of waiting ticks, which is shorter than what clears the fault. -/
structure Counted : Prop where
  normal : (after F cfg v₀ past).fault = .normal →
    (after F cfg v₀ past).waiting = false ∧ (after F cfg v₀ past).recoverCnt = 0
  held : (after F cfg v₀ past).fault ≠ .normal → (after F cfg v₀ past).waiting = decide (0 < waited F cfg v₀ past) ∧
    (after F cfg v₀ past).recoverCnt.toNat = waited F cfg v₀ past - 1 ∧
    waited F cfg v₀ past < recoverTicks cfg

variable {F cfg v₀ past mean}

theorem waits_of_normal (h : (after F cfg v₀ past).fault = .normal) : ¬Waits F cfg v₀ past mean := fun hwaits => hwaits.1 h

/-- What the counter shows at a tick that finds the flag set. -/
theorem Counted.enough_iff (h : Counted F cfg v₀ past) (hfault : (after F cfg v₀ past).fault ≠ .normal)
    (hwaiting : (after F cfg v₀ past).waiting = true) :
    0 < waited F cfg v₀ past ∧
      ((after F cfg v₀ past).recoverCnt + 1).toNat = waited F cfg v₀ past ∧
      (cfg.recoverMs ≤ (after F cfg v₀ past).recoverCnt + 1 ↔ recoverTicks cfg ≤ waited F cfg v₀ past + 1) := by
  obtain ⟨hflag, hcnt, hlt⟩ := h.held hfault
  have hpos : 0 < waited F cfg v₀ past := by simpa [hwaiting] using hflag
  have hms := cfg.recoverMs.isLt
  simp only [recoverTicks] at hlt ⊢
  have hsucc : ((after F cfg v₀ past).recoverCnt + 1).toNat = waited F cfg v₀ past := by
    have hone : (1 : BitVec 32).toNat = 1 := rfl
    rw [BitVec.toNat_add, hcnt, hone]
    omega
  refine ⟨hpos, hsucc, ?_⟩
  rw [BitVec.le_def, hsucc]
  omega

theorem Counted.tick (h : Counted F cfg v₀ past) : Counted F cfg v₀ (past ++ [mean]) := by
  have hticks : 1 < recoverTicks cfg := by simp [recoverTicks]
  cases after_tick F cfg v₀ past mean with
  | normal hfault _ _ hafter hwaiting hcnt =>
    obtain ⟨hflag, hzero⟩ := h.normal hfault
    exact ⟨fun _ => ⟨hwaiting.trans hflag, hcnt.trans hzero⟩, fun hne => absurd hafter hne⟩
  | overVolt hfault _ hafter hwaiting hcnt | underVolt hfault _ _ hafter hwaiting hcnt =>
    obtain ⟨hflag, hzero⟩ := h.normal hfault
    have hnone : waited F cfg v₀ (past ++ [mean]) = 0 := by
      rw [waited_concat, if_neg (waits_of_normal hfault)]
    refine ⟨fun hnormal => absurd (hafter.symm.trans hnormal) (by decide), fun _ => ?_⟩
    rw [hwaiting, hflag, hcnt, hzero, hnone]
    exact ⟨rfl, rfl, Nat.zero_lt_of_lt hticks⟩
  | breaks hfault hrecovers hafter hwaiting hcnt =>
    have hnone : waited F cfg v₀ (past ++ [mean]) = 0 := by
      rw [waited_concat, if_neg fun hwaits => by simp [Waits, hrecovers] at hwaits]
    refine ⟨fun hnormal => absurd (hafter.symm.trans hnormal) hfault, fun _ => ?_⟩
    rw [hwaiting, hcnt, hnone]
    exact ⟨rfl, rfl, Nat.zero_lt_of_lt hticks⟩
  | waits hfault hrecovers hbefore hafter hwaiting hcnt =>
    obtain ⟨hflag, -, -⟩ := h.held hfault
    have hzero : waited F cfg v₀ past = 0 := by simpa [hbefore] using hflag
    have hone : waited F cfg v₀ (past ++ [mean]) = 1 := by
      rw [waited_concat, if_pos ⟨hfault, hrecovers⟩, hzero]
    refine ⟨fun hnormal => absurd (hafter.symm.trans hnormal) hfault, fun _ => ?_⟩
    rw [hwaiting, hcnt, hone]
    exact ⟨rfl, rfl, hticks⟩
  | counts hfault hrecovers hbefore hmore hafter hwaiting hcnt =>
    obtain ⟨hpos, hsucc, henough⟩ := h.enough_iff hfault hbefore
    have hnext : waited F cfg v₀ (past ++ [mean]) = waited F cfg v₀ past + 1 := by
      rw [waited_concat, if_pos ⟨hfault, hrecovers⟩]
    refine ⟨fun hnormal => absurd (hafter.symm.trans hnormal) hfault, fun _ => ?_⟩
    rw [hwaiting, hcnt, hsucc, hnext]
    exact ⟨by simp, rfl, Nat.lt_of_not_le (mt henough.mpr hmore)⟩
  | clears _ _ _ _ hafter hwaiting hcnt => exact ⟨fun _ => ⟨hwaiting, hcnt⟩, fun hne => absurd hafter hne⟩

theorem counted_after (F : Binary32) (cfg : VoltCfg) (v₀ : BusVoltage) (past : List Single) : Counted F cfg v₀ past := by
  induction past using List.reverseRecOn with
  | nil => exact ⟨fun _ => ⟨rfl, rfl⟩, fun hne => absurd rfl hne⟩
  | append_singleton past mean ih => exact ih.tick

theorem isr1ms_seenValid (h : (after F cfg v₀ past).seenValid = true) :
    (after F cfg v₀ (past ++ [mean])).seenValid = true := by
  rw [after_concat]
  generalize after F cfg v₀ past = v at h
  have hreport : ∀ volt prev v, (report volt prev v).1.seenValid = v.seenValid := by
    intro volt prev v
    unfold report
    split
    · rfl
    · split <;> rfl
  have hdetect : ∀ volt v, (detect F cfg volt v).seenValid = v.seenValid := by
    intro volt v
    unfold detect
    split_ifs <;> rfl
  have hhold : ∀ volt v, (hold F cfg volt v).1.seenValid = v.seenValid := by
    intro volt v
    unfold hold
    dsimp only
    split_ifs <;> rfl
  unfold isr1ms
  dsimp only
  rw [hreport]
  split
  · simp [hdetect, h]
  · simp [hhold, h]

/-- The run is long enough where the counter is. -/
theorem clears_iff (hfault : (after F cfg v₀ past).fault ≠ .normal) :
    recovers F cfg (sample F mean) (after F cfg v₀ past).fault = true ∧ (after F cfg v₀ past).waiting = true ∧
        cfg.recoverMs ≤ (after F cfg v₀ past).recoverCnt + 1 ↔
      EndsRun (fun _ => true) (Waits F cfg v₀) (recoverTicks cfg) (past ++ [mean]) := by
  have hcounted := counted_after F cfg v₀ past
  have hends : recoverTicks cfg ≤ waited F cfg v₀ (past ++ [mean]) ↔ _ := le_streak_iff _ _ _ _
  have hticks : 1 < recoverTicks cfg := by simp [recoverTicks]
  rw [← hends, waited_concat]
  by_cases hwaits : Waits F cfg v₀ past mean
  · rw [if_pos hwaits]
    cases hwaiting : (after F cfg v₀ past).waiting with
    | false =>
      have hflag := (hcounted.held hfault).1
      have hzero : waited F cfg v₀ past = 0 := by simpa [hwaiting] using hflag
      rw [hzero]
      exact iff_of_false (fun h => Bool.noConfusion h.2.1) (Nat.not_le.mpr hticks)
    | true =>
      obtain ⟨-, -, henough⟩ := hcounted.enough_iff hfault hwaiting
      rw [← henough]
      exact ⟨fun h => h.2.2, fun h => ⟨hwaits.2, rfl, h⟩⟩
  · rw [if_neg hwaits]
    exact iff_of_false (fun h => hwaits ⟨hfault, h.1⟩) (Nat.not_le.mpr (Nat.zero_lt_of_lt hticks))

/-- The flag is down at the first tick of a run. -/
theorem first_iff (hfault : (after F cfg v₀ past).fault ≠ .normal) :
    (after F cfg v₀ past).waiting = false ↔ ∀ past' mean', past = past' ++ [mean'] → ¬Waits F cfg v₀ past' mean' := by
  have hfirst : waited F cfg v₀ past = 0 ↔ _ := streak_eq_zero_iff _ _
  rw [← hfirst, ((counted_after F cfg v₀ past).held hfault).1, decide_eq_false_iff_not, Nat.not_lt, Nat.le_zero]

theorem hysteresis_tick (F : Binary32) (cfg : VoltCfg) (v₀ : BusVoltage) (past : List Single) (mean : Single) :
    Hysteresis F cfg v₀ past mean := by
  have htick := after_tick F cfg v₀ past mean
  refine ⟨htick.over_iff, htick.under_iff, htick.set, fun hfault => ?_, htick.normal_iff, ?_, isr1ms_seenValid⟩
  · obtain ⟨hclear, hkept⟩ := htick.held hfault
    exact ⟨hclear.trans (clears_iff hfault), hkept⟩
  · rw [htick.wait_iff]
    exact and_congr_right fun hwaits => first_iff hwaits.1

/-! ### Faults and recoveries in turn -/

/-- The changes that a tick reports. -/
def changes (bits : BitVec 32) : List VoltStatus :=
  (if SysEvt.isIn .voltOver bits then [.over] else []) ++ (if SysEvt.isIn .voltUnder bits then [.under] else []) ++
    if SysEvt.isIn .voltNormal bits then [.normal] else []

/-- The changes reported by a sequence of ticks. -/
def reported (F : Binary32) (cfg : VoltCfg) (v₀ : BusVoltage) (means : List Single) : List VoltStatus :=
  (means.foldl (fun r mean => ((isr1ms F cfg mean r.1).1, r.2 ++ changes (isr1ms F cfg mean r.1).2))
    (v₀.init, ([] : List VoltStatus))).2

theorem reported_concat (F : Binary32) (cfg : VoltCfg) (v₀ : BusVoltage) (past : List Single) (mean : Single) :
    reported F cfg v₀ (past ++ [mean]) = reported F cfg v₀ past ++ changes (sent F cfg v₀ past mean) := by
  have hfst : ∀ (means : List Single) (r : BusVoltage × List VoltStatus),
      (means.foldl (fun r mean => ((isr1ms F cfg mean r.1).1, r.2 ++ changes (isr1ms F cfg mean r.1).2)) r).1 =
        means.foldl (fun v mean => (isr1ms F cfg mean v).1) r.1 := by
    intro means
    induction means with
    | nil => exact fun _ => rfl
    | cons mean means ih =>
      intro r
      rw [List.foldl_cons, List.foldl_cons, ih]
  rw [reported, List.foldl_append, List.foldl_cons, List.foldl_nil, hfst]
  rfl

/-- A tick reports nothing and keeps the fault, or the one change that it makes. -/
theorem changes_tick (F : Binary32) (cfg : VoltCfg) (v₀ : BusVoltage) (past : List Single) (mean : Single) :
    changes (sent F cfg v₀ past mean) = [] ∧
        (after F cfg v₀ (past ++ [mean])).fault = (after F cfg v₀ past).fault ∨
      changes (sent F cfg v₀ past mean) = [(after F cfg v₀ (past ++ [mean])).fault] ∧
        ((after F cfg v₀ past).fault = .normal ↔ (after F cfg v₀ (past ++ [mean])).fault ≠ .normal) := by
  have hmask := SysEvt.isIn_mask_iff
  cases after_tick F cfg v₀ past mean with
  | normal hfault _ _ hafter _ _ hbits => exact .inl ⟨by simp [changes, hbits], hafter.trans hfault.symm⟩
  | breaks _ _ hafter _ _ hbits | waits _ _ _ hafter _ _ hbits | counts _ _ _ _ hafter _ _ hbits =>
    exact .inl ⟨by simp [changes, hbits, hmask], hafter⟩
  | overVolt hfault _ hafter _ _ hbits | underVolt hfault _ _ hafter _ _ hbits =>
    exact .inr ⟨by simp [changes, hbits, hmask, hafter], by simp [hfault, hafter]⟩
  | clears hfault _ _ _ hafter _ _ hbits =>
    exact .inr ⟨by simp [changes, hbits, hmask, hafter], by simp [hfault, hafter]⟩

/-- The last change tells whether a fault is held. -/
theorem reported_alternates (F : Binary32) (cfg : VoltCfg) (v₀ : BusVoltage) (past : List Single) :
    Alternates (· = .normal) (reported F cfg v₀ past) ∧
      (Closed (· = .normal) (reported F cfg v₀ past) ↔ (after F cfg v₀ past).fault = .normal) := by
  induction past using List.reverseRecOn with
  | nil => exact ⟨alternates_nil _, iff_of_true (closed_nil _) rfl⟩
  | append_singleton past mean ih =>
    obtain ⟨halternates, hclosed⟩ := ih
    rw [reported_concat]
    rcases changes_tick F cfg v₀ past mean with ⟨hnone, hkept⟩ | ⟨hone, hturned⟩
    · rw [hnone, List.append_nil, hkept]
      exact ⟨halternates, hclosed⟩
    · rw [hone]
      refine ⟨halternates.concat ?_, closed_concat⟩
      rw [hclosed, hturned, not_not]

/-- The hysteresis and the recovery delay at every tick; along every sequence of ticks faults and recoveries alternate, and a
    fault comes first. -/
theorem hysteresis_law (F : Binary32) (cfg : VoltCfg) (v₀ : BusVoltage) :
    (∀ past mean, Hysteresis F cfg v₀ past mean) ∧ (∀ means, Alternates (· = .normal) (reported F cfg v₀ means)) ∧
      v₀.init.seenValid = v₀.seenValid :=
  ⟨hysteresis_tick F cfg v₀, fun means => (reported_alternates F cfg v₀ means).1, rfl⟩

end

end BusVoltage

end RodActuator.Power
