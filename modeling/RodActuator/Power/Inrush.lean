import RodActuator.Lib.Ieee754
import RodActuator.Lib.Streak
import RodActuator.Power.CurSensor

/-! The over-current window and its masking, as laws of the ticks and of the writes to the pins. The masking
    counter holds the ticks that are left of the latest turn, and the window counter the run of unmasked ticks
    above the threshold. -/

namespace RodActuator.Power
open Binary32 Sys Arb Streak

/-- The direction that the pins drive. -/
def driven (g : MotorGpio) : Option Dir :=
  match g.fwdPin, g.revPin with
  | true, false => some .fwd
  | false, true => some .rev
  | _, _ => none

@[simp] theorem driven_writePair (fwdEn revEn : Bool) (g : MotorGpio) :
    driven (g.writePair fwdEn revEn) = (g.writePair fwdEn revEn).prevOutDir := by
  cases fwdEn <;> cases revEn <;> cases h : g.dirInvert <;> simp [MotorGpio.writePair, driven, h]

namespace Drive

/-- What happens between two instants: a tick with the mean voltage, a write, a change of the phase order, or
    `CurrentSensor_Init`. -/
inductive Act where
  | tick (volt : Single)
  | write (fwdEn revEn : Bool)
  | setDirInvert (invert : Bool)
  | init
  deriving DecidableEq, Repr

def Act.isTick : Act → Bool
  | .tick _ => true
  | _ => false

def act (F : Binary32) (cfg : CurCfg) (d : Drive) : Act → Drive
  | .tick volt => { d with cur := (d.cur.isr1ms F cfg volt).1 }
  | .write fwdEn revEn => d.writePair cfg fwdEn revEn
  | .setDirInvert invert => { d with motor := { d.motor with dirInvert := invert } }
  | .init => { d with cur := CurrentSensor.init }

/-- After `Dev_MotorGpio_Init`, `CurrentSensor_Init` and the acts `past`. -/
def after (F : Binary32) (cfg : CurCfg) (invert : Bool) (past : List Act) : Drive :=
  past.foldl (act F cfg) ⟨MotorGpio.init invert, CurrentSensor.init⟩

/-- What a tick sends. -/
def sent (F : Binary32) (cfg : CurCfg) (invert : Bool) (past : List Act) (volt : Single) : BitVec 32 :=
  ((after F cfg invert past).cur.isr1ms F cfg volt).2

/-! ### One tick -/

/-- All that a tick with the current `currMa` can do. -/
inductive Tick (F : Binary32) (cfg : CurCfg) (currMa : Single) (s s' : CurrentSensor) (bits : BitVec 32) : Prop where
  | masked (hblock : s.blockMs ≠ 0) (hafter : s'.blockMs = s.blockMs - 1) (hover : s'.overMs = 0)
      (hstatus : s'.status = false) (hbits : bits = 0)
  | below (hblock : s.blockMs = 0) (hlow : F.lt cfg.overThMa currMa = false) (hafter : s'.blockMs = 0)
      (hover : s'.overMs = 0) (hstatus : s'.status = false) (hbits : bits = 0)
  | above (hblock : s.blockMs = 0) (hhigh : F.lt cfg.overThMa currMa = true) (hafter : s'.blockMs = 0)
      (hover : s'.overMs = CurrentSensor.overNext cfg s.overMs)
      (hstatus : s'.status = (s.status || decide (cfg.windowMs ≤ CurrentSensor.overNext cfg s.overMs)))
      (hbits : bits = if s.status = false ∧ s'.status = true then SysEvt.mask .overCurrent else 0)

theorem isr1ms_tick (F : Binary32) (cfg : CurCfg) (volt : Single) (s : CurrentSensor) :
    Tick F cfg (CurrentSensor.toMa F volt) s (s.isr1ms F cfg volt).1 (s.isr1ms F cfg volt).2 := by
  by_cases hblock : s.blockMs = 0
  · cases hcur : F.lt cfg.overThMa (CurrentSensor.toMa F volt) with
    | false => refine .below hblock hcur ?_ ?_ ?_ ?_ <;> simp [CurrentSensor.isr1ms, hblock, hcur]
    | true =>
      cases hstatus : s.status <;> by_cases hwindow : cfg.windowMs ≤ CurrentSensor.overNext cfg s.overMs <;>
        refine .above hblock hcur ?_ ?_ ?_ ?_ <;> simp [CurrentSensor.isr1ms, hblock, hcur, hstatus, hwindow]
  · have hmasked : s.isr1ms F cfg volt = ({ s with
        currMa := CurrentSensor.toMa F volt, blockMs := s.blockMs - 1, overMs := 0, status := false }, 0) := if_pos hblock
    rw [hmasked]
    exact .masked hblock rfl rfl rfl rfl

section
variable (F : Binary32) (cfg : CurCfg) (invert : Bool) (past : List Act)

theorem after_concat (a : Act) : after F cfg invert (past ++ [a]) = act F cfg (after F cfg invert past) a := by
  rw [after, List.foldl_append]
  rfl

theorem after_tick (volt : Single) : Tick F cfg (CurrentSensor.toMa F volt) (after F cfg invert past).cur
    (after F cfg invert (past ++ [.tick volt])).cur (sent F cfg invert past volt) := by
  rw [after_concat]
  exact isr1ms_tick F cfg volt _

theorem driven_after : driven (after F cfg invert past).motor = (after F cfg invert past).motor.prevOutDir := by
  induction past using List.reverseRecOn with
  | nil => rfl
  | append_singleton past a ih =>
    rw [after_concat]
    cases a with
    | tick volt => exact ih
    | write fwdEn revEn => exact driven_writePair fwdEn revEn _
    | setDirInvert invert => exact ih
    | init => exact ih

/-! ### The masking -/

/-- The act changes the pins to a running direction other than that of the output before. -/
def Turns (a : Act) : Prop :=
  driven (after F cfg invert (past ++ [a])).motor ≠ none ∧
    driven (after F cfg invert (past ++ [a])).motor ≠ driven (after F cfg invert past).motor

instance (a : Act) : Decidable (Turns F cfg invert past a) := inferInstanceAs (Decidable (_ ∧ _))

/-- After `n` more ticks, fewer than `block_ms` will have passed since a turn; the detector was not initialised
    since that turn. -/
def MaskedFor (n : Nat) : Prop :=
  ∃ pre w post, past = pre ++ w :: post ∧ Turns F cfg invert pre w ∧ .init ∉ post ∧
    post.countP Act.isTick + n < cfg.blockMs.toNat

def Masked : Prop := MaskedFor F cfg invert past 0

theorem maskedFor_concat (a : Act) (n : Nat) : MaskedFor F cfg invert (past ++ [a]) n ↔
    Turns F cfg invert past a ∧ n < cfg.blockMs.toNat ∨
      a ≠ .init ∧ MaskedFor F cfg invert past ([a].countP Act.isTick + n) := by
  constructor
  · rintro ⟨pre, w, post, happ, hturns, hinit, hlt⟩
    rcases post.eq_nil_or_concat' with rfl | ⟨post, y, rfl⟩
    · obtain ⟨rfl, hay⟩ := List.append_inj' happ rfl
      obtain rfl := List.singleton_inj.mp hay
      exact .inl ⟨hturns, by simpa using hlt⟩
    · rw [← List.cons_append, ← List.append_assoc] at happ
      obtain ⟨rfl, hay⟩ := List.append_inj' happ rfl
      obtain rfl := List.singleton_inj.mp hay
      rw [List.mem_append, List.mem_singleton, not_or] at hinit
      rw [List.countP_append] at hlt
      exact .inr ⟨Ne.symm hinit.2, pre, w, post, rfl, hturns, hinit.1, by omega⟩
  · rintro (⟨hturns, hlt⟩ | ⟨hne, pre, w, post, rfl, hturns, hinit, hlt⟩)
    · exact ⟨past, a, [], rfl, hturns, List.not_mem_nil, by simpa using hlt⟩
    · refine ⟨pre, w, post ++ [a], by simp, hturns, ?_, ?_⟩
      · rw [List.mem_append, List.mem_singleton, not_or]
        exact ⟨hinit, Ne.symm hne⟩
      · rw [List.countP_append]
        omega

theorem not_turns {a : Act} (h : (after F cfg invert (past ++ [a])).motor.prevOutDir =
    (after F cfg invert past).motor.prevOutDir) : ¬Turns F cfg invert past a := fun hturns => by
  refine hturns.2 ?_
  rw [driven_after, driven_after, h]

theorem turns_write_iff (fwdEn revEn : Bool) : Turns F cfg invert past (.write fwdEn revEn) ↔
    ((after F cfg invert past).motor.writePair fwdEn revEn).prevOutDir ≠ none ∧
      ((after F cfg invert past).motor.writePair fwdEn revEn).prevOutDir ≠
        (after F cfg invert past).motor.prevOutDir := by
  unfold Turns
  rw [driven_after, driven_after, after_concat]
  rfl

theorem write_cur (fwdEn revEn : Bool) : (after F cfg invert (past ++ [.write fwdEn revEn])).cur =
    if Turns F cfg invert past (.write fwdEn revEn) ∧ cfg.blockMs ≠ 0 then
      (after F cfg invert past).cur.reqBlock cfg.blockMs
    else (after F cfg invert past).cur := by
  rw [after_concat]
  simp only [act, writePair, turns_write_iff, and_assoc]

theorem tick_blockMs (volt : Single) : (after F cfg invert (past ++ [.tick volt])).cur.blockMs.toNat =
    (after F cfg invert past).cur.blockMs.toNat - 1 := by
  cases after_tick F cfg invert past volt with
  | masked hblock hafter =>
    have hpos : (1 : BitVec 16) ≤ (after F cfg invert past).cur.blockMs := by
      have := mt BitVec.toNat_inj.mp hblock
      bv_omega
    rw [hafter, BitVec.toNat_sub_of_le hpos]
    rfl
  | below hblock _ hafter | above hblock _ hafter => simp [hblock, hafter]

/-- The counter holds the ticks for which the detector is still masked. -/
theorem lt_blockMs_iff (n : Nat) : n < (after F cfg invert past).cur.blockMs.toNat ↔ MaskedFor F cfg invert past n := by
  induction past using List.reverseRecOn generalizing n with
  | nil =>
    refine iff_of_false (by simp [after, CurrentSensor.init]) ?_
    rintro ⟨pre, w, post, happ, -⟩
    simp at happ
  | append_singleton past a ih =>
    rw [maskedFor_concat]
    cases a with
    | tick volt =>
      have hturns : ¬Turns F cfg invert past (.tick volt) := not_turns F cfg invert past (by rw [after_concat]; rfl)
      have hcount : [Act.tick volt].countP Act.isTick = 1 := rfl
      rw [tick_blockMs, hcount, ← ih (1 + n)]
      simp only [hturns, false_and, false_or, ne_eq, reduceCtorEq, not_false_eq_true, true_and]
      omega
    | write fwdEn revEn =>
      have hcount : [Act.write fwdEn revEn].countP Act.isTick = 0 := rfl
      have hlt : n < (after F cfg invert past).cur.blockMs.toNat → n < cfg.blockMs.toNat := fun hlt => by
        obtain ⟨_, _, _, -, -, -, hlt⟩ := (ih n).mp hlt
        omega
      rw [hcount, write_cur, Nat.zero_add, ← ih n]
      split
      · rename_i hturns
        simp only [CurrentSensor.reqBlock, hturns.1, true_and, ne_eq, reduceCtorEq, not_false_eq_true]
        omega
      · rename_i hkept
        have hnone : ¬(Turns F cfg invert past (.write fwdEn revEn) ∧ n < cfg.blockMs.toNat) := fun h =>
          hkept ⟨h.1, fun hzero => by simp [hzero] at h⟩
        simp [hnone]
    | setDirInvert b =>
      have hturns : ¬Turns F cfg invert past (.setDirInvert b) :=
        not_turns F cfg invert past (by rw [after_concat]; rfl)
      have hcount : [Act.setDirInvert b].countP Act.isTick = 0 := rfl
      rw [hcount, Nat.zero_add, ← ih n, after_concat]
      simp [hturns, act]
    | init =>
      have hturns : ¬Turns F cfg invert past .init := not_turns F cfg invert past (by rw [after_concat]; rfl)
      simp [hturns, after_concat, act, CurrentSensor.init]

theorem masked_iff : Masked F cfg invert past ↔ (after F cfg invert past).cur.blockMs ≠ 0 := by
  rw [Masked, ← lt_blockMs_iff, ne_eq, ← BitVec.toNat_inj]
  exact Nat.pos_iff_ne_zero

instance : Decidable (Masked F cfg invert past) := decidable_of_iff _ (masked_iff F cfg invert past).symm

/-! ### The window -/

/-- A tick above the threshold that finds the detector unmasked. Writes between the ticks do not break a run of
    them, `CurrentSensor_Init` does. -/
def Over (a : Act) : Prop :=
  match a with
  | .tick volt => ¬Masked F cfg invert past ∧ F.lt cfg.overThMa (CurrentSensor.toMa F volt) = true
  | .init => False
  | _ => True

instance (a : Act) : Decidable (Over F cfg invert past a) := by
  cases a <;> unfold Over <;> infer_instance

/-- The length of a run that is an over-current. -/
def window (cfg : CurCfg) : Nat := max cfg.windowMs.toNat 1

/-- The run of such ticks that the history ends. -/
def overRun (past : List Act) : Nat := streak Act.isTick (Over F cfg invert) past

theorem overRun_concat (a : Act) : overRun F cfg invert (past ++ [a]) =
    if Over F cfg invert past a then overRun F cfg invert past + [a].countP Act.isTick else 0 :=
  streak_concat _ _ _ _

theorem overRun_masked (h : Masked F cfg invert past) (volt : Single) :
    overRun F cfg invert (past ++ [.tick volt]) = 0 := by
  rw [overRun_concat, if_neg fun hover => hover.1 h]

/-- The counter holds the run as far as the window, and the status tells whether it fills the window. -/
structure Counted : Prop where
  overMs : (after F cfg invert past).cur.overMs.toNat = min (overRun F cfg invert past) cfg.windowMs.toNat
  status : (after F cfg invert past).cur.status = true ↔ window cfg ≤ overRun F cfg invert past

variable {F cfg invert past}

theorem Counted.zero (hover : (after F cfg invert past).cur.overMs = 0)
    (hstatus : (after F cfg invert past).cur.status = false) (hrun : overRun F cfg invert past = 0) :
    Counted F cfg invert past := by
  refine ⟨?_, ?_⟩
  · rw [hover, hrun, Nat.zero_min]
    rfl
  · rw [hstatus, hrun]
    simp [window]

/-- An act other than a tick or `CurrentSensor_Init` leaves the counter and the run. -/
theorem Counted.congr (h : Counted F cfg invert past) {a : Act} (hgood : Over F cfg invert past a)
    (hcount : [a].countP Act.isTick = 0)
    (hover : (after F cfg invert (past ++ [a])).cur.overMs = (after F cfg invert past).cur.overMs)
    (hstatus : (after F cfg invert (past ++ [a])).cur.status = (after F cfg invert past).cur.status) :
    Counted F cfg invert (past ++ [a]) := by
  have hrun : overRun F cfg invert (past ++ [a]) = overRun F cfg invert past := by
    rw [overRun_concat, if_pos hgood, hcount, Nat.add_zero]
  exact ⟨by rw [hover, hrun, h.overMs], by rw [hstatus, hrun, h.status]⟩

theorem toNat_overNext (cfg : CurCfg) (overMs : BitVec 16) (h : overMs.toNat ≤ cfg.windowMs.toNat) :
    (CurrentSensor.overNext cfg overMs).toNat = min (overMs.toNat + 1) cfg.windowMs.toNat := by
  unfold CurrentSensor.overNext
  split
  · rename_i hlt
    have := cfg.windowMs.isLt
    bv_omega
  · bv_omega

theorem Counted.tick (h : Counted F cfg invert past) (volt : Single) :
    Counted F cfg invert (past ++ [.tick volt]) := by
  cases after_tick F cfg invert past volt with
  | masked hblock _ hover hstatus =>
    exact .zero hover hstatus (overRun_masked F cfg invert past ((masked_iff F cfg invert past).mpr hblock) volt)
  | below _ hlow _ hover hstatus =>
    have hbad : ¬Over F cfg invert past (.tick volt) := fun hgood => by
      have hhigh := hgood.2
      rw [hlow] at hhigh
      cases hhigh
    refine .zero hover hstatus ?_
    rw [overRun_concat, if_neg hbad]
  | above hblock hhigh _ hover hstatus =>
    have hgood : Over F cfg invert past (.tick volt) := ⟨mt (masked_iff F cfg invert past).mp (not_not.mpr hblock), hhigh⟩
    have hrun : overRun F cfg invert (past ++ [.tick volt]) = overRun F cfg invert past + 1 := by
      rw [overRun_concat, if_pos hgood]
      rfl
    have hnext := toNat_overNext cfg (after F cfg invert past).cur.overMs (by rw [h.overMs]; omega)
    rw [h.overMs] at hnext
    refine ⟨by rw [hover, hnext, hrun]; omega, ?_⟩
    rw [hstatus, Bool.or_eq_true, h.status, decide_eq_true_iff, BitVec.le_def, hnext, hrun]
    simp only [window]
    omega

theorem counted_after (F : Binary32) (cfg : CurCfg) (invert : Bool) (past : List Act) : Counted F cfg invert past := by
  induction past using List.reverseRecOn with
  | nil => exact .zero rfl rfl (streak_nil _ _)
  | append_singleton past a ih =>
    cases a with
    | tick volt => exact ih.tick volt
    | write fwdEn revEn =>
      refine ih.congr trivial rfl ?_ ?_ <;> rw [write_cur] <;> split <;> rfl
    | setDirInvert b => refine ih.congr trivial rfl ?_ ?_ <;> rw [after_concat] <;> rfl
    | init =>
      have hbad : ¬Over F cfg invert past .init := fun h => h
      refine .zero ?_ ?_ ?_
      · rw [after_concat]
        rfl
      · rw [after_concat]
        rfl
      · rw [overRun_concat, if_neg hbad]

/-! ### The events -/

/-- The event is sent where the status goes up. -/
theorem sent_iff (volt : Single) : SysEvt.isIn .overCurrent (sent F cfg invert past volt) = true ↔
    (after F cfg invert past).cur.status = false ∧ (after F cfg invert (past ++ [.tick volt])).cur.status = true := by
  cases after_tick F cfg invert past volt with
  | masked _ _ _ hstatus hbits | below _ _ _ _ hstatus hbits => simp [hbits, hstatus]
  | above _ _ _ _ _ hbits =>
    rw [hbits]
    split
    · rename_i hup
      exact iff_of_true (SysEvt.isIn_mask _) hup
    · rename_i hkept
      exact iff_of_false (by simp) hkept

/-- After the first tick that follows a turn, the run is shorter than what the masking has left of the ticks. -/
theorem overRun_le (hblock : 1 ≤ cfg.blockMs) {w : Act} (hturns : Turns F cfg invert past w) {post : List Act}
    (hinit : .init ∉ post) (htick : 1 ≤ post.countP Act.isTick) :
    overRun F cfg invert (past ++ w :: post) ≤ post.countP Act.isTick - cfg.blockMs.toNat := by
  have hpos : 1 ≤ cfg.blockMs.toNat := by simpa using BitVec.le_def.mp hblock
  induction post using List.reverseRecOn with
  | nil => simp at htick
  | append_singleton post a ih =>
    rw [List.mem_append, List.mem_singleton, not_or] at hinit
    rw [← List.cons_append, ← List.append_assoc, List.countP_append]
    cases a with
    | tick volt =>
      have hone : [Act.tick volt].countP Act.isTick = 1 := rfl
      rw [hone]
      by_cases hlt : post.countP Act.isTick < cfg.blockMs.toNat
      · rw [overRun_masked F cfg invert _ ⟨past, w, post, rfl, hturns, hinit.1, hlt⟩]
        exact Nat.zero_le _
      · have hle := ih hinit.1 (by omega)
        rw [overRun_concat, hone]
        split <;> omega
    | write fwdEn revEn =>
      have hgood : Over F cfg invert (past ++ w :: post) (.write fwdEn revEn) := trivial
      rw [overRun_concat, if_pos hgood]
      exact ih hinit.1 (by simpa [Act.isTick] using htick)
    | setDirInvert b =>
      have hgood : Over F cfg invert (past ++ w :: post) (.setDirInvert b) := trivial
      rw [overRun_concat, if_pos hgood]
      exact ih hinit.1 (by simpa [Act.isTick] using htick)
    | init => exact absurd rfl hinit.2

theorem not_turns_stop (en : Bool) : ¬Turns F cfg invert past (.write en en) := fun hturns =>
  ((turns_write_iff ..).mp hturns).1 (by cases en <;> simp [MotorGpio.writePair])

theorem not_turns_again (fwdEn revEn : Bool) :
    ¬Turns F cfg invert (past ++ [.write fwdEn revEn]) (.write fwdEn revEn) := fun hturns => by
  refine ((turns_write_iff ..).mp hturns).2 ?_
  rw [after_concat]
  generalize (after F cfg invert past) = d
  cases fwdEn <;> cases revEn <;> cases h : d.motor.dirInvert <;> simp [act, writePair, MotorGpio.writePair, h]

end

/-- The over-current is sent where a run of unmasked ticks above the threshold fills the window. After a turn that
    takes the masking and the window, and no other write extends it. -/
theorem over_current_law (F : Binary32) (cfg : CurCfg) (hblock : 1 ≤ cfg.blockMs) (invert : Bool) :
    (∀ past volt, SysEvt.isIn .overCurrent (sent F cfg invert past volt) = true ↔
      (after F cfg invert past).cur.status = false ∧
        EndsRun Act.isTick (Over F cfg invert) (window cfg) (past ++ [.tick volt])) ∧
    (∀ pre w post volt, Turns F cfg invert pre w → .init ∉ post →
      SysEvt.isIn .overCurrent (sent F cfg invert (pre ++ w :: post) volt) = true →
        cfg.blockMs.toNat + window cfg ≤ post.countP Act.isTick + 1) ∧
    (∀ past en, ¬Turns F cfg invert past (.write en en)) ∧
    (∀ past fwdEn revEn, ¬Turns F cfg invert (past ++ [.write fwdEn revEn]) (.write fwdEn revEn)) ∧
    ∀ past fwdEn revEn, ¬Turns F cfg invert past (.write fwdEn revEn) →
      (after F cfg invert (past ++ [.write fwdEn revEn])).cur = (after F cfg invert past).cur := by
  have hsent : ∀ past volt, SysEvt.isIn .overCurrent (sent F cfg invert past volt) = true ↔
      (after F cfg invert past).cur.status = false ∧ window cfg ≤ overRun F cfg invert (past ++ [.tick volt]) := by
    intro past volt
    rw [sent_iff, (counted_after F cfg invert _).status]
  refine ⟨fun past volt => ?_, fun pre w post volt hturns hinit hin => ?_, fun _ => not_turns_stop,
    fun _ => not_turns_again, fun past fwdEn revEn hkept => ?_⟩
  · rw [hsent, overRun, le_streak_iff]
  · have hrun := ((hsent _ _).mp hin).2
    have hpos : 1 ≤ window cfg := Nat.le_max_right _ _
    have hcount : (post ++ [Act.tick volt]).countP Act.isTick = post.countP Act.isTick + 1 := List.countP_append
    have hinit' : Act.init ∉ post ++ [.tick volt] := by simp [hinit]
    have hle := overRun_le hblock hturns hinit' (by omega)
    rw [List.append_assoc, List.cons_append] at hrun
    omega
  · rw [write_cur, if_neg fun h => hkept h.1]

/-- With the defaults, a start under 1500 mA is an over-current at the sixtieth tick. -/
theorem over_current_law_start :
    EndsRun Act.isTick (Over ieee .default false) 30 (.write true false :: List.replicate 60 (.tick 0x40400000#32)) := by
  have hlaw := over_current_law ieee .default (by decide) false
  have hsent : SysEvt.isIn .overCurrent
      (sent ieee .default false (.write true false :: List.replicate 59 (.tick 0x40400000#32)) 0x40400000#32) = true := by
    decide +kernel
  exact ((hlaw.1 _ _).mp hsent).2

end Drive

end RodActuator.Power
