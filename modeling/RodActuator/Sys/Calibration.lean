import RodActuator.Lib.Ieee754
import RodActuator.Sys.World

/-! Calibration at a limit. An over-current asks for it, and the next tick of the rod task carries it out by two
    gates of their own: the position is reset where calibration is allowed, and the limit is entered where the jump
    table has a row for it. -/

namespace RodActuator.Sys
open Rod Arb Binary32 StateEngine Transition

namespace RodTask

/-- Resets the position for a calibration request; whether it did. -/
def calibrate (req : RodCalibReq) (pos : Position) : Bool × Position :=
  match req with
  | .min => pos.onMinLimit true
  | .max => pos.onMaxLimit true
  | .none => (false, pos)

/-- `Actuator_Tick` for the axis 0: whether it reset the position, and what it sends. The thread of the state machine
    has the lower priority, so that no dispatch falls into a tick. -/
def actuatorTick (F : Binary32) (delta : Int) (arb : ArbData) (tick : BitVec 32) (r : RodTask) :
    Bool × RodTask × List RodOut :=
  let c := calibrate r.ctx.calibReq (r.pos.update F delta)
  let u := RodStateCtx.update F c.2 (readDirection arb) tick r.sm r.ctx
  (c.1, { r with sm := u.1, ctx := u.2.1, pos := c.2 }, u.2.2)

/-- A dispatched over-current, or a tick, with the data of the axis 0 that it reads. -/
inductive Label where
  | overCurrent (arb : ArbData)
  | tick (delta : Int) (arb : ArbData) (tick : BitVec 32)

def step (F : Binary32) (r : RodTask) : Label → Option RodTask
  | .overCurrent arb => some { r with ctx := (onOverCurrent arb r.pos r.ctx).2 }
  | .tick delta arb tick => some (r.actuatorTick F delta arb tick).2.1

/-- The tick carries out both parts of the request for the limit of `d` at the position `mm`, or neither. -/
def BothOrNeither (d : Dir) (mm : Single) (t : Bool × RodTask × List RodOut) : Prop :=
  t.1 = true ∧ t.2.1.pos.positionMm = mm ∧ t.2.1.pos.calibState = .calibrated ∧ t.2.1.sm.curState = limitState d ∨
    t.1 = false ∧ t.2.1.sm.curState ≠ limitState d

instance (d : Dir) (mm : Single) (t : Bool × RodTask × List RodOut) : Decidable (BothOrNeither d mm t) :=
  inferInstanceAs (Decidable (_ ∨ _))

/-- A tick that consumes a calibration request is all or nothing. -/
def AllOrNothing (F : Binary32) (r : RodTask) : Label → Prop
  | .overCurrent _ => True
  | .tick delta arb tick =>
    match r.ctx.calibReq with
    | .max => BothOrNeither .fwd r.pos.strokeMm (r.actuatorTick F delta arb tick)
    | .min => BothOrNeither .rev zero (r.actuatorTick F delta arb tick)
    | .none => True

instance (F : Binary32) (r : RodTask) (l : Label) : Decidable (AllOrNothing F r l) := by
  cases l with
  | overCurrent => exact instDecidableTrue
  | tick =>
    unfold AllOrNothing
    dsimp only
    split <;> infer_instance

/-! ### The two gates -/

/-- The rod is not calibrated, or the pulses of the tick leave it in a calibration window. -/
def Allowed (F : Binary32) (r : RodTask) (delta : Int) : Prop :=
  let mm := F.add r.pos.positionMm (F.mul (F.ofInt delta) r.pos.pulseToMm)
  r.pos.calibState = .notCalibrated ∨ Position.inZoneMin F r.pos.calibWin mm = true ∨
    Position.inZoneMax F r.pos.calibWin mm = true

/-- The rod is not moving the other way, nor at the other limit, nor at fault. -/
def Receptive (d : Dir) (s : RodState) : Prop :=
  match d with
  | .fwd => s ∈ [RodState.unknown, .stopped, .extending, .extLimit]
  | .rev => s ∈ [RodState.unknown, .stopped, .retracting, .retLimit]

/-- A tick with a calibration request finds both gates open or both closed. -/
def GatesAgree (F : Binary32) (r : RodTask) : Label → Prop
  | .overCurrent _ => True
  | .tick delta _ _ =>
    match r.ctx.calibReq with
    | .max => Allowed F r delta ↔ Receptive .fwd r.sm.curState
    | .min => Allowed F r delta ↔ Receptive .rev r.sm.curState
    | .none => True

theorem target_limit_iff (s : RodState) : (target rodJump s .atMax = .extLimit ↔ Receptive .fwd s) ∧
    (target rodJump s .atMin = .retLimit ↔ Receptive .rev s) := by
  cases s <;> simp [target, rodJump, Receptive]

theorem calibAllowed_update (F : Binary32) (delta : Int) (r : RodTask) :
    (r.pos.update F delta).calibAllowed = true ↔ Allowed F r delta := by
  by_cases h : r.pos.calibState = .notCalibrated
  · simp [Position.update, Allowed, h]
  · simp [Position.update, Allowed, h]

theorem calibrateAt_spec (mm : Single) (pos : Position) : (pos.calibrateAt mm true).1 = pos.calibAllowed ∧
    (pos.calibAllowed = true → (pos.calibrateAt mm true).2.positionMm = mm ∧
      (pos.calibrateAt mm true).2.calibState = .calibrated) := by
  cases h : pos.calibAllowed <;> simp [Position.calibrateAt, h]

/-- The limit of a request is entered where the jump table has a row for it. -/
theorem curState_actuatorTick (F : Binary32) (delta : Int) (arb : ArbData) (tick : BitVec 32) (r : RodTask) :
    (r.ctx.calibReq = .max → ((r.actuatorTick F delta arb tick).2.1.sm.curState = .extLimit ↔
      Receptive .fwd r.sm.curState)) ∧
    (r.ctx.calibReq = .min → ((r.actuatorTick F delta arb tick).2.1.sm.curState = .retLimit ↔
      Receptive .rev r.sm.curState)) := by
  have hcur := RodStateCtx.update_curState F (calibrate r.ctx.calibReq (r.pos.update F delta)).2 (readDirection arb)
    tick r.sm r.ctx
  refine ⟨fun hmax => ?_, fun hmin => ?_⟩
  · rw [← (target_limit_iff _).1]
    simp only [actuatorTick, hcur, RodStateCtx.synthesizeEvent, if_pos hmax]
  · rw [← (target_limit_iff _).2]
    have hne : r.ctx.calibReq ≠ .max := by simp [hmin]
    simp only [actuatorTick, hcur, RodStateCtx.synthesizeEvent, if_neg hne, if_pos hmin]

/-- Where the parts are done each behind its gate, they are done together exactly if the gates agree. -/
theorem bothOrNeither_iff {d : Dir} {mm : Single} {t : Bool × RodTask × List RodOut} {allowed receptive : Prop}
    (hreset : t.1 = true ↔ allowed)
    (hdone : allowed → t.2.1.pos.positionMm = mm ∧ t.2.1.pos.calibState = .calibrated)
    (hstate : t.2.1.sm.curState = limitState d ↔ receptive) :
    BothOrNeither d mm t ↔ (allowed ↔ receptive) := by
  unfold BothOrNeither
  rw [← Bool.not_eq_true, ne_eq, hreset, hstate]
  constructor
  · rintro (⟨hallowed, -, -, hreceptive⟩ | ⟨hallowed, hreceptive⟩)
    · exact iff_of_true hallowed hreceptive
    · exact iff_of_false hallowed hreceptive
  · intro hiff
    by_cases hallowed : allowed
    · exact .inl ⟨hallowed, (hdone hallowed).1, (hdone hallowed).2, hiff.mp hallowed⟩
    · exact .inr ⟨hallowed, mt hiff.mpr hallowed⟩

theorem allOrNothing_iff (F : Binary32) (r : RodTask) (l : Label) : AllOrNothing F r l ↔ GatesAgree F r l := by
  cases l with
  | overCurrent arb => exact Iff.rfl
  | tick delta arb tick =>
    obtain ⟨hmax, hmin⟩ := curState_actuatorTick F delta arb tick r
    simp only [AllOrNothing, GatesAgree]
    cases hreq : r.ctx.calibReq with
    | none => exact Iff.rfl
    | max =>
      have hspec := calibrateAt_spec r.pos.strokeMm { r.pos.update F delta with maxLimitTriggered := true }
      refine bothOrNeither_iff ?_ (fun hallowed => ?_) (hmax hreq)
      · rw [← calibAllowed_update, ← hspec.1]
        simp only [actuatorTick, hreq]
        rfl
      · simp only [actuatorTick, hreq]
        exact hspec.2 ((calibAllowed_update F delta r).mpr hallowed)
    | min =>
      have hspec := calibrateAt_spec zero { r.pos.update F delta with minLimitTriggered := true }
      refine bothOrNeither_iff ?_ (fun hallowed => ?_) (hmin hreq)
      · rw [← calibAllowed_update, ← hspec.1]
        simp only [actuatorTick, hreq]
        rfl
      · simp only [actuatorTick, hreq]
        exact hspec.2 ((calibAllowed_update F delta r).mpr hallowed)

/-- Calibration is all or nothing along exactly the runs whose ticks find the gates agreeing, from any rod. -/
theorem calibration_iff (F : Binary32) (r₀ : RodTask) (ls : List Label) (r : RodTask) :
    Run (step F) (AllOrNothing F) r₀ ls r ↔ Run (step F) (GatesAgree F) r₀ ls r :=
  ⟨Run.mono fun r l => (allOrNothing_iff F r l).mp, Run.mono fun r l => (allOrNothing_iff F r l).mpr⟩

/-- The rod at power-up. -/
def boot (pos : Position) : RodTask := ⟨⟨.unknown, .unknown⟩, RodStateCtx.init, pos, []⟩

/-- The axis 0 when the arbiter drives it. -/
def driving (d : Dir) : ArbData := { ArbData.init with enable := true, activeDir := some d }

/-- The arbiter turns forwards while the rod is still retracting: the over-current asks for the upper limit, and the
    next tick resets the position and goes on retracting. A rod at the edge of the window is pushed back by a pulse
    after its over-current: the next tick enters the limit and keeps the position. -/
theorem calibration_by_half :
    (∃ r, exec (step ieee) (boot World.startPosition) [.tick 0 (driving .rev) 0, .overCurrent (driving .fwd)] = some r ∧
      r.ctx.calibReq = .max ∧ (r.actuatorTick ieee 0 (driving .fwd) 10).1 = true ∧
      (r.actuatorTick ieee 0 (driving .fwd) 10).2.1.sm.curState = .retracting ∧
      ¬AllOrNothing ieee r (.tick 0 (driving .fwd) 10)) ∧
    ∃ r, exec (step ieee) (boot { World.startPosition with positionMm := 0x41C00000#32, calibState := .calibrated })
        [.tick 0 (driving .fwd) 0, .overCurrent (driving .fwd)] = some r ∧
      r.ctx.calibReq = .max ∧ (r.actuatorTick ieee (-1) (driving .fwd) 10).1 = false ∧
      (r.actuatorTick ieee (-1) (driving .fwd) 10).2.1.sm.curState = .extLimit ∧
      ¬AllOrNothing ieee r (.tick (-1) (driving .fwd) 10) :=
  ⟨exists_of_any (by decide +kernel), exists_of_any (by decide +kernel)⟩

end RodTask

namespace World

/-- A tick of the rod task that no other action interrupts is the tick above; what it sends is still to be sent. -/
theorem exec_actuatorTick (F : Binary32) (cfg : Power.VoltCfg) {w : World} (hacts : w.rod.acts = []) (delta : Int)
    (tick now : BitVec 32) :
    exec (step F cfg) w (.rodTick delta tick :: List.replicate 4 (.rod now)) =
      some { w with rod := { (w.rod.actuatorTick F delta (w.arb.axis 0) tick).2.1 with
        acts := (w.rod.actuatorTick F delta (w.arb.axis 0) tick).2.2.map .out } } := by
  have hbegin : step F cfg w (.rodTick delta tick) =
      some { w with rod := { w.rod with acts := [.integrate delta, .calibrate, .read tick] } } := if_pos hacts
  rw [exec, List.foldlM_cons, hbegin]
  cases hreq : w.rod.ctx.calibReq <;>
    simp [step, doRodAct, RodTask.actuatorTick, RodTask.calibrate, hreq, List.replicate]

end World

end RodActuator.Sys
