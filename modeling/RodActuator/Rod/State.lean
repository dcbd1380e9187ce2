import RodActuator.StateEngine
import RodActuator.Arb.Kernel
import RodActuator.Rod.Position

/-! The rod state machine (`Dev/dev_rod/dev_rod_state.c`) and the soft limits (`Dev/dev_rod/dev_rod_calib.c`).
    Each 10 ms one event is made of the calibration request, the position, the time and the direction. In a
    limit state the direction to the limit is blocked at every tick, and when the limit is left the block is
    taken back once. -/

namespace RodActuator.Rod
open StateEngine Arb

inductive RodDirection where
  | stop | fwd | rev
  deriving DecidableEq, Repr

inductive RodState where
  | unknown | stopped | extending | extLimit | extFault | retracting | retLimit | retFault
  deriving DecidableEq, Repr

/-- `RodEvent_t` without `ROD_EVT_NONE`. -/
inductive RodEvt where
  | cmdStop | cmdExtend | cmdRetract | atMax | atMin | timeout | sensorFault
  deriving DecidableEq, Repr

inductive RodCalibReq where
  | none | max | min
  deriving DecidableEq, Repr

/-- `RodStateCtx_t` of the axis 0. -/
structure RodStateCtx where
  direction : RodDirection
  calibReq : RodCalibReq
  moveStartTick : BitVec 32
  moveTimeoutMs : BitVec 32
  limitExtSent : Bool
  limitRetSent : Bool
  deriving DecidableEq, Repr

def rodJump : List (Jump RodState RodEvt) := [
  ⟨.unknown, .cmdStop, .stopped⟩,
  ⟨.unknown, .cmdExtend, .extending⟩,
  ⟨.unknown, .cmdRetract, .retracting⟩,
  ⟨.unknown, .atMax, .extLimit⟩,
  ⟨.unknown, .atMin, .retLimit⟩,
  ⟨.stopped, .cmdExtend, .extending⟩,
  ⟨.stopped, .cmdRetract, .retracting⟩,
  ⟨.stopped, .atMax, .extLimit⟩,
  ⟨.stopped, .atMin, .retLimit⟩,
  ⟨.extending, .cmdStop, .stopped⟩,
  ⟨.extending, .cmdRetract, .retracting⟩,
  ⟨.extending, .atMax, .extLimit⟩,
  ⟨.extending, .timeout, .extFault⟩,
  ⟨.extending, .sensorFault, .extFault⟩,
  ⟨.retracting, .cmdStop, .stopped⟩,
  ⟨.retracting, .cmdExtend, .extending⟩,
  ⟨.retracting, .atMin, .retLimit⟩,
  ⟨.retracting, .timeout, .retFault⟩,
  ⟨.retracting, .sensorFault, .retFault⟩,
  ⟨.extLimit, .cmdRetract, .retracting⟩,
  ⟨.retLimit, .cmdExtend, .extending⟩,
  ⟨.extFault, .cmdStop, .stopped⟩,
  ⟨.extFault, .cmdExtend, .extending⟩,
  ⟨.extFault, .cmdRetract, .retracting⟩,
  ⟨.retFault, .cmdStop, .stopped⟩,
  ⟨.retFault, .cmdExtend, .extending⟩,
  ⟨.retFault, .cmdRetract, .retracting⟩]

/-- What an update sends: an event of the axis, or an urgent command to the arbiter. -/
inductive RodOut where
  | limitExtend
  | limitRetract
  | limitReleased
  | arbSendCommand (msg : Msg)
  deriving DecidableEq, Repr

def limitState : Dir → RodState
  | .fwd => .extLimit
  | .rev => .retLimit

def limitDevice : Dir → DeviceId
  | .fwd => .rodLimitFwd
  | .rev => .rodLimitRev

def FromLimit (msg : Msg) : Prop := msg.deviceId = .rodLimitFwd ∨ msg.deviceId = .rodLimitRev

instance (msg : Msg) : Decidable (FromLimit msg) := inferInstanceAs (Decidable (_ ∨ _))

theorem deviceId_ne {msg : Msg} (h : ¬FromLimit msg) (d : Dir) : msg.deviceId ≠ limitDevice d := by
  cases d with
  | fwd => exact fun hdev => h (.inl hdev)
  | rev => exact fun hdev => h (.inr hdev)

def limitCommand (d : Dir) (cmdType : CmdType) : Msg := ⟨0, limitDevice d, prioLimit, cmdType, 0, 0⟩

namespace RodStateCtx

/-- After `RodState_Init`. -/
def init : RodStateCtx := ⟨.stop, .none, 0, 5000, false, false⟩

/-- The event of a tick: a limit first, then the timeout, then the direction. -/
def synthesizeEvent (F : Binary32) (pos : Position) (st : RodState) (dir : RodDirection) (tick : BitVec 32)
    (ctx : RodStateCtx) : RodEvt :=
  if ctx.calibReq = .max then .atMax
  else if ctx.calibReq = .min then .atMin
  else if pos.isCalibrated ∧ F.le (F.sub pos.strokeMm pos.stopMarginMm) pos.positionMm ∧
      st ∈ [RodState.unknown, .stopped, .extending, .extLimit] then .atMax
  else if (st = .extending ∨ st = .retracting) ∧ ctx.moveTimeoutMs ≠ 0 ∧
      ctx.moveTimeoutMs ≤ tick - ctx.moveStartTick then .timeout
  else match dir with
    | .fwd => .cmdExtend
    | .rev => .cmdRetract
    | .stop => .cmdStop

/-- The time of a motion counts from its first tick. -/
def move (tick : BitVec 32) (restart : Bool) (ctx : RodStateCtx) : RodStateCtx :=
  if restart then { ctx with moveStartTick := tick } else ctx

def released (d : Dir) : List RodOut := [.limitReleased, .arbSendCommand (limitCommand d d.unblock)]

/-- In a limit the direction is blocked at every tick, and at the edge the old requests are cleared. -/
def atLimit (d : Dir) (edge : Bool) : List RodOut :=
  (if edge then [.arbSendCommand (limitCommand d d.clearAllow)] else []) ++
    [.arbSendCommand (limitCommand d d.block)]

/-- `RodState_Update`, and what it sends in order. -/
def update (F : Binary32) (pos : Position) (dir : RodDirection) (tick : BitVec 32) (m : Machine RodState)
    (ctx : RodStateCtx) : Machine RodState × RodStateCtx × List RodOut :=
  let prev := m.curState
  let m := (sendEvent rodJump (synthesizeEvent F pos prev dir tick ctx) m).1
  let ctx := { ctx with direction := dir, calibReq := .none }
  match m.curState with
  | .extending =>
    let ctx := ctx.move tick (prev ≠ .extending)
    if prev = .retLimit then (m, { ctx with limitRetSent := false }, released .rev) else (m, ctx, [])
  | .retracting =>
    let ctx := ctx.move tick (prev ≠ .retracting)
    if prev = .extLimit then (m, { ctx with limitExtSent := false }, released .fwd) else (m, ctx, [])
  | .extLimit =>
    if prev = .extLimit then (m, ctx, atLimit .fwd false)
    else (m, { ctx with limitExtSent := true },
      (if ctx.limitExtSent then [] else [.limitExtend]) ++ atLimit .fwd true)
  | .retLimit =>
    if prev = .retLimit then (m, ctx, atLimit .rev false)
    else (m, { ctx with limitRetSent := true },
      (if ctx.limitRetSent then [] else [.limitRetract]) ++ atLimit .rev true)
  | _ => (m, ctx, [])

/-! ### What an update does -/

/-- What the rod sends in a state: the block of the limit it is at, or what takes back another's. -/
inductive Sends (s : RodState) : Msg → Prop where
  | block (d : Dir) (h : s = limitState d) : Sends s (limitCommand d d.block)
  | unblock (d : Dir) (h : s ≠ limitState d) : Sends s (limitCommand d d.unblock)
  | clearAllow (d : Dir) : Sends s (limitCommand d d.clearAllow)

section
variable (F : Binary32) (pos : Position) (dir : RodDirection) (tick : BitVec 32) (m : Machine RodState)
  (ctx : RodStateCtx)

theorem update_fst : (update F pos dir tick m ctx).1 =
    (sendEvent rodJump (synthesizeEvent F pos m.curState dir tick ctx) m).1 := by
  unfold update
  dsimp only
  split
  · split <;> rfl
  · split <;> rfl
  · split <;> rfl
  · split <;> rfl
  · rfl

theorem update_curState : (update F pos dir tick m ctx).1.curState =
    target rodJump m.curState (synthesizeEvent F pos m.curState dir tick ctx) := by
  rw [update_fst, sendEvent_curState]

theorem sends_atLimit {d : Dir} {edge : Bool} {msg : Msg} (h : .arbSendCommand msg ∈ atLimit d edge) :
    Sends (limitState d) msg := by
  have hmem : msg = limitCommand d d.clearAllow ∨ msg = limitCommand d d.block := by
    cases edge <;> simp [atLimit] at h <;> simp [h]
  rcases hmem with rfl | rfl
  · exact .clearAllow d
  · exact .block d rfl

theorem sends_released {d : Dir} {s : RodState} {msg : Msg} (hs : s ≠ limitState d)
    (h : .arbSendCommand msg ∈ released d) : Sends s msg := by
  have hmsg : msg = limitCommand d d.unblock := by simpa [released] using h
  rw [hmsg]
  exact .unblock d hs

theorem update_sends {msg : Msg} (h : .arbSendCommand msg ∈ (update F pos dir tick m ctx).2.2) :
    Sends (update F pos dir tick m ctx).1.curState msg := by
  rw [update_fst]
  cases hcur : (sendEvent rodJump (synthesizeEvent F pos m.curState dir tick ctx) m).1.curState with
  | extending =>
    simp only [update, hcur] at h
    split at h
    · exact sends_released (d := .rev) (by simp [limitState]) h
    · cases h
  | retracting =>
    simp only [update, hcur] at h
    split at h
    · exact sends_released (d := .fwd) (by simp [limitState]) h
    · cases h
  | extLimit =>
    simp only [update, hcur] at h
    split at h
    · exact sends_atLimit (d := .fwd) h
    · exact sends_atLimit (d := .fwd) ((List.mem_append.mp h).resolve_left (by split <;> simp))
  | retLimit =>
    simp only [update, hcur] at h
    split at h
    · exact sends_atLimit (d := .rev) h
    · exact sends_atLimit (d := .rev) ((List.mem_append.mp h).resolve_left (by split <;> simp))
  | unknown | stopped | extFault | retFault =>
    simp only [update, hcur] at h
    cases h

theorem target_limit (d : Dir) (e : RodEvt) :
    target rodJump (limitState d) e = limitState d ∨
      target rodJump (limitState d) e = match d with
        | .fwd => .retracting
        | .rev => .extending := by
  cases d <;> cases e <;> decide

/-- The update that leaves a limit takes its block back. -/
theorem update_leaves {d : Dir} (hfrom : m.curState = limitState d)
    (hleft : (update F pos dir tick m ctx).1.curState ≠ limitState d) :
    .arbSendCommand (limitCommand d d.unblock) ∈ (update F pos dir tick m ctx).2.2 := by
  rw [update_curState] at hleft
  have htarget := target_limit d (synthesizeEvent F pos m.curState dir tick ctx)
  rw [← hfrom] at htarget hleft
  have hcur := htarget.resolve_left hleft
  rw [← sendEvent_curState] at hcur
  cases d with
  | fwd =>
    have hprev : m.curState = .extLimit := hfrom
    simp only [update, hcur, if_pos hprev]
    simp [released]
  | rev =>
    have hprev : m.curState = .retLimit := hfrom
    simp only [update, hcur, if_pos hprev]
    simp [released]

end

end RodStateCtx

/-! ### Over-current at a soft limit -/

/-- `RodCalibResult_t`: what an over-current means for the rod. -/
inductive RodCalibResult where
  | ignored | calibMax | calibMin | faultFwd | faultRev
  deriving DecidableEq, Repr

/-- `RodCalib_OnOverCurrent` with the data of the axis 0. -/
def onOverCurrent (arb : ArbData) (pos : Position) (ctx : RodStateCtx) : RodCalibResult × RodStateCtx :=
  match arb.enable, arb.activeDir with
  | true, some .fwd =>
    if !pos.isCalibrated || pos.inCalibZoneMax then (.calibMax, { ctx with calibReq := .max }) else (.faultFwd, ctx)
  | true, some .rev =>
    if !pos.isCalibrated || pos.inCalibZoneMin then (.calibMin, { ctx with calibReq := .min }) else (.faultRev, ctx)
  | _, _ => (.ignored, ctx)

/-- The direction that the rod task reads off the arbiter; a disabled axis stands still. -/
def readDirection (arb : ArbData) : RodDirection :=
  match arb.enable, arb.activeDir with
  | true, some .fwd => .fwd
  | true, some .rev => .rev
  | _, _ => .stop

end RodActuator.Rod
