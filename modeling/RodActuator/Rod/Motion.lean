import RodActuator.Lib.Ieee754
import RodActuator.Lib.Transition
import RodActuator.Rod.Notices

/-! The time limit of a motion, along every run of the rod state machine. A motion that has lasted for the timeout ends in
    its fault state, which sends nothing: the arbiter drives on, and the next update takes the direction for a new motion
    with a new time. -/

namespace RodActuator.Rod.RodStateCtx
open StateEngine Arb Transition

def movingState : Dir → RodState
  | .fwd => .extending
  | .rev => .retracting

def faultState : Dir → RodState
  | .fwd => .extFault
  | .rev => .retFault

/-- The request of a limit, and the event that it makes. -/
def limitReq : Dir → RodCalibReq
  | .fwd => .max
  | .rev => .min

def limitEvt : Dir → RodEvt
  | .fwd => .atMax
  | .rev => .atMin

def commandEvt : RodDirection → RodEvt
  | .fwd => .cmdExtend
  | .rev => .cmdRetract
  | .stop => .cmdStop

/-- The state that a direction leads to, unless a limit keeps the rod. -/
def commandState : RodDirection → RodState
  | .fwd => .extending
  | .rev => .retracting
  | .stop => .stopped

/-- The rod is at the end of its stroke, in a state that looks for it. -/
def AtEnd (F : Binary32) (pos : Position) (s : RodState) : Prop :=
  pos.isCalibrated ∧ F.le (F.sub pos.strokeMm pos.stopMarginMm) pos.positionMm ∧
    s ∈ [RodState.unknown, .stopped, .extending, .extLimit]

/-! ### The jump table -/

theorem target_fault_iff (d : Dir) (s : RodState) (e : RodEvt) : target rodJump s e = faultState d ↔
    (s = movingState d ∧ (e = .timeout ∨ e = .sensorFault)) ∨ (s = faultState d ∧ ∀ dir, e ≠ commandEvt dir) := by
  have hcommand : (∀ dir, e ≠ commandEvt dir) ↔ e ≠ .cmdStop ∧ e ≠ .cmdExtend ∧ e ≠ .cmdRetract := by
    refine ⟨fun h => ⟨h .stop, h .fwd, h .rev⟩, fun h dir => ?_⟩
    cases dir with
    | stop => exact h.1
    | fwd => exact h.2.1
    | rev => exact h.2.2
  rw [hcommand]
  cases d <;> cases s <;> cases e <;> decide

theorem target_moving {d : Dir} {s : RodState} {e : RodEvt} (h : target rodJump s e = movingState d) :
    (∃ dir, e = commandEvt dir) ∨ (s = movingState d ∧ e = limitEvt d.opposite) := by
  cases e with
  | cmdStop => exact .inl ⟨.stop, rfl⟩
  | cmdExtend => exact .inl ⟨.fwd, rfl⟩
  | cmdRetract => exact .inl ⟨.rev, rfl⟩
  | atMax | atMin | timeout | sensorFault =>
    refine .inr ?_
    revert h
    cases d <;> cases s <;> decide

theorem target_fault_command (d : Dir) (dir : RodDirection) :
    target rodJump (faultState d) (commandEvt dir) = commandState dir := by
  cases d <;> cases dir <;> rfl

/-! ### One update -/

section
variable (F : Binary32) (pos : Position) (dir : RodDirection) (tick : BitVec 32) (m : Machine RodState)
  (ctx : RodStateCtx)

@[simp] theorem move_moveTimeoutMs (restart : Bool) : (ctx.move tick restart).moveTimeoutMs = ctx.moveTimeoutMs := by
  unfold move
  split <;> rfl

theorem update_moveTimeoutMs : (update F pos dir tick m ctx).2.1.moveTimeoutMs = ctx.moveTimeoutMs := by
  unfold update
  dsimp only
  split
  · split <;> exact move_moveTimeoutMs ..
  · split <;> exact move_moveTimeoutMs ..
  · split <;> rfl
  · split <;> rfl
  · rfl

/-- A motion takes its start when it begins and keeps it. -/
theorem update_moveStartTick {d : Dir} (hcur : (update F pos dir tick m ctx).1.curState = movingState d) :
    (update F pos dir tick m ctx).2.1.moveStartTick =
      if m.curState = movingState d then ctx.moveStartTick else tick := by
  rw [update_fst] at hcur
  have hmove : ∀ (p : RodState) (ctx : RodStateCtx), (ctx.move tick (decide (m.curState ≠ p))).moveStartTick =
      if m.curState = p then ctx.moveStartTick else tick := by
    intro p ctx
    by_cases hsame : m.curState = p <;> simp [move, hsame]
  cases d with
  | fwd =>
    have hcur : (sendEvent rodJump (synthesizeEvent F pos m.curState dir tick ctx) m).1.curState = .extending := hcur
    simp only [update, hcur]
    split <;> exact hmove .extending _
  | rev =>
    have hcur : (sendEvent rodJump (synthesizeEvent F pos m.curState dir tick ctx) m).1.curState = .retracting := hcur
    simp only [update, hcur]
    split <;> exact hmove .retracting _

theorem update_fault {d : Dir} (hcur : (update F pos dir tick m ctx).1.curState = faultState d) :
    (update F pos dir tick m ctx).2.2 = [] := by
  rw [update_fst] at hcur
  cases d with
  | fwd =>
    have hcur : (sendEvent rodJump (synthesizeEvent F pos m.curState dir tick ctx) m).1.curState = .extFault := hcur
    simp only [update, hcur]
  | rev =>
    have hcur : (sendEvent rodJump (synthesizeEvent F pos m.curState dir tick ctx) m).1.curState = .retFault := hcur
    simp only [update, hcur]

end

/-! ### Runs in time -/

/-- What an update finds at the true time `now`, whose low 32 bits are the tick. -/
structure Moment where
  now : Nat
  calibReq : RodCalibReq
  pos : Position
  dir : RodDirection

def Moment.input (i : Moment) : Input := ⟨i.calibReq, i.pos, i.dir, BitVec.ofNat 32 i.now⟩

/-- The state machine with what it has sent, when it came into its state, and when it was updated last. -/
structure Timed where
  logged : Logged
  since : Nat
  last : Nat

namespace Timed

def state (t : Timed) : RodState := t.logged.sm.curState

/-- After `RodState_Init`. -/
def start (now : Nat) : Timed := ⟨⟨⟨.unknown, .unknown⟩, init, []⟩, now, now⟩

def step (F : Binary32) (t : Timed) (i : Moment) : Option Timed :=
  let u := feed F i.input t.logged
  some ⟨⟨u.1, u.2.1, t.logged.log ++ u.2.2⟩, if u.1.curState = t.state then t.since else i.now, i.now⟩

/-- Updates come within `gap`, and the request of a limit does not come while the rod moves to the other one. -/
def Regular (gap : Nat) (t : Timed) (i : Moment) : Prop :=
  t.last ≤ i.now ∧ i.now ≤ t.last + gap ∧ ∀ d, t.state = movingState d → i.calibReq ≠ limitReq d.opposite

/-- The motion has lasted for the timeout. -/
def Late (t : Timed) (i : Moment) : Prop := (∃ d, t.state = movingState d) ∧ t.since + 5000 ≤ i.now

/-- The start of a motion is kept, and it lasts for less than the timeout. -/
structure Inv (t : Timed) : Prop where
  timeout : t.logged.ctx.moveTimeoutMs = 5000
  since_le : t.since ≤ t.last
  start : ∀ d, t.state = movingState d → t.logged.ctx.moveStartTick = BitVec.ofNat 32 t.since ∧ t.last < t.since + 5000

variable {F : Binary32} {gap : Nat} {t t' : Timed} {i : Moment}

/-- The event of an update. -/
def event (F : Binary32) (t : Timed) (i : Moment) : RodEvt :=
  synthesizeEvent F i.pos t.state i.dir (BitVec.ofNat 32 i.now) { t.logged.ctx with calibReq := i.calibReq }

theorem state_step (hstep : step F t i = some t') : t'.state = target rodJump t.state (event F t i) := by
  cases hstep
  exact update_curState ..

theorem Inv.late_iff (inv : Inv t) (hgap : gap + 5000 ≤ 2 ^ 32) (regular : Regular gap t i) :
    ((t.state = .extending ∨ t.state = .retracting) ∧ t.logged.ctx.moveTimeoutMs ≠ 0 ∧
      t.logged.ctx.moveTimeoutMs ≤ BitVec.ofNat 32 i.now - t.logged.ctx.moveStartTick) ↔ Late t i := by
  have hmoving : (t.state = .extending ∨ t.state = .retracting) ↔ ∃ d, t.state = movingState d := by
    refine ⟨fun h => ?_, fun ⟨d, hd⟩ => ?_⟩
    · rcases h with h | h
      · exact ⟨.fwd, h⟩
      · exact ⟨.rev, h⟩
    · cases d with
      | fwd => exact .inl hd
      | rev => exact .inr hd
  rw [hmoving, Late]
  refine and_congr_right fun ⟨d, hd⟩ => ?_
  obtain ⟨hstart, hlast⟩ := inv.start d hd
  obtain ⟨hle, hnear, -⟩ := regular
  have hsince := inv.since_le
  have hwait : (BitVec.ofNat 32 i.now - BitVec.ofNat 32 t.since).toNat = i.now - t.since := by
    rw [BitVec.toNat_sub, BitVec.toNat_ofNat, BitVec.toNat_ofNat]
    omega
  rw [inv.timeout, hstart, and_iff_right (by decide), BitVec.le_def, hwait]
  show 5000 ≤ i.now - t.since ↔ _
  omega

/-- The event comes of the request, the place, the time and the direction, in this order. -/
theorem Inv.event_cases (inv : Inv t) (hgap : gap + 5000 ≤ 2 ^ 32) (regular : Regular gap t i) :
    (∃ d, i.calibReq = limitReq d ∧ event F t i = limitEvt d) ∨
    (i.calibReq = .none ∧ ((AtEnd F i.pos t.state ∧ event F t i = .atMax) ∨
      (¬AtEnd F i.pos t.state ∧ ((Late t i ∧ event F t i = .timeout) ∨
        (¬Late t i ∧ event F t i = commandEvt i.dir))))) := by
  have hlate := inv.late_iff hgap regular
  unfold event synthesizeEvent
  dsimp only
  cases hreq : i.calibReq with
  | max => exact .inl ⟨.fwd, rfl, rfl⟩
  | min => exact .inl ⟨.rev, rfl, rfl⟩
  | none =>
    refine .inr ⟨rfl, ?_⟩
    rw [if_neg (by decide), if_neg (by decide)]
    unfold AtEnd
    by_cases hend : i.pos.isCalibrated ∧ F.le (F.sub i.pos.strokeMm i.pos.stopMarginMm) i.pos.positionMm ∧
        t.state ∈ [RodState.unknown, .stopped, .extending, .extLimit]
    · exact .inl ⟨hend, if_pos hend⟩
    · refine .inr ⟨hend, ?_⟩
      rw [if_neg hend]
      by_cases hl : Late t i
      · exact .inl ⟨hl, if_pos (hlate.mpr hl)⟩
      · refine .inr ⟨hl, ?_⟩
        rw [if_neg (mt hlate.mp hl)]
        cases i.dir <;> rfl

theorem inv_start (now : Nat) : Inv (start now) := by
  refine ⟨rfl, le_rfl, fun d hd => ?_⟩
  cases d <;> cases hd

theorem limitEvt_ne_command (d : Dir) (dir : RodDirection) : limitEvt d ≠ commandEvt dir := by
  cases d <;> cases dir <;> decide

/-- An update after which the rod moves is on time. -/
theorem Inv.moves (inv : Inv t) (hgap : gap + 5000 ≤ 2 ^ 32) (regular : Regular gap t i) {d : Dir}
    (hd : target rodJump t.state (event F t i) = movingState d) (hsame : t.state = movingState d) :
    i.now < t.since + 5000 := by
  have hcommand : ∃ dir, event F t i = commandEvt dir := by
    refine (target_moving hd).resolve_right fun ⟨_, hopp⟩ => ?_
    rcases inv.event_cases hgap regular with ⟨d', hreq, hevt⟩ | ⟨-, ⟨hend, hevt⟩ | ⟨-, ⟨-, hevt⟩ | ⟨-, hevt⟩⟩⟩
    · have hd' : d' = d.opposite := by
        rw [hevt] at hopp
        revert hopp
        cases d' <;> cases d <;> decide
      exact regular.2.2 d hsame (hd' ▸ hreq)
    · rw [hevt] at hopp
      cases d with
      | fwd => cases hopp
      | rev =>
        rw [hsame] at hend
        exact absurd hend.2.2 (by decide)
    · rw [hevt] at hopp
      cases d <;> cases hopp
    · rw [hevt] at hopp
      exact limitEvt_ne_command _ _ hopp.symm
  obtain ⟨dir, hcommand⟩ := hcommand
  have hlate : ¬Late t i := by
    intro hlate
    rcases inv.event_cases hgap regular with ⟨d', -, hevt⟩ | ⟨-, ⟨-, hevt⟩ | ⟨-, ⟨-, hevt⟩ | ⟨hl, -⟩⟩⟩
    · exact limitEvt_ne_command d' dir (hevt.symm.trans hcommand)
    · exact limitEvt_ne_command .fwd dir (hevt.symm.trans hcommand)
    · have h := hevt.symm.trans hcommand
      cases dir <;> cases h
    · exact hl hlate
  exact Nat.lt_of_not_le fun h => hlate ⟨⟨d, hsame⟩, h⟩

theorem Inv.step (inv : Inv t) (hgap : gap + 5000 ≤ 2 ^ 32) (regular : Regular gap t i)
    (hstep : step F t i = some t') : Inv t' := by
  have hstate := state_step hstep
  cases hstep
  refine ⟨(update_moveTimeoutMs ..).trans inv.timeout, ?_, fun d hd => ?_⟩
  · show (if _ then t.since else i.now) ≤ i.now
    split
    · exact le_trans inv.since_le regular.1
    · exact le_rfl
  · have hstart := update_moveStartTick F i.pos i.dir (BitVec.ofNat 32 i.now) t.logged.sm
      { t.logged.ctx with calibReq := i.calibReq } hd
    have hto : (feed F i.input t.logged).1.curState = movingState d := hd
    refine ⟨hstart.trans ?_, ?_⟩
    · show _ = BitVec.ofNat 32 (if (feed F i.input t.logged).1.curState = t.state then t.since else i.now)
      rw [hto]
      by_cases hsame : t.state = movingState d
      · rw [if_pos (show t.logged.sm.curState = _ from hsame), if_pos hsame.symm]
        exact (inv.start d hsame).1
      · rw [if_neg (show ¬t.logged.sm.curState = _ from hsame), if_neg fun h => hsame h.symm]
    · show i.now < (if (feed F i.input t.logged).1.curState = t.state then t.since else i.now) + 5000
      rw [hto]
      by_cases hsame : movingState d = t.state
      · rw [if_pos hsame]
        exact inv.moves hgap regular (hstate.symm.trans hd) hsame.symm
      · rw [if_neg hsame]
        exact Nat.lt_add_of_pos_right (by decide)

/-- In every run whose updates come within a gap, and with no request for the limit behind a motion: a motion is in its
    fault state after an update just if it has lasted for the timeout with no limit reached, and no motion is longer. The
    fault state sends nothing, and the next update with no request follows the direction again. -/
theorem motion_timeout (hgap : gap + 5000 ≤ 2 ^ 32) {now : Nat} {is : List Moment}
    (run : Run (Timed.step F) (Regular gap) (start now) is t) (regular : Regular gap t i) (hstep : Timed.step F t i = some t') :
    (∀ d, t'.state = faultState d ↔
      (t.state = movingState d ∧ t.since + 5000 ≤ i.now ∧ i.calibReq = .none ∧ ¬AtEnd F i.pos t.state) ∨
        (t.state = faultState d ∧ i.calibReq ≠ .none)) ∧
    (∀ d, t'.state = movingState d → i.now < t'.since + 5000) ∧
    (∀ d, t'.state = faultState d → t'.logged.log = t.logged.log) ∧
    ∀ d, t.state = faultState d → i.calibReq = .none → t'.state = commandState i.dir := by
  have inv : Inv t := run.invariant (inv_start now) fun _ _ _ ht hok hstep => ht.step hgap hok hstep
  have inv' := inv.step hgap regular hstep
  have hlast : t'.last = i.now := by cases hstep; rfl
  have hstate := state_step hstep
  refine ⟨fun d => ?_, fun d hd => hlast ▸ (inv'.start d hd).2, fun d hd => ?_, fun d hd hreq => ?_⟩
  · rw [hstate, target_fault_iff]
    have hfault : t.state = faultState d → ¬AtEnd F i.pos t.state := fun hd hend => by
      rw [hd] at hend
      cases d <;> exact absurd hend.2.2 (by decide)
    rcases inv.event_cases hgap regular with ⟨d', hreq, hevt⟩ | ⟨hreq, ⟨hend, hevt⟩ | ⟨hend, ⟨hl, hevt⟩ | ⟨hl, hevt⟩⟩⟩
    · have hne : i.calibReq ≠ .none := by rw [hreq]; cases d' <;> decide
      have hevt' : ¬(limitEvt d' = .timeout ∨ limitEvt d' = .sensorFault) := by cases d' <;> decide
      rw [hevt]
      exact or_congr (iff_of_false (fun h => hevt' h.2) fun h => hne h.2.2.1)
        (and_congr_right fun _ => iff_of_true (limitEvt_ne_command d') hne)
    · rw [hevt]
      refine iff_of_false ?_ ?_
      · rintro (⟨-, h | h⟩ | ⟨hd, -⟩)
        · cases h
        · cases h
        · exact hfault hd hend
      · rintro (⟨-, -, -, hnot⟩ | ⟨hd, -⟩)
        · exact hnot hend
        · exact hfault hd hend
    · obtain ⟨⟨d', hd'⟩, hold⟩ := hl
      have hno : t.state ≠ faultState d := by
        rw [hd']
        cases d <;> cases d' <;> decide
      rw [hevt]
      exact or_congr (and_congr_right fun _ => iff_of_true (.inl rfl) ⟨hold, hreq, hend⟩)
        (iff_of_false (fun h => hno h.1) fun h => hno h.1)
    · rw [hevt]
      refine iff_of_false ?_ ?_
      · rintro (⟨-, h⟩ | ⟨-, h⟩)
        · revert h
          cases i.dir <;> decide
        · exact h i.dir rfl
      · rintro (⟨hd, hold, -⟩ | ⟨-, hne⟩)
        · exact hl ⟨⟨d, hd⟩, hold⟩
        · exact hne hreq
  · cases hstep
    show t.logged.log ++ _ = _
    rw [feed, update_fault F _ _ _ _ _ hd, List.append_nil]
  · rcases inv.event_cases hgap regular with ⟨d', hreq', -⟩ | ⟨-, ⟨hend, -⟩ | ⟨-, ⟨⟨⟨d', hd'⟩, -⟩, -⟩ | ⟨-, hevt⟩⟩⟩
    · rw [hreq] at hreq'
      cases d' <;> cases hreq'
    · rw [hd] at hend
      cases d <;> exact absurd hend.2.2 (by decide)
    · rw [hd] at hd'
      cases d <;> cases d' <;> cases hd'
    · rw [hstate, hd, hevt]
      exact target_fault_command d i.dir

/-- A forward motion that has lasted for 5 s. -/
theorem motion_timeout_forward : ∃ t', (Timed.step .ieee ((Timed.step .ieee (start 0) ⟨10, .none, .init, .fwd⟩).get rfl)
    ⟨5010, .none, .init, .fwd⟩) = some t' ∧ t'.state = .extFault ∧ t'.logged.log = [] := by
  have regular : ∀ t : Timed, ∀ i : Moment, i.calibReq = .none → t.last ≤ i.now → i.now ≤ t.last + 5000 →
      Regular 5000 t i := fun t i hreq hle hnear => ⟨hle, hnear, fun d _ => by rw [hreq]; cases d <;> decide⟩
  have hrun : Run (Timed.step .ieee) (Regular 5000) (start 0) [⟨10, .none, .init, .fwd⟩] _ :=
    .single (regular _ _ rfl (by decide) (by decide)) rfl
  obtain ⟨hfault, -, hsent, -⟩ := motion_timeout (F := .ieee) (by decide) hrun
    (regular _ ⟨5010, .none, .init, .fwd⟩ rfl (by decide) (by decide)) rfl
  have hto := (hfault .fwd).mpr (.inl ⟨rfl, by decide, rfl, fun hend => absurd hend.1 (by decide)⟩)
  exact ⟨_, rfl, hto, hsent .fwd hto⟩

end Timed

end RodActuator.Rod.RodStateCtx
