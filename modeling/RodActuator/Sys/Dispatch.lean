import RodActuator.Power.Polarity
import RodActuator.Rod.State

/-! The system state machine (`Dev/dev_mgr/dev_state.c`). `Sys_State_Dispatch` goes through the event bits in
    its own order; each branch changes the fault bits and sends events to the machine, and what the entry
    functions do to the other modules is left as a list of effects, in their order. -/

namespace RodActuator.Sys
open StateEngine Arb Power Rod

inductive SysState where
  | init | idle | run | fault | emergency | stop
  deriving DecidableEq, Repr

inductive SysErr where
  | none | overCurrent | voltOver | voltUnder | rodLimit
  deriving DecidableEq, Repr

/-- The machine, the fault data of `mySystem` and `s_overcur_dir`. -/
structure System where
  sm : Machine SysState
  errorCode : SysErr
  faultBits : BitVec 32
  prevState : SysState
  overcurDir : PolarityState
  deriving DecidableEq, Repr

namespace System

def boot : System := ⟨⟨.init, .init⟩, .none, 0, .init, .unknown⟩

abbrev cur (sys : System) : SysState := sys.sm.curState

end System

def sysJump : List (Jump SysState SysEvt) := [
  ⟨.init, .initDone, .idle⟩,
  ⟨.idle, .cmdWorkEnable, .run⟩,
  ⟨.idle, .fault, .fault⟩,
  ⟨.idle, .emergency, .emergency⟩,
  ⟨.idle, .stWorkError, .stop⟩,
  ⟨.idle, .voltOver, .emergency⟩,
  ⟨.idle, .voltUnder, .emergency⟩,
  ⟨.idle, .overCurrent, .emergency⟩,
  ⟨.idle, .rodLimitFault, .emergency⟩,
  ⟨.run, .fault, .fault⟩,
  ⟨.run, .emergency, .emergency⟩,
  ⟨.run, .stWorkError, .stop⟩,
  ⟨.run, .voltOver, .emergency⟩,
  ⟨.run, .voltUnder, .emergency⟩,
  ⟨.run, .overCurrent, .emergency⟩,
  ⟨.run, .rodLimitFault, .emergency⟩,
  ⟨.stop, .cmdWorkEnable, .run⟩,
  ⟨.stop, .recovery, .idle⟩,
  ⟨.fault, .recovery, .idle⟩,
  ⟨.emergency, .fault, .fault⟩,
  ⟨.emergency, .recovery, .idle⟩]

/-! ### Entry functions -/

/-- What the thread of the state machine does to another module. -/
inductive Effect where
  | busVoltageInit
  | polarityInit
  /-- `Arb_Module_Init` resets one axis under its mutex. -/
  | arbInit (axisId : Fin arbMaxAxisNum)
  /-- The first time, the 1 ms tick is started. -/
  | hwStart
  | setArbEnable (axisId : Fin arbMaxAxisNum) (enable : Bool)
  /-- `Arb_SendCommand`, which stamps the message with the time. -/
  | arbSendCommand (msg : Msg) (urgent : Bool)
  | resyncActFromFault
  /-- Asks for a save of the rod position, if a valid bus voltage was seen. -/
  | rodSaveRequest
  deriving DecidableEq, Repr

def emergencyStop (axisId : Fin arbMaxAxisNum) : Effect :=
  .arbSendCommand ⟨axisId, .emergency, prioEmergency, .emergencyStop, 0, 0⟩ true

/-- The commands of the power inputs go to the axis 0. -/
def powerCommand (deviceId : DeviceId) (cmdType : CmdType) (dutyPct : Nat) (urgent : Bool) : Effect :=
  .arbSendCommand ⟨0, deviceId, prioPower, cmdType, dutyPct, 0⟩ urgent

/-- `sys_enter_idle`: `Dev_Registry_InitAll` in the order of the registration, then the hardware. -/
def sysEnterIdle : List Effect := [.busVoltageInit, .polarityInit, .arbInit 0, .arbInit 1, .hwStart]

def sysEnterRun (m : Machine SysState) : List Effect :=
  if m.previousState = .fault then [.resyncActFromFault] else []

def sysEnterFault : List Effect :=
  [.setArbEnable 0 false, emergencyStop 0, .setArbEnable 1 false, emergencyStop 1]

/-- The effects of the entry functions that send no event; the events of an axis have no reader. -/
def enterQuiet (m : Machine SysState) : SysState → List Effect
  | .idle => sysEnterIdle
  | .run => sysEnterRun m
  | .fault => sysEnterFault
  | .emergency => [emergencyStop 0, emergencyStop 1]
  | .init | .stop => []

/-- `sys_enter_emergency` is the only entry function that sends an event, `EVT_SYS_FAULT`. -/
def enter (m : Machine SysState) : SysState → Machine SysState × List Effect
  | .emergency =>
    let r := sendEvent sysJump .fault m
    (r.1, enterQuiet m .emergency ++ r.2.elim [] (enterQuiet r.1))
  | s => (m, enterQuiet m s)

def smSendEvent (e : SysEvt) (m : Machine SysState) : Machine SysState × List Effect :=
  let r := sendEvent sysJump e m
  r.2.elim (r.1, []) (enter r.1)

/-! ### The branches -/

structure Answers where
  calib : RodCalibResult
  polarity : PolarityState
  deriving DecidableEq, Repr

def overCurrentBit : BitVec 32 := BitVec.twoPow 32 0
def voltOverBit : BitVec 32 := BitVec.twoPow 32 1
def voltUnderBit : BitVec 32 := BitVec.twoPow 32 2
def rodLimitBit : BitVec 32 := BitVec.twoPow 32 3

namespace System

def send (e : SysEvt) (sys : System) : System × List Effect :=
  let r := smSendEvent e sys.sm
  ({ sys with sm := r.1 }, r.2)

/-- Latches a fault; when it is the first one, the state is kept for the recovery. -/
def latch (err : SysErr) (bit : BitVec 32) (sys : System) : System :=
  { sys with
    errorCode := err
    prevState := if sys.faultBits = 0 then sys.cur else sys.prevState
    faultBits := sys.faultBits ||| bit }

/-- All faults are gone: back to IDLE, and to RUN if the first fault came there. -/
def autoRecover (sys : System) : System × List Effect :=
  if sys.faultBits = 0 then
    let r := send .recovery { sys with errorCode := .none }
    if r.1.prevState = .run then
      let r' := send .cmdWorkEnable r.1
      (r'.1, r.2 ++ r'.2)
    else r
  else (sys, [])

def overCurrentFault (dir : PolarityState) (sys : System) : System × List Effect :=
  send .overCurrent (latch .overCurrent overCurrentBit { sys with overcurDir := dir })

/-- One branch of `Sys_State_Dispatch`. -/
def branch (a : Answers) (e : SysEvt) (sys : System) : System × List Effect :=
  match e with
  | .overCurrent =>
    match a.calib with
    | .calibMax => (sys, [powerCommand .powerPos .clearAllowFwd 0 true])
    | .calibMin => (sys, [powerCommand .powerPos .clearAllowRev 0 true])
    | .faultFwd => overCurrentFault .fwd sys
    | .faultRev => overCurrentFault .rev sys
    | .ignored => (sys, [])
  | .rodLimitFault =>
    -- The state before the fault is not kept here.
    send .rodLimitFault { sys with errorCode := .rodLimit, faultBits := sys.faultBits ||| rodLimitBit }
  | .voltOver => send .voltOver (latch .voltOver voltOverBit sys)
  | .voltUnder =>
    let r := send .voltUnder (latch .voltUnder voltUnderBit sys)
    (r.1, .rodSaveRequest :: r.2)
  | .recovery => send .recovery { sys with errorCode := .none, faultBits := 0 }
  | .voltNormal => autoRecover { sys with faultBits := sys.faultBits &&& ~~~(voltOverBit ||| voltUnderBit) }
  | .voltRecoverWait => (sys, [])
  | .polarityChg =>
    if sys.faultBits &&& overCurrentBit ≠ 0 ∧ sys.overcurDir ≠ .unknown ∧ a.polarity ≠ sys.overcurDir then
      autoRecover { sys with faultBits := sys.faultBits &&& ~~~overCurrentBit }
    else (sys, [])
  | .fault | .emergency | .initDone | .cmdWorkEnable | .stWorkError => send e sys

def branchesOf (bits : BitVec 32) : List SysEvt := SysEvt.all.filter fun e => e.isIn bits

/-- `Sys_State_Dispatch`, each branch with what it reads. -/
def dispatch (a : SysEvt → Answers) (bits : BitVec 32) (sys : System) : System × List Effect :=
  (branchesOf bits).foldl (fun r e => ((branch (a e) e r.1).1, r.2 ++ (branch (a e) e r.1).2)) (sys, [])

/-! ### The state an event leads to -/

/-- The state after `StateMachine_SendEvent`: EMERGENCY goes on to where its own event leads. -/
def next (e : SysEvt) (s : SysState) : SysState :=
  if target sysJump s e = .emergency ∧ s ≠ .emergency then target sysJump .emergency .fault
  else target sysJump s e

theorem smSendEvent_curState (e : SysEvt) (m : Machine SysState) :
    (smSendEvent e m).1.curState = next e m.curState := by
  unfold smSendEvent sendEvent next
  dsimp only
  by_cases hsame : target sysJump m.curState e = m.curState
  · rw [if_pos hsame, if_neg]
    · exact hsame.symm
    · rintro ⟨htarget, hne⟩
      exact hne (hsame ▸ htarget)
  · rw [if_neg hsame]
    by_cases hem : target sysJump m.curState e = .emergency
    · rw [hem, if_pos ⟨rfl, fun hcur => hsame (hem.trans hcur.symm)⟩]
      rfl
    · rw [if_neg fun h => hem h.1]
      cases ht : target sysJump m.curState e <;> first | rfl | exact absurd ht hem

@[simp] theorem send_cur (e : SysEvt) (sys : System) : (send e sys).1.cur = next e sys.cur :=
  smSendEvent_curState e sys.sm

@[simp] theorem send_faultBits (e : SysEvt) (sys : System) : (send e sys).1.faultBits = sys.faultBits := rfl
@[simp] theorem send_prevState (e : SysEvt) (sys : System) : (send e sys).1.prevState = sys.prevState := rfl
@[simp] theorem send_overcurDir (e : SysEvt) (sys : System) : (send e sys).1.overcurDir = sys.overcurDir := rfl

theorem next_fault {e : SysEvt} {s : SysState} (hs : s = .fault ∨ s = .idle ∨ s = .run)
    (he : e ∈ [SysEvt.overCurrent, .rodLimitFault, .voltOver, .voltUnder, .fault, .emergency]) :
    next e s = .fault := by
  simp only [List.mem_cons, List.not_mem_nil, or_false] at he
  rcases hs with rfl | rfl | rfl <;> rcases he with rfl | rfl | rfl | rfl | rfl | rfl <;> decide

theorem autoRecover_of_bits {sys : System} (h : sys.faultBits ≠ 0) : autoRecover sys = (sys, []) := if_neg h

theorem autoRecover_cur {sys : System} (h : sys.faultBits = 0) :
    (autoRecover sys).1.cur =
      if sys.prevState = .run then next .cmdWorkEnable (next .recovery sys.cur) else next .recovery sys.cur := by
  rw [autoRecover, if_pos h]
  simp only [send_prevState]
  by_cases hprev : sys.prevState = .run
  · simp only [hprev, if_true, send_cur]
  · simp only [hprev, if_false, send_cur]

@[simp] theorem autoRecover_faultBits (sys : System) : (autoRecover sys).1.faultBits = sys.faultBits := by
  unfold autoRecover
  split_ifs
  · dsimp only
    split_ifs <;> rfl
  · rfl

@[simp] theorem autoRecover_prevState (sys : System) : (autoRecover sys).1.prevState = sys.prevState := by
  unfold autoRecover
  split_ifs
  · dsimp only
    split_ifs <;> rfl
  · rfl

@[simp] theorem autoRecover_overcurDir (sys : System) : (autoRecover sys).1.overcurDir = sys.overcurDir := by
  unfold autoRecover
  split_ifs
  · dsimp only
    split_ifs <;> rfl
  · rfl

def branchIf (a : SysEvt → Answers) (bits : BitVec 32) (sys : System) (e : SysEvt) : System :=
  if e.isIn bits then (branch (a e) e sys).1 else sys

theorem dispatch_fst (a : SysEvt → Answers) (bits : BitVec 32) (sys : System) :
    (dispatch a bits sys).1 = SysEvt.all.foldl (branchIf a bits) sys := by
  have hfold : ∀ (es : List SysEvt) (r : System × List Effect),
      (es.foldl (fun r e => ((branch (a e) e r.1).1, r.2 ++ (branch (a e) e r.1).2)) r).1 =
        es.foldl (fun s e => (branch (a e) e s).1) r.1 := by
    intro es
    induction es with
    | nil => intro r; rfl
    | cons e es ih => intro r; rw [List.foldl_cons, List.foldl_cons, ih]
  rw [dispatch, hfold, branchesOf, List.foldl_filter]
  rfl

/-! ### What a branch can do -/

end System

/-- An effect that touches neither the axes nor another module's state; no message is of a rod limit. -/
def Effect.Plain (x : Effect) : Prop :=
  x = .rodSaveRequest ∨ ∃ msg urgent, x = .arbSendCommand msg urgent ∧ ¬FromLimit msg

/-- All that a branch can do: the machine stays, or it goes to FAULT with the entry of FAULT at the end, back
    to IDLE (and on to RUN) through the entry of IDLE, from IDLE or STOP to RUN, or to STOP. -/
inductive Move (e : SysEvt) : SysState → SysState → List Effect → Prop where
  | stays {s : SysState} {effs : List Effect} (plain : ∀ x ∈ effs, x.Plain) : Move e s s effs
  | faults {s : SysState} (effs : List Effect) (hs : s = .idle ∨ s = .run) (plain : ∀ x ∈ effs, x.Plain) :
      Move e s .fault (effs ++ sysEnterFault)
  | recovers {s t : SysState} (hs : s = .fault ∨ s = .stop ∨ s = .init ∧ e = .initDone)
      (ht : t = .idle ∨ t = .run) : Move e s t sysEnterIdle
  | works {s : SysState} (hs : s = .idle ∨ s = .stop) : Move e s .run []
  | stops {s : SysState} (hs : s = .idle ∨ s = .run) (he : e = .stWorkError) : Move e s .stop []

section
variable {e : SysEvt} {s t : SysState} {effs : List Effect}

theorem Move.ne_emergency (h : Move e s t effs) (hs : s ≠ .emergency) : t ≠ .emergency := by
  cases h with
  | stays => exact hs
  | recovers _ ht => rcases ht with rfl | rfl <;> simp
  | faults | works | stops => simp

theorem Move.ne_stop (h : Move e s t effs) (hs : s ≠ .stop) (he : e ≠ .stWorkError) : t ≠ .stop := by
  cases h with
  | stays => exact hs
  | recovers _ ht => rcases ht with rfl | rfl <;> simp
  | stops _ herror => exact absurd herror he
  | faults | works => simp

theorem Move.of_init (h : Move e s .init effs) : s = .init ∧ ∀ x ∈ effs, x.Plain := by
  cases h with
  | stays plain => exact ⟨rfl, plain⟩
  | recovers _ ht => rcases ht with ht | ht <;> cases ht

theorem Move.from_fault (h : Move e .fault t effs) : t = .fault ∨ effs = sysEnterIdle := by
  cases h with
  | stays => exact .inl rfl
  | recovers => exact .inr rfl
  | faults _ hs => rcases hs with hs | hs <;> cases hs
  | works hs => rcases hs with hs | hs <;> cases hs
  | stops hs => rcases hs with hs | hs <;> cases hs

end

namespace System

theorem plain_saveRequest : Effect.Plain .rodSaveRequest := .inl rfl

theorem plain_emergencyStop (i : Fin arbMaxAxisNum) : (emergencyStop i).Plain :=
  .inr ⟨_, _, rfl, by simp [FromLimit]⟩

theorem target_cases (e : SysEvt) {s : SysState} (h : s ≠ .emergency) :
    target sysJump s e = s ∨
      (target sysJump s e = .emergency ∨ target sysJump s e = .fault) ∧ (s = .idle ∨ s = .run) ∨
      target sysJump s e = .idle ∧ (s = .fault ∨ s = .stop ∨ s = .init ∧ e = .initDone) ∨
      target sysJump s e = .run ∧ (s = .idle ∨ s = .stop) ∨
      target sysJump s e = .stop ∧ (s = .idle ∨ s = .run) ∧ e = .stWorkError := by
  revert h
  cases s <;> cases e <;> decide

theorem smSendEvent_stay {e : SysEvt} {m : Machine SysState} (h : target sysJump m.curState e = m.curState) :
    smSendEvent e m = (m, []) := by
  simp [smSendEvent, sendEvent, h]

theorem smSendEvent_change {e : SysEvt} {m : Machine SysState} {t : SysState}
    (h : target sysJump m.curState e = t) (hne : t ≠ m.curState) :
    smSendEvent e m = enter ⟨t, m.curState⟩ t := by
  simp [smSendEvent, sendEvent, h, hne]

theorem smSendEvent_move {e : SysEvt} {m : Machine SysState} (h : m.curState ≠ .emergency) :
    Move e m.curState (smSendEvent e m).1.curState (smSendEvent e m).2 := by
  by_cases hstay : target sysJump m.curState e = m.curState
  · rw [smSendEvent_stay hstay]
    exact .stays (by simp)
  · rw [smSendEvent_change rfl hstay]
    rcases (target_cases e h).resolve_left hstay with ⟨ht | ht, hs⟩ | ⟨ht, hs⟩ | ⟨ht, hs⟩ | ⟨ht, hs, he⟩
    · rw [ht]
      exact .faults [emergencyStop 0, emergencyStop 1] hs (by simp [plain_emergencyStop])
    · rw [ht]
      exact .faults [] hs (by simp)
    · rw [ht]
      exact .recovers hs (.inl rfl)
    · have hprev : sysEnterRun ⟨.run, m.curState⟩ = [] := by
        rw [sysEnterRun, if_neg]
        rcases hs with hs | hs <;> simp [hs]
      rw [ht]
      simp only [enter, enterQuiet, hprev]
      exact .works hs
    · rw [ht]
      exact .stops hs he

theorem smSendEvent_recovery {m : Machine SysState} (h : m.curState ≠ .emergency) :
    smSendEvent .recovery m = (m, []) ∧ m.curState ≠ .fault ∧ m.curState ≠ .stop ∨
      smSendEvent .recovery m = (⟨.idle, m.curState⟩, sysEnterIdle) ∧ (m.curState = .fault ∨ m.curState = .stop) := by
  obtain ⟨s, p⟩ := m
  cases s with
  | init | idle | run => exact .inl ⟨smSendEvent_stay rfl, by simp, by simp⟩
  | fault => exact .inr ⟨smSendEvent_change (t := .idle) rfl (by simp), .inl rfl⟩
  | stop => exact .inr ⟨smSendEvent_change (t := .idle) rfl (by simp), .inr rfl⟩
  | emergency => exact absurd rfl h

theorem smSendEvent_workEnable {m : Machine SysState} (h : m.curState ≠ .emergency) :
    smSendEvent .cmdWorkEnable m = (m, []) ∧ m.curState ≠ .idle ∧ m.curState ≠ .stop ∨
      smSendEvent .cmdWorkEnable m = (⟨.run, m.curState⟩, []) ∧ (m.curState = .idle ∨ m.curState = .stop) := by
  obtain ⟨s, p⟩ := m
  cases s with
  | init | fault | run => exact .inl ⟨smSendEvent_stay rfl, by simp, by simp⟩
  | idle => exact .inr ⟨smSendEvent_change (t := .run) rfl (by simp), .inl rfl⟩
  | stop => exact .inr ⟨smSendEvent_change (t := .run) rfl (by simp), .inr rfl⟩
  | emergency => exact absurd rfl h

theorem autoRecover_move (e : SysEvt) (sys : System) (h : sys.cur ≠ .emergency) :
    Move e sys.cur (autoRecover sys).1.cur (autoRecover sys).2 := by
  have hstay : Move e sys.cur sys.cur [] := .stays (by simp)
  unfold autoRecover
  split
  · rcases smSendEvent_recovery h with ⟨hsend, -, hstop⟩ | ⟨hsend, hs⟩
    · -- No row for RECOVERY: only the work may start, and only in IDLE.
      simp only [send, hsend, List.nil_append]
      split
      · rcases smSendEvent_workEnable h with ⟨hwork, -, -⟩ | ⟨hwork, hs⟩
        · rw [hwork]
          exact hstay
        · rw [hwork]
          exact .works (.inl (hs.resolve_right hstop))
      · exact hstay
    · have hwork := smSendEvent_change (e := .cmdWorkEnable) (m := ⟨.idle, sys.cur⟩) (t := .run) rfl (by simp)
      have hrun : enter ⟨.run, .idle⟩ .run = (⟨.run, .idle⟩, []) := rfl
      simp only [send, hsend]
      split
      · simp only [hwork, hrun, List.append_nil]
        exact .recovers (by tauto) (.inr rfl)
      · exact .recovers (by tauto) (.inl rfl)
  · exact hstay

/-- The inversion of a branch: the invariants of the machine and its effects follow from it. -/
theorem branch_move (a : Answers) (e : SysEvt) {sys : System} (h : sys.cur ≠ .emergency) :
    Move e sys.cur (branch a e sys).1.cur (branch a e sys).2 := by
  have hauto : ∀ f, Move e sys.cur (autoRecover { sys with faultBits := f }).1.cur
      (autoRecover { sys with faultBits := f }).2 := fun f =>
    autoRecover_move e { sys with faultBits := f } h
  cases e with
  | overCurrent =>
    cases hc : a.calib <;> simp only [branch, hc]
    case faultFwd | faultRev => exact smSendEvent_move h
    all_goals exact .stays (by simp [Effect.Plain, powerCommand, FromLimit])
  | polarityChg =>
    simp only [branch]
    split
    · exact hauto _
    · exact .stays (by simp)
  | voltUnder =>
    have hsend : Move .voltUnder sys.cur (smSendEvent .voltUnder sys.sm).1.curState
        (.rodSaveRequest :: (smSendEvent .voltUnder sys.sm).2) := by
      by_cases hs : sys.cur = .idle ∨ sys.cur = .run
      · have ht : target sysJump sys.cur .voltUnder = .emergency := by
          rcases hs with hs | hs <;> rw [hs] <;> decide
        rw [smSendEvent_change ht fun hem => h hem.symm]
        exact .faults [.rodSaveRequest, emergencyStop 0, emergencyStop 1] hs
          (by simp [plain_emergencyStop, plain_saveRequest])
      · have ht : target sysJump sys.cur .voltUnder = sys.cur := by
          revert hs h
          cases sys.cur <;> decide
        rw [smSendEvent_stay ht]
        exact .stays (by simp [plain_saveRequest])
    exact hsend
  | voltRecoverWait => exact .stays (by simp [branch])
  | voltNormal => exact hauto _
  | _ => exact smSendEvent_move h

end System

end RodActuator.Sys
