import RodActuator.Lib.Ieee754
import RodActuator.Lib.Transition
import RodActuator.Arb.Arbiter
import RodActuator.Power.BusVoltage
import RodActuator.Sys.Dispatch

/-! The threads of the program and what they share. The thread of the state machine receives the pending events
    and goes through the branches of the mask, each branch followed by its effects one after the other; the
    arbiter thread takes and handles messages; the rod and the polarity task send to both; the 1 ms tick
    checks the bus voltage; and anyone may send events and commands. A step is one action of one of them. -/

namespace RodActuator.Sys
open Arb Power Rod Binary32 StateEngine

/-- The thread of the state machine: the effects still to be done and then the branches of the mask. -/
structure SmThread where
  sys : System
  effects : List Effect
  branches : List SysEvt
  deriving DecidableEq, Repr

/-- What a tick of the rod task still has to do. -/
inductive RodAct where
  | integrate (deltaPulses : Int)
  | calibrate
  | read (tick : BitVec 32)
  | update (dir : RodDirection) (tick : BitVec 32)
  | out (o : RodOut)
  deriving DecidableEq, Repr

/-- The rod task with the rod of the axis 0, the only one that is configured. -/
structure RodTask where
  sm : Machine RodState
  ctx : RodStateCtx
  pos : Position
  acts : List RodAct
  deriving DecidableEq, Repr

structure World where
  sm : SmThread
  pending : BitVec 32
  arb : Arbiter
  volt : BusVoltage
  pol : Polarity
  polOuts : List PolarityOut
  rod : RodTask
  hwStarted : Bool
  rodSavePending : Bool

/-- The actions: anyone sends events; the thread of the state machine receives the pending ones (`dispatch`) and
    does its next effect or branch (`sm`); another sender posts a command; the arbiter thread takes a message and
    handles it; the 1 ms tick runs with the mean voltage; the polarity task samples its pin and sends what the
    scan asked for (`polOut`); and the rod task begins a tick and does the actions of it (`rod`). -/
inductive Label where
  | event (bits : BitVec 32)
  | dispatch
  | sm (now : BitVec 32)
  | post (now : BitVec 32) (msg : Msg) (urgent : Bool)
  | recv
  | process (now : BitVec 32)
  | tick (mean : Single)
  | scan (pin : Bool)
  | polOut (now : BitVec 32)
  | rodTick (deltaPulses : Int) (tick : BitVec 32)
  | rod (now : BitVec 32)
  deriving DecidableEq, Repr

namespace World

/-- After `App_Model_Init`, with the position that it restored. -/
def boot (dirInvert : Bool) (pos : Position) : World where
  sm := ⟨System.boot, [], []⟩
  pending := SysEvt.mask .initDone ||| SysEvt.mask .cmdWorkEnable
  arb := Arbiter.boot dirInvert
  volt := BusVoltage.zeroed
  pol := Polarity.init
  polOuts := []
  rod := ⟨⟨.unknown, .unknown⟩, RodStateCtx.init, pos, []⟩
  hwStarted := false
  rodSavePending := false

/-! ### The thread of the state machine -/

/-- `Sys_State_ResyncActFromFault`. -/
def resync (polarity : PolarityState) : List Effect :=
  [.setArbEnable 0 true, .setArbEnable 1 true] ++
    match polarity with
    | .fwd => [powerCommand .powerPos .runFwd polarityArbRunDutyPct false]
    | .rev => [powerCommand .powerNeg .runRev polarityArbRunDutyPct false]
    | _ => [powerCommand .powerPos .clearAllowFwd 0 false, powerCommand .powerPos .clearAllowRev 0 false]

/-- Does one effect; `rest` are those that follow it. -/
def doEffect (now : BitVec 32) (rest : List Effect) (w : World) (e : Effect) : World :=
  let w := { w with sm := { w.sm with effects := rest } }
  match e with
  | .busVoltageInit => { w with volt := w.volt.init }
  | .polarityInit => { w with pol := Polarity.init }
  | .arbInit i => { w with arb := w.arb.reset i }
  | .hwStart => { w with hwStarted := true }
  | .setArbEnable i enable => { w with arb := w.arb.setEnable i enable }
  | .arbSendCommand msg urgent => { w with arb := w.arb.send now msg urgent }
  | .resyncActFromFault => { w with sm := { w.sm with effects := resync w.pol.state ++ rest } }
  | .rodSaveRequest => { w with rodSavePending := w.rodSavePending || w.volt.seenValid }

def answers (w : World) : Answers := ⟨(onOverCurrent (w.arb.axis 0) w.rod.pos w.rod.ctx).1, w.pol.state⟩

/-- Takes one branch; that of an over-current leaves the calibration request to the rod task. -/
def doBranch (rest : List SysEvt) (w : World) (e : SysEvt) : World :=
  let r := System.branch w.answers e w.sm.sys
  { w with
    sm := ⟨r.1, r.2, rest⟩
    rod := if e = .overCurrent then
        { w.rod with ctx := (onOverCurrent (w.arb.axis 0) w.rod.pos w.rod.ctx).2 }
      else w.rod }

/-! ### The rod task -/

def doRodAct (F : Binary32) (now : BitVec 32) (rest : List RodAct) (w : World) (a : RodAct) : World :=
  let rod := { w.rod with acts := rest }
  match a with
  | .integrate delta => { w with rod := { rod with pos := rod.pos.update F delta } }
  | .calibrate =>
    let pos := match rod.ctx.calibReq with
      | .min => (rod.pos.onMinLimit true).2
      | .max => (rod.pos.onMaxLimit true).2
      | .none => rod.pos
    { w with rod := { rod with pos := pos } }
  | .read tick => { w with rod := { rod with acts := .update (readDirection (w.arb.axis 0)) tick :: rest } }
  | .update dir tick =>
    let r := RodStateCtx.update F rod.pos dir tick rod.sm rod.ctx
    { w with rod := { rod with sm := r.1, ctx := r.2.1, acts := r.2.2.map .out ++ rest } }
  | .out (.arbSendCommand msg) => { w with rod := rod, arb := w.arb.send now msg true }
  | .out _ => { w with rod := rod }

theorem doRodAct_spec (F : Binary32) (now : BitVec 32) (rest : List RodAct) (w : World) (a : RodAct) :
    (w.doRodAct F now rest a).sm = w.sm ∧ (w.doRodAct F now rest a).polOuts = w.polOuts ∧
      ((w.doRodAct F now rest a).arb = w.arb ∨
        ∃ msg, a = .out (.arbSendCommand msg) ∧ (w.doRodAct F now rest a).arb = w.arb.send now msg true) := by
  cases a with
  | out o =>
    cases o with
    | arbSendCommand msg => exact ⟨rfl, rfl, .inr ⟨msg, rfl, rfl⟩⟩
    | limitExtend | limitRetract | limitReleased => exact ⟨rfl, rfl, .inl rfl⟩
  | integrate | calibrate | read | update => exact ⟨rfl, rfl, .inl rfl⟩

/-! ### Steps -/

def step (F : Binary32) (cfg : VoltCfg) (w : World) : Label → Option World
  | .event bits => some { w with pending := w.pending ||| bits }
  | .dispatch =>
    if w.sm.effects = [] ∧ w.sm.branches = [] ∧ w.pending &&& sysSmWaitEvents ≠ 0 then
      some { w with
        sm := { w.sm with branches := System.branchesOf (w.pending &&& sysSmWaitEvents) }
        pending := w.pending &&& ~~~sysSmWaitEvents }
    else none
  | .sm now =>
    match w.sm.effects, w.sm.branches with
    | e :: rest, _ => some (w.doEffect now rest e)
    | [], e :: rest => some (w.doBranch rest e)
    | [], [] => none
  | .post now msg urgent => some { w with arb := w.arb.send now msg urgent }
  | .recv => w.arb.recv.map fun arb => { w with arb := arb }
  | .process now => (w.arb.process now).map fun arb => { w with arb := arb }
  | .tick mean =>
    if w.hwStarted then
      let r := w.volt.isr1ms F cfg mean
      some { w with volt := r.1, pending := w.pending ||| r.2 }
    else none
  | .scan pin =>
    if w.polOuts = [] then
      let r := w.pol.scan w.volt.isUnderVoltage pin
      some { w with pol := r.1, polOuts := r.2 }
    else none
  | .polOut now =>
    match w.polOuts with
    | .sysEvent bits :: rest => some { w with polOuts := rest, pending := w.pending ||| bits }
    | .arbSendCommand msg :: rest => some { w with polOuts := rest, arb := w.arb.send now msg false }
    | [] => none
  | .rodTick delta tick =>
    if w.rod.acts = [] then
      some { w with rod := { w.rod with acts := [.integrate delta, .calibrate, .read tick] } }
    else none
  | .rod now =>
    match w.rod.acts with
    | a :: rest => some (w.doRodAct F now rest a)
    | [] => none

theorem mem_branchesOf {e : SysEvt} {bits : BitVec 32} :
    e ∈ System.branchesOf (bits &&& sysSmWaitEvents) ↔ e.isIn bits = true := by
  have hwait := e.isIn_wait
  simp only [SysEvt.isIn] at hwait
  simp [System.branchesOf, SysEvt.mem_all, SysEvt.isIn, hwait]

def Between (w : World) : Prop := w.sm.effects = [] ∧ w.sm.branches = []

/-! ### What a step can do -/

/-- What the arbiter thread, the polarity task and the other senders do to the arbiter. -/
inductive Traffic (w : World) : Label → Arbiter → Prop where
  | kept (l : Label) : Traffic w l w.arb
  | post (now : BitVec 32) (msg : Msg) (urgent : Bool) : Traffic w (.post now msg urgent) (w.arb.send now msg urgent)
  | polOut (now : BitVec 32) {msg : Msg} (hmsg : .arbSendCommand msg ∈ w.polOuts) :
      Traffic w (.polOut now) (w.arb.send now msg false)
  | recv {arb : Arbiter} (hrecv : w.arb.recv = some arb) : Traffic w .recv arb
  | process {now : BitVec 32} {arb : Arbiter} (hprocess : w.arb.process now = some arb) : Traffic w (.process now) arb

/-- All that a step can do to the state machine, the rod and the arbiter. -/
inductive Change (F : Binary32) (w : World) : Label → World → Prop where
  | effect (now : BitVec 32) {e : Effect} {rest : List Effect} (heff : w.sm.effects = e :: rest) :
      Change F w (.sm now) (w.doEffect now rest e)
  | branch (now : BitVec 32) {e : SysEvt} {rest : List SysEvt} (heff : w.sm.effects = [])
      (hbr : w.sm.branches = e :: rest) : Change F w (.sm now) (w.doBranch rest e)
  | rodTick {delta : Int} {tick : BitVec 32} (hacts : w.rod.acts = []) : Change F w (.rodTick delta tick)
      { w with rod := { w.rod with acts := [.integrate delta, .calibrate, .read tick] } }
  | rod (now : BitVec 32) {a : RodAct} {rest : List RodAct} (hacts : w.rod.acts = a :: rest) :
      Change F w (.rod now) (w.doRodAct F now rest a)
  | traffic {l : Label} {w' : World} (hsys : w'.sm.sys = w.sm.sys) (heff : w'.sm.effects = w.sm.effects)
      (hrod : w'.rod = w.rod)
      (houts : ∀ o ∈ w'.polOuts, o ∈ w.polOuts ∨ ∃ underVoltage pin, o ∈ (w.pol.scan underVoltage pin).2)
      (harb : Traffic w l w'.arb) : Change F w l w'

/-- The inversion of a step: the invariants of the arbiter follow from it. -/
theorem step_change {F : Binary32} {cfg : VoltCfg} {w w' : World} {l : Label} (h : step F cfg w l = some w') :
    Change F w l w' := by
  cases l with
  | event bits =>
    cases h
    exact .traffic rfl rfl rfl (fun _ => .inl) (.kept _)
  | dispatch =>
    simp only [step] at h
    split at h
    · cases h
      exact .traffic rfl rfl rfl (fun _ => .inl) (.kept _)
    · cases h
  | sm now =>
    simp only [step] at h
    split at h
    · cases h
      exact .effect now ‹_›
    · cases h
      exact .branch now ‹_› ‹_›
    · cases h
  | post now msg urgent =>
    cases h
    exact .traffic rfl rfl rfl (fun _ => .inl) (.post now msg urgent)
  | recv =>
    obtain ⟨arb, hrecv, rfl⟩ := Option.map_eq_some_iff.mp h
    exact .traffic rfl rfl rfl (fun _ => .inl) (.recv hrecv)
  | process now =>
    obtain ⟨arb, hprocess, rfl⟩ := Option.map_eq_some_iff.mp h
    exact .traffic rfl rfl rfl (fun _ => .inl) (.process hprocess)
  | tick mean =>
    simp only [step] at h
    split at h
    · cases h
      exact .traffic rfl rfl rfl (fun _ => .inl) (.kept _)
    · cases h
  | scan pin =>
    simp only [step] at h
    split at h
    · cases h
      exact .traffic rfl rfl rfl (fun _ ho => .inr ⟨_, _, ho⟩) (.kept _)
    · cases h
  | polOut now =>
    simp only [step] at h
    split at h
    · rename_i houts
      cases h
      exact .traffic rfl rfl rfl (fun _ ho => .inl (houts ▸ List.mem_cons_of_mem _ ho)) (.kept _)
    · rename_i houts
      cases h
      exact .traffic rfl rfl rfl (fun _ ho => .inl (houts ▸ List.mem_cons_of_mem _ ho))
        (.polOut now (houts ▸ List.mem_cons_self))
    · cases h
  | rodTick delta tick =>
    simp only [step] at h
    split at h
    · cases h
      exact .rodTick ‹_›
    · cases h
  | rod now =>
    simp only [step] at h
    split at h
    · cases h
      exact .rod now ‹_›
    · cases h

/-! ### Numbers of concrete runs -/

/-- The thresholds of the defaults: 26 V, 20 V and 1 V, and 500 ms. -/
def defaultVolt : VoltCfg := ⟨0x41D00000#32, 0x41A00000#32, one, 500⟩

/-- A rod that is not calibrated, with a stroke of 25 mm. -/
def startPosition : Position :=
  { Position.init with strokeMm := 0x41C80000#32, reductionRatio := 0x41F451EC#32, pulseToMm := 0x3C061E83#32 }

end World

end RodActuator.Sys
