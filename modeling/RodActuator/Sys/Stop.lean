import RodActuator.Arb.Pins
import RodActuator.Sys.World

/-! STOP stops nothing. Its entry sends an event that nobody reads, while the entry of FAULT disables the axes and
    sends them a stop command; in STOP the axes stand still only where they did when it was entered, or where the
    messages that were on their way have stopped them, and as long as no message of another sender runs them. -/

namespace RodActuator.Arb

/-- A message leaves a request for the direction and no block of it. -/
def Asks (d : Dir) (arb : ArbData) (msg : Msg) : Prop :=
  if msg.cmdType = d.run then cmdListRemove (arb.block d) msg.deviceId = []
  else if msg.cmdType = d.unblock then cmdListRemove (arb.block d) msg.deviceId = [] ∧ arb.allow d ≠ []
  else if msg.cmdType = d.block ∨ msg.cmdType = d.clearAllow ∨ msg.cmdType = .emergencyStop then False
  else if msg.cmdType = .stop then arb.block d = [] ∧ cmdListRemove (arb.allow d) msg.deviceId ≠ []
  else arb.block d = [] ∧ arb.turned d msg ≠ []

instance (d : Dir) (arb : ArbData) (msg : Msg) : Decidable (Asks d arb msg) := by
  unfold Asks
  infer_instance

theorem cmdListSetBlock_ne_nil (queue : List Record) (r : Record) : cmdListSetBlock queue r ≠ [] := by
  unfold cmdListSetBlock
  split_ifs with hany hfull
  · rintro rfl
    simp at hany
  · rintro rfl
    simp [maxCmdQueueSize] at hfull
  · simp

theorem represent_none_iff (allow block : List Record) : represent allow block = none ↔ allow = [] ∨ block ≠ [] := by
  unfold represent
  split_ifs with hlen
  · have hnil := List.length_eq_zero_iff.mp hlen
    simp [hnil]
  · have hne : block ≠ [] := fun hnil => hlen (by simp [hnil])
    simp [hne]

/-- A direction that a message leaves without a request, or blocked. -/
theorem represent_process {d : Dir} {arb : ArbData} {msg : Msg} (h : ¬Asks d arb msg) :
    represent ((processMessage arb msg).allow d) ((processMessage arb msg).block d) = none := by
  have hturned : (if d.turns msg then cmdListRemove (arb.allow d) d.power else arb.allow d) = arb.turned d msg := rfl
  have hkept : msg.cmdType ≠ .runFwd → msg.cmdType ≠ .runRev → arb.turned d msg = arb.allow d := fun hfwd hrev =>
    if_neg fun hturns => hturns.1.elim hfwd hrev
  rw [represent_none_iff, processMessage_allow, processMessage_block]
  simp only [hturned]
  unfold Asks at h
  split_ifs at h with hrun hunblock hquiet hstop
  · right
    have hne : d.run ≠ d.block := by cases d <;> decide
    rw [if_neg (hrun ▸ hne), if_pos (.inr hrun)]
    exact h
  · have hfwd : msg.cmdType ≠ .runFwd := by rw [hunblock]; cases d <;> decide
    have hrev : msg.cmdType ≠ .runRev := by rw [hunblock]; cases d <;> decide
    have hplain : d.unblock ≠ .stop ∧ d.unblock ≠ d.clearAllow ∧ d.unblock ≠ .emergencyStop ∧ d.unblock ≠ d.block := by
      cases d <;> decide
    obtain ⟨h₁, h₂, h₃, h₄⟩ := hplain
    rw [← hunblock] at h₁ h₂ h₃ h₄
    rw [if_neg hrun, if_neg h₁, if_neg (not_or.mpr ⟨h₂, h₃⟩), if_neg h₄, if_pos (.inl hunblock), hkept hfwd hrev]
    tauto
  · rcases hquiet with hblock | hclear
    · right
      rw [if_pos hblock]
      exact cmdListSetBlock_ne_nil _ _
    · left
      have hne : msg.cmdType ≠ .stop := by
        rcases hclear with hclear | hclear <;> rw [hclear]
        · cases d <;> decide
        · decide
      rw [if_neg hrun, if_neg hne, if_pos hclear]
  · have hfwd : msg.cmdType ≠ .runFwd := by rw [hstop]; decide
    have hrev : msg.cmdType ≠ .runRev := by rw [hstop]; decide
    obtain ⟨hblock, -⟩ := not_or.mp hquiet
    rw [if_neg hrun, if_pos hstop, if_neg hblock, if_neg (not_or.mpr ⟨hunblock, hrun⟩), hkept hfwd hrev]
    tauto
  · obtain ⟨hblock, hclear⟩ := not_or.mp hquiet
    rw [if_neg hrun, if_neg hstop, if_neg hclear, if_neg hblock, if_neg (not_or.mpr ⟨hunblock, hrun⟩)]
    tauto

end RodActuator.Arb

namespace RodActuator.Arb.Arbiter
variable {a a' : Arbiter}

/-- No axis is driven, and the last output operation, if there was one, was the stop. -/
def Still (a : Arbiter) : Prop :=
  (∀ i, (a.axis i).activeDir = none) ∧ (∀ o ∈ a.lastOutput, o = .stop) ∧ a.motor.Braked

/-- The axes stand still, or a message is still to be handled. -/
def Settles (a : Arbiter) : Prop := a.Still ∨ a.inbox ≠ []

/-- A message runs nothing: the other axes are not driven, and its own is disabled or left with no request of a
    direction that is not blocked. -/
def Spares (a : Arbiter) (msg : Msg) : Prop :=
  (∀ i, i ≠ msg.axisId → (a.axis i).activeDir = none) ∧
    ((a.axis msg.axisId).enable = false ∨ ∀ d, ¬Asks d (a.axis msg.axisId) msg)

instance (a : Arbiter) : Decidable a.Settles := inferInstanceAs (Decidable ((_ ∧ _ ∧ (_ ∧ _)) ∨ _))

instance (a : Arbiter) (msg : Msg) : Decidable (a.Spares msg) := inferInstanceAs (Decidable (_ ∧ (_ ∨ ∀ _ : Dir, _)))

theorem Still.congr (h : a.Still) (hdir : ∀ i, (a'.axis i).activeDir = (a.axis i).activeDir ∨ (a'.axis i).activeDir = none)
    (houtputs : a'.outputs = a.outputs) (hmotor : a'.motor = a.motor) : a'.Still := by
  obtain ⟨hnone, hlast, hbraked⟩ := h
  refine ⟨fun i => (hdir i).elim (fun heq => heq.trans (hnone i)) id, ?_, hmotor ▸ hbraked⟩
  rw [lastOutput, houtputs]
  exact hlast

theorem settles_process {now : BitVec 32} (h : a.process now = some a')
    (hmsg : ∀ msg ∈ a.inflight, a.mq ≠ [] ∨ a.Spares msg) : a'.Settles := by
  obtain ⟨msg, hinflight, rfl⟩ := process_eq_some h
  rcases hmsg msg hinflight with hmore | ⟨hothers, hown⟩
  · exact .inr (by simpa [inbox] using hmore)
  · have hout : (handle now (a.axis msg.axisId) msg).2 = .stop := by
      rcases hown with hoff | hasks
      · exact handle_disabled now msg hoff
      · exact decision_unasked now fun d => represent_process (hasks d)
    have hnone : (handle now (a.axis msg.axisId) msg).1.activeDir = none := by
      rw [handle, decision_activeDir, ← handle, hout]
      rfl
    refine .inl ⟨fun i => ?_, fun o ho => ?_, ?_⟩
    · by_cases hi : i = msg.axisId
      · subst hi
        simpa using hnone
      · simpa [hi] using hothers i hi
    · rw [← Option.some.inj ho, ← hout]
    · simp only [hout]
      exact a.motor.braked_stop

theorem Settles.step {l : Label} (h : a.Settles) (hstep : Arbiter.step a l = some a')
    (hmsg : ∀ now, l = .process now → ∀ msg ∈ a.inflight, a.mq ≠ [] ∨ a.Spares msg) : a'.Settles := by
  cases l with
  | send now msg urgent =>
    cases hstep
    exact .inr (inbox_send now msg urgent a)
  | setEnable i enable =>
    cases hstep
    exact h.imp_left fun hstill => hstill.congr (fun j => .inl (setEnable_activeDir a i j enable)) rfl rfl
  | reset i =>
    cases hstep
    refine h.imp_left fun hstill => hstill.congr (fun j => ?_) rfl rfl
    by_cases hj : j = i
    · subst hj
      exact .inr (by simp [Arbiter.reset, ArbData.init])
    · exact .inl (by simp [Arbiter.reset, hj])
  | recv =>
    obtain ⟨msg, mq, -, -, rfl⟩ := recv_eq_some hstep
    exact .inr (by simp [inbox])
  | process now => exact settles_process hstep (hmsg now rfl)

end RodActuator.Arb.Arbiter

namespace RodActuator.Sys.World
open Arb Power Binary32 Transition

/-- STOP is entered only where the axes stand still or a message is still to be handled; and in STOP the last
    message that is to be handled runs nothing. -/
def StopKept (w : World) : Label → Prop
  | .sm _ => w.sm.effects = [] → w.sm.branches.head? = some .stWorkError →
      w.sm.sys.cur = .idle ∨ w.sm.sys.cur = .run → w.arb.Settles
  | .process _ => w.sm.sys.cur = .stop → ∀ msg ∈ w.arb.inflight, w.arb.mq ≠ [] ∨ w.arb.Spares msg
  | _ => True

structure Stops (w : World) : Prop where
  ne_emergency : w.sm.sys.cur ≠ .emergency
  settles : w.sm.sys.cur = .stop → w.arb.Settles

theorem stops_boot (dirInvert : Bool) (pos : Rod.Position) : Stops (boot dirInvert pos) where
  ne_emergency := nofun
  settles := nofun

section
variable {F : Binary32} {cfg : VoltCfg} {w w' : World} {l : Label}

/-- Only a branch changes the state of the system. -/
theorem Change.sys (h : Change F w l w') : w'.sm.sys = w.sm.sys ∨
    ∃ now e rest, l = .sm now ∧ w.sm.effects = [] ∧ w.sm.branches = e :: rest ∧ w' = w.doBranch rest e := by
  cases h with
  | @effect now e rest heff => exact .inl (by cases e <;> rfl)
  | branch now heff hbr => exact .inr ⟨now, _, _, rfl, heff, hbr, rfl⟩
  | rodTick => exact .inl rfl
  | rod now => exact .inl (congrArg SmThread.sys (doRodAct_spec F now _ w _).1)
  | traffic hsys => exact .inl hsys

/-- What the threads do to the arbiter is a step of it, which handles a message only when its own thread does. -/
theorem Change.arbiter (h : Change F w l w') : w'.arb = w.arb ∨
    ∃ al, Arbiter.step w.arb al = some w'.arb ∧ ∀ now, al = .process now → l = .process now := by
  cases h with
  | @effect now e rest heff =>
    cases e with
    | arbInit i => exact .inr ⟨.reset i, rfl, nofun⟩
    | setArbEnable i enable => exact .inr ⟨.setEnable i enable, rfl, nofun⟩
    | arbSendCommand msg urgent => exact .inr ⟨.send now msg urgent, rfl, nofun⟩
    | busVoltageInit | polarityInit | hwStart | resyncActFromFault | rodSaveRequest => exact .inl rfl
  | branch => exact .inl rfl
  | rodTick => exact .inl rfl
  | @rod now a rest _ =>
    rcases (doRodAct_spec F now rest w a).2.2 with harb | ⟨msg, -, harb⟩
    · exact .inl harb
    · exact .inr ⟨.send now msg true, by rw [harb]; rfl, nofun⟩
  | traffic _ _ _ _ harb =>
    generalize w'.arb = arb at harb
    cases harb with
    | kept => exact .inl rfl
    | post now msg urgent => exact .inr ⟨.send now msg urgent, rfl, nofun⟩
    | polOut now => exact .inr ⟨.send now _ false, rfl, nofun⟩
    | recv hrecv => exact .inr ⟨.recv, hrecv, nofun⟩
    | @process now arb hprocess =>
      refine .inr ⟨.process now, hprocess, fun now' heq => ?_⟩
      cases heq
      rfl

/-- STOP is entered by its own event only, which asks nothing of the arbiter. -/
theorem Stops.branch {e : SysEvt} {t : SysState} {effs : List Effect} {rest : List SysEvt} {now : BitVec 32} (h : Stops w)
    (hok : StopKept w (.sm now)) (heff : w.sm.effects = []) (hbr : w.sm.branches = e :: rest)
    (hmove : Move e w.sm.sys.cur t effs) (ht : t = .stop) : w.arb.Settles := by
  subst ht
  generalize hs : w.sm.sys.cur = s at hmove
  cases hmove with
  | stays => exact h.settles hs
  | recovers _ ht => rcases ht with ht | ht <;> cases ht
  | stops hfrom he =>
    subst he hs
    exact hok heff (by rw [hbr]; rfl) hfrom

theorem Stops.step (h : Stops w) (hok : StopKept w l) (hstep : World.step F cfg w l = some w') : Stops w' := by
  have hchange := step_change hstep
  rcases hchange.sys with hsys | ⟨now, e, rest, rfl, heff, hbr, rfl⟩
  · refine ⟨hsys ▸ h.ne_emergency, fun hcur => ?_⟩
    rw [hsys] at hcur
    have hsettles := h.settles hcur
    rcases hchange.arbiter with harb | ⟨al, harb, hprocess⟩
    · exact harb ▸ hsettles
    · refine hsettles.step harb fun now hal => ?_
      obtain rfl := hprocess now hal
      exact hok hcur
  · have hmove := System.branch_move w.answers e h.ne_emergency
    exact ⟨hmove.ne_emergency h.ne_emergency, fun hcur => h.branch hok heff hbr hmove hcur⟩

end

/-- In every run that keeps to the condition, no axis is driven in STOP once the messages are handled, and the last
    output operation was the stop. -/
theorem stop_stops {F : Binary32} {cfg : VoltCfg} {dirInvert : Bool} {pos : Rod.Position} {ls : List Label} {w : World}
    (run : Run (step F cfg) StopKept (boot dirInvert pos) ls w) (hstop : w.sm.sys.cur = .stop)
    (hempty : w.arb.inbox = []) :
    (∀ i, (w.arb.axis i).activeDir = none) ∧ (∀ o ∈ w.arb.lastOutput, o = .stop) ∧ w.arb.motor.Braked := by
  have hstops : Stops w := run.invariant (stops_boot dirInvert pos) fun _ _ _ h hok hstep => h.step hok hstep
  exact (hstops.settles hstop).resolve_right fun hne => hne hempty

instance (w : World) (l : Label) : Decidable (StopKept w l) :=
  match l with
  | .sm _ => inferInstanceAs (Decidable (_ → _ → _ → _))
  | .process _ => inferInstanceAs (Decidable (_ → ∀ msg ∈ w.arb.inflight, _))
  | .event _ | .dispatch | .post .. | .recv | .tick _ | .scan _ | .polOut _ | .rodTick .. | .rod _ => instDecidableTrue

/-- In RUN the power runs the motor forwards. -/
def drivenRun : List Label :=
  [.dispatch] ++ List.replicate 7 (.sm 0) ++ [.post 1 ⟨0, .powerPos, prioPower, .runFwd, 100, 0⟩ false, .recv, .process 1]

/-- The power withdraws its request, and the arbiter handles that after STOP was entered; then a limit blocks the
    direction, and a run command is refused. -/
def stoppedRun : List Label :=
  drivenRun ++ [.post 2 ⟨0, .powerPos, prioPower, .stop, 0, 0⟩ false, .event (SysEvt.mask .stWorkError), .dispatch, .sm 2,
    .recv, .process 3, .post 4 ⟨0, .rodLimitFwd, prioLimit, .blockFwd, 0, 0⟩ true, .recv, .process 4,
    .post 5 ⟨0, .powerPos, prioPower, .runFwd, 100, 0⟩ false, .recv, .process 5]

theorem stop_stops_refused :
    ∃ w, exec (guarded (step ieee defaultVolt) StopKept) (boot false startPosition) stoppedRun = some w ∧
      w.sm.sys.cur = .stop ∧ w.arb.inbox = [] ∧ w.arb.outputs.length = 4 ∧ (∀ i, (w.arb.axis i).activeDir = none) ∧
      (∀ o ∈ w.arb.lastOutput, o = .stop) ∧ w.arb.motor.Braked := by
  obtain ⟨w, hw, hstop, hempty, hlen⟩ : ∃ w, exec (guarded (step ieee defaultVolt) StopKept)
      (boot false startPosition) stoppedRun = some w ∧ w.sm.sys.cur = .stop ∧ w.arb.inbox = [] ∧ w.arb.outputs.length = 4 :=
    exists_of_any (by decide +kernel)
  exact ⟨w, hw, hstop, hempty, hlen, stop_stops (Run.of_exec hw) hstop hempty⟩

/-- The motor runs forwards when STOP is entered, and nothing stops it. -/
theorem stop_keeps_driving :
    ∃ w, exec (step ieee defaultVolt) (boot false startPosition)
        (drivenRun ++ [.event (SysEvt.mask .stWorkError), .dispatch, .sm 2]) = some w ∧
      w.sm.sys.cur = .stop ∧ Between w ∧ w.arb.inbox = [] ∧ (w.arb.axis 0).activeDir = some .fwd ∧
      w.arb.lastOutput = some (.fwd 100) := by
  unfold Between
  exact exists_of_any (by decide +kernel)

end RodActuator.Sys.World
