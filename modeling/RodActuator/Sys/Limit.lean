import RodActuator.Sys.World

/-! The messages of the rod limits. Only the rod task sends under their devices: at a limit the block, every
    tick, and when the limit is left, once, what takes it back. What the other threads do to the arbiter is
    told apart from that. -/

namespace RodActuator.Sys.World
open Arb Power Rod StateEngine

def Blocks (d : Dir) (msg : Msg) : Prop := msg.axisId = 0 ∧ msg.deviceId = limitDevice d ∧ msg.cmdType = d.block

/-- The message takes the block back. -/
def Unblocks (d : Dir) (msg : Msg) : Prop :=
  msg.axisId = 0 ∧ msg.deviceId = limitDevice d ∧ (msg.cmdType = d.unblock ∨ msg.cmdType = d.run)

instance (d : Dir) (msg : Msg) : Decidable (Blocks d msg) := inferInstanceAs (Decidable (_ ∧ _))
instance (d : Dir) (msg : Msg) : Decidable (Unblocks d msg) := inferInstanceAs (Decidable (_ ∧ _))

def blockers (w : World) (d : Dir) : List DeviceId := devices ((w.arb.axis 0).block d)

/-- The state that the rod goes to in its next action. -/
def nextRodState (F : Binary32) (w : World) : RodState :=
  match w.rod.acts with
  | .update dir tick :: _ => target rodJump w.rod.sm.curState
      (RodStateCtx.synthesizeEvent F w.rod.pos w.rod.sm.curState dir tick w.rod.ctx)
  | _ => w.rod.sm.curState

theorem limitDevice_injective {d d' : Dir} (h : limitDevice d = limitDevice d') : d = d' := by
  cases d <;> cases d' <;> first | rfl | cases h

/-! ### What the rod sends -/

/-- The actions of a rod tick that are left, and what they send. -/
inductive Tick (s : RodState) : List RodAct → Prop where
  | begun (delta : Int) (tick : BitVec 32) : Tick s [.integrate delta, .calibrate, .read tick]
  | integrated (tick : BitVec 32) : Tick s [.calibrate, .read tick]
  | calibrated (tick : BitVec 32) : Tick s [.read tick]
  | read (dir : RodDirection) (tick : BitVec 32) : Tick s [.update dir tick]
  | sends (outs : List RodOut) (h : ∀ msg, .arbSendCommand msg ∈ outs → RodStateCtx.Sends s msg) :
      Tick s (outs.map .out)

/-- Who sends what: the limits' messages come from the rod alone. -/
structure Posted (w : World) : Prop where
  effects : ∀ msg urgent, .arbSendCommand msg urgent ∈ w.sm.effects → ¬FromLimit msg
  live : w.sm.sys.cur ≠ .emergency
  outs : ∀ msg, .arbSendCommand msg ∈ w.polOuts → ¬FromLimit msg
  tick : Tick w.rod.sm.curState w.rod.acts

theorem posted_boot (dirInvert : Bool) (pos : Position) : Posted (boot dirInvert pos) where
  effects := by simp [boot]
  live := by simp [boot, System.boot]
  outs := by simp [boot]
  tick := .sends [] (by simp)

structure SameQueues (a a' : Arbiter) : Prop where
  inflight : a'.inflight = a.inflight
  mq : a'.mq = a.mq
  outputs : a'.outputs = a.outputs
  block : ∀ i, (a'.axis i).block = (a.axis i).block
  allow : ∀ i, (a'.axis i).allow = (a.axis i).allow

theorem SameQueues.refl (a : Arbiter) : SameQueues a a := ⟨rfl, rfl, rfl, fun _ => rfl, fun _ => rfl⟩

/-- What a step does to the arbiter and the rod, as far as the limits go. -/
inductive Deal (F : Binary32) (w w' : World) : Label → Prop where
  | quiet {l : Label} (arb : SameQueues w.arb w'.arb) (rod : w'.rod.sm = w.rod.sm)
      (acts : ∀ msg, .out (.arbSendCommand msg) ∈ w'.rod.acts ↔ .out (.arbSendCommand msg) ∈ w.rod.acts) : Deal F w w' l
  | other {l : Label} (now : BitVec 32) {msg : Msg} (urgent : Bool) (hmsg : ¬FromLimit msg)
      (arb : w'.arb = w.arb.send now msg urgent) (rod : w'.rod = w.rod) : Deal F w w' l
  | recv (arb : w.arb.recv = some w'.arb) (rod : w'.rod = w.rod) : Deal F w w' .recv
  | process {now : BitVec 32} (arb : w.arb.process now = some w'.arb) (rod : w'.rod = w.rod) : Deal F w w' (.process now)
  | reset (now : BitVec 32) (i : Fin arbMaxAxisNum) (heff : w.sm.effects.head? = some (.arbInit i))
      (arb : w'.arb = w.arb.reset i) (rod : w'.rod = w.rod) : Deal F w w' (.sm now)
  | limit (now : BitVec 32) {msg : Msg} {rest : List RodAct} (hacts : w.rod.acts = .out (.arbSendCommand msg) :: rest)
      (hmsg : RodStateCtx.Sends w.rod.sm.curState msg) (arb : w'.arb = w.arb.send now msg true)
      (rod : w'.rod = { w.rod with acts := rest }) : Deal F w w' (.rod now)
  | update (now : BitVec 32) (hacts : ∀ msg, .out (.arbSendCommand msg) ∉ w.rod.acts) (arb : w'.arb = w.arb)
      (next : w'.rod.sm.curState = w.nextRodState F)
      (leaves : ∀ d, w.rod.sm.curState = limitState d → w'.rod.sm.curState ≠ limitState d →
        .out (.arbSendCommand (limitCommand d d.unblock)) ∈ w'.rod.acts) : Deal F w w' (.rod now)

section
variable {F : Binary32} {cfg : VoltCfg} {w w' : World} {l : Label}

theorem move_messages {evt : SysEvt} {s t : SysState} {effs : List Effect} (h : Move evt s t effs) {msg : Msg}
    {urgent : Bool} (hmem : .arbSendCommand msg urgent ∈ effs) : ¬FromLimit msg := by
  have hplain : Effect.Plain (.arbSendCommand msg urgent) → ¬FromLimit msg := by
    rintro (heq | ⟨msg, urgent, heq, hmsg⟩)
    · cases heq
    · cases heq
      exact hmsg
  cases h with
  | stays plain => exact hplain (plain _ hmem)
  | faults pre _ plain =>
    rcases List.mem_append.mp hmem with hmem | hmem
    · exact hplain (plain _ hmem)
    · simp only [sysEnterFault, emergencyStop, List.mem_cons, Effect.arbSendCommand.injEq, reduceCtorEq, false_or,
        List.not_mem_nil, or_false] at hmem
      rcases hmem with ⟨rfl, -⟩ | ⟨rfl, -⟩ <;> simp [FromLimit]
  | recovers => simp [sysEnterIdle] at hmem
  | works | stops => cases hmem

theorem scan_messages {p : Polarity} {underVoltage pin : Bool} {msg : Msg}
    (h : .arbSendCommand msg ∈ (p.scan underVoltage pin).2) : ¬FromLimit msg := by
  rcases Polarity.mem_scan h with hturned | hturned <;> simp [Polarity.turned] at hturned <;> simp [hturned, FromLimit]

theorem resync_messages {polarity : PolarityState} {msg : Msg} {urgent : Bool}
    (h : .arbSendCommand msg urgent ∈ resync polarity) : ¬FromLimit msg := by
  unfold resync at h
  split at h
  · simp [powerCommand] at h
    simp [h, FromLimit]
  · simp [powerCommand] at h
    simp [h, FromLimit]
  · simp [powerCommand] at h
    rcases h with ⟨rfl, -⟩ | ⟨rfl, -⟩ <;> simp [FromLimit]

theorem Posted.effect {e : Effect} {rest : List Effect} (h : Posted w) (heff : w.sm.effects = e :: rest)
    (now : BitVec 32) : Posted (w.doEffect now rest e) := by
  obtain ⟨heffects, hlive, houts, htick⟩ := h
  have hrest : ∀ msg urgent, .arbSendCommand msg urgent ∈ rest → ¬FromLimit msg := fun msg urgent hmem =>
    heffects msg urgent (heff ▸ List.mem_cons_of_mem e hmem)
  cases e with
  | resyncActFromFault =>
    refine ⟨fun msg urgent hmem => ?_, hlive, houts, htick⟩
    rcases List.mem_append.mp hmem with hmem | hmem
    · exact resync_messages hmem
    · exact hrest msg urgent hmem
  | busVoltageInit | polarityInit | arbInit | hwStart | setArbEnable | arbSendCommand | rodSaveRequest =>
    exact ⟨hrest, hlive, houts, htick⟩

theorem Tick.act {a : RodAct} {rest : List RodAct} (h : Tick w.rod.sm.curState w.rod.acts)
    (hacts : w.rod.acts = a :: rest) (now : BitVec 32) :
    Tick (w.doRodAct F now rest a).rod.sm.curState (w.doRodAct F now rest a).rod.acts := by
  generalize hs : w.rod.sm.curState = s at h
  rw [hacts] at h
  generalize hall : a :: rest = acts at h
  cases h with
  | begun delta tick =>
    obtain ⟨rfl, rfl⟩ := List.cons.inj hall
    exact .integrated tick
  | integrated tick =>
    obtain ⟨rfl, rfl⟩ := List.cons.inj hall
    exact .calibrated tick
  | calibrated tick =>
    obtain ⟨rfl, rfl⟩ := List.cons.inj hall
    exact .read _ tick
  | read dir tick =>
    obtain ⟨rfl, rfl⟩ := List.cons.inj hall
    simpa [doRodAct] using Tick.sends _ fun msg hmem =>
      RodStateCtx.update_sends F w.rod.pos dir tick w.rod.sm w.rod.ctx hmem
  | sends outs hsends =>
    cases outs with
    | nil => cases hall
    | cons o outs =>
      obtain ⟨rfl, rfl⟩ := List.cons.inj hall
      have hrest : Tick w.rod.sm.curState (outs.map .out) :=
        .sends outs fun msg hmem => hs ▸ hsends msg (List.mem_cons_of_mem o hmem)
      cases o <;> exact hrest

theorem Posted.step (h : Posted w) (hstep : step F cfg w l = some w') : Posted w' := by
  cases step_change hstep with
  | effect now heff => exact h.effect heff now
  | branch now heff hbr =>
    rename_i evt rest
    have hmove := System.branch_move w.answers evt h.live
    refine ⟨fun msg urgent hmem => move_messages hmove hmem, hmove.ne_emergency h.live, h.outs, ?_⟩
    have htick := h.tick
    simp only [doBranch]
    split <;> exact htick
  | rodTick => exact ⟨h.effects, h.live, h.outs, .begun _ _⟩
  | rod now hacts =>
    obtain ⟨hsm, houts, -⟩ := doRodAct_spec F now _ w _
    refine ⟨?_, ?_, ?_, h.tick.act hacts now⟩
    · rw [hsm]
      exact h.effects
    · rw [hsm]
      exact h.live
    · rw [houts]
      exact h.outs
  | traffic hsys heff hrod houts _ =>
    refine ⟨heff ▸ h.effects, hsys ▸ h.live, fun msg hmem => ?_, hrod ▸ h.tick⟩
    rcases houts _ hmem with hold | ⟨_, _, hscan⟩
    · exact h.outs msg hold
    · exact scan_messages hscan

/-! ### What a step does for the limits -/

theorem Deal.of_effect {e : Effect} {rest : List Effect} (h : Posted w) (heff : w.sm.effects = e :: rest)
    (now : BitVec 32) : Deal F w (w.doEffect now rest e) (.sm now) := by
  have hhead : w.sm.effects.head? = some e := by rw [heff]; rfl
  cases e with
  | arbInit i => exact .reset now i hhead rfl rfl
  | arbSendCommand msg urgent =>
    exact .other now urgent (h.effects msg urgent (heff ▸ List.mem_cons_self)) rfl rfl
  | setArbEnable i enable =>
    have hlanes : ∀ j, ((w.arb.setEnable i enable).axis j).block = (w.arb.axis j).block ∧
        ((w.arb.setEnable i enable).axis j).allow = (w.arb.axis j).allow := by
      intro j
      by_cases hj : j = i
      · subst hj
        simp only [Arbiter.setEnable, Function.update_self]
        exact ⟨rfl, rfl⟩
      · simp [Arbiter.setEnable, hj]
    exact .quiet ⟨rfl, rfl, rfl, fun j => (hlanes j).1, fun j => (hlanes j).2⟩ rfl fun _ => Iff.rfl
  | busVoltageInit | polarityInit | hwStart | resyncActFromFault | rodSaveRequest =>
    exact .quiet (.refl _) rfl fun _ => Iff.rfl

theorem Deal.of_rodAct {a : RodAct} {rest : List RodAct} (h : Posted w) (hacts : w.rod.acts = a :: rest)
    (now : BitVec 32) : Deal F w (w.doRodAct F now rest a) (.rod now) := by
  have htick := h.tick
  rw [hacts] at htick
  have hquiet : (∀ o, .out o ∉ a :: rest) → (∀ o, .out o ∉ (w.doRodAct F now rest a).rod.acts) →
      SameQueues w.arb (w.doRodAct F now rest a).arb → (w.doRodAct F now rest a).rod.sm = w.rod.sm →
      Deal F w (w.doRodAct F now rest a) (.rod now) := fun hbefore hafter harb hsm =>
    .quiet harb hsm fun msg => by simp [hafter, hacts ▸ hbefore]
  generalize hs : w.rod.sm.curState = s at htick
  generalize hall : a :: rest = acts at htick
  cases htick with
  | begun | integrated | calibrated =>
    obtain ⟨rfl, rfl⟩ := List.cons.inj hall
    exact hquiet (by simp) (by simp [doRodAct]) (.refl _) rfl
  | read dir tick =>
    obtain ⟨rfl, rfl⟩ := List.cons.inj hall
    refine .update now (by simp [hacts]) rfl ?_ fun d hfrom hleft => ?_
    · simp only [nextRodState, hacts]
      exact RodStateCtx.update_curState F w.rod.pos dir tick w.rod.sm w.rod.ctx
    · have hleaves := RodStateCtx.update_leaves F w.rod.pos dir tick w.rod.sm w.rod.ctx hfrom hleft
      simpa [doRodAct] using hleaves
  | sends outs hsends =>
    cases outs with
    | nil => cases hall
    | cons o outs =>
      obtain ⟨rfl, rfl⟩ := List.cons.inj hall
      cases o with
      | arbSendCommand msg => exact .limit now hacts (hs ▸ hsends msg List.mem_cons_self) rfl rfl
      | limitExtend | limitRetract | limitReleased =>
        exact .quiet (.refl _) rfl fun msg => by simp [doRodAct, hacts]

/-- The inversion of a step for the limits, when no one else sends under their devices. -/
theorem step_deal (h : Posted w) (hpost : ∀ now msg urgent, l = .post now msg urgent → ¬FromLimit msg)
    (hstep : World.step F cfg w l = some w') : Deal F w w' l := by
  cases step_change hstep with
  | effect now heff => exact .of_effect h heff now
  | branch now heff hbr =>
    refine .quiet (.refl _) ?_ fun msg => ?_
    · simp only [doBranch]
      split <;> rfl
    · simp only [doBranch]
      split <;> rfl
  | rodTick hacts => exact .quiet (.refl _) rfl fun msg => by simp [hacts]
  | rod now hacts => exact .of_rodAct h hacts now
  | traffic _ _ hrod _ harb =>
    generalize ha : w'.arb = a at harb
    cases harb with
    | kept => exact .quiet (ha ▸ .refl _) (by rw [hrod]) fun msg => by rw [hrod]
    | post now msg urgent => exact .other now urgent (hpost now msg urgent rfl) ha hrod
    | polOut now hmsg => exact .other now false (h.outs _ hmsg) ha hrod
    | recv hrecv => exact .recv (ha ▸ hrecv) hrod
    | process hprocess => exact .process (ha ▸ hprocess) hrod

end

def runCommand (d : Dir) : Msg := ⟨0, d.power, prioPower, d.run, polarityArbRunDutyPct, 0⟩

/-- The motor runs forwards into its upper limit, the over-current calibrates the rod there, and the arbiter has
    taken the block of the limit. -/
def limitRun : List Label :=
  [.dispatch] ++ List.replicate 7 (.sm 0) ++
    [.post 1 (runCommand .fwd) false, .recv, .process 1, .event (SysEvt.mask .overCurrent), .dispatch, .sm 2, .sm 2,
      .recv, .process 2, .rodTick 0 10] ++
    List.replicate 7 (.rod 10) ++ [.recv]

end RodActuator.Sys.World
