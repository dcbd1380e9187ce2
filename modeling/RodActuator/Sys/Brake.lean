import RodActuator.Sys.World

/-! The motor is braked in FAULT. The entry of FAULT disables one axis after the other, and messages are handled
    before, between and after; a send that follows leaves a message to handle even when it is lost itself, and
    with both axes disabled every message that is handled brakes. -/

namespace RodActuator.Arb.Arbiter
variable {a a' : Arbiter}

def Locked (a : Arbiter) : Prop := ∀ i, (a.axis i).enable = false

/-- With nothing left to handle, the last output was the stop. -/
def Settled (a : Arbiter) : Prop := a.inbox = [] → a.lastOutput = some .stop

/-- The pins are those of the last output. -/
def Pinned (a : Arbiter) : Prop := a.lastOutput = some .stop → a.motor.Braked

theorem locked_setEnable (h : (a.axis 0).enable = false) : (a.setEnable 1 false).Locked :=
  Fin.forall_fin_two.mpr ⟨h, by simp [setEnable]⟩

theorem settled_send (now : BitVec 32) (msg : Msg) (urgent : Bool) (a : Arbiter) : (a.send now msg urgent).Settled :=
  fun hempty => absurd hempty (inbox_send now msg urgent a)

theorem settled_recv (h : a.recv = some a') : a'.Settled := by
  obtain ⟨msg, mq, -, -, rfl⟩ := recv_eq_some h
  intro hempty
  simp [inbox] at hempty

theorem Pinned.send (h : a.Pinned) (now : BitVec 32) (msg : Msg) (urgent : Bool) : (a.send now msg urgent).Pinned := by
  intro hlast
  rw [lastOutput, send_outputs] at hlast
  rw [send_motor]
  exact h hlast

theorem Pinned.recv (h : a.Pinned) (hrecv : a.recv = some a') : a'.Pinned := by
  obtain ⟨-, houtputs, hmotor⟩ := recv_kept hrecv
  unfold Pinned lastOutput
  rw [houtputs, hmotor]
  exact h

theorem pinned_process {now : BitVec 32} (hprocess : a.process now = some a') : a'.Pinned := by
  obtain ⟨msg, -, rfl⟩ := process_eq_some hprocess
  intro hlast
  have hout : (handle now (a.axis msg.axisId) msg).2 = .stop := Option.some.inj hlast
  simp only [hout]
  exact a.motor.braked_stop

theorem process_enable {now : BitVec 32} (h : a.process now = some a') (i : Fin arbMaxAxisNum) :
    (a'.axis i).enable = (a.axis i).enable := by
  obtain ⟨msg, -, rfl⟩ := process_eq_some h
  by_cases hi : i = msg.axisId
  · subst hi
    simp [handle_kept]
  · simp [hi]

theorem Locked.process {now : BitVec 32} (h : a.Locked) (hprocess : a.process now = some a') :
    ∃ i, a'.outputs = (i, .stop) :: a.outputs := by
  obtain ⟨msg, -, rfl⟩ := process_eq_some hprocess
  exact ⟨msg.axisId, by simp [handle_disabled now msg (h msg.axisId)]⟩

end RodActuator.Arb.Arbiter

namespace RodActuator.Sys.World
open Arb Power Binary32 Transition

/-! ### Traffic -/

section
variable {w : World} {l : Label} {arb : Arbiter}

theorem Traffic.enable (h : Traffic w l arb) (i : Fin arbMaxAxisNum) :
    (arb.axis i).enable = (w.arb.axis i).enable := by
  cases h with
  | kept => rfl
  | post | polOut => rw [Arbiter.send_axis]
  | recv hrecv => rw [(Arbiter.recv_kept hrecv).1]
  | process hprocess => exact Arbiter.process_enable hprocess i

theorem Traffic.locked (h : Traffic w l arb) (hlocked : w.arb.Locked) : arb.Locked := fun i =>
  (h.enable i).trans (hlocked i)

theorem Traffic.settled (h : Traffic w l arb) (hlocked : w.arb.Locked) (hsettled : w.arb.Settled) : arb.Settled := by
  cases h with
  | kept => exact hsettled
  | post now msg urgent => exact Arbiter.settled_send now msg urgent w.arb
  | polOut now => exact Arbiter.settled_send now _ false w.arb
  | recv hrecv => exact Arbiter.settled_recv hrecv
  | process hprocess =>
    obtain ⟨i, houtputs⟩ := hlocked.process hprocess
    intro _
    rw [Arbiter.lastOutput, houtputs]
    rfl

theorem Traffic.pinned (h : Traffic w l arb) (hpinned : w.arb.Pinned) : arb.Pinned := by
  cases h with
  | kept => exact hpinned
  | post now msg urgent => exact hpinned.send now msg urgent
  | polOut now => exact hpinned.send now _ false
  | recv hrecv => exact hpinned.recv hrecv
  | process hprocess => exact Arbiter.pinned_process hprocess

theorem Traffic.outputs (h : Traffic w l arb) (hlocked : w.arb.Locked) :
    arb.outputs = w.arb.outputs ∨ ∃ i, arb.outputs = (i, .stop) :: w.arb.outputs := by
  cases h with
  | kept => exact .inl rfl
  | post | polOut => exact .inl (Arbiter.send_outputs ..)
  | recv hrecv => exact .inl (Arbiter.recv_kept hrecv).2.1
  | process hprocess => exact .inr (hlocked.process hprocess)

end

/-! ### The entry of FAULT -/

/-- How far the entry of FAULT is. Before the first disabling step anything may be put out; with both axes
    disabled the second stop command is still to come, or the arbiter has settled. -/
inductive Stage : SysState → List Effect → Arbiter → Prop where
  | free {s : SysState} {effs : List Effect} {arb : Arbiter} (hs : s ≠ .fault ∧ s ≠ .emergency)
      (heffs : ∀ x ∈ effs, x.Plain ∨ x ∈ sysEnterIdle) : Stage s effs arb
  | entering {arb : Arbiter} (pre : List Effect) (plain : ∀ x ∈ pre, x.Plain) :
      Stage .fault (pre ++ sysEnterFault) arb
  | halfway {arb : Arbiter} (pre : List Effect) (plain : ∀ x ∈ pre, x.Plain) (h : (arb.axis 0).enable = false) :
      Stage .fault (pre ++ [.setArbEnable 1 false, emergencyStop 1]) arb
  | locking {arb : Arbiter} (hlocked : arb.Locked) : Stage .fault [emergencyStop 1] arb
  | locked {effs : List Effect} {arb : Arbiter} (plain : ∀ x ∈ effs, x.Plain) (hlocked : arb.Locked)
      (hsettled : arb.Settled) : Stage .fault effs arb

section
variable {s t : SysState} {effs rest : List Effect} {e : Effect} {arb arb' : Arbiter} {w : World}

/-- What the entry of FAULT needs of the arbiter is kept when the axes stay as they are. -/
theorem Stage.frame (h : Stage s effs arb) (henable : ∀ i, (arb'.axis i).enable = (arb.axis i).enable)
    (hsettled : arb.Locked → arb.Settled → arb'.Settled) : Stage s effs arb' := by
  have hlock : arb.Locked → arb'.Locked := fun hlocked i => (henable i).trans (hlocked i)
  cases h with
  | free hs heffs => exact .free hs heffs
  | entering pre plain => exact .entering pre plain
  | halfway pre plain h => exact .halfway pre plain ((henable 0).trans h)
  | locking hlocked => exact .locking (hlock hlocked)
  | locked plain hlocked hset => exact .locked plain (hlock hlocked) (hsettled hlocked hset)

theorem Stage.head (h : Stage s (e :: rest) arb) :
    e.Plain ∨ e ∈ sysEnterIdle ∨ ∃ i, e = .setArbEnable i false := by
  generalize heffs : e :: rest = effs at h
  cases h with
  | free _ hfree => exact (hfree e (heffs ▸ List.mem_cons_self)).imp_right .inl
  | entering pre plain =>
    cases pre with
    | nil => exact .inr (.inr ⟨0, (List.cons.inj heffs).1⟩)
    | cons x pre => exact .inl ((List.cons.inj heffs).1 ▸ plain x List.mem_cons_self)
  | halfway pre plain =>
    cases pre with
    | nil => exact .inr (.inr ⟨1, (List.cons.inj heffs).1⟩)
    | cons x pre => exact .inl ((List.cons.inj heffs).1 ▸ plain x List.mem_cons_self)
  | locking => exact .inl ((List.cons.inj heffs).1 ▸ System.plain_emergencyStop 1)
  | locked plain => exact .inl (plain e (heffs ▸ List.mem_cons_self))

theorem doEffect_plain (hplain : e.Plain) (now : BitVec 32) (rest : List Effect) (w : World) :
    (w.doEffect now rest e).sm = { w.sm with effects := rest } ∧
      ((w.doEffect now rest e).arb = w.arb ∨
        ∃ msg urgent, (w.doEffect now rest e).arb = w.arb.send now msg urgent) := by
  rcases hplain with rfl | ⟨msg, urgent, rfl, -⟩
  · exact ⟨rfl, .inl rfl⟩
  · exact ⟨rfl, .inr ⟨msg, urgent, rfl⟩⟩

theorem Stage.plain (h : Stage s effs w.arb) (hplain : e.Plain) (now : BitVec 32) (rest : List Effect) :
    Stage s effs (w.doEffect now rest e).arb := by
  rcases (doEffect_plain hplain now rest w).2 with harb | ⟨msg, urgent, harb⟩
  · rw [harb]
    exact h
  · rw [harb]
    exact h.frame (fun i => by rw [Arbiter.send_axis]) fun _ _ => Arbiter.settled_send now msg urgent w.arb

theorem doEffect_idle (he : e ∈ sysEnterIdle) (now : BitVec 32) (rest : List Effect) (w : World) :
    (w.doEffect now rest e).sm = { w.sm with effects := rest } := by
  simp only [sysEnterIdle, List.mem_cons, List.not_mem_nil, or_false] at he
  rcases he with rfl | rfl | rfl | rfl | rfl <;> rfl

theorem Stage.effect (h : Stage w.sm.sys.cur (e :: rest) w.arb) (now : BitVec 32) :
    Stage (w.doEffect now rest e).sm.sys.cur (w.doEffect now rest e).sm.effects (w.doEffect now rest e).arb := by
  have hplain : e.Plain → Stage w.sm.sys.cur rest (w.doEffect now rest e).arb →
      Stage (w.doEffect now rest e).sm.sys.cur (w.doEffect now rest e).sm.effects (w.doEffect now rest e).arb := by
    intro hplain hrest
    rw [(doEffect_plain hplain now rest w).1]
    exact hrest
  generalize heffs : e :: rest = effs at h
  generalize hcur : w.sm.sys.cur = s at h hplain
  cases h with
  | free hs hfree =>
    subst heffs
    have hrest : ∀ x ∈ rest, x.Plain ∨ x ∈ sysEnterIdle := fun x hx => hfree x (List.mem_cons_of_mem e hx)
    have hsm : (w.doEffect now rest e).sm = { w.sm with effects := rest } := by
      rcases hfree e List.mem_cons_self with he | he
      · exact (doEffect_plain he now rest w).1
      · exact doEffect_idle he now rest w
    rw [hsm]
    exact .free (hcur ▸ hs) hrest
  | entering pre plain =>
    cases pre with
    | nil =>
      obtain ⟨rfl, rfl⟩ := List.cons.inj heffs
      show Stage w.sm.sys.cur ([emergencyStop 0] ++ [.setArbEnable 1 false, emergencyStop 1]) (w.arb.setEnable 0 false)
      rw [hcur]
      exact .halfway [emergencyStop 0] (by simp [System.plain_emergencyStop]) (by simp [Arbiter.setEnable])
    | cons x pre =>
      obtain ⟨rfl, rfl⟩ := List.cons.inj heffs
      exact hplain (plain e List.mem_cons_self)
        (.entering pre fun x hx => plain x (List.mem_cons_of_mem e hx))
  | halfway pre plain hfirst =>
    cases pre with
    | nil =>
      obtain ⟨rfl, rfl⟩ := List.cons.inj heffs
      show Stage w.sm.sys.cur [emergencyStop 1] (w.arb.setEnable 1 false)
      rw [hcur]
      exact .locking (Arbiter.locked_setEnable hfirst)
    | cons x pre =>
      obtain ⟨rfl, rfl⟩ := List.cons.inj heffs
      have he := plain e List.mem_cons_self
      have hstage : Stage .fault (pre ++ [.setArbEnable 1 false, emergencyStop 1]) w.arb :=
        .halfway pre (fun x hx => plain x (List.mem_cons_of_mem e hx)) hfirst
      exact hplain he (hstage.plain he now _)
  | locking hlocked =>
    obtain ⟨rfl, rfl⟩ := List.cons.inj heffs
    refine hplain (System.plain_emergencyStop 1) (.locked (by simp) (fun i => ?_) (Arbiter.settled_send now _ true w.arb))
    show ((w.arb.send now _ true).axis i).enable = false
    rw [Arbiter.send_axis]
    exact hlocked i
  | locked plain hlocked hsettled =>
    subst heffs
    have he := plain e List.mem_cons_self
    have hstage : Stage .fault rest w.arb :=
      .locked (fun x hx => plain x (List.mem_cons_of_mem e hx)) hlocked hsettled
    exact hplain he (hstage.plain he now rest)

theorem Stage.branch {evt : SysEvt} (h : Stage s [] arb) (hmove : Move evt s t effs) : Stage t effs arb := by
  generalize hnil : [] = effs' at h
  cases h with
  | free hs =>
    cases hmove with
    | stays plain => exact .free hs fun x hx => .inl (plain x hx)
    | faults pre _ plain => exact .entering pre plain
    | recovers _ ht => exact .free (by rcases ht with rfl | rfl <;> simp) fun x hx => .inr hx
    | works | stops => exact .free (by simp) (by simp)
  | entering pre => cases pre <;> cases hnil
  | halfway pre => cases pre <;> cases hnil
  | locking => cases hnil
  | locked _ hlocked hsettled =>
    cases hmove with
    | stays plain => exact .locked plain hlocked hsettled
    | recovers _ ht => exact .free (by rcases ht with rfl | rfl <;> simp) fun x hx => .inr hx
    | faults _ hs | works hs | stops hs => rcases hs with hs | hs <;> cases hs

theorem Stage.ne_emergency (h : Stage s effs arb) : s ≠ .emergency := by
  cases h with
  | free hs => exact hs.2
  | entering | halfway | locking | locked => simp

end

structure Guarded (w : World) : Prop where
  stage : Stage w.sm.sys.cur w.sm.effects w.arb
  pinned : w.arb.Pinned

theorem guarded_boot (dirInvert : Bool) (pos : Rod.Position) : Guarded (boot dirInvert pos) where
  stage := .free (by simp [boot, System.boot]) (by simp [boot])
  pinned h := by simp [boot, Arbiter.boot, Arbiter.lastOutput] at h

section
variable {F : Binary32} {cfg : VoltCfg} {w w' : World} {l : Label}

theorem doEffect_pinned {e : Effect} (h : w.arb.Pinned) (now : BitVec 32) (rest : List Effect) :
    (w.doEffect now rest e).arb.Pinned := by
  cases e with
  | arbSendCommand msg urgent => exact h.send now msg urgent
  | busVoltageInit | polarityInit | arbInit | hwStart | setArbEnable | resyncActFromFault | rodSaveRequest => exact h

theorem Guarded.step (h : Guarded w) (hstep : step F cfg w l = some w') : Guarded w' := by
  obtain ⟨hstage, hpinned⟩ := h
  cases step_change hstep with
  | effect now heff =>
    rw [heff] at hstage
    exact ⟨hstage.effect now, doEffect_pinned hpinned now _⟩
  | branch now heff hbr =>
    rw [heff] at hstage
    exact ⟨hstage.branch (System.branch_move w.answers _ hstage.ne_emergency), hpinned⟩
  | rodTick => exact ⟨hstage, hpinned⟩
  | rod now hacts =>
    rename_i a rest
    obtain ⟨hsm, -, harb⟩ := doRodAct_spec F now rest w a
    refine ⟨?_, ?_⟩
    · rw [hsm]
      rcases harb with harb | ⟨msg, -, harb⟩
      · rw [harb]
        exact hstage
      · rw [harb]
        exact hstage.frame (fun i => by rw [Arbiter.send_axis]) fun _ _ => Arbiter.settled_send now msg true w.arb
    · rcases harb with harb | ⟨msg, -, harb⟩
      · rw [harb]
        exact hpinned
      · rw [harb]
        exact hpinned.send now msg true
  | traffic hsys heff _ _ harb =>
    refine ⟨?_, harb.pinned hpinned⟩
    rw [heff, hsys]
    exact hstage.frame harb.enable harb.settled

/-- The entry of IDLE does not reset an axis in this step. -/
def NoArbInit (w : World) : Label → Prop
  | .sm _ => ∀ i, w.sm.effects.head? ≠ some (.arbInit i)
  | _ => True

theorem Guarded.locked_step (h : Guarded w) (hlocked : w.arb.Locked) (hok : NoArbInit w l)
    (hstep : World.step F cfg w l = some w') :
    w'.arb.Locked ∧ (w'.arb.outputs = w.arb.outputs ∨ ∃ i, w'.arb.outputs = (i, .stop) :: w.arb.outputs) := by
  have hsend : ∀ now msg urgent, (w.arb.send now msg urgent).Locked ∧
      (w.arb.send now msg urgent).outputs = w.arb.outputs := fun now msg urgent =>
    ⟨fun i => by rw [Arbiter.send_axis]; exact hlocked i, Arbiter.send_outputs ..⟩
  cases step_change hstep with
  | effect now heff =>
    rename_i e rest
    have hhead := (heff ▸ h.stage : Stage w.sm.sys.cur (e :: rest) w.arb).head
    rcases hhead with (rfl | ⟨msg, urgent, rfl, -⟩) | hidle | ⟨i, rfl⟩
    · exact ⟨hlocked, .inl rfl⟩
    · exact ⟨(hsend now msg urgent).1, .inl (hsend now msg urgent).2⟩
    · simp only [sysEnterIdle, List.mem_cons, List.not_mem_nil, or_false] at hidle
      rcases hidle with rfl | rfl | rfl | rfl | rfl
      · exact ⟨hlocked, .inl rfl⟩
      · exact ⟨hlocked, .inl rfl⟩
      · exact absurd (by rw [heff]; rfl) (hok 0)
      · exact absurd (by rw [heff]; rfl) (hok 1)
      · exact ⟨hlocked, .inl rfl⟩
    · refine ⟨fun j => ?_, .inl rfl⟩
      by_cases hj : j = i
      · subst hj
        simp [doEffect, Arbiter.setEnable]
      · simpa [doEffect, Arbiter.setEnable, hj] using hlocked j
  | branch | rodTick => exact ⟨hlocked, .inl rfl⟩
  | rod now hacts =>
    rename_i a rest
    rcases (doRodAct_spec F now rest w a).2.2 with harb | ⟨msg, -, harb⟩
    · rw [harb]
      exact ⟨hlocked, .inl rfl⟩
    · rw [harb]
      exact ⟨(hsend now msg true).1, .inl (hsend now msg true).2⟩
  | traffic _ _ _ _ harb => exact ⟨harb.locked hlocked, harb.outputs hlocked⟩

theorem Guarded.second_disabled {rest : List Effect} (h : Guarded w)
    (heff : w.sm.effects = .setArbEnable 1 false :: rest) (now : BitVec 32) :
    (w.doEffect now rest (.setArbEnable 1 false)).arb.Locked := by
  have hstage := h.stage
  rw [heff] at hstage
  have hnot : ¬Effect.Plain (.setArbEnable 1 false) := by
    rintro (hne | ⟨_, _, hne, -⟩) <;> cases hne
  have hfirst : (w.arb.axis 0).enable = false := by
    generalize heffs : Effect.setArbEnable 1 false :: rest = effs at hstage
    generalize w.sm.sys.cur = s at hstage
    cases hstage with
    | free _ hfree =>
      rcases hfree _ (heffs ▸ List.mem_cons_self) with hplain | hidle
      · exact absurd hplain hnot
      · simp [sysEnterIdle] at hidle
    | entering pre plain =>
      cases pre with
      | nil => cases (List.cons.inj heffs).1
      | cons x pre => exact absurd ((List.cons.inj heffs).1 ▸ plain x List.mem_cons_self) hnot
    | halfway _ _ hfirst => exact hfirst
    | locking => cases (List.cons.inj heffs).1
    | locked _ hlocked => exact hlocked 0
  exact Arbiter.locked_setEnable hfirst

end

/-- In FAULT, with no dispatch in progress and nothing left to handle, the last output operation was the stop
    and both pins are high; and from the step that disables the second axis to the next reset of an axis, every
    output operation is the stop. -/
theorem braked_in_fault {F : Binary32} {cfg : VoltCfg} {dirInvert : Bool} {pos : Rod.Position} {ls : List Label}
    {w : World} (run : Run (step F cfg) (fun _ _ => True) (boot dirInvert pos) ls w) :
    (w.sm.sys.cur = .fault → w.Between → w.arb.mq = [] → w.arb.inflight = none →
      w.arb.lastOutput = some .stop ∧ w.arb.motor.Braked) ∧
    ∀ now rest w₁ ls' w₂, w.sm.effects = .setArbEnable 1 false :: rest → step F cfg w (.sm now) = some w₁ →
      Run (step F cfg) NoArbInit w₁ ls' w₂ →
      ∃ outs, w₂.arb.outputs = outs ++ w₁.arb.outputs ∧ ∀ o ∈ outs, o.2 = .stop := by
  have hguarded : Guarded w := run.invariant (guarded_boot dirInvert pos) fun _ _ _ h _ hstep => h.step hstep
  refine ⟨fun hfault hbetween hmq hinflight => ?_, fun now rest w₁ ls' w₂ heff hstep hrun => ?_⟩
  · obtain ⟨hstage, hpinned⟩ := hguarded
    rw [hfault, hbetween.1] at hstage
    have hsettled : w.arb.Settled := by
      generalize hnil : [] = effs at hstage
      generalize hs : SysState.fault = s at hstage
      cases hstage with
      | free hne => exact absurd hs.symm hne.1
      | entering pre => cases pre <;> cases hnil
      | halfway pre => cases pre <;> cases hnil
      | locking => cases hnil
      | locked _ _ hsettled => exact hsettled
    have hlast := hsettled (by simp [Arbiter.inbox, hmq, hinflight])
    exact ⟨hlast, hpinned hlast⟩
  · have hfirst : w₁ = w.doEffect now rest (.setArbEnable 1 false) := by
      simp only [step, heff] at hstep
      exact (Option.some.inj hstep).symm
    have hinv : Guarded w₂ ∧ w₂.arb.Locked ∧
        ∃ outs, w₂.arb.outputs = outs ++ w₁.arb.outputs ∧ ∀ o ∈ outs, o.2 = .stop := by
      refine hrun.invariant (I := fun t => Guarded t ∧ t.arb.Locked ∧
        ∃ outs, t.arb.outputs = outs ++ w₁.arb.outputs ∧ ∀ o ∈ outs, o.2 = .stop)
        ⟨hguarded.step hstep, ?_, [], rfl, by simp⟩ ?_
      · rw [hfirst]
        exact hguarded.second_disabled heff now
      · rintro t l u ⟨hg, hlocked, outs, houts, hstop⟩ hok hu
        obtain ⟨hlocked', hkept | ⟨i, hcons⟩⟩ := hg.locked_step hlocked hok hu
        · exact ⟨hg.step hu, hlocked', outs, hkept.trans houts, hstop⟩
        · refine ⟨hg.step hu, hlocked', (i, .stop) :: outs, by rw [hcons, houts]; rfl, ?_⟩
          simpa using hstop
    exact hinv.2.2

instance (w : World) (l : Label) : Decidable (NoArbInit w l) :=
  match l with
  | .sm _ => inferInstanceAs (Decidable (∀ i, w.sm.effects.head? ≠ some (.arbInit i)))
  | .event _ | .dispatch | .post .. | .recv | .process _ | .tick _ | .scan _ | .polOut _ | .rodTick .. | .rod _ =>
    instDecidableTrue

/-- The motor runs forwards when a tick finds 41.2 V, and the entry of FAULT has disabled the axis 0. -/
def lockingRun : List Label :=
  [.dispatch] ++ List.replicate 7 (.sm 0) ++
    [.post 1 ⟨0, .powerPos, prioPower, .runFwd, 100, 0⟩ false, .recv, .process 1, .tick 0x42200000#32, .dispatch] ++
    List.replicate 5 (.sm 2)

def lockingWorld : Option World :=
  exec (guarded (step ieee defaultVolt) fun _ _ => True) (boot false startPosition) lockingRun

/-- The second stop command, and the arbiter handles all four. -/
def brakingRun : List Label := [.sm 3, .recv, .process 3, .recv, .process 3, .recv, .process 3, .recv, .process 3]

/-- Of the five operations the first ran forwards; in FAULT both pins are high. -/
theorem braked_in_fault_overVolt :
    ∃ w w₁ w₂, lockingWorld = some w ∧ step ieee defaultVolt w (.sm 2) = some w₁ ∧
      exec (guarded (step ieee defaultVolt) NoArbInit) w₁ brakingRun = some w₂ ∧
      w₁.arb.outputs = [(0, .fwd 100)] ∧ w₂.arb.outputs.length = 5 ∧ w₂.sm.sys.cur = .fault ∧
      (∃ outs, w₂.arb.outputs = outs ++ w₁.arb.outputs ∧ ∀ o ∈ outs, o.2 = .stop) ∧ w₂.arb.motor.Braked := by
  have hsome : (lockingWorld.bind fun w => (step ieee defaultVolt w (.sm 2)).bind fun w₁ =>
      exec (guarded (step ieee defaultVolt) NoArbInit) w₁ brakingRun).isSome = true := by decide +kernel
  obtain ⟨w₂, hw₂⟩ := Option.isSome_iff_exists.mp hsome
  obtain ⟨w, hw, hrest⟩ := Option.bind_eq_some_iff.mp hw₂
  obtain ⟨w₁, hstep, hexec⟩ := Option.bind_eq_some_iff.mp hrest
  have hfacts : ∀ w ∈ lockingWorld, w.sm.effects = [.setArbEnable 1 false, emergencyStop 1] ∧
      ∀ w₁ ∈ step ieee defaultVolt w (.sm 2), w₁.arb.outputs = [(0, .fwd 100)] ∧
      ∀ w₂ ∈ exec (guarded (step ieee defaultVolt) NoArbInit) w₁ brakingRun,
        w₂.arb.outputs.length = 5 ∧ w₂.sm.sys.cur = .fault ∧ (w₂.sm.effects = [] ∧ w₂.sm.branches = []) ∧
        w₂.arb.mq = [] ∧ w₂.arb.inflight = none := by decide +kernel
  obtain ⟨heff, hfacts⟩ := hfacts w hw
  obtain ⟨houts, hfacts⟩ := hfacts w₁ hstep
  obtain ⟨hlen, hcur, hbetween, hmq, hinflight⟩ := hfacts w₂ hexec
  have hrun := Run.of_exec hw
  have hrun₁ := Run.snoc hrun trivial hstep
  have hrun₂ := hrun₁.trans ((Run.of_exec hexec).mono fun _ _ _ => trivial)
  exact ⟨w, w₁, w₂, hw, hstep, hexec, houts, hlen, hcur, (braked_in_fault hrun).2 2 _ w₁ _ w₂ heff hstep
    (Run.of_exec hexec), ((braked_in_fault hrun₂).1 hcur hbetween hmq hinflight).2⟩

end RodActuator.Sys.World
