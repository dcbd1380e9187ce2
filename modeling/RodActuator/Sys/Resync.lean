import RodActuator.Sys.FaultGate
import RodActuator.Sys.World

/-! The resynchronisation of the actuator. It belongs to the entry of RUN after FAULT, but the jump table leads
    from FAULT to IDLE, and RUN is then entered from there. -/

namespace RodActuator.Sys

namespace System

/-- The entry functions never run the resynchronisation: RUN is entered from IDLE and STOP only. -/
theorem smSendEvent_effects {e : SysEvt} {m : StateEngine.Machine SysState} {x : Effect} (h : m.curState ≠ .emergency)
    (hx : x ∈ (smSendEvent e m).2) :
    x ∈ sysEnterIdle ∨ (∃ i, x = .setArbEnable i false) ∨ ∃ i, x = emergencyStop i := by
  have hfault : x ∈ sysEnterFault → (∃ i, x = .setArbEnable i false) ∨ ∃ i, x = emergencyStop i := by
    simp only [sysEnterFault, List.mem_cons, List.not_mem_nil, or_false]
    rintro (rfl | rfl | rfl | rfl)
    · exact .inl ⟨0, rfl⟩
    · exact .inr ⟨0, rfl⟩
    · exact .inl ⟨1, rfl⟩
    · exact .inr ⟨1, rfl⟩
  by_cases hstay : StateEngine.target sysJump m.curState e = m.curState
  · rw [smSendEvent_stay hstay] at hx
    cases hx
  · rw [smSendEvent_change rfl hstay] at hx
    rcases (target_cases e h).resolve_left hstay with ⟨ht | ht, -⟩ | ⟨ht, -⟩ | ⟨ht, hs⟩ | ⟨ht, -, -⟩ <;> rw [ht] at hx
    · rcases List.mem_append.mp hx with hx | hx
      · simp only [enterQuiet, List.mem_cons, List.not_mem_nil, or_false] at hx
        rcases hx with rfl | rfl
        · exact .inr (.inr ⟨0, rfl⟩)
        · exact .inr (.inr ⟨1, rfl⟩)
      · exact .inr (hfault hx)
    · exact .inr (hfault hx)
    · exact .inl hx
    · rcases hs with hs | hs <;> simp [enter, enterQuiet, sysEnterRun, hs] at hx
    · cases hx

theorem autoRecover_effects {sys : System} {x : Effect} (hx : x ∈ (autoRecover sys).2) (h : sys.cur ≠ .emergency) :
    x ∈ sysEnterIdle ∨ (∃ i, x = .setArbEnable i false) ∨ ∃ i, x = emergencyStop i := by
  unfold autoRecover at hx
  split at hx
  · have hne : (send .recovery { sys with errorCode := .none }).1.cur ≠ .emergency :=
      (smSendEvent_move (e := .recovery) h).ne_emergency h
    dsimp only at hx
    split at hx
    · rcases List.mem_append.mp hx with hx | hx
      · exact smSendEvent_effects h hx
      · exact smSendEvent_effects hne hx
    · exact smSendEvent_effects h hx
  · cases hx

/-- What the effects of a branch can be. -/
theorem branch_effects {a : Answers} {e : SysEvt} {sys : System} {x : Effect} (h : sys.cur ≠ .emergency)
    (hx : x ∈ (branch a e sys).2) :
    (x ∈ sysEnterIdle ∨ (∃ i, x = .setArbEnable i false) ∨ ∃ i, x = emergencyStop i) ∨ x = .rodSaveRequest ∨
      e = .overCurrent ∧ (a.calib = .calibMax ∧ x = powerCommand .powerPos .clearAllowFwd 0 true ∨
        a.calib = .calibMin ∧ x = powerCommand .powerPos .clearAllowRev 0 true) := by
  cases e with
  | overCurrent =>
    cases hc : a.calib <;> simp only [branch, hc] at hx
    case faultFwd | faultRev => exact .inl (smSendEvent_effects h hx)
    case calibMax => exact .inr (.inr ⟨rfl, .inl ⟨rfl, List.mem_singleton.mp hx⟩⟩)
    case calibMin => exact .inr (.inr ⟨rfl, .inr ⟨rfl, List.mem_singleton.mp hx⟩⟩)
    case ignored => cases hx
  | voltUnder =>
    rcases List.mem_cons.mp hx with rfl | hx
    · exact .inr (.inl rfl)
    · exact .inl (smSendEvent_effects h hx)
  | voltNormal => exact .inl (autoRecover_effects hx h)
  | polarityChg =>
    simp only [branch] at hx
    split at hx
    · exact .inl (autoRecover_effects hx h)
    · cases hx
  | voltRecoverWait => cases hx
  | _ => exact .inl (smSendEvent_effects h hx)

theorem mem_dispatch {d : Dispatch} {sys : System} {x : Effect} (h : sys.cur ≠ .emergency)
    (hx : x ∈ (dispatch d.answers d.bits sys).2) :
    ∃ e sys', sys'.cur ≠ .emergency ∧ x ∈ (branch (d.answers e) e sys').2 := by
  have hfold : ∀ (es : List SysEvt) (r : System × List Effect), r.1.cur ≠ .emergency →
      x ∈ (es.foldl (fun r e => ((branch (d.answers e) e r.1).1, r.2 ++ (branch (d.answers e) e r.1).2)) r).2 →
      x ∈ r.2 ∨ ∃ e sys', sys'.cur ≠ .emergency ∧ x ∈ (branch (d.answers e) e sys').2 := by
    intro es
    induction es with
    | nil => exact fun _ _ hx => .inl hx
    | cons e es ih =>
      intro r hr hx
      have hne : (branch (d.answers e) e r.1).1.cur ≠ .emergency := (branch_move _ _ hr).ne_emergency hr
      rw [List.foldl_cons] at hx
      rcases ih ((branch (d.answers e) e r.1).1, r.2 ++ (branch (d.answers e) e r.1).2) hne hx with hx | hx
      · rcases List.mem_append.mp hx with hx | hx
        · exact .inl hx
        · exact .inr ⟨e, r.1, hr, hx⟩
      · exact .inr hx
  exact (hfold _ (sys, []) h hx).resolve_left (List.not_mem_nil)

/-- Done by the entry of RUN after a fault: the function itself, or what it does with a polarity. -/
def Resyncs (effs : List Effect) : Prop :=
  .resyncActFromFault ∈ effs ∨ ∃ polarity, ∀ x ∈ World.resync polarity, x ∈ effs

/-- No dispatch that leads from FAULT to RUN resynchronises: it enters IDLE in between, so the entry of RUN
    never finds FAULT as the previous state. Neither is an axis enabled nor a command of the power sent. -/
theorem never_resyncs (past : List Dispatch) (d : Dispatch) (_hfault : (runAll past boot).cur = .fault)
    (_hrun : (runAll (past ++ [d]) boot).cur = .run) :
    let effs := (dispatch d.answers d.bits (runAll past boot)).2
    ¬Resyncs effs ∧ (∀ i, .setArbEnable i true ∉ effs) ∧
      (∀ msg urgent, .arbSendCommand msg urgent ∈ effs → msg.cmdType ≠ .runFwd ∧ msg.cmdType ≠ .runRev) ∧
      ∀ msg msg' urgent urgent', .arbSendCommand msg urgent ∈ effs → .arbSendCommand msg' urgent' ∈ effs →
        ¬(msg.cmdType = .clearAllowFwd ∧ msg'.cmdType = .clearAllowRev) := by
  intro effs
  have hinv : ∀ x ∈ effs, x ∈ sysEnterIdle ∨ (∃ i, x = .setArbEnable i false) ∨ (∃ i, x = emergencyStop i) ∨
      x = .rodSaveRequest ∨ (d.answers .overCurrent).calib = .calibMax ∧ x = powerCommand .powerPos .clearAllowFwd 0 true ∨
      (d.answers .overCurrent).calib = .calibMin ∧ x = powerCommand .powerPos .clearAllowRev 0 true := by
    intro x hx
    obtain ⟨e, sys', hne, hx⟩ := mem_dispatch (runAll_ne_emergency past) hx
    rcases branch_effects hne hx with (hidle | hoff | hstop) | hsave | ⟨rfl, hcalib⟩
    · exact .inl hidle
    · exact .inr (.inl hoff)
    · exact .inr (.inr (.inl hstop))
    · exact .inr (.inr (.inr (.inl hsave)))
    · exact .inr (.inr (.inr (.inr hcalib)))
  have hposted : ∀ msg urgent, .arbSendCommand msg urgent ∈ effs → msg.cmdType = .emergencyStop ∨
      (d.answers .overCurrent).calib = .calibMax ∧ msg.cmdType = .clearAllowFwd ∨
      (d.answers .overCurrent).calib = .calibMin ∧ msg.cmdType = .clearAllowRev := by
    intro msg urgent hx
    rcases hinv _ hx with hidle | ⟨i, hoff⟩ | ⟨i, hstop⟩ | hsave | ⟨hc, hmax⟩ | ⟨hc, hmin⟩
    · simp [sysEnterIdle] at hidle
    · cases hoff
    · cases hstop
      exact .inl rfl
    · cases hsave
    · cases hmax
      exact .inr (.inl ⟨hc, rfl⟩)
    · cases hmin
      exact .inr (.inr ⟨hc, rfl⟩)
  have henable : ∀ i, .setArbEnable i true ∉ effs := by
    intro i hx
    rcases hinv _ hx with hidle | ⟨i, hoff⟩ | ⟨i, hstop⟩ | hsave | ⟨-, hmax⟩ | ⟨-, hmin⟩
    · simp [sysEnterIdle] at hidle
    all_goals simp_all [emergencyStop, powerCommand]
  refine ⟨?_, henable, fun msg urgent hx => ?_, fun msg msg' urgent urgent' hx hx' => ?_⟩
  · rintro (hx | ⟨polarity, hall⟩)
    · rcases hinv _ hx with hidle | ⟨i, hoff⟩ | ⟨i, hstop⟩ | hsave | ⟨-, hmax⟩ | ⟨-, hmin⟩
      · simp [sysEnterIdle] at hidle
      all_goals simp_all [emergencyStop, powerCommand]
    · exact henable 0 (hall _ (by simp [World.resync]))
  · rcases hposted msg urgent hx with hm | ⟨-, hm⟩ | ⟨-, hm⟩ <;> simp [hm]
  · rintro ⟨hfwd, hrev⟩
    rcases hposted msg urgent hx with hm | ⟨hc, hm⟩ | ⟨hc, hm⟩ <;>
      rcases hposted msg' urgent' hx' with hm' | ⟨hc', hm'⟩ | ⟨hc', hm'⟩ <;> simp_all

/-- After an over-voltage of RUN, with a forward polarity: back to RUN, and no axis is enabled. -/
theorem never_resyncs_overVolt :
    let d (bits : BitVec 32) : Dispatch := ⟨fun _ => ⟨.ignored, .fwd⟩, bits⟩
    let past := [d (SysEvt.mask .initDone ||| SysEvt.mask .cmdWorkEnable), d (SysEvt.mask .voltOver)]
    ∀ i, .setArbEnable i true ∉ (dispatch (d 0).answers (SysEvt.mask .voltNormal) (runAll past boot)).2 := by
  intro d past
  exact (never_resyncs past (d (SysEvt.mask .voltNormal)) (by decide) (by decide)).2.1

/-- The effects of that recovery are those of the entry of IDLE alone. -/
theorem recovers_without_resync :
    let d (bits : BitVec 32) : Dispatch := ⟨fun _ => ⟨.ignored, .fwd⟩, bits⟩
    let past := [d (SysEvt.mask .initDone ||| SysEvt.mask .cmdWorkEnable), d (SysEvt.mask .voltOver)]
    let volt := d (SysEvt.mask .voltNormal)
    (runAll past boot).cur = .fault ∧ (runAll (past ++ [volt]) boot).cur = .run ∧
      (dispatch volt.answers volt.bits (runAll past boot)).2 = sysEnterIdle ∧
      ¬Resyncs (dispatch volt.answers volt.bits (runAll past boot)).2 := by
  intro d past volt
  have heffs : (dispatch volt.answers volt.bits (runAll past boot)).2 = sysEnterIdle := by decide +kernel
  refine ⟨by decide, by decide, heffs, ?_⟩
  rw [heffs]
  rintro (hx | ⟨polarity, hall⟩)
  · simp [sysEnterIdle] at hx
  · have hx := hall (.setArbEnable 0 true) (by simp [World.resync])
    simp [sysEnterIdle] at hx

end System

end RodActuator.Sys
