import RodActuator.Sys.World

/-! The voltage detector and the system state agree. A fault of the detector is pending as an event, or its
    branch is still to come, or the detector is about to be reset, or the system is in FAULT; ticks may fall
    between any two of these steps. -/

namespace RodActuator.Sys.World
open Power Arb Binary32 Transition

/-- No one sends `EVT_SYS_ST_WORK_ERROR`. -/
def NoWorkError (_ : World) : Label → Prop
  | .event bits => SysEvt.isIn .stWorkError bits = false
  | _ => True

structure ErrorFree (w : World) : Prop where
  pending : SysEvt.isIn .stWorkError w.pending = false
  branches : .stWorkError ∉ w.sm.branches
  outs : ∀ bits, .sysEvent bits ∈ w.polOuts → SysEvt.isIn .stWorkError bits = false

/-- The state machine knows of the fault of the detector, or will. -/
def Told (pending : BitVec 32) (sm : SmThread) : Prop :=
  (SysEvt.isIn .voltOver pending = true ∨ SysEvt.isIn .voltUnder pending = true) ∨
    (.voltOver ∈ sm.branches ∨ .voltUnder ∈ sm.branches) ∨ .busVoltageInit ∈ sm.effects ∨ sm.sys.cur = .fault

structure Watched (w : World) : Prop where
  errorFree : ErrorFree w
  live : w.sm.sys.cur ≠ .stop ∧ w.sm.sys.cur ≠ .emergency
  synced : w.volt.Synced
  /-- The tick runs since the first entry of IDLE. -/
  started : w.hwStarted = true ∨ .hwStart ∈ w.sm.effects → w.sm.sys.cur ≠ .init
  off : w.hwStarted = false → w.volt.status = .normal
  told : w.volt.status ≠ .normal → Told w.pending w.sm

section
variable {F : Binary32} {cfg : VoltCfg} {w w' : World}

theorem watched_boot (dirInvert : Bool) (pos : Rod.Position) : Watched (boot dirInvert pos) where
  errorFree := ⟨by simp only [boot]; decide, by simp [boot], by simp [boot]⟩
  live := ⟨by simp [boot, System.boot], by simp [boot, System.boot]⟩
  synced := rfl
  started := by simp [boot]
  off _ := rfl
  told h := absurd rfl h

/-- The arbiter, the rod, the polarity and the save request have no part in it. -/
theorem Watched.frame (h : Watched w) (arb : Arbiter) (rod : RodTask) (pol : Polarity) (saved : Bool) :
    Watched { w with arb := arb, rod := rod, pol := pol, rodSavePending := saved } :=
  ⟨⟨h.errorFree.pending, h.errorFree.branches, h.errorFree.outs⟩, h.live, h.synced, h.started, h.off, h.told⟩

theorem Watched.raise (h : Watched w) {bits : BitVec 32} (hbits : SysEvt.isIn .stWorkError bits = false) :
    Watched { w with pending := w.pending ||| bits } := by
  obtain ⟨⟨hpending, hbranches, houts⟩, hlive, hsynced, hstarted, hoff, htold⟩ := h
  refine ⟨⟨?_, hbranches, houts⟩, hlive, hsynced, hstarted, hoff, fun hstatus => ?_⟩
  · simp [SysEvt.isIn_or, hpending, hbits]
  · rcases htold hstatus with (hover | hunder) | hrest
    · exact .inl (.inl (by simp [SysEvt.isIn_or, hover]))
    · exact .inl (.inr (by simp [SysEvt.isIn_or, hunder]))
    · exact .inr hrest

theorem Watched.tick (h : Watched w) (mean : Single) (hw : w.hwStarted = true) :
    Watched { w with
      volt := (w.volt.isr1ms F cfg mean).1
      pending := w.pending ||| (w.volt.isr1ms F cfg mean).2 } := by
  have hbits : SysEvt.isIn .stWorkError (w.volt.isr1ms F cfg mean).2 = false := by
    by_contra hin
    have hmem := BusVoltage.isr1ms_events F cfg mean w.volt (Bool.eq_true_of_not_eq_false hin)
    simp at hmem
  obtain ⟨herror, hlive, hsynced, hstarted, hoff, htold⟩ := h.raise hbits
  refine ⟨⟨herror.pending, herror.branches, herror.outs⟩, hlive, BusVoltage.synced_isr1ms F cfg mean w.volt,
    hstarted, fun hoff' => absurd (hw.symm.trans hoff') (by simp), fun hstatus => ?_⟩
  rcases BusVoltage.isr1ms_fault F cfg mean h.synced hstatus with hold | hover | hunder
  · exact htold hold
  · exact .inl (.inl (by simp [SysEvt.isIn_or, hover]))
  · exact .inl (.inr (by simp [SysEvt.isIn_or, hunder]))

theorem Watched.dispatch (h : Watched w) (idle : w.sm.branches = []) :
    Watched { w with
      sm := { w.sm with branches := System.branchesOf (w.pending &&& sysSmWaitEvents) }
      pending := w.pending &&& ~~~sysSmWaitEvents } := by
  obtain ⟨⟨hpending, -, houts⟩, hlive, hsynced, hstarted, hoff, htold⟩ := h
  refine ⟨⟨?_, ?_, houts⟩, hlive, hsynced, hstarted, hoff, fun hstatus => ?_⟩
  · have hand : SysEvt.isIn .stWorkError (w.pending &&& ~~~sysSmWaitEvents) =
        (SysEvt.isIn .stWorkError w.pending && SysEvt.isIn .stWorkError (~~~sysSmWaitEvents)) := BitVec.getLsbD_and
    rw [hand, hpending, Bool.false_and]
  · intro hmem
    rw [mem_branchesOf, hpending] at hmem
    cases hmem
  · rcases htold hstatus with hvolt | hbranch | hrest
    · exact .inr (.inl (hvolt.imp mem_branchesOf.mpr mem_branchesOf.mpr))
    · simp [idle] at hbranch
    · exact .inr (.inr hrest)

/-- An effect that is not the reset of the detector leaves it to come. -/
theorem Watched.effect {e : Effect} {rest : List Effect} (h : Watched w) (heff : w.sm.effects = e :: rest)
    (now : BitVec 32) : Watched (w.doEffect now rest e) := by
  obtain ⟨herror, hlive, hsynced, hstarted, hoff, htold⟩ := h
  have hinit : .hwStart ∈ rest → w.sm.sys.cur ≠ .init := fun hmem =>
    hstarted (.inr (heff ▸ List.mem_cons_of_mem e hmem))
  have hrest : ∀ effs, (∀ x ∈ rest, x ∈ effs) → e ≠ .busVoltageInit → w.volt.status ≠ .normal →
      Told w.pending { w.sm with effects := effs } := by
    intro effs hsub hne hstatus
    rcases htold hstatus with hvolt | hbranch | hreset | hfault
    · exact .inl hvolt
    · exact .inr (.inl hbranch)
    · rw [heff] at hreset
      exact .inr (.inr (.inl (hsub _ ((List.mem_cons.mp hreset).resolve_left fun heq => hne heq.symm))))
    · exact .inr (.inr (.inr hfault))
  have hplain : e ≠ .busVoltageInit → Watched { w with sm := { w.sm with effects := rest } } := fun hne =>
    ⟨⟨herror.pending, herror.branches, herror.outs⟩, hlive, hsynced,
      fun hs => hs.elim (fun hw => hstarted (.inl hw)) hinit, hoff, hrest rest (fun _ hx => hx) hne⟩
  cases e with
  | busVoltageInit =>
    exact ⟨⟨herror.pending, herror.branches, herror.outs⟩, hlive, rfl,
      fun hs => hs.elim (fun hw => hstarted (.inl hw)) hinit, fun _ => rfl, fun hstatus => absurd rfl hstatus⟩
  | hwStart =>
    have hcur : w.sm.sys.cur ≠ .init := hstarted (.inr (by simp [heff]))
    exact ⟨⟨herror.pending, herror.branches, herror.outs⟩, hlive, hsynced, fun _ => hcur,
      fun hfalse : true = false => absurd hfalse (by simp), hrest rest (fun _ hx => hx) (by simp)⟩
  | resyncActFromFault =>
    refine ⟨⟨herror.pending, herror.branches, herror.outs⟩, hlive, hsynced, ?_, hoff,
      hrest _ (fun x hx => List.mem_append_right _ hx) (by simp)⟩
    rintro (hw | hmem)
    · exact hstarted (.inl hw)
    · refine hinit ((List.mem_append.mp hmem).resolve_left ?_)
      unfold resync
      split <;> simp [powerCommand]
  | polarityInit | arbInit | setArbEnable | arbSendCommand | rodSaveRequest =>
    exact (hplain (by simp)).frame _ _ _ _

/-- A branch leaves FAULT only through the reset of the detector, and the branch of a voltage fault leads
    to FAULT. -/
theorem Watched.branch {e : SysEvt} {rest : List SysEvt} (h : Watched w) (heff : w.sm.effects = [])
    (hbr : w.sm.branches = e :: rest) : Watched (w.doBranch rest e) := by
  obtain ⟨⟨hpending, hbranches, houts⟩, ⟨hstop, hemergency⟩, hsynced, hstarted, hoff, htold⟩ := h
  have hmove := System.branch_move w.answers e hemergency
  have he : e ≠ .stWorkError := fun heq => hbranches (by simp [hbr, heq])
  have herr : .stWorkError ∉ rest := fun hmem => hbranches (by simp [hbr, hmem])
  refine ⟨⟨hpending, herr, houts⟩, ⟨hmove.ne_stop hstop he, hmove.ne_emergency hemergency⟩, hsynced,
    fun hs hinit => ?_, hoff, fun hstatus => ?_⟩
  · have hstay : Move e w.sm.sys.cur .init (System.branch w.answers e w.sm.sys).2 := hinit ▸ hmove
    obtain ⟨hcur, hplain⟩ := hstay.of_init
    rcases hs with hw | hmem
    · exact hstarted (.inl hw) hcur
    · rcases hplain _ hmem with hne | ⟨_, _, hne, -⟩ <;> cases hne
  · have hinit : w.sm.sys.cur ≠ .init := by
      refine hstarted (.inl ?_)
      by_contra hw
      exact hstatus (hoff (Bool.eq_false_of_not_eq_true hw))
    have hcur : w.sm.sys.cur = .fault ∨ w.sm.sys.cur = .idle ∨ w.sm.sys.cur = .run := by
      revert hstop hemergency hinit
      cases w.sm.sys.cur <;> simp
    rcases htold hstatus with hvolt | hbranch | hreset | hfault
    · exact .inl hvolt
    · rw [hbr] at hbranch
      by_cases hvolt : e = .voltOver ∨ e = .voltUnder
      · refine .inr (.inr (.inr ?_))
        rcases hvolt with rfl | rfl
        · exact (System.send_cur _ _).trans (System.next_fault hcur (by decide))
        · exact (System.send_cur _ _).trans (System.next_fault hcur (by decide))
      · obtain ⟨hover, hunder⟩ := not_or.mp hvolt
        refine .inr (.inl (hbranch.imp ?_ ?_))
        · exact fun hmem => (List.mem_cons.mp hmem).resolve_left fun heq => hover heq.symm
        · exact fun hmem => (List.mem_cons.mp hmem).resolve_left fun heq => hunder heq.symm
    · rw [heff] at hreset
      cases hreset
    · rw [hfault] at hmove
      rcases hmove.from_fault with hstay | hidle
      · exact .inr (.inr (.inr hstay))
      · exact .inr (.inr (.inl (by simp [doBranch, hidle, sysEnterIdle])))

theorem scan_events (underVoltage pin : Bool) (p : Polarity) {bits : BitVec 32}
    (h : .sysEvent bits ∈ (p.scan underVoltage pin).2) : bits = SysEvt.mask .polarityChg := by
  rcases Polarity.mem_scan h with hturned | hturned <;> simpa [Polarity.turned] using hturned

theorem Watched.scan (h : Watched w) (underVoltage pin : Bool) :
    Watched { w with pol := (w.pol.scan underVoltage pin).1, polOuts := (w.pol.scan underVoltage pin).2 } := by
  obtain ⟨⟨hpending, hbranches, -⟩, hlive, hsynced, hstarted, hoff, htold⟩ := h
  refine ⟨⟨hpending, hbranches, fun bits hmem => ?_⟩, hlive, hsynced, hstarted, hoff, htold⟩
  rw [scan_events _ _ _ hmem]
  decide

/-- What the polarity task has sent is no longer to be sent. -/
theorem Watched.sentOut (h : Watched w) {rest : List PolarityOut} (hrest : ∀ o ∈ rest, o ∈ w.polOuts) (arb : Arbiter) :
    Watched { w with polOuts := rest, arb := arb } :=
  ⟨⟨h.errorFree.pending, h.errorFree.branches, fun b hb => h.errorFree.outs b (hrest _ hb)⟩, h.live, h.synced,
    h.started, h.off, h.told⟩

theorem Watched.step (h : Watched w) {l : Label} (hok : NoWorkError w l) (hstep : step F cfg w l = some w') :
    Watched w' := by
  cases l with
  | event bits =>
    cases hstep
    exact h.raise hok
  | dispatch =>
    simp only [World.step] at hstep
    split at hstep
    · rename_i hidle
      cases hstep
      exact h.dispatch hidle.2.1
    · cases hstep
  | sm now =>
    simp only [World.step] at hstep
    split at hstep
    · rename_i heff
      cases hstep
      exact h.effect heff now
    · rename_i heff hbr
      cases hstep
      exact h.branch heff hbr
    · cases hstep
  | post now msg urgent =>
    cases hstep
    exact h.frame _ _ _ _
  | recv =>
    obtain ⟨arb, -, rfl⟩ := Option.map_eq_some_iff.mp hstep
    exact h.frame _ _ _ _
  | process now =>
    obtain ⟨arb, -, rfl⟩ := Option.map_eq_some_iff.mp hstep
    exact h.frame _ _ _ _
  | tick mean =>
    simp only [World.step] at hstep
    split at hstep
    · rename_i hw
      cases hstep
      exact h.tick mean hw
    · cases hstep
  | scan pin =>
    simp only [World.step] at hstep
    split at hstep
    · cases hstep
      exact h.scan _ pin
    · cases hstep
  | polOut now =>
    simp only [World.step] at hstep
    split at hstep
    · rename_i bits rest houts
      cases hstep
      have hraise := h.raise (h.errorFree.outs bits (by simp [houts]))
      exact hraise.sentOut (fun o ho => houts ▸ List.mem_cons_of_mem _ ho) _
    · rename_i msg rest houts
      cases hstep
      exact h.sentOut (fun o ho => houts ▸ List.mem_cons_of_mem _ ho) _
    · cases hstep
  | rodTick delta tick =>
    simp only [World.step] at hstep
    split at hstep
    · cases hstep
      exact h.frame _ _ _ _
    · cases hstep
  | rod now =>
    simp only [World.step] at hstep
    split at hstep
    · rename_i a rest hacts
      cases hstep
      cases a with
      | out o => cases o <;> exact h.frame _ _ _ _
      | integrate | calibrate | read | update => exact h.frame _ _ _ _
    · cases hstep

end

/-- Between two dispatches, a fault of the detector that is not pending as an event has led to FAULT. -/
theorem voltage_agrees {F : Binary32} {cfg : VoltCfg} {dirInvert : Bool} {pos : Rod.Position} {ls : List Label}
    {w : World} (run : Run (step F cfg) NoWorkError (boot dirInvert pos) ls w) (between : w.Between)
    (fault : w.volt.status ≠ .normal) (noOver : SysEvt.isIn .voltOver w.pending = false)
    (noUnder : SysEvt.isIn .voltUnder w.pending = false) : w.sm.sys.cur = .fault := by
  have hwatched : Watched w := run.invariant (watched_boot dirInvert pos) fun _ _ _ h hok hstep => h.step hok hstep
  rcases hwatched.told fault with (hover | hunder) | hbranch | hreset | hfault
  · rw [noOver] at hover
    cases hover
  · rw [noUnder] at hunder
    cases hunder
  · simp [between.2] at hbranch
  · simp [between.1] at hreset
  · exact hfault

instance (w : World) (l : Label) : Decidable (NoWorkError w l) :=
  match l with
  | .event bits => inferInstanceAs (Decidable (SysEvt.isIn .stWorkError bits = false))
  | .dispatch | .sm _ | .post .. | .recv | .process _ | .tick _ | .scan _ | .polOut _ | .rodTick .. | .rod _ =>
    instDecidableTrue

/-- The machine reaches RUN, a tick finds 41.2 V, and the next dispatch is over. -/
def overVoltRun : List Label :=
  [.dispatch] ++ List.replicate 7 (.sm 0) ++ [.tick 0x42200000#32, .dispatch] ++ List.replicate 7 (.sm 1)

def overVolted : Option World :=
  exec (guarded (step ieee defaultVolt) NoWorkError) (boot false startPosition) overVoltRun

theorem voltage_agrees_over :
    ∃ w, overVolted = some w ∧ w.volt.status = .over ∧ w.sm.sys.cur = .fault := by
  obtain ⟨w, hw, hbetween, hstatus, hover, hunder⟩ : ∃ w, overVolted = some w ∧
      (w.sm.effects = [] ∧ w.sm.branches = []) ∧ w.volt.status = .over ∧
      SysEvt.isIn .voltOver w.pending = false ∧ SysEvt.isIn .voltUnder w.pending = false :=
    exists_of_any (by decide +kernel)
  exact ⟨w, hw, hstatus, voltage_agrees (Run.of_exec hw) hbetween (by simp [hstatus]) hover hunder⟩

end RodActuator.Sys.World
