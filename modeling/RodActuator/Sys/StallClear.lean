import RodActuator.Sys.World

/-! Clearing a stall. POLARITY_CHG carries no direction: its branch reads the polarity when it is taken, and
    compares it with the direction of the over-current fault for being different only. A supply that is lost
    between the edge and the dispatch is different from both directions. -/

namespace RodActuator.Sys
open Power Binary32 Transition

/-- The two directions of a supply that runs the motor. -/
def Opposed (dir pol : PolarityState) : Prop := dir = .fwd ∧ pol = .rev ∨ dir = .rev ∧ pol = .fwd

instance (dir pol : PolarityState) : Decidable (Opposed dir pol) := inferInstanceAs (Decidable (_ ∨ _))

namespace System

def Stalled (sys : System) : Prop := sys.faultBits &&& overCurrentBit ≠ 0

instance (sys : System) : Decidable sys.Stalled := inferInstanceAs (Decidable (_ ≠ _))

/-- A stall is recorded with its direction. -/
def Directed (sys : System) : Prop := sys.Stalled → sys.overcurDir = .fwd ∨ sys.overcurDir = .rev

theorem stalled_iff (sys : System) : sys.Stalled ↔ sys.faultBits.getLsbD 0 = true := by
  rw [Stalled, overCurrentBit, BitVec.and_twoPow]
  cases sys.faultBits.getLsbD 0 <;> decide

theorem Directed.mono {sys sys' : System} (h : Directed sys) (hdir : sys'.overcurDir = sys.overcurDir)
    (hbit : sys'.faultBits.getLsbD 0 = true → sys.faultBits.getLsbD 0 = true) : Directed sys' := fun hstalled => by
  rw [hdir]
  exact h ((stalled_iff _).mpr (hbit ((stalled_iff _).mp hstalled)))

theorem directed_boot : Directed boot := fun h => absurd h (by decide)

/-- Only an over-current brings the bit, and it comes with its direction. -/
theorem Directed.branch {sys : System} (h : Directed sys) (a : Answers) (e : SysEvt) : Directed (branch a e sys).1 := by
  cases e with
  | overCurrent =>
    simp only [System.branch]
    split
    · exact h
    · exact h
    · exact fun _ => .inl rfl
    · exact fun _ => .inr rfl
    · exact h
  | rodLimitFault | voltOver | voltUnder =>
    refine h.mono rfl fun hbit => ?_
    simpa [System.branch, latch, rodLimitBit, voltOverBit, voltUnderBit] using hbit
  | recovery => exact h.mono rfl (by simp [System.branch])
  | voltNormal =>
    refine h.mono (by simp [System.branch]) fun hbit => ?_
    simp only [System.branch, autoRecover_faultBits, BitVec.getLsbD_and, Bool.and_eq_true] at hbit
    exact hbit.1
  | polarityChg =>
    simp only [System.branch]
    split
    · refine h.mono (by simp) fun hbit => ?_
      simp only [autoRecover_faultBits, BitVec.getLsbD_and, Bool.and_eq_true] at hbit
      exact hbit.1
    · exact h
  | voltRecoverWait | fault | emergency | initDone | cmdWorkEnable | stWorkError => exact h.mono rfl id

/-- The branch of POLARITY_CHG takes a stall back at any polarity but the recorded one. -/
theorem polarityChg_clears_iff {sys : System} (h : Directed sys) (hstalled : sys.Stalled) (a : Answers) :
    ¬(branch a .polarityChg sys).1.Stalled ↔ a.polarity ≠ sys.overcurDir := by
  have hdir : sys.overcurDir ≠ .unknown := by rcases h hstalled with hdir | hdir <;> simp [hdir]
  have hbit : sys.faultBits &&& overCurrentBit ≠ 0 := hstalled
  by_cases hsame : a.polarity = sys.overcurDir
  · simp [branch, hsame, hstalled]
  · have hcleared : ¬(branch a .polarityChg sys).1.Stalled := by
      rw [stalled_iff, branch, if_pos ⟨hbit, hdir, hsame⟩, autoRecover_faultBits]
      simp [overCurrentBit]
    exact iff_of_true hcleared hsame

end System

namespace World

/-- The thread of the state machine is at the branch of POLARITY_CHG. -/
def AtPolarityChg (w : World) : Label → Prop
  | .sm _ => w.sm.effects = [] ∧ w.sm.branches.head? = some .polarityChg
  | _ => False

/-- A step that takes the branch of POLARITY_CHG and clears a stall finds the opposite direction in force. -/
def ClearsOpposite (F : Binary32) (cfg : VoltCfg) (w : World) (l : Label) : Prop :=
  w.AtPolarityChg l → w.sm.sys.Stalled → ∀ w', step F cfg w l = some w' → ¬w'.sm.sys.Stalled →
    Opposed w.sm.sys.overcurDir w.pol.state

/-- When the branch of POLARITY_CHG is taken with a stall, the supply is on in one of the two directions. -/
def Supplied (w : World) (l : Label) : Prop :=
  w.AtPolarityChg l → w.sm.sys.Stalled → w.pol.state = .fwd ∨ w.pol.state = .rev

theorem directed_step {F : Binary32} {cfg : VoltCfg} {w w' : World} {l : Label} (h : w.sm.sys.Directed)
    (hstep : step F cfg w l = some w') : w'.sm.sys.Directed := by
  cases step_change hstep with
  | effect now heff =>
    rename_i e rest
    have hsys : (w.doEffect now rest e).sm.sys = w.sm.sys := by cases e <;> rfl
    rwa [hsys]
  | branch => exact h.branch _ _
  | rodTick => exact h
  | rod now =>
    rename_i a rest hacts
    rwa [(doRodAct_spec F now rest w a).1]
  | traffic hsys => rwa [hsys]

theorem clearsOpposite_iff (F : Binary32) (cfg : VoltCfg) {w : World} (h : w.sm.sys.Directed) (l : Label) :
    w.ClearsOpposite F cfg l ↔ w.Supplied l := by
  refine forall_congr' fun hat => forall_congr' fun hstalled => ?_
  cases l with
  | sm now =>
    obtain ⟨heff, hhead⟩ := hat
    obtain ⟨rest, hbranches⟩ := List.head?_eq_some_iff.mp hhead
    have hstep : step F cfg w (.sm now) = some (w.doBranch rest .polarityChg) := by simp only [step, heff, hbranches]
    have hclears : ¬(w.doBranch rest .polarityChg).sm.sys.Stalled ↔ w.pol.state ≠ w.sm.sys.overcurDir :=
      System.polarityChg_clears_iff h hstalled _
    simp only [hstep, Option.some.injEq, forall_eq']
    rw [hclears]
    rcases h hstalled with hdir | hdir <;> rw [hdir] <;> cases w.pol.state <;> decide
  | _ => cases hat

/-- A stall is cleared by the opposite direction only, along exactly the runs in which POLARITY_CHG finds the
    supply on. -/
theorem stall_cleared_iff (F : Binary32) (cfg : VoltCfg) (dirInvert : Bool) (pos : Rod.Position) (ls : List Label)
    (w : World) : Run (step F cfg) (ClearsOpposite F cfg) (boot dirInvert pos) ls w ↔
      Run (step F cfg) Supplied (boot dirInvert pos) ls w :=
  Run.congr (I := fun w => w.sm.sys.Directed) System.directed_boot (fun _ _ _ => directed_step)
    fun _ l h => clearsOpposite_iff F cfg h l

/-- A stall forwards, and a supply that flickers: it comes back forwards for one window and is lost again before the
    edge is dispatched. -/
theorem stall_cleared_by_power_loss :
    let pos : Rod.Position := { startPosition with positionMm := 0x41480000#32, calibState := .calibrated }
    let forwards : List Label := List.replicate 5 (.scan false) ++ [.polOut 0, .polOut 0]
    let lost : List Label := [.tick zero, .scan false, .dispatch, .sm 0, .sm 0]
    let ls : List Label := .dispatch :: List.replicate 7 (.sm 0) ++ forwards ++ [.recv, .process 0, .dispatch, .sm 0] ++
      [.event (SysEvt.mask .overCurrent), .dispatch] ++ List.replicate 7 (.sm 0) ++ lost ++
      List.replicate 501 (.tick 0x41B66666#32) ++ [.dispatch, .sm 0, .sm 0] ++ forwards ++ lost
    ∃ w w', exec (step ieee defaultVolt) (boot false pos) ls = some w ∧ w.AtPolarityChg (.sm 0) ∧
      step ieee defaultVolt w (.sm 0) = some w' ∧ w.sm.sys.Stalled ∧ ¬w'.sm.sys.Stalled ∧
      w.sm.sys.overcurDir = .fwd ∧ w.pol.state = .unpowered := by
  intro pos forwards lost ls
  obtain ⟨w, hw, hat, hstep, hstalled, hdir, hpol⟩ :
      ∃ w, exec (step ieee defaultVolt) (boot false pos) ls = some w ∧
        (w.sm.effects = [] ∧ w.sm.branches.head? = some .polarityChg) ∧
        (step ieee defaultVolt w (.sm 0)).any (fun w' => decide ¬w'.sm.sys.Stalled) = true ∧
        w.sm.sys.Stalled ∧ w.sm.sys.overcurDir = .fwd ∧ w.pol.state = .unpowered :=
    exists_of_any (by decide +kernel)
  obtain ⟨w', hw', hcleared⟩ := exists_of_any hstep
  exact ⟨w, w', hw, hat, hw', hstalled, hcleared, hdir, hpol⟩

end World

end RodActuator.Sys
