import RodActuator.Sys.FaultGate

/-! Leaving FAULT without a RECOVERY. VOLT_NORMAL and POLARITY_CHG take back their fault bits and recover by
    themselves where no bit is left. A fault that is only commanded owns no bit, so nothing of it holds the
    system in FAULT. -/

namespace RodActuator.Sys
open Power

namespace System

/-- The system that the branch of an event sees. -/
def seen (e : SysEvt) (d : Dispatch) (sys : System) : System :=
  (SysEvt.all.takeWhile (· ≠ e)).foldl (branchIf d.answers d.bits) sys

/-! ### Commanded faults -/

/-- The dispatch goes to FAULT in the branch of EVT_SYS_FAULT or EVT_SYS_EMERGENCY. -/
def Commanded (d : Dispatch) (sys : System) : Prop :=
  ∃ e, (e = .fault ∨ e = .emergency) ∧ (seen e d sys).cur ≠ .fault ∧
    (branchIf d.answers d.bits (seen e d sys) e).cur = .fault

/-- The mask takes the last fault bit back, or it brings VOLT_NORMAL where there is none. -/
def Releases (d : Dispatch) (sys : System) : Prop :=
  SysEvt.isIn .voltNormal d.bits ∧ voltCleared d (raised d sys.faultBits) = 0 ∨
    voltCleared d (raised d sys.faultBits) ≠ 0 ∧
      polarityCleared d ((overCurrentDir d).getD sys.overcurDir) (voltCleared d (raised d sys.faultBits)) = 0

instance (d : Dispatch) (sys : System) : Decidable (Releases d sys) :=
  inferInstanceAs (Decidable (_ ∨ _))

theorem raise_from_fault (d : Dispatch) (es : List SysEvt) (hsub : es ⊆ raising) {sys : System} (h : sys.cur = .fault) :
    (es.foldl (branchIf d.answers d.bits) sys).cur = .fault :=
  raise_cur (fun _ he => next_fault (.inl rfl) he) d hsub sys h

/-- After the branches that raise faults, a commanded fault stands. -/
theorem Commanded.raise {d : Dispatch} {sys : System} (h : Commanded d sys) :
    (raising.foldl (branchIf d.answers d.bits) sys).cur = .fault := by
  obtain ⟨e, rfl | rfl, -, hfault⟩ := h
  · exact raise_from_fault d [.emergency] (by decide) hfault
  · exact hfault

/-- Out of FAULT the recovery leads to RUN or IDLE, by the kept state, and only without a fault bit. -/
theorem autoRecover_fault {sys : System} (h : sys.cur = .fault) :
    (autoRecover sys).1.cur = if sys.faultBits ≠ 0 then .fault else if sys.prevState = .run then .run else .idle := by
  by_cases hbits : sys.faultBits = 0
  · rw [autoRecover_cur hbits, h, if_neg (not_not.mpr hbits)]
    rfl
  · rw [autoRecover_of_bits hbits, if_pos hbits, h]

theorem autoRecover_to_fault {sys : System} (h : (autoRecover sys).1.cur = .fault) :
    sys.cur = .fault ∧ sys.faultBits ≠ 0 := by
  by_cases hbits : sys.faultBits = 0
  · have hnext : ∀ s, next .recovery s ≠ .fault ∧ next .cmdWorkEnable (next .recovery s) ≠ .fault := by
      intro s
      cases s <;> decide
    rw [autoRecover_cur hbits] at h
    split at h
    · exact absurd h (hnext sys.cur).2
    · exact absurd h (hnext sys.cur).1
  · rw [autoRecover_of_bits hbits] at h
    exact ⟨h, hbits⟩

theorem autoRecover_stays_iff (sys : System) (h : sys.cur = .fault) :
    (autoRecover sys).1.cur = .fault ↔ sys.faultBits ≠ 0 := by
  rw [autoRecover_fault h]
  split_ifs <;> simp_all

theorem fault_voltNormal {d : Dispatch} {sys : System} (h : sys.cur = .fault) :
    (branchIf d.answers d.bits sys .voltNormal).cur = .fault ↔
      ¬(SysEvt.isIn .voltNormal d.bits ∧ voltCleared d sys.faultBits = 0) := by
  unfold branchIf voltCleared
  by_cases hin : SysEvt.isIn .voltNormal d.bits = true
  · simp only [hin, if_true, true_and]
    exact autoRecover_stays_iff _ h
  · simp [hin, h]

theorem voltNormal_bits (d : Dispatch) (sys : System) :
    (branchIf d.answers d.bits sys .voltNormal).faultBits = voltCleared d sys.faultBits ∧
      (branchIf d.answers d.bits sys .voltNormal).overcurDir = sys.overcurDir := by
  unfold branchIf voltCleared
  split
  · exact ⟨autoRecover_faultBits _, autoRecover_overcurDir _⟩
  · exact ⟨rfl, rfl⟩

theorem fault_polarityChg {d : Dispatch} {sys : System} (h : sys.cur = .fault) :
    (branchIf d.answers d.bits sys .polarityChg).cur = .fault ↔
      ¬(sys.faultBits ≠ 0 ∧ polarityCleared d sys.overcurDir sys.faultBits = 0) := by
  unfold branchIf polarityCleared
  by_cases hin : SysEvt.isIn .polarityChg d.bits = true
  · simp only [hin, if_true, true_and, branch]
    split
    · rename_i hguard
      have hne : sys.faultBits ≠ 0 := fun hzero => hguard.1 (by rw [hzero]; exact BitVec.zero_and)
      simp only [hne, ne_eq, not_false_eq_true, true_and]
      exact autoRecover_stays_iff _ h
    · simp [h]
  · simp [hin, h]

theorem branchIf_start_fault {e : SysEvt} (he : e ∈ [SysEvt.initDone, .cmdWorkEnable, .stWorkError]) (d : Dispatch)
    (sys : System) : (branchIf d.answers d.bits sys e).cur = .fault ↔ sys.cur = .fault := by
  have hnext : ∀ s, next e s = .fault ↔ s = .fault := by
    simp only [List.mem_cons, List.not_mem_nil, or_false] at he
    rcases he with rfl | rfl | rfl <;> intro s <;> cases s <;> decide
  rw [(branchIf_send he sys).1]
  split
  · exact hnext _
  · rfl

/-- Without a RECOVERY a dispatch that has raised its faults stays in FAULT exactly when it does not release. -/
theorem fault_stays_iff {d : Dispatch} {sys : System} (hrec : SysEvt.isIn .recovery d.bits = false)
    (hraise : (raising.foldl (branchIf d.answers d.bits) sys).cur = .fault) :
    (dispatch d.answers d.bits sys).1.cur = .fault ↔ ¬Releases d sys := by
  obtain ⟨hbits, hdir⟩ := raise_bits d sys
  have hsplit : SysEvt.all = raising ++ [.recovery, .voltNormal, .voltRecoverWait, .polarityChg] ++
      [.initDone, .cmdWorkEnable, .stWorkError] := rfl
  rw [dispatch_fst, hsplit, List.foldl_append, List.foldl_append]
  generalize raising.foldl (branchIf d.answers d.bits) sys = r at hraise hbits hdir
  have hskip : branchIf d.answers d.bits r .recovery = r := if_neg (by simp [hrec])
  have hwait : ∀ sys, branchIf d.answers d.bits sys .voltRecoverWait = sys := fun sys => by
    unfold branchIf
    split <;> rfl
  obtain ⟨hbits₁, hdir₁⟩ := voltNormal_bits d r
  have hvolt := fault_voltNormal (d := d) hraise
  simp only [List.foldl_cons, List.foldl_nil, hskip, hwait]
  rw [branchIf_start_fault (by decide), branchIf_start_fault (by decide), branchIf_start_fault (by decide)]
  rw [hbits] at hbits₁ hvolt
  rw [hdir] at hdir₁
  unfold Releases
  generalize branchIf d.answers d.bits r .voltNormal = r₁ at hbits₁ hdir₁ hvolt
  by_cases hfault : r₁.cur = .fault
  · rw [fault_polarityChg hfault, hbits₁, hdir₁, not_or]
    exact (and_iff_right (hvolt.mp hfault)).symm
  · have hrel := not_not.mp (mt hvolt.mpr hfault)
    have hzero : r₁.faultBits = 0 := hbits₁.trans hrel.2
    have hnone : branchIf d.answers d.bits r₁ .polarityChg = r₁ := by
      unfold branchIf
      simp [branch, hzero]
    rw [hnone]
    exact iff_of_false hfault (not_not.mpr (.inl hrel))

/-- Over any events without a RECOVERY, a commanded fault stays latched exactly when no mask of them, the
    commanding one included, releases it. -/
theorem commanded_latched_iff {past ds : List Dispatch} {d : Dispatch} (hcmd : Commanded d (runAll past boot))
    (hrec : ∀ d' ∈ d :: ds, SysEvt.isIn .recovery d'.bits = false) :
    (∀ pre, pre <+: ds → (runAll (past ++ d :: pre) boot).cur = .fault) ↔
      ∀ pre d', pre ++ [d'] <+: d :: ds → ¬Releases d' (runAll (past ++ pre) boot) := by
  -- Where all masks before stayed in FAULT, the next one raises its faults from FAULT or is the commanding one.
  have hstep : ∀ pre d', pre ++ [d'] <+: d :: ds → (pre = [] ∨ (runAll (past ++ pre) boot).cur = .fault) →
      ((runAll (past ++ (pre ++ [d'])) boot).cur = .fault ↔ ¬Releases d' (runAll (past ++ pre) boot)) := by
    intro pre d' hpre hfault
    have hmem : d' ∈ d :: ds := hpre.subset (by simp)
    rw [← List.append_assoc, runAll_concat]
    refine fault_stays_iff (hrec d' hmem) ?_
    rcases hfault with rfl | hfault
    · obtain ⟨rest, hrest⟩ := hpre
      cases hrest
      rw [List.append_nil]
      exact hcmd.raise
    · exact raise_from_fault d' _ (List.Subset.refl _) hfault
  constructor
  · intro hall pre d' hpre
    have hcons : ∀ pre' ≠ [], pre' <+: d :: ds → (runAll (past ++ pre') boot).cur = .fault := by
      intro pre' hne hpre'
      obtain ⟨x, rest, rfl⟩ := List.exists_cons_of_ne_nil hne
      obtain ⟨rfl, hrest⟩ := List.cons_prefix_cons.mp hpre'
      exact hall rest hrest
    refine (hstep pre d' hpre ?_).mp (hcons _ (by simp) hpre)
    by_cases hnil : pre = []
    · exact .inl hnil
    · exact .inr (hcons pre hnil ((List.prefix_append pre [d']).trans hpre))
  · intro hnone
    have hall : ∀ pre, pre <+: d :: ds → pre = [] ∨ (runAll (past ++ pre) boot).cur = .fault := by
      intro pre
      induction pre using List.reverseRecOn with
      | nil => exact fun _ => .inl rfl
      | append_singleton pre d' ih =>
        intro hpre
        exact .inr ((hstep pre d' hpre (ih ((List.prefix_append pre [d']).trans hpre))).mpr (hnone pre d' hpre))
    intro pre hpre
    exact (hall (d :: pre) (List.cons_prefix_cons.mpr ⟨rfl, hpre⟩)).resolve_left (by simp)

/-- A commanded fault in RUN that only the over-current of a blocked rod follows. -/
theorem commanded_latched_overCurrent :
    let d (bits : BitVec 32) : Dispatch := ⟨fun _ => ⟨.faultFwd, .fwd⟩, bits⟩
    let past := [d (SysEvt.mask .initDone ||| SysEvt.mask .cmdWorkEnable)]
    ∀ pre, pre <+: [d (SysEvt.mask .overCurrent), d (SysEvt.mask .polarityChg)] →
      (runAll (past ++ d (SysEvt.mask .fault) :: pre) boot).cur = .fault := by
  intro d past
  refine (commanded_latched_iff (d := d (SysEvt.mask .fault)) ⟨.fault, .inl rfl, by decide, by decide⟩ ?_).mpr ?_
  · simp only [List.mem_cons, List.not_mem_nil, or_false]
    rintro d' (rfl | rfl | rfl) <;> decide
  · rintro (_ | ⟨x, _ | ⟨y, _ | ⟨z, pre⟩⟩⟩) d' hpre <;> simp [List.cons_prefix_cons] at hpre
    · subst hpre
      decide
    · obtain ⟨rfl, rfl⟩ := hpre
      decide
    · obtain ⟨rfl, rfl, rfl⟩ := hpre
      decide

/-- The commanded fault of RUN is released by the return of a voltage that had failed after it. -/
theorem commanded_released_by_volt :
    let d (bits : BitVec 32) : Dispatch := ⟨fun _ => ⟨.ignored, .fwd⟩, bits⟩
    let past := [d (SysEvt.mask .initDone ||| SysEvt.mask .cmdWorkEnable)]
    let later := [d (SysEvt.mask .voltUnder), d (SysEvt.mask .voltNormal)]
    Commanded (d (SysEvt.mask .fault)) (runAll past boot) ∧
      (∀ d' ∈ d (SysEvt.mask .fault) :: later, SysEvt.isIn .recovery d'.bits = false) ∧
      (runAll (past ++ d (SysEvt.mask .fault) :: later) boot).cur = .idle := by
  intro d past later
  refine ⟨⟨.fault, .inl rfl, by decide, by decide⟩, ?_, by decide⟩
  simp only [List.mem_cons, List.not_mem_nil, or_false, later]
  rintro d' (rfl | rfl | rfl) <;> decide

end System

end RodActuator.Sys
