import RodActuator.Sys.FaultGate

/-! The fault code and the fault bits. A raised fault sets its bit and the code together; a clear that leaves
    other bits leaves the code too, and then the code may name a fault that is gone. -/

namespace RodActuator.Sys
open Power

/-- The fault bit that an error code stands for. -/
def SysErr.bit : SysErr → BitVec 32
  | .none => 0
  | .overCurrent => overCurrentBit
  | .voltOver => voltOverBit
  | .voltUnder => voltUnderBit
  | .rodLimit => rodLimitBit

namespace System

/-- `Sys_State_Recover`, and the events it sends. -/
def recover (sys : System) : System × BitVec 32 :=
  ({ sys with errorCode := .none, faultBits := 0 },
    SysEvt.mask .recovery ||| if sys.prevState = .run then SysEvt.mask .cmdWorkEnable else 0)

inductive Call where
  | dispatch (d : Dispatch)
  | recover

def call (sys : System) : Call → System
  | .dispatch d => (dispatch d.answers d.bits sys).1
  | .recover => sys.recover.1

def callAll (cs : List Call) (sys : System) : System := cs.foldl call sys

/-- There is no fault bit and no code, or the code is that of one of the bits. -/
structure CodeAgrees (sys : System) : Prop where
  clear : sys.faultBits = 0 → sys.errorCode = .none
  named : sys.faultBits ≠ 0 → sys.faultBits &&& sys.errorCode.bit ≠ 0

/-! ### What a mask reports and what it takes back -/

/-- The code of the fault that an event raises. -/
def errOf : SysEvt → SysErr
  | .overCurrent => .overCurrent
  | .rodLimitFault => .rodLimit
  | .voltOver => .voltOver
  | .voltUnder => .voltUnder
  | _ => .none

/-- The code of the last fault that a mask raises, or else the old one. -/
def reported (d : Dispatch) (err : SysErr) : SysErr :=
  raising.foldl (fun err e => if brought d e ≠ 0 then errOf e else err) err

/-- The bits that the VOLT_NORMAL and the POLARITY_CHG of a mask take back. -/
def taken (d : Dispatch) (sys : System) : BitVec 32 :=
  let dir := (overCurrentDir d).getD sys.overcurDir
  (if SysEvt.isIn .voltNormal d.bits then voltOverBit ||| voltUnderBit else 0) |||
    (if SysEvt.isIn .polarityChg d.bits ∧ dir ≠ .unknown ∧ (d.answers .polarityChg).polarity ≠ dir then
      overCurrentBit else 0)

/-- The mask takes all the bits back, or not that of the fault reported last. -/
def CodeKept (d : Dispatch) (sys : System) : Prop :=
  SysEvt.isIn .recovery d.bits ∨ raised d sys.faultBits &&& ~~~taken d sys = 0 ∨
    (reported d sys.errorCode).bit &&& taken d sys = 0

instance (d : Dispatch) (sys : System) : Decidable (CodeKept d sys) := inferInstanceAs (Decidable (_ ∨ _ ∨ _))

/-! ### Raising -/

theorem branchIf_errorCode {e : SysEvt} (he : e ∈ raising) (d : Dispatch) (sys : System) :
    (branchIf d.answers d.bits sys e).errorCode = if brought d e ≠ 0 then errOf e else sys.errorCode := by
  obtain ⟨hoc, hrod, hover, hunder⟩ := latched_ne
  simp only [raising, List.mem_cons, List.not_mem_nil, or_false] at he
  unfold branchIf
  split
  · rename_i hin
    rcases he with rfl | rfl | rfl | rfl | rfl | rfl
    · cases hc : (d.answers .overCurrent).calib <;>
        simp [branch, hc, brought, overCurrentDir, hin, hoc, errOf, overCurrentFault, latch, send]
    all_goals simp [branch, latch, send, brought, hin, hrod, hover, hunder, errOf]
  · rename_i hin
    rcases he with rfl | rfl | rfl | rfl | rfl | rfl <;> simp [brought, overCurrentDir, hin]

theorem raise_errorCode (d : Dispatch) (sys : System) :
    (raising.foldl (branchIf d.answers d.bits) sys).errorCode = reported d sys.errorCode :=
  branches_field System.errorCode (fun err e => if brought d e ≠ 0 then errOf e else err)
    (fun _ he sys => branchIf_errorCode he d sys) sys

/-- The bit that an event brings is that of its code. -/
theorem brought_cases (d : Dispatch) (e : SysEvt) : brought d e = 0 ∨ brought d e = (errOf e).bit ∧ (errOf e).bit ≠ 0 := by
  obtain ⟨hoc, hrod, hover, hunder⟩ := latched_ne
  cases e with
  | overCurrent | rodLimitFault | voltOver | voltUnder =>
    simp only [brought, errOf, SysErr.bit]
    split
    · exact .inr ⟨rfl, by assumption⟩
    · exact .inl rfl
  | _ => exact .inl rfl

theorem CodeAgrees.branchIf {sys : System} (h : CodeAgrees sys) {e : SysEvt} (he : e ∈ raising) (d : Dispatch) :
    CodeAgrees (branchIf d.answers d.bits sys e) := by
  have hbits := (branchIf_raise he d sys).faultBits
  have herr := branchIf_errorCode he d sys
  rcases brought_cases d e with hzero | ⟨heq, hne⟩
  · have hsame := hbits.trans (congrArg (sys.faultBits ||| ·) hzero) |>.trans BitVec.or_zero
    rw [hzero, if_neg (not_not.mpr rfl)] at herr
    refine ⟨fun hf => herr.trans (h.clear (hsame ▸ hf)), fun hf => ?_⟩
    rw [hsame, herr]
    exact h.named (hsame ▸ hf)
  · rw [heq] at hbits herr
    rw [if_pos hne] at herr
    have hself : (sys.faultBits ||| (errOf e).bit) &&& (errOf e).bit = (errOf e).bit := by
      ext i
      simp +contextual
    refine ⟨fun hf => absurd ?_ hne, fun _ => ?_⟩
    · rw [hbits] at hf
      rw [← hself, hf]
      exact BitVec.zero_and
    · rw [hbits, herr, hself]
      exact hne

theorem CodeAgrees.raise {sys : System} (h : CodeAgrees sys) (d : Dispatch) :
    CodeAgrees (raising.foldl (System.branchIf d.answers d.bits) sys) := by
  have hfold : ∀ es ⊆ raising, ∀ sys : System, CodeAgrees sys →
      CodeAgrees (es.foldl (System.branchIf d.answers d.bits) sys) := by
    intro es hsub
    induction es with
    | nil => exact fun _ h => h
    | cons e es ih =>
      intro sys h
      obtain ⟨he, hes⟩ := List.cons_subset.mp hsub
      exact ih hes _ (h.branchIf he d)
  exact hfold raising (List.Subset.refl _) sys h

/-! ### Taking back -/

/-- What a clear of the bits `m` leaves; the code goes only with the last bit. -/
structure Clears (m : BitVec 32) (sys sys' : System) : Prop where
  faultBits : sys'.faultBits = sys.faultBits &&& ~~~m
  errorCode : sys'.errorCode = if sys.faultBits &&& ~~~m = 0 then .none else sys.errorCode
  overcurDir : sys'.overcurDir = sys.overcurDir

theorem autoRecover_errorCode (sys : System) :
    (autoRecover sys).1.errorCode = if sys.faultBits = 0 then .none else sys.errorCode := by
  unfold autoRecover
  split_ifs
  · dsimp only
    split_ifs <;> rfl
  · rfl

theorem clears_autoRecover (m : BitVec 32) (sys : System) :
    Clears m sys (autoRecover { sys with faultBits := sys.faultBits &&& ~~~m }).1 :=
  ⟨autoRecover_faultBits _, autoRecover_errorCode _, autoRecover_overcurDir _⟩

/-- Nothing is cleared of bits that are not there. -/
theorem clears_none {m : BitVec 32} {sys : System} (hm : sys.faultBits &&& m = 0)
    (h : sys.faultBits = 0 → sys.errorCode = .none) : Clears m sys sys := by
  have hsame : sys.faultBits &&& ~~~m = sys.faultBits := by
    refine BitVec.eq_of_getLsbD_eq fun i hi => ?_
    have hat := congrArg (·.getLsbD i) hm
    simp only [BitVec.getLsbD_and, BitVec.ofNat_eq_ofNat, BitVec.getLsbD_zero] at hat
    rw [BitVec.getLsbD_and, BitVec.getLsbD_not]
    cases hf : sys.faultBits.getLsbD i
    · rfl
    · simp_all
  refine ⟨hsame.symm, ?_, rfl⟩
  rw [hsame]
  split
  · exact h ‹_›
  · rfl

theorem Clears.trans {m m' : BitVec 32} {sys sys' sys'' : System} (h : Clears m sys sys') (h' : Clears m' sys' sys'') :
    Clears (m ||| m') sys sys'' := by
  have hbits : sys.faultBits &&& ~~~(m ||| m') = sys.faultBits &&& ~~~m &&& ~~~m' := by
    rw [BitVec.not_or, BitVec.and_assoc]
  refine ⟨?_, ?_, h'.overcurDir.trans h.overcurDir⟩
  · rw [h'.faultBits, h.faultBits, hbits]
  · rw [h'.errorCode, h.errorCode, h.faultBits, hbits]
    by_cases hzero : sys.faultBits &&& ~~~m = 0
    · have hnone : (0 : BitVec 32) &&& ~~~m' = 0 := BitVec.zero_and
      rw [if_pos hzero, hzero, if_pos hnone, if_pos hnone]
    · rw [if_neg hzero]

theorem Clears.clear {m : BitVec 32} {sys sys' : System} (h : Clears m sys sys') :
    sys'.faultBits = 0 → sys'.errorCode = .none := fun hzero => by
  rw [h.errorCode, if_pos (h.faultBits ▸ hzero)]

theorem clears_voltNormal (d : Dispatch) {sys : System} (h : sys.faultBits = 0 → sys.errorCode = .none) :
    Clears (if SysEvt.isIn .voltNormal d.bits then voltOverBit ||| voltUnderBit else 0) sys
      (System.branchIf d.answers d.bits sys .voltNormal) := by
  unfold System.branchIf
  split
  · exact clears_autoRecover _ sys
  · exact clears_none BitVec.and_zero h

theorem clears_polarityChg (d : Dispatch) {sys : System} (h : sys.faultBits = 0 → sys.errorCode = .none) :
    Clears (if SysEvt.isIn .polarityChg d.bits ∧ sys.overcurDir ≠ .unknown ∧
        (d.answers .polarityChg).polarity ≠ sys.overcurDir then overCurrentBit else 0) sys
      (System.branchIf d.answers d.bits sys .polarityChg) := by
  unfold System.branchIf
  by_cases hin : SysEvt.isIn .polarityChg d.bits = true
  · by_cases hdir : sys.overcurDir ≠ .unknown ∧ (d.answers .polarityChg).polarity ≠ sys.overcurDir
    · rw [if_pos hin, if_pos ⟨hin, hdir⟩]
      simp only [branch]
      split
      · exact clears_autoRecover _ sys
      · rename_i hbranch
        exact clears_none (not_not.mp fun hbit => hbranch ⟨hbit, hdir⟩) h
    · rw [if_pos hin, if_neg fun hall => hdir hall.2]
      simp only [branch]
      rw [if_neg fun hall => hdir hall.2]
      exact clears_none BitVec.and_zero h
  · rw [if_neg hin, if_neg fun hall => hin hall.1]
    exact clears_none BitVec.and_zero h

/-- The branches that touch neither the bits nor the code. -/
theorem Clears.idle {m : BitVec 32} {sys sys' : System} (h : Clears m sys sys') (d : Dispatch) (es : List SysEvt)
    (hsub : es ⊆ [SysEvt.voltRecoverWait, .initDone, .cmdWorkEnable, .stWorkError]) :
    Clears m sys (es.foldl (System.branchIf d.answers d.bits) sys') := by
  induction es generalizing sys' with
  | nil => exact h
  | cons e es ih =>
    obtain ⟨he, hes⟩ := List.cons_subset.mp hsub
    refine ih ?_ hes
    unfold System.branchIf
    split
    · simp only [List.mem_cons, List.not_mem_nil, or_false] at he
      rcases he with rfl | rfl | rfl | rfl <;> exact ⟨h.faultBits, h.errorCode, h.overcurDir⟩
    · exact h

/-- After the raising branches and the RECOVERY a mask takes its bits back. -/
theorem clears_rest (d : Dispatch) {sys sys' : System} (h : sys'.faultBits = 0 → sys'.errorCode = .none)
    (hdir : sys'.overcurDir = (overCurrentDir d).getD sys.overcurDir) : Clears (taken d sys) sys'
      ([.voltNormal, .voltRecoverWait, .polarityChg, .initDone, .cmdWorkEnable, .stWorkError].foldl
        (System.branchIf d.answers d.bits) sys') := by
  have hvolt := (clears_voltNormal d h).idle d [.voltRecoverWait] (by decide)
  have hpol := hvolt.trans (clears_polarityChg d hvolt.clear)
  rw [hvolt.overcurDir, hdir] at hpol
  exact hpol.idle d [.initDone, .cmdWorkEnable, .stWorkError] (by decide)

theorem errBit_cases (err : SysErr) : err.bit = 0 ∨ ∃ i, err.bit = BitVec.twoPow 32 i := by
  cases err with
  | none => exact .inl rfl
  | overCurrent => exact .inr ⟨0, rfl⟩
  | voltOver => exact .inr ⟨1, rfl⟩
  | voltUnder => exact .inr ⟨2, rfl⟩
  | rodLimit => exact .inr ⟨3, rfl⟩

/-- A bit of the bits is left if it is not taken. -/
theorem bit_left_iff {err : SysErr} {f : BitVec 32} (h : f &&& err.bit ≠ 0) (m : BitVec 32) :
    f &&& ~~~m &&& err.bit ≠ 0 ↔ err.bit &&& m = 0 := by
  rcases errBit_cases err with hzero | ⟨i, hi⟩
  · rw [hzero] at h
    exact absurd BitVec.and_zero h
  · rw [hi, BitVec.and_twoPow] at h ⊢
    rw [BitVec.twoPow_and, BitVec.getLsbD_and, BitVec.getLsbD_not]
    have hbit : f.getLsbD i = true := by
      by_contra hf
      exact h (if_neg hf)
    rw [if_pos hbit] at h
    have hlt : i < 32 := BitVec.lt_of_getLsbD hbit
    cases hm : m.getLsbD i
    · simpa [hbit, hlt] using h
    · simpa using h

theorem CodeAgrees.dispatch_iff {sys : System} (h : CodeAgrees sys) (d : Dispatch) :
    CodeAgrees (dispatch d.answers d.bits sys).1 ↔ CodeKept d sys := by
  obtain ⟨hbits, hdir⟩ := raise_bits d sys
  have herr := raise_errorCode d sys
  have hraised := h.raise d
  have hsplit : SysEvt.all = raising ++ .recovery :: [.voltNormal, .voltRecoverWait, .polarityChg, .initDone,
    .cmdWorkEnable, .stWorkError] := rfl
  rw [dispatch_fst, hsplit, List.foldl_append, List.foldl_cons]
  generalize raising.foldl (System.branchIf d.answers d.bits) sys = sys' at hbits hdir herr hraised
  by_cases hrec : SysEvt.isIn .recovery d.bits = true
  · have hnone : (System.branchIf d.answers d.bits sys' .recovery).faultBits = 0 ∧
        (System.branchIf d.answers d.bits sys' .recovery).errorCode = .none := by
      simp [System.branchIf, hrec, branch, send]
    have hdir' : (System.branchIf d.answers d.bits sys' .recovery).overcurDir = (overCurrentDir d).getD sys.overcurDir := by
      simpa [System.branchIf, hrec, branch] using hdir
    have hclears := clears_rest d (fun _ => hnone.2) hdir'
    have hzero : (0 : BitVec 32) &&& ~~~taken d sys = 0 := BitVec.zero_and
    refine iff_of_true ⟨hclears.clear, fun hne => absurd ?_ hne⟩ (.inl hrec)
    rw [hclears.faultBits, hnone.1, hzero]
  · have hstay : System.branchIf d.answers d.bits sys' .recovery = sys' := if_neg hrec
    rw [hstay]
    have hclears := clears_rest d hraised.clear hdir
    have hlast := hclears.faultBits
    rw [hbits] at hlast
    unfold CodeKept
    rw [or_iff_right hrec]
    by_cases hzero : raised d sys.faultBits &&& ~~~taken d sys = 0
    · exact iff_of_true ⟨hclears.clear, fun hne => absurd (hlast.trans hzero) hne⟩ (.inl hzero)
    · rw [or_iff_right hzero]
      have hcode := hclears.errorCode
      rw [hbits, if_neg hzero, herr] at hcode
      have hne : raised d sys.faultBits ≠ 0 := fun hf => hzero (by rw [hf]; exact BitVec.zero_and)
      have hnamed := hraised.named (hbits ▸ hne)
      rw [hbits, herr] at hnamed
      rw [← bit_left_iff hnamed]
      refine ⟨fun hagrees => ?_, fun hleft => ⟨hclears.clear, fun _ => ?_⟩⟩
      · have := hagrees.named (hlast ▸ hzero)
        rwa [hlast, hcode] at this
      · rwa [hlast, hcode]

/-- After every dispatch the code agrees with the bits, along exactly the sequences whose masks keep it. -/
theorem code_agrees_iff (cs : List Call) :
    (∀ past d, past ++ [.dispatch d] <+: cs → CodeAgrees (callAll (past ++ [.dispatch d]) boot)) ↔
      ∀ past d, past ++ [.dispatch d] <+: cs → CodeKept d (callAll past boot) := by
  have hcall : ∀ past d, callAll (past ++ [.dispatch d]) boot =
      (dispatch d.answers d.bits (callAll past boot)).1 := fun past d => by
    rw [callAll, List.foldl_append]
    rfl
  have hboot : CodeAgrees boot := ⟨fun _ => rfl, fun h => absurd rfl h⟩
  have hrecover : ∀ past, CodeAgrees (callAll (past ++ [.recover]) boot) := fun past => by
    rw [callAll, List.foldl_append]
    exact ⟨fun _ => rfl, fun h => absurd rfl h⟩
  refine ⟨fun hall past d hpre => ?_, fun hall past => ?_⟩
  · have hbefore : CodeAgrees (callAll past boot) := by
      rcases past.eq_nil_or_concat' with rfl | ⟨past', c, rfl⟩
      · exact hboot
      · cases c with
        | dispatch d' => exact hall past' d' ((List.prefix_append _ _).trans hpre)
        | recover => exact hrecover past'
    rw [← hbefore.dispatch_iff, ← hcall]
    exact hall past d hpre
  · -- Every state before a dispatch agrees, by induction on the calls before it.
    suffices hbefore : ∀ past, past <+: cs → CodeAgrees (callAll past boot) from
      fun d hpre => hbefore _ hpre
    intro past hpre
    induction past using List.reverseRecOn with
    | nil => exact hboot
    | append_singleton past c ih =>
      cases c with
      | dispatch d =>
        rw [hcall]
        exact ((ih ((List.prefix_append _ _).trans hpre)).dispatch_iff d).mpr (hall past d hpre)
      | recover => exact hrecover past

/-- An over-voltage during a stall: when the voltage is back, the bit of the stall is left with the code of the
    over-voltage. -/
theorem code_of_cleared_fault :
    let d (bits : BitVec 32) : Dispatch := ⟨fun _ => ⟨.faultFwd, .fwd⟩, bits⟩
    let cs : List Call := [.dispatch (d (SysEvt.mask .initDone ||| SysEvt.mask .cmdWorkEnable)),
      .dispatch (d (SysEvt.mask .overCurrent)), .dispatch (d (SysEvt.mask .voltOver)),
      .dispatch (d (SysEvt.mask .voltNormal))]
    (callAll cs boot).faultBits = overCurrentBit ∧ (callAll cs boot).errorCode = .voltOver ∧
      ¬CodeAgrees (callAll cs boot) := by
  intro d cs
  have hbits : (callAll cs boot).faultBits = overCurrentBit := by decide
  have hcode : (callAll cs boot).errorCode = .voltOver := by decide
  refine ⟨hbits, hcode, fun hagrees => hagrees.named ?_ ?_⟩
  · rw [hbits]
    decide
  · rw [hbits, hcode]
    rfl

end System

end RodActuator.Sys
