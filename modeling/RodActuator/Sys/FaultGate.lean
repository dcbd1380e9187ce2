import RodActuator.Sys.Dispatch

/-! No operating state with a latched fault. A fault event that comes in IDLE or RUN leads to FAULT, but INIT
    and STOP have no row for it: there the fault bit is set and the machine stays, and the event that starts
    the work is not held back by the bit. -/

namespace RodActuator.Sys
open Power

structure Dispatch where
  answers : SysEvt → Answers
  bits : BitVec 32

namespace System

def runAll (ds : List Dispatch) (sys : System) : System :=
  ds.foldl (fun sys d => (dispatch d.answers d.bits sys).1) sys

/-- A latched fault keeps the system out of IDLE and RUN. -/
def Gate (sys : System) : Prop := sys.faultBits ≠ 0 → sys.cur ≠ .idle ∧ sys.cur ≠ .run

/-! ### The bits that a mask leaves -/

/-- The direction of the over-current fault that a mask brings. -/
def overCurrentDir (d : Dispatch) : Option PolarityState :=
  if SysEvt.isIn .overCurrent d.bits then
    match (d.answers .overCurrent).calib with
    | .faultFwd => some .fwd
    | .faultRev => some .rev
    | _ => none
  else none

/-- The fault bits with those that a mask brings. -/
def raised (d : Dispatch) (f : BitVec 32) : BitVec 32 :=
  f ||| (if (overCurrentDir d).isSome then overCurrentBit else 0) |||
    (if SysEvt.isIn .rodLimitFault d.bits then rodLimitBit else 0) |||
    (if SysEvt.isIn .voltOver d.bits then voltOverBit else 0) |||
    (if SysEvt.isIn .voltUnder d.bits then voltUnderBit else 0)

/-- Without those that its VOLT_NORMAL takes back. -/
def voltCleared (d : Dispatch) (f : BitVec 32) : BitVec 32 :=
  if SysEvt.isIn .voltNormal d.bits then f &&& ~~~(voltOverBit ||| voltUnderBit) else f

/-- Without the over-current bit, if its POLARITY_CHG takes it back. -/
def polarityCleared (d : Dispatch) (dir : PolarityState) (f : BitVec 32) : BitVec 32 :=
  if SysEvt.isIn .polarityChg d.bits ∧
      (f &&& overCurrentBit ≠ 0 ∧ dir ≠ .unknown ∧ (d.answers .polarityChg).polarity ≠ dir) then
    f &&& ~~~overCurrentBit
  else f

/-- The fault bits that stand or come with a mask and that it does not take back. -/
def surviving (d : Dispatch) (sys : System) : BitVec 32 :=
  if SysEvt.isIn .recovery d.bits then 0
  else polarityCleared d ((overCurrentDir d).getD sys.overcurDir) (voltCleared d (raised d sys.faultBits))

/-- No fault bit is left where a dispatch starts the work out of STOP or INIT. -/
def StartsClean (d : Dispatch) (sys : System) : Prop :=
  (sys.cur = .stop ∧ SysEvt.isIn .cmdWorkEnable d.bits ∨ sys.cur = .init ∧ SysEvt.isIn .initDone d.bits) →
    SysEvt.isIn .stWorkError d.bits = false → surviving d sys = 0

/-! ### The branches that raise faults -/

/-- The branches that raise faults come first. -/
def raising : List SysEvt := [.overCurrent, .rodLimitFault, .voltOver, .voltUnder, .fault, .emergency]

/-- The fault bit that the branch of an event brings. -/
def brought (d : Dispatch) : SysEvt → BitVec 32
  | .overCurrent => if (overCurrentDir d).isSome then overCurrentBit else 0
  | .rodLimitFault => if SysEvt.isIn .rodLimitFault d.bits then rodLimitBit else 0
  | .voltOver => if SysEvt.isIn .voltOver d.bits then voltOverBit else 0
  | .voltUnder => if SysEvt.isIn .voltUnder d.bits then voltUnderBit else 0
  | _ => 0

/-- The branch of an event raises a fault, with or without a bit of its own. -/
def Raises (d : Dispatch) (e : SysEvt) : Prop := brought d e ≠ 0 ∨ (e = .fault ∨ e = .emergency) ∧ e.isIn d.bits

instance (d : Dispatch) (e : SysEvt) : Decidable (Raises d e) := inferInstanceAs (Decidable (_ ∨ _))

/-- A raising branch: it brings its bit and sends its event, or it does nothing. -/
structure Raise (d : Dispatch) (e : SysEvt) (sys sys' : System) : Prop where
  cur : sys'.cur = if Raises d e then next e sys.cur else sys.cur
  faultBits : sys'.faultBits = sys.faultBits ||| brought d e
  prevState : sys'.prevState =
    if brought d e ≠ 0 ∧ e ≠ .rodLimitFault ∧ sys.faultBits = 0 then sys.cur else sys.prevState
  overcurDir : sys'.overcurDir = if e = .overCurrent then (overCurrentDir d).getD sys.overcurDir else sys.overcurDir

theorem latched_ne : overCurrentBit ≠ 0#32 ∧ rodLimitBit ≠ 0#32 ∧ voltOverBit ≠ 0#32 ∧ voltUnderBit ≠ 0#32 := by
  decide

theorem branchIf_raise {e : SysEvt} (he : e ∈ raising) (d : Dispatch) (sys : System) :
    Raise d e sys (branchIf d.answers d.bits sys e) := by
  obtain ⟨hoc, hrod, hover, hunder⟩ := latched_ne
  simp only [raising, List.mem_cons, List.not_mem_nil, or_false] at he
  unfold branchIf
  split
  · rename_i hin
    rcases he with rfl | rfl | rfl | rfl | rfl | rfl
    · cases hc : (d.answers .overCurrent).calib <;> simp only [System.branch, hc] <;>
        constructor <;> simp [overCurrentFault, latch, Raises, brought, overCurrentDir, hin, hc, hoc, cur]
    all_goals
      constructor <;> simp [System.branch, latch, Raises, brought, hin, hrod, hover, hunder]
  · rename_i hin
    rcases he with rfl | rfl | rfl | rfl | rfl | rfl <;>
      constructor <;> simp [Raises, brought, overCurrentDir, hin]

theorem raised_eq (d : Dispatch) (f : BitVec 32) : raised d f = raising.foldl (fun f e => f ||| brought d e) f := by
  simp [raised, raising, brought]

/-- Branches that each change a field in their own way change it in turn. -/
theorem branches_field {α : Type} (field : System → α) (change : α → SysEvt → α) {d : Dispatch} {es : List SysEvt}
    (h : ∀ e ∈ es, ∀ sys, field (branchIf d.answers d.bits sys e) = change (field sys) e) (sys : System) :
    field (es.foldl (branchIf d.answers d.bits) sys) = es.foldl change (field sys) := by
  induction es generalizing sys with
  | nil => rfl
  | cons e es ih =>
    rw [List.foldl_cons, List.foldl_cons, ih fun e' he' => h e' (List.mem_cons_of_mem e he'), h e List.mem_cons_self]

/-- What the raising branches make of the fault bits and of the direction. -/
theorem raise_bits (d : Dispatch) (sys : System) :
    (raising.foldl (branchIf d.answers d.bits) sys).faultBits = raised d sys.faultBits ∧
      (raising.foldl (branchIf d.answers d.bits) sys).overcurDir = (overCurrentDir d).getD sys.overcurDir := by
  have hbits := branches_field System.faultBits (fun f e => f ||| brought d e)
    (fun e he sys => (branchIf_raise he d sys).faultBits) sys
  have hdir : ∀ sys : System, ([.rodLimitFault, .voltOver, .voltUnder, .fault, .emergency].foldl
      (branchIf d.answers d.bits) sys).overcurDir = sys.overcurDir := by
    intro sys
    refine (branches_field System.overcurDir (fun dir _ => dir) (fun e he sys => ?_) sys).trans (List.foldl_fixed _)
    have hne : e ≠ .overCurrent := by
      rintro rfl
      exact absurd he (by decide)
    rw [(branchIf_raise (List.mem_cons_of_mem _ he) d sys).overcurDir, if_neg hne]
  refine ⟨hbits.trans (raised_eq d _).symm, ?_⟩
  rw [raising, List.foldl_cons, hdir,
    (branchIf_raise (by decide) d sys).overcurDir, if_pos rfl]

/-- No raised fault leaves the state. -/
theorem raise_cur {s : SysState} (hs : ∀ e ∈ raising, next e s = s) (d : Dispatch) {es : List SysEvt}
    (hsub : es ⊆ raising) (sys : System) (h : sys.cur = s) :
    (es.foldl (branchIf d.answers d.bits) sys).cur = s := by
  induction es generalizing sys with
  | nil => exact h
  | cons e es ih =>
    obtain ⟨he, hes⟩ := List.cons_subset.mp hsub
    refine ih hes _ ?_
    rw [(branchIf_raise he d sys).cur, h, hs e he, ite_self]

/-! ### From a state with fault rows -/

def Operating (sys : System) : Prop := (sys.cur = .idle ∨ sys.cur = .run) ∧ sys.faultBits = 0

/-- In FAULT, or operating without a fault. -/
def Settled (sys : System) : Prop := sys.cur = .fault ∨ Operating sys

theorem autoRecover_settled {sys : System} (h : sys.cur = .fault ∨ sys.cur = .idle ∨ sys.cur = .run)
    (bits : sys.faultBits = 0) : Operating (autoRecover sys).1 := by
  refine ⟨?_, by rwa [autoRecover_faultBits]⟩
  rw [autoRecover_cur bits]
  rcases h with h | h | h <;> rw [h] <;> split <;> decide

theorem Settled.cur_or {sys : System} (h : Settled sys) : sys.cur = .fault ∨ sys.cur = .idle ∨ sys.cur = .run := by
  rcases h with h | ⟨h, -⟩
  · exact .inl h
  · exact .inr h

/-- A branch keeps the system settled; only ST_WORK_ERROR stops it. -/
theorem Settled.branch {sys : System} (h : Settled sys) (a : Answers) (e : SysEvt) :
    Settled (branch a e sys).1 ∨ e = .stWorkError ∧ (branch a e sys).1.cur = .stop := by
  have hcur := h.cur_or
  cases e with
  | overCurrent =>
    left
    cases hc : a.calib <;> simp only [System.branch, hc]
    case faultFwd | faultRev =>
      left
      rw [overCurrentFault, send_cur]
      exact next_fault hcur (by decide)
    all_goals exact h
  | rodLimitFault | voltOver | voltUnder =>
    left; left
    simp only [System.branch, send_cur]
    exact next_fault hcur (by decide)
  | fault | emergency =>
    left; left
    simp only [System.branch, send_cur]
    exact next_fault hcur (by decide)
  | recovery =>
    left; right
    refine ⟨?_, rfl⟩
    simp only [System.branch, send_cur]
    rcases hcur with hcur | hcur | hcur <;> rw [hcur] <;> decide
  | voltNormal =>
    left
    by_cases hbits : sys.faultBits &&& ~~~(voltOverBit ||| voltUnderBit) = 0
    · exact .inr (autoRecover_settled hcur hbits)
    · simp only [System.branch]
      rw [autoRecover_of_bits hbits]
      rcases h with h | ⟨-, hzero⟩
      · exact .inl h
      · exact absurd (by rw [hzero]; decide) hbits
  | voltRecoverWait => exact .inl h
  | polarityChg =>
    left
    simp only [System.branch]
    split
    · by_cases hbits : sys.faultBits &&& ~~~overCurrentBit = 0
      · exact .inr (autoRecover_settled hcur hbits)
      · rw [autoRecover_of_bits hbits]
        rcases h with h | ⟨-, hzero⟩
        · exact .inl h
        · exact absurd (by rw [hzero]; decide) hbits
    · exact h
  | initDone | cmdWorkEnable =>
    left
    rcases h with h | ⟨h, hzero⟩
    · left
      simp only [System.branch, send_cur, h]
      decide
    · refine .inr ⟨?_, hzero⟩
      simp only [System.branch, send_cur]
      rcases h with h | h <;> rw [h] <;> decide
  | stWorkError =>
    rcases h with h | ⟨h, hzero⟩
    · left; left
      simp only [System.branch, send_cur, h]
      decide
    · refine .inr ⟨rfl, ?_⟩
      simp only [System.branch, send_cur]
      rcases h with h | h <;> rw [h] <;> decide

theorem Settled.foldl {es : List SysEvt} (hne : .stWorkError ∉ es) {sys : System} (h : Settled sys) (d : Dispatch) :
    Settled (es.foldl (branchIf d.answers d.bits) sys) := by
  induction es generalizing sys with
  | nil => exact h
  | cons e es ih =>
    obtain ⟨he, hes⟩ := not_or.mp fun hmem => hne (List.mem_cons.mpr hmem)
    refine ih hes ?_
    unfold branchIf
    split
    · exact (h.branch (d.answers e) e).resolve_right fun hstop => he hstop.1.symm
    · exact h

/-- ST_WORK_ERROR comes last, so the system ends settled or stopped. -/
theorem Settled.gate (es : List SysEvt) (hne : .stWorkError ∉ es) {sys : System} (h : Settled sys) (d : Dispatch) :
    Gate ((es ++ [SysEvt.stWorkError]).foldl (branchIf d.answers d.bits) sys) := by
  have hlast := h.foldl hne d
  rw [List.foldl_append]
  generalize es.foldl (branchIf d.answers d.bits) sys = sys at hlast
  have hend : Settled (branchIf d.answers d.bits sys .stWorkError) ∨
      (branchIf d.answers d.bits sys .stWorkError).cur = .stop := by
    unfold branchIf
    split
    · exact (hlast.branch _ _).imp_right And.right
    · exact .inl hlast
  intro hbits
  rcases hend with (hs | ⟨-, hzero⟩) | hs
  · simp [hs]
  · exact absurd hzero hbits
  · simp [hs]

/-! ### From a state without fault rows -/

theorem next_quiet {e : SysEvt} {s : SysState} (hs : s = .stop ∨ s = .init)
    (he : e ∈ raising) : next e s = s := by
  simp only [raising, List.mem_cons, List.not_mem_nil, or_false] at he
  rcases hs with rfl | rfl <;> rcases he with rfl | rfl | rfl | rfl | rfl | rfl <;> decide

/-- What the machine of STOP or INIT shows to the gate. -/
structure Holds (s : SysState) (f : BitVec 32) (dir : PolarityState) (sys : System) : Prop where
  cur : sys.cur = s
  faultBits : sys.faultBits = f
  overcurDir : sys.overcurDir = dir

section
variable {s : SysState} {f : BitVec 32} {dir : PolarityState} {sys : System} {d : Dispatch}

theorem Holds.raise (hs : s = .stop ∨ s = .init) (h : Holds s f dir sys) :
    Holds s (raised d f) ((overCurrentDir d).getD dir) (raising.foldl (branchIf d.answers d.bits) sys) := by
  obtain ⟨hbits, hdir⟩ := raise_bits d sys
  refine ⟨raise_cur (fun e => next_quiet hs) d (List.Subset.refl _) sys h.cur, ?_, ?_⟩
  · rw [hbits, h.faultBits]
  · rw [hdir, h.overcurDir]

/-- The machine still holds its state with the bits, or the last bit went and it is operating. -/
def Cleared (s : SysState) (f : BitVec 32) (dir : PolarityState) (sys : System) : Prop :=
  Holds s f dir sys ∨ f = 0 ∧ Operating sys

theorem Holds.autoRecover (hs : s = .stop ∨ s = .init) (h : Holds s f dir sys) :
    Cleared s f dir (autoRecover sys).1 := by
  by_cases hf : f = 0
  · have hbits : sys.faultBits = 0 := h.faultBits.trans hf
    have hcur := autoRecover_cur hbits
    rw [h.cur] at hcur
    rcases hs with rfl | rfl
    · refine .inr ⟨hf, ?_, (autoRecover_faultBits sys).trans hbits⟩
      rw [hcur]
      split <;> decide
    · refine .inl ⟨hcur.trans ?_, (autoRecover_faultBits sys).trans h.faultBits,
        (autoRecover_overcurDir sys).trans h.overcurDir⟩
      split <;> decide
  · rw [autoRecover_of_bits fun hbits => hf (h.faultBits.symm.trans hbits)]
    exact .inl h

theorem Holds.recovery (hs : s = .stop ∨ s = .init) (h : Holds s f dir sys) :
    Cleared s (if SysEvt.isIn .recovery d.bits then 0 else f) dir (branchIf d.answers d.bits sys .recovery) := by
  unfold branchIf
  split
  · have hcur : (System.branch (d.answers .recovery) .recovery sys).1.cur = next .recovery s := by
      rw [← h.cur]
      exact send_cur _ _
    rcases hs with rfl | rfl
    · exact .inr ⟨rfl, .inl hcur, rfl⟩
    · exact .inl ⟨hcur, rfl, h.overcurDir⟩
  · exact .inl h

theorem Cleared.voltNormal (hs : s = .stop ∨ s = .init) (h : Cleared s f dir sys) :
    Cleared s (voltCleared d f) dir (branchIf d.answers d.bits sys .voltNormal) := by
  unfold branchIf voltCleared
  split
  · rcases h with h | ⟨rfl, hcur, hbits⟩
    · have hcleared : Holds s (f &&& ~~~(voltOverBit ||| voltUnderBit)) dir
          { sys with faultBits := sys.faultBits &&& ~~~(voltOverBit ||| voltUnderBit) } :=
        ⟨h.cur, congrArg (· &&& ~~~(voltOverBit ||| voltUnderBit)) h.faultBits, h.overcurDir⟩
      exact hcleared.autoRecover hs
    · refine .inr ⟨BitVec.zero_and, autoRecover_settled (.inr hcur) ?_⟩
      exact (congrArg (· &&& ~~~(voltOverBit ||| voltUnderBit)) hbits).trans BitVec.zero_and
  · exact h

theorem Cleared.polarityChg (hs : s = .stop ∨ s = .init) (h : Cleared s f dir sys) :
    Cleared s (polarityCleared d dir f) dir (branchIf d.answers d.bits sys .polarityChg) := by
  unfold branchIf polarityCleared
  by_cases hin : SysEvt.isIn .polarityChg d.bits = true
  · rw [if_pos hin]
    rcases h with h | ⟨rfl, hop⟩
    · obtain ⟨hcur, rfl, rfl⟩ := h
      simp only [System.branch, hin, true_and]
      split
      · have hcleared : Holds s (sys.faultBits &&& ~~~overCurrentBit) sys.overcurDir
            { sys with faultBits := sys.faultBits &&& ~~~overCurrentBit } := ⟨hcur, rfl, rfl⟩
        exact hcleared.autoRecover hs
      · exact .inl ⟨hcur, rfl, rfl⟩
    · have hnone : System.branch (d.answers .polarityChg) .polarityChg sys = (sys, []) := by
        simp [System.branch, hop.2]
      rw [hnone]
      exact .inr ⟨by simp, hop⟩
  · rw [if_neg hin, if_neg fun hall => hin hall.1]
    exact h

theorem Cleared.clear (hs : s = .stop ∨ s = .init) (h : Holds s f dir sys) :
    Cleared s (if SysEvt.isIn .recovery d.bits then 0 else polarityCleared d dir (voltCleared d f)) dir
      ([SysEvt.recovery, .voltNormal, .voltRecoverWait, .polarityChg].foldl (branchIf d.answers d.bits) sys) := by
  have hwait : ∀ sys, branchIf d.answers d.bits sys .voltRecoverWait = sys := fun sys => by
    unfold branchIf
    split <;> rfl
  have hzero : polarityCleared d dir (voltCleared d 0#32) = 0 := by
    simp [polarityCleared, voltCleared]
  have hall := (((h.recovery (d := d) hs).voltNormal (d := d) hs)).polarityChg (d := d) hs
  simp only [List.foldl_cons, List.foldl_nil, hwait]
  cases hrec : SysEvt.isIn .recovery d.bits <;> simpa [hrec, hzero] using hall

theorem branchIf_send {e : SysEvt} (he : e ∈ [SysEvt.initDone, .cmdWorkEnable, .stWorkError]) (sys : System) :
    (branchIf d.answers d.bits sys e).cur = (if e.isIn d.bits then next e sys.cur else sys.cur) ∧
      (branchIf d.answers d.bits sys e).faultBits = sys.faultBits := by
  have hsend : System.branch (d.answers e) e sys = send e sys := by
    simp only [List.mem_cons, List.not_mem_nil, or_false] at he
    rcases he with rfl | rfl | rfl <;> rfl
  unfold branchIf
  rw [hsend]
  split
  · exact ⟨send_cur e sys, rfl⟩
  · exact ⟨rfl, rfl⟩

/-- The bits reach an operating state exactly when the work starts and nothing stops it. -/
theorem Holds.start_iff (hs : s = .stop ∨ s = .init) (h : Holds s f dir sys) :
    Gate ([SysEvt.initDone, .cmdWorkEnable, .stWorkError].foldl (branchIf d.answers d.bits) sys) ↔
      ((s = .stop ∧ SysEvt.isIn .cmdWorkEnable d.bits ∨ s = .init ∧ SysEvt.isIn .initDone d.bits) →
        SysEvt.isIn .stWorkError d.bits = false → f = 0) := by
  obtain ⟨hinit, hf₁⟩ := branchIf_send (d := d) (e := .initDone) (by decide) sys
  obtain ⟨hwork, hf₂⟩ := branchIf_send (d := d) (e := .cmdWorkEnable) (by decide)
    (branchIf d.answers d.bits sys .initDone)
  obtain ⟨hstop, hf₃⟩ := branchIf_send (d := d) (e := .stWorkError) (by decide)
    (branchIf d.answers d.bits (branchIf d.answers d.bits sys .initDone) .cmdWorkEnable)
  simp only [List.foldl_cons, List.foldl_nil, Gate]
  rw [hf₃, hf₂, hf₁, hstop, hwork, hinit, h.faultBits, h.cur]
  rcases hs with rfl | rfl <;> cases SysEvt.isIn .initDone d.bits <;>
    cases SysEvt.isIn .cmdWorkEnable d.bits <;> cases SysEvt.isIn .stWorkError d.bits <;>
    simp [show next .initDone .stop = .stop by decide, show next .cmdWorkEnable .stop = .run by decide,
      show next .stWorkError .stop = .stop by decide, show next .stWorkError .run = .stop by decide,
      show next .initDone .init = .idle by decide, show next .cmdWorkEnable .idle = .run by decide,
      show next .stWorkError .idle = .stop by decide, show next .cmdWorkEnable .init = .init by decide,
      show next .stWorkError .init = .init by decide]

end

/-! ### Runs -/

theorem Gate.cases {sys : System} (h : Gate sys) (hcur : sys.cur ≠ .emergency) :
    Settled sys ∨ sys.cur = .stop ∨ sys.cur = .init := by
  cases hs : sys.cur with
  | init => exact .inr (.inr rfl)
  | stop => exact .inr (.inl rfl)
  | fault => exact .inl (.inl hs)
  | emergency => exact absurd hs hcur
  | idle | run =>
    refine .inl (.inr ⟨by simp [hs], ?_⟩)
    by_contra hbits
    simpa [hs] using h hbits

theorem Gate.dispatch_iff {sys : System} (h : Gate sys) (hcur : sys.cur ≠ .emergency) (d : Dispatch) :
    Gate (dispatch d.answers d.bits sys).1 ↔ StartsClean d sys := by
  rcases h.cases hcur with hset | hs
  · have hout : ¬(sys.cur = .stop ∧ SysEvt.isIn .cmdWorkEnable d.bits ∨
        sys.cur = .init ∧ SysEvt.isIn .initDone d.bits) := by
      rcases hset.cur_or with hs | hs | hs <;> simp [hs]
    rw [dispatch_fst]
    exact iff_of_true (hset.gate SysEvt.all.dropLast (by decide) d) fun hstart => absurd hstart hout
  · have hholds : Holds sys.cur sys.faultBits sys.overcurDir sys := ⟨rfl, rfl, rfl⟩
    have hclear := Cleared.clear (d := d) hs (hholds.raise (d := d) hs)
    have hsplit : SysEvt.all = raising ++
        [.recovery, .voltNormal, .voltRecoverWait, .polarityChg] ++
        [.initDone, .cmdWorkEnable, .stWorkError] := rfl
    rw [dispatch_fst, hsplit, List.foldl_append, List.foldl_append]
    rcases hclear with hclear | ⟨hzero, hop⟩
    · exact hclear.start_iff hs
    · exact iff_of_true (Settled.gate [.initDone, .cmdWorkEnable] (by decide) (.inr hop) d)
        fun _ _ => hzero

theorem dispatch_ne_emergency (a : SysEvt → Answers) (bits : BitVec 32) {sys : System} (h : sys.cur ≠ .emergency) :
    (dispatch a bits sys).1.cur ≠ .emergency := by
  have hfold : ∀ (es : List SysEvt) (sys : System), sys.cur ≠ .emergency →
      (es.foldl (branchIf a bits) sys).cur ≠ .emergency := by
    intro es
    induction es with
    | nil => exact fun _ h => h
    | cons e es ih =>
      intro sys h
      refine ih _ ?_
      unfold branchIf
      split
      · exact (branch_move _ _ h).ne_emergency h
      · exact h
  rw [dispatch_fst]
  exact hfold _ _ h

theorem runAll_concat (ds : List Dispatch) (d : Dispatch) (sys : System) :
    runAll (ds ++ [d]) sys = (dispatch d.answers d.bits (runAll ds sys)).1 := by
  simp [runAll]

theorem runAll_ne_emergency (ds : List Dispatch) : (runAll ds boot).cur ≠ .emergency := by
  induction ds using List.reverseRecOn with
  | nil => decide
  | append_singleton ds d ih =>
    rw [runAll_concat]
    exact dispatch_ne_emergency _ _ ih

/-- The gate holds after each dispatch of a sequence exactly when every dispatch of it starts clean. -/
theorem fault_gate_iff (ds : List Dispatch) :
    (∀ past, past <+: ds → Gate (runAll past boot)) ↔
      ∀ past d, past ++ [d] <+: ds → StartsClean d (runAll past boot) := by
  constructor
  · intro hgate past d hpre
    have hpast := hgate past ((List.prefix_append past [d]).trans hpre)
    have hnext := hgate (past ++ [d]) hpre
    rw [runAll_concat] at hnext
    exact (hpast.dispatch_iff (runAll_ne_emergency past) d).mp hnext
  · intro hclean past
    induction past using List.reverseRecOn with
    | nil => exact fun _ hbits => absurd rfl hbits
    | append_singleton past d ih =>
      intro hpre
      have hpast := ih ((List.prefix_append past [d]).trans hpre)
      rw [runAll_concat]
      exact (hpast.dispatch_iff (runAll_ne_emergency past) d).mpr (hclean past d hpre)

/-- The work starts, an error of it stops the system, an over-voltage is latched in STOP, and the work is
    enabled again: the system runs with the over-voltage bit. -/
theorem runs_with_latched_fault :
    let d (bits : BitVec 32) : Dispatch := ⟨fun _ => ⟨.ignored, .fwd⟩, bits⟩
    let sys := runAll [d (SysEvt.mask .initDone ||| SysEvt.mask .cmdWorkEnable), d (SysEvt.mask .stWorkError),
      d (SysEvt.mask .voltOver), d (SysEvt.mask .cmdWorkEnable)] boot
    sys.cur = .run ∧ sys.faultBits = voltOverBit ∧ ¬Gate sys := by
  refine ⟨by decide, by decide, fun hgate => ?_⟩
  exact (hgate (by decide)).2 (by decide)

end System

end RodActuator.Sys
