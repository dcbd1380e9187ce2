import RodActuator.Sys.Commanded

/-! The state before the fault. The first fault bit keeps the state that it found, and the recovery without a
    RECOVERY goes back to RUN if that was kept. A fault that brings no bit leaves the kept state as it was, and a
    bit that comes later finds FAULT. -/

namespace RodActuator.Sys

/-- The system with the last state in which it was neither in EMERGENCY nor in FAULT. -/
structure Traced where
  sys : System
  last : SysState

namespace Traced

def boot : Traced := ⟨System.boot, .init⟩

def branchIf (d : Dispatch) (t : Traced) (e : SysEvt) : Traced :=
  let sys := System.branchIf d.answers d.bits t.sys e
  ⟨sys, if sys.cur = .emergency ∨ sys.cur = .fault then t.last else sys.cur⟩

def dispatch (d : Dispatch) (t : Traced) : Traced := SysEvt.all.foldl (branchIf d) t

def runAll (ds : List Dispatch) (t : Traced) : Traced := ds.foldl (fun t d => dispatch d t) t

/-- What the branch of an event sees. -/
def seen (e : SysEvt) (d : Dispatch) (t : Traced) : Traced := (SysEvt.all.takeWhile (· ≠ e)).foldl (branchIf d) t

theorem foldl_sys (d : Dispatch) (es : List SysEvt) (t : Traced) :
    (es.foldl (branchIf d) t).sys = es.foldl (System.branchIf d.answers d.bits) t.sys := by
  induction es generalizing t with
  | nil => rfl
  | cons e es ih => exact ih _

theorem dispatch_sys (d : Dispatch) (t : Traced) : (dispatch d t).sys = (System.dispatch d.answers d.bits t.sys).1 := by
  rw [dispatch, foldl_sys, System.dispatch_fst]

theorem runAll_sys (ds : List Dispatch) (t : Traced) : (runAll ds t).sys = System.runAll ds t.sys := by
  induction ds generalizing t with
  | nil => rfl
  | cons d ds ih =>
    rw [runAll, List.foldl_cons, System.runAll, List.foldl_cons, ← dispatch_sys]
    exact ih _

end Traced

namespace System

/-- A dispatch that leads from IDLE or RUN to FAULT finds no fault bit and brings one, so that the state is
    kept; or a fault of the rod comes with it, which no recovery takes back; or the kept state is right
    already, and in RUN a bit still holds it. -/
def Recorded (d : Dispatch) (sys : System) : Prop :=
  sys.cur = .idle ∨ sys.cur = .run → (∃ e ∈ raising, Raises d e) →
    sys.faultBits = 0 ∧ (∃ e ∈ raising, brought d e ≠ 0) ∨ SysEvt.isIn .rodLimitFault d.bits ∨
      (sys.cur = .run ↔ sys.prevState = .run) ∧ (sys.cur = .run → sys.faultBits ≠ 0)

instance (d : Dispatch) (sys : System) : Decidable (Recorded d sys) := inferInstanceAs (Decidable (_ → _))

theorem raised_ne_zero {d : Dispatch} {f : BitVec 32} (h : f ≠ 0 ∨ ∃ e ∈ raising, brought d e ≠ 0) : raised d f ≠ 0 := by
  intro hzero
  have hall : f = 0 ∧ ∀ e ∈ raising, brought d e = 0 := by
    simpa [raised, raising, brought, BitVec.or_eq_zero_iff, and_assoc] using hzero
  rcases h with h | ⟨e, he, hb⟩
  · exact h hall.1
  · exact hb (hall.2 e he)

theorem rodLimitBit_iff (f : BitVec 32) : f &&& rodLimitBit ≠ 0 ↔ f.getLsbD 3 = true := by
  rw [rodLimitBit, BitVec.and_twoPow]
  cases f.getLsbD 3 <;> decide

theorem raised_rodLimit {d : Dispatch} {f : BitVec 32} (h : f &&& rodLimitBit ≠ 0 ∨ SysEvt.isIn .rodLimitFault d.bits) :
    raised d f &&& rodLimitBit ≠ 0 := by
  rw [rodLimitBit_iff] at h ⊢
  rcases h with h | h <;> simp [raised, h, rodLimitBit]

/-- Where no branch raises a fault, the state stays. -/
theorem raise_none {d : Dispatch} {es : List SysEvt} (hsub : es ⊆ raising) (h : ∀ e ∈ es, ¬Raises d e) (sys : System) :
    (es.foldl (branchIf d.answers d.bits) sys).cur = sys.cur := by
  induction es generalizing sys with
  | nil => rfl
  | cons e es ih =>
    obtain ⟨he, hes⟩ := List.cons_subset.mp hsub
    obtain ⟨h₁, h₂⟩ := List.forall_mem_cons.mp h
    rw [List.foldl_cons, ih hes h₂, (branchIf_raise he d sys).cur, if_neg h₁]

/-- Where no fault of the rod is raised, the first fault bit keeps the state that the dispatch began in. -/
theorem raise_prevState {d : Dispatch} (hrod : SysEvt.isIn .rodLimitFault d.bits = false) (sys : System) :
    (raising.foldl (branchIf d.answers d.bits) sys).prevState =
      if sys.faultBits = 0 ∧ ∃ e ∈ raising, brought d e ≠ 0 then sys.cur else sys.prevState := by
  have hfold : ∀ es ⊆ [SysEvt.overCurrent, .rodLimitFault, .voltOver, .voltUnder], ∀ sys : System,
      (es.foldl (branchIf d.answers d.bits) sys).prevState =
        if sys.faultBits = 0 ∧ ∃ e ∈ es, brought d e ≠ 0 then sys.cur else sys.prevState := by
    intro es hsub
    induction es with
    | nil => simp
    | cons e es ih =>
      intro sys
      obtain ⟨he, hes⟩ := List.cons_subset.mp hsub
      have hr := branchIf_raise (List.mem_append_left [.fault, .emergency] he) d sys
      rw [List.foldl_cons, ih hes, hr.prevState, hr.faultBits, hr.cur]
      by_cases hb : brought d e = 0#32
      · -- As long as no bit is brought, the bits and the state are those of the beginning.
        have hquiet : ¬Raises d e := by
          rintro (hbit | ⟨rfl | rfl, -⟩)
          · exact hbit hb
          · simp at he
          · simp at he
        simp [hb, hquiet]
      · have hne : e ≠ .rodLimitFault := by
          rintro rfl
          simp [brought, hrod] at hb
        simp [hb, hne, BitVec.or_eq_zero_iff]
  have hlast : ∀ e ∈ [SysEvt.fault, .emergency], ∀ sys : System,
      (branchIf d.answers d.bits sys e).prevState = sys.prevState := by
    intro e he sys
    have hr := branchIf_raise (List.mem_append_right [.overCurrent, .rodLimitFault, .voltOver, .voltUnder] he) d sys
    rw [hr.prevState, if_neg]
    simp only [List.mem_cons, List.not_mem_nil, or_false] at he
    rcases he with rfl | rfl <;> simp [brought]
  have hsplit : raising = [.overCurrent, .rodLimitFault, .voltOver, .voltUnder] ++ [.fault, .emergency] := rfl
  rw [hsplit, List.foldl_append, List.foldl_cons, List.foldl_cons, List.foldl_nil, hlast _ (by decide),
    hlast _ (by decide), hfold _ (List.Subset.refl _)]
  simp [brought]

/-- The two branches that take fault bits back leave that of the rod. -/
theorem branchIf_clears {e : SysEvt} (he : e = .voltNormal ∨ e = .polarityChg) (d : Dispatch) (sys : System) :
    branchIf d.answers d.bits sys e = sys ∨ ∃ mask : BitVec 32, mask &&& rodLimitBit = rodLimitBit ∧
      branchIf d.answers d.bits sys e = (autoRecover { sys with faultBits := sys.faultBits &&& mask }).1 := by
  by_cases hin : e.isIn d.bits = true
  · have hbranch : branchIf d.answers d.bits sys e = (branch (d.answers e) e sys).1 := if_pos hin
    rw [hbranch]
    rcases he with rfl | rfl
    · exact .inr ⟨_, by decide, rfl⟩
    · simp only [branch]
      split
      · exact .inr ⟨_, by decide, rfl⟩
      · exact .inl rfl
  · exact .inl (if_neg hin)

/-- A branch that raises no fault and ends in FAULT began there, and it keeps what the recovery will read. -/
theorem branchIf_to_fault {d : Dispatch} {e : SysEvt} {sys : System} (he : e ∉ raising)
    (h : (branchIf d.answers d.bits sys e).cur = .fault) :
    sys.cur = .fault ∧ (branchIf d.answers d.bits sys e).prevState = sys.prevState ∧
      (branchIf d.answers d.bits sys e).faultBits &&& rodLimitBit = sys.faultBits &&& rodLimitBit ∧
      ((branchIf d.answers d.bits sys e).faultBits = sys.faultBits ∨
        (branchIf d.answers d.bits sys e).faultBits ≠ 0) := by
  by_cases hclear : e = .voltNormal ∨ e = .polarityChg
  · rcases branchIf_clears hclear d sys with hsame | ⟨mask, hmask, hauto⟩
    · rw [hsame] at h ⊢
      exact ⟨h, rfl, rfl, .inl rfl⟩
    · rw [hauto] at h ⊢
      obtain ⟨hcur, hbits⟩ := autoRecover_to_fault h
      rw [autoRecover_prevState, autoRecover_faultBits]
      refine ⟨hcur, rfl, ?_, .inr hbits⟩
      rw [BitVec.and_assoc, hmask]
  by_cases hin : e.isIn d.bits = true
  · unfold branchIf at h ⊢
    rw [if_pos hin] at h ⊢
    cases e with
    | recovery =>
      exfalso
      simp only [branch, send_cur] at h
      revert h
      cases sys.cur <;> decide
    | voltRecoverWait => exact ⟨h, rfl, rfl, .inl rfl⟩
    | initDone | cmdWorkEnable | stWorkError =>
      simp only [branch, send_cur] at h
      refine ⟨?_, rfl, rfl, .inl rfl⟩
      revert h
      cases sys.cur <;> decide
    | voltNormal => exact absurd (.inl rfl) hclear
    | polarityChg => exact absurd (.inr rfl) hclear
    | overCurrent | rodLimitFault | voltOver | voltUnder | fault | emergency => exact absurd (by decide) he
  · rw [branchIf, if_neg hin] at h ⊢
    exact ⟨h, rfl, rfl, .inl rfl⟩

end System

namespace Traced

/-- The kept state is that before the fault, or a fault of the rod holds the system in FAULT. -/
def Kept (t : Traced) : Prop :=
  t.sys.faultBits &&& rodLimitBit ≠ 0 ∨
    (t.last = .run ↔ t.sys.prevState = .run) ∧ (t.last = .run → t.sys.faultBits ≠ 0)

/-- Outside FAULT the last state is the current one. -/
structure Sane (t : Traced) : Prop where
  ne_emergency : t.sys.cur ≠ .emergency
  last : t.sys.cur ≠ .fault → t.last = t.sys.cur

section
variable {d : Dispatch} {t : Traced} {e : SysEvt}

theorem branchIf_last (hfault : (branchIf d t e).sys.cur = .fault) : (branchIf d t e).last = t.last := if_pos (.inr hfault)

theorem Sane.branchIf (h : Sane t) : Sane (branchIf d t e) := by
  have hcur : (Traced.branchIf d t e).sys.cur ≠ .emergency := by
    unfold Traced.branchIf System.branchIf
    split
    · exact (System.branch_move _ _ h.ne_emergency).ne_emergency h.ne_emergency
    · exact h.ne_emergency
  exact ⟨hcur, fun hfault => if_neg (not_or.mpr ⟨hcur, hfault⟩)⟩

theorem Sane.foldl (h : Sane t) (es : List SysEvt) : Sane (es.foldl (Traced.branchIf d) t) := by
  induction es generalizing t with
  | nil => exact h
  | cons e es ih => exact ih h.branchIf

/-- A dispatch that raises faults up to FAULT began in a state with rows for them. -/
theorem Sane.before_fault (h : Sane t)
    (hfault : (System.raising.foldl (System.branchIf d.answers d.bits) t.sys).cur = .fault) :
    t.sys.cur = .fault ∨ t.sys.cur = .idle ∨ t.sys.cur = .run := by
  by_contra hnot
  have hquiet : t.sys.cur = .stop ∨ t.sys.cur = .init := by
    have hem := h.ne_emergency
    revert hnot hem
    cases t.sys.cur <;> simp
  have hkeep := System.raise_cur (fun e => System.next_quiet hquiet) d (List.Subset.refl _) t.sys rfl
  exact hnot (.inl (hkeep.symm.trans hfault))

/-- The raising branches keep the last state, in FAULT and on the way to it. -/
theorem Sane.raise_last (h : Sane t) (hs : t.sys.cur = .fault ∨ t.sys.cur = .idle ∨ t.sys.cur = .run) {es : List SysEvt}
    (hsub : es ⊆ System.raising) : (es.foldl (Traced.branchIf d) t).last = t.last := by
  induction es generalizing t with
  | nil => rfl
  | cons e es ih =>
    obtain ⟨he, hes⟩ := List.cons_subset.mp hsub
    have hcur := (System.branchIf_raise he d t.sys).cur
    rw [System.next_fault hs he] at hcur
    have hone : (Traced.branchIf d t e).last = t.last := by
      by_cases hfault : (Traced.branchIf d t e).sys.cur = .fault
      · exact branchIf_last hfault
      · have hsame : (Traced.branchIf d t e).sys.cur = t.sys.cur := by
          split at hcur
          · exact absurd hcur hfault
          · exact hcur
        rw [h.branchIf.last hfault, hsame]
        exact (h.last fun ht => hfault (hsame.trans ht)).symm
    rw [List.foldl_cons, ih h.branchIf ?_ hes, hone]
    split at hcur
    · exact .inl hcur
    · exact hcur ▸ hs

theorem Kept.branchIf (h : t.Kept) (he : e ∉ System.raising) (hfault : (branchIf d t e).sys.cur = .fault) :
    (Traced.branchIf d t e).Kept := by
  obtain ⟨-, hprev, hrod, hbits⟩ := System.branchIf_to_fault he hfault
  rcases h with h | ⟨hrun, hne⟩
  · exact .inl (hrod ▸ h)
  · refine .inr ?_
    rw [branchIf_last hfault]
    refine ⟨hprev ▸ hrun, fun hlast => ?_⟩
    rcases hbits with hbits | hbits
    · exact hbits ▸ hne hlast
    · exact hbits

/-- Sane, and in FAULT with the right state kept. -/
structure Inv (t : Traced) : Prop extends Sane t where
  kept : t.sys.cur = .fault → t.Kept

theorem Inv.foldl (h : Inv t) (es : List SysEvt) (hes : ∀ e ∈ es, e ∉ System.raising) :
    Inv (es.foldl (Traced.branchIf d) t) := by
  induction es generalizing t with
  | nil => exact h
  | cons e es ih =>
    obtain ⟨he, hes⟩ := List.forall_mem_cons.mp hes
    refine ih ⟨h.toSane.branchIf, fun hfault => ?_⟩ hes
    exact (h.kept (System.branchIf_to_fault he hfault).1).branchIf he hfault

/-- Before the faults of a dispatch are raised: a fault of the rod holds, or the first bit will keep the last
    state, or it is kept already. -/
theorem Inv.recorded (h : Inv t) (hrec : System.Recorded d t.sys) (hrod : SysEvt.isIn .rodLimitFault d.bits = false)
    (hfault : (System.raising.foldl (System.branchIf d.answers d.bits) t.sys).cur = .fault) :
    t.sys.faultBits &&& rodLimitBit ≠ 0 ∨
      (t.sys.faultBits = 0 ∧ ∃ e ∈ System.raising, System.brought d e ≠ 0) ∧ (t.last = .run ↔ t.sys.cur = .run) ∨
      (t.last = .run ↔ t.sys.prevState = .run) ∧ (t.last = .run → t.sys.faultBits ≠ 0) := by
  by_cases hcur : t.sys.cur = .fault
  · exact (h.kept hcur).imp_right .inr
  · have hs : t.sys.cur = .idle ∨ t.sys.cur = .run := (h.before_fault hfault).resolve_left hcur
    have hraises : ∃ e ∈ System.raising, System.Raises d e := by
      by_contra hnone
      refine hcur ((System.raise_none (List.Subset.refl _) ?_ t.sys).symm.trans hfault)
      exact fun e he hr => hnone ⟨e, he, hr⟩
    rw [h.last hcur]
    rcases hrec hs hraises with hfirst | hrod' | hkept
    · exact .inr (.inl ⟨hfirst, Iff.rfl⟩)
    · rw [hrod] at hrod'
      cases hrod'
    · exact .inr (.inr hkept)

theorem Inv.raise (h : Inv t) (hrec : System.Recorded d t.sys) : Inv (System.raising.foldl (Traced.branchIf d) t) := by
  refine ⟨h.toSane.foldl _, fun hfault => ?_⟩
  rw [foldl_sys] at hfault
  have hlast := h.toSane.raise_last (d := d) (h.before_fault hfault) (List.Subset.refl _)
  have hbits := (System.raise_bits d t.sys).1
  unfold Kept
  rw [hlast, foldl_sys, hbits]
  cases hrod : SysEvt.isIn .rodLimitFault d.bits with
  | true => exact .inl (System.raised_rodLimit (.inr hrod))
  | false =>
    rw [System.raise_prevState hrod]
    have hrun : t.sys.cur = .run → t.last = .run := fun hcur => (h.last (by simp [hcur])).trans hcur
    rcases h.recorded hrec hrod hfault with hold | ⟨hfirst, hcur⟩ | ⟨hprev, hne⟩
    · exact .inl (System.raised_rodLimit (.inl hold))
    · rw [if_pos hfirst]
      exact .inr ⟨hcur, fun _ => System.raised_ne_zero (.inr hfirst.2)⟩
    · refine .inr ⟨?_, fun hl => System.raised_ne_zero (.inl (hne hl))⟩
      split
      · rename_i hfirst
        exact ⟨fun hl => absurd hfirst.1 (hne hl), hrun⟩
      · exact hprev

theorem Inv.dispatch (h : Inv t) (hrec : System.Recorded d t.sys) : Inv (dispatch d t) := by
  have hsplit : SysEvt.all = System.raising ++ [.recovery, .voltNormal, .voltRecoverWait, .polarityChg, .initDone,
    .cmdWorkEnable, .stWorkError] := rfl
  rw [Traced.dispatch, hsplit, List.foldl_append]
  exact (h.raise hrec).foldl _ (by decide)

theorem Inv.runAll {ds : List Dispatch}
    (hrec : ∀ past d, past ++ [d] <+: ds → System.Recorded d (System.runAll past System.boot)) :
    Inv (Traced.runAll ds boot) := by
  induction ds using List.reverseRecOn with
  | nil => exact ⟨⟨by decide, fun _ => rfl⟩, fun hfault => absurd hfault (by decide)⟩
  | append_singleton ds d ih =>
    have hds := ih fun past d' hpre => hrec past d' (hpre.trans (List.prefix_append _ _))
    have hlast := hrec ds d (List.prefix_refl _)
    rw [Traced.runAll, List.foldl_append]
    exact hds.dispatch (by rwa [runAll_sys])

end

end Traced

namespace System

/-- The branch that leaves FAULT takes the last bit back and goes by the kept state. -/
theorem branchIf_recovers {d : Dispatch} {e : SysEvt} {sys : System} (h : sys.cur = .fault)
    (he : e = .voltNormal ∨ e = .polarityChg) (hleaves : (branchIf d.answers d.bits sys e).cur ≠ .fault) :
    (branchIf d.answers d.bits sys e).cur = (if sys.prevState = .run then .run else .idle) ∧
      (branchIf d.answers d.bits sys e).faultBits = 0 ∧ sys.faultBits &&& rodLimitBit = 0 := by
  rcases branchIf_clears he d sys with hsame | ⟨mask, hmask, hauto⟩
  · rw [hsame] at hleaves
    exact absurd h hleaves
  · rw [hauto] at hleaves ⊢
    have hcur : cur { sys with faultBits := sys.faultBits &&& mask } = .fault := h
    have hbits := not_not.mp (mt (autoRecover_stays_iff _ hcur).mpr hleaves)
    rw [autoRecover_fault hcur, autoRecover_faultBits, if_neg (not_not.mpr hbits), ← hmask, ← BitVec.and_assoc]
    refine ⟨rfl, hbits, ?_⟩
    exact (congrArg (· &&& rodLimitBit) hbits).trans BitVec.zero_and

theorem Operating.rest_step {d : Dispatch} (hwork : SysEvt.isIn .cmdWorkEnable d.bits = false)
    (herror : SysEvt.isIn .stWorkError d.bits = false) {e : SysEvt}
    (he : e ∈ [SysEvt.voltRecoverWait, .polarityChg, .initDone, .cmdWorkEnable, .stWorkError]) {sys : System}
    (h : Operating sys) : (branchIf d.answers d.bits sys e).cur = sys.cur ∧
      (branchIf d.answers d.bits sys e).faultBits = sys.faultBits := by
  unfold branchIf
  split
  · rename_i hin
    simp only [List.mem_cons, List.not_mem_nil, or_false] at he
    rcases he with rfl | rfl | rfl | rfl | rfl
    · exact ⟨rfl, rfl⟩
    · simp [branch, h.2]
    · refine ⟨?_, rfl⟩
      simp only [branch, send_cur]
      rcases h.1 with hcur | hcur <;> rw [hcur] <;> decide
    · simp [hwork] at hin
    · simp [herror] at hin
  · exact ⟨rfl, rfl⟩

/-- Without a fault bit and without a command, the branches after the recovery do nothing. -/
theorem Operating.rest {d : Dispatch} (hwork : SysEvt.isIn .cmdWorkEnable d.bits = false)
    (herror : SysEvt.isIn .stWorkError d.bits = false) {es : List SysEvt}
    (hsub : es ⊆ [SysEvt.voltRecoverWait, .polarityChg, .initDone, .cmdWorkEnable, .stWorkError]) {sys : System}
    (h : Operating sys) : (es.foldl (branchIf d.answers d.bits) sys).cur = sys.cur := by
  induction es generalizing sys with
  | nil => rfl
  | cons e es ih =>
    obtain ⟨he, hes⟩ := List.cons_subset.mp hsub
    obtain ⟨hcur, hbits⟩ := h.rest_step hwork herror he
    rw [List.foldl_cons, ih hes ⟨hcur ▸ h.1, hbits ▸ h.2⟩, hcur]

end System

namespace Traced

/-- Where every dispatch that leads to FAULT is recorded, a recovery by itself leads back to the state before. -/
theorem auto_recovery_returns {ds : List Dispatch} {d : Dispatch} {e : SysEvt}
    (hrec : ∀ past d', past ++ [d'] <+: ds ++ [d] → System.Recorded d' (System.runAll past System.boot))
    (hmask : ∀ e ∈ [SysEvt.recovery, .cmdWorkEnable, .stWorkError], e.isIn d.bits = false)
    (he : e = .voltNormal ∨ e = .polarityChg) (hfault : (seen e d (runAll ds boot)).sys.cur = .fault)
    (hleaves : (branchIf d (seen e d (runAll ds boot)) e).sys.cur ≠ .fault) :
    (System.runAll (ds ++ [d]) System.boot).cur =
      if (seen e d (runAll ds boot)).last = .run then .run else .idle := by
  have hinv : Inv (runAll ds boot) := .runAll fun past d' hpre => hrec past d' (hpre.trans (List.prefix_append _ _))
  have hrecd : System.Recorded d (runAll ds boot).sys := by
    rw [runAll_sys]
    exact hrec ds d (List.prefix_refl _)
  rw [System.runAll_concat, System.dispatch_fst]
  have hsys : System.runAll ds System.boot = (runAll ds boot).sys := (runAll_sys ds boot).symm
  rw [hsys]
  -- The branches before the recovery, the recovery and those after it.
  have hseen : Inv (seen e d (runAll ds boot)) := by
    rcases he with rfl | rfl
    · exact (hinv.raise hrecd).foldl [.recovery] (by decide)
    · exact (hinv.raise hrecd).foldl [.recovery, .voltNormal, .voltRecoverWait] (by decide)
  have hsplit : ∃ rest, rest ⊆ [SysEvt.voltRecoverWait, .polarityChg, .initDone, .cmdWorkEnable, .stWorkError] ∧
      SysEvt.all = SysEvt.all.takeWhile (· ≠ e) ++ e :: rest := by
    rcases he with rfl | rfl
    · exact ⟨[.voltRecoverWait, .polarityChg, .initDone, .cmdWorkEnable, .stWorkError], by decide, by decide⟩
    · exact ⟨[.initDone, .cmdWorkEnable, .stWorkError], by decide, by decide⟩
  obtain ⟨rest, hrest, hall⟩ := hsplit
  rw [hall, List.foldl_append, List.foldl_cons]
  have hsee : (SysEvt.all.takeWhile (· ≠ e)).foldl (System.branchIf d.answers d.bits) (runAll ds boot).sys =
    (seen e d (runAll ds boot)).sys := (foldl_sys d _ _).symm
  rw [hsee]
  generalize seen e d (runAll ds boot) = t at hseen hfault hleaves
  obtain ⟨hcur, hbits, hrod⟩ := System.branchIf_recovers hfault he hleaves
  have hop : System.Operating (System.branchIf d.answers d.bits t.sys e) := by
    refine ⟨?_, hbits⟩
    rw [hcur]
    split <;> simp
  rw [hop.rest (hmask _ (by decide)) (hmask _ (by decide)) hrest, hcur]
  have hkept := (hseen.kept hfault).resolve_left (not_not.mpr hrod)
  exact if_congr hkept.1.symm rfl rfl

/-- An over-voltage in RUN that goes again. -/
theorem auto_recovery_returns_to_run :
    let d (bits : BitVec 32) : Dispatch := ⟨fun _ => ⟨.ignored, .fwd⟩, bits⟩
    let ds := [d (SysEvt.mask .initDone ||| SysEvt.mask .cmdWorkEnable), d (SysEvt.mask .voltOver)]
    (System.runAll (ds ++ [d (SysEvt.mask .voltNormal)]) System.boot).cur = .run := by
  intro d ds
  have hrec : ∀ past d', past ++ [d'] <+: ds ++ [d (SysEvt.mask .voltNormal)] →
      System.Recorded d' (System.runAll past System.boot) := by
    rintro (_ | ⟨x, _ | ⟨y, _ | ⟨z, past⟩⟩⟩) d' hpre <;> simp [ds, List.cons_prefix_cons] at hpre
    · subst hpre
      decide
    · obtain ⟨rfl, rfl⟩ := hpre
      decide
    · obtain ⟨rfl, rfl, rfl⟩ := hpre
      decide
  exact (auto_recovery_returns (e := .voltNormal) hrec (by decide) (.inl rfl) (by decide) (by decide)).trans (by decide)

/-- A fault is commanded in RUN and an over-voltage comes and goes in FAULT: the kept state is FAULT, and the
    system recovers to IDLE. -/
theorem auto_recovery_misses_run :
    let d (bits : BitVec 32) : Dispatch := ⟨fun _ => ⟨.ignored, .fwd⟩, bits⟩
    let ds := [d (SysEvt.mask .initDone ||| SysEvt.mask .cmdWorkEnable), d (SysEvt.mask .fault),
      d (SysEvt.mask .voltOver)]
    let volt := d (SysEvt.mask .voltNormal)
    (∀ e ∈ [SysEvt.recovery, .cmdWorkEnable, .stWorkError], e.isIn volt.bits = false) ∧
      (seen .voltNormal volt (runAll ds boot)).sys.cur = .fault ∧
      (branchIf volt (seen .voltNormal volt (runAll ds boot)) .voltNormal).sys.cur ≠ .fault ∧
      (seen .voltNormal volt (runAll ds boot)).last = .run ∧
      (System.runAll (ds ++ [volt]) System.boot).cur = .idle := by
  decide

end Traced

end RodActuator.Sys
