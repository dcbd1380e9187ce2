import RodActuator.Lib.Alternation
import RodActuator.Rod.State

/-! The notices of the limits, along every run of the rod state machine. That a limit is left by the opposite
    command alone, into the state that releases it, is read off the jump table; so the flags show the limit that
    the rod is at, and the notices come in turn. -/

namespace RodActuator.Rod
open StateEngine Arb Alternation

namespace RodStateCtx

def limitSent (d : Dir) (ctx : RodStateCtx) : Bool :=
  match d with
  | .fwd => ctx.limitExtSent
  | .rev => ctx.limitRetSent

/-- The event of a limit that is reached. -/
def limitEvent : Dir → RodOut
  | .fwd => .limitExtend
  | .rev => .limitRetract

/-- The rod is at no limit. -/
def Free (s : RodState) : Prop := ∀ d, s ≠ limitState d

instance (s : RodState) : Decidable (Free s) := inferInstanceAs (Decidable (∀ _, _))

/-- The state in which a limit is left. -/
def awayFrom : Dir → RodState
  | .fwd => .retracting
  | .rev => .extending

/-! ### One update -/

/-- All that an update can do to the flags, and what it sends. -/
inductive Notice (s s' : RodState) (ctx ctx' : RodStateCtx) (outs : List RodOut) : Prop where
  | free (hfrom : Free s) (hto : Free s') (hsent : ∀ d, ctx'.limitSent d = ctx.limitSent d) (houts : outs = [])
  | enter (d : Dir) (hfrom : Free s) (hto : s' = limitState d)
      (hsent : ∀ d', ctx'.limitSent d' = true ↔ d' = d ∨ ctx.limitSent d' = true)
      (houts : outs = (if ctx.limitSent d then [] else [limitEvent d]) ++ atLimit d true)
  | stay (d : Dir) (hfrom : s = limitState d) (hto : s' = limitState d)
      (hsent : ∀ d, ctx'.limitSent d = ctx.limitSent d) (houts : outs = atLimit d false)
  | leave (d : Dir) (hfrom : s = limitState d) (hto : Free s')
      (hsent : ∀ d', ctx'.limitSent d' = true ↔ d' ≠ d ∧ ctx.limitSent d' = true) (houts : outs = released d)

@[simp] theorem move_limitExtSent (tick : BitVec 32) (restart : Bool) (ctx : RodStateCtx) :
    (ctx.move tick restart).limitExtSent = ctx.limitExtSent := by
  unfold move
  split <;> rfl

@[simp] theorem move_limitRetSent (tick : BitVec 32) (restart : Bool) (ctx : RodStateCtx) :
    (ctx.move tick restart).limitRetSent = ctx.limitRetSent := by
  unfold move
  split <;> rfl

section
variable (F : Binary32) (pos : Position) (dir : RodDirection) (tick : BitVec 32) (m : Machine RodState)
  (ctx : RodStateCtx)

theorem update_limit {d : Dir} (hfrom : m.curState = limitState d) :
    (update F pos dir tick m ctx).1.curState = limitState d ∨
      (update F pos dir tick m ctx).1.curState = awayFrom d := by
  rw [update_curState, hfrom]
  cases d with
  | fwd => exact target_limit .fwd _
  | rev => exact target_limit .rev _

/-- A rod that comes into a state other than a limit and the one away from it does not come from the limit. -/
theorem update_not_from {d : Dir} {s : RodState} (hcur : (update F pos dir tick m ctx).1.curState = s)
    (hne : s ≠ limitState d) (haway : s ≠ awayFrom d) : m.curState ≠ limitState d := fun hfrom => by
  rcases update_limit F pos dir tick m ctx hfrom with h | h
  · exact hne (hcur.symm.trans h)
  · exact haway (hcur.symm.trans h)

theorem update_notice : Notice m.curState (update F pos dir tick m ctx).1.curState ctx (update F pos dir tick m ctx).2.1
    (update F pos dir tick m ctx).2.2 := by
  cases hcur : (update F pos dir tick m ctx).1.curState with
  | extending =>
    have hfrom : m.curState ≠ limitState .fwd := update_not_from F pos dir tick m ctx hcur (by decide) (by decide)
    rw [update_fst] at hcur
    by_cases hprev : m.curState = .retLimit
    · refine .leave .rev hprev (by decide) (fun d => ?_) ?_ <;> simp only [update, hcur, if_pos hprev]
      cases d <;> simp [limitSent]
    · refine .free (Dir.forall.mpr ⟨hfrom, hprev⟩) (by decide) (fun d => ?_) ?_ <;>
        simp only [update, hcur, if_neg hprev]
      cases d <;> simp [limitSent]
  | retracting =>
    have hfrom : m.curState ≠ limitState .rev := update_not_from F pos dir tick m ctx hcur (by decide) (by decide)
    rw [update_fst] at hcur
    by_cases hprev : m.curState = .extLimit
    · refine .leave .fwd hprev (by decide) (fun d => ?_) ?_ <;> simp only [update, hcur, if_pos hprev]
      cases d <;> simp [limitSent]
    · refine .free (Dir.forall.mpr ⟨hprev, hfrom⟩) (by decide) (fun d => ?_) ?_ <;>
        simp only [update, hcur, if_neg hprev]
      cases d <;> simp [limitSent]
  | extLimit =>
    have hfrom : m.curState ≠ limitState .rev := update_not_from F pos dir tick m ctx hcur (by decide) (by decide)
    rw [update_fst] at hcur
    by_cases hprev : m.curState = .extLimit
    · refine .stay .fwd hprev rfl (fun d => ?_) ?_ <;> simp only [update, hcur, if_pos hprev]
      cases d <;> rfl
    · refine .enter .fwd (Dir.forall.mpr ⟨hprev, hfrom⟩) rfl (fun d => ?_) ?_ <;> simp only [update, hcur, if_neg hprev]
      · cases d <;> simp [limitSent]
      · rfl
  | retLimit =>
    have hfrom : m.curState ≠ limitState .fwd := update_not_from F pos dir tick m ctx hcur (by decide) (by decide)
    rw [update_fst] at hcur
    by_cases hprev : m.curState = .retLimit
    · refine .stay .rev hprev rfl (fun d => ?_) ?_ <;> simp only [update, hcur, if_pos hprev]
      cases d <;> rfl
    · refine .enter .rev (Dir.forall.mpr ⟨hfrom, hprev⟩) rfl (fun d => ?_) ?_ <;> simp only [update, hcur, if_neg hprev]
      · cases d <;> simp [limitSent]
      · rfl
  | unknown | stopped | extFault | retFault =>
    have hfrom : Free m.curState := fun d => update_not_from F pos dir tick m ctx hcur (by cases d <;> decide)
      (by cases d <;> decide)
    rw [update_fst] at hcur
    refine .free hfrom (by decide) (fun d => ?_) ?_ <;> simp only [update, hcur]
    cases d <;> rfl

end

/-! ### Runs -/

/-- What an update finds: the calibration request left since the last one, the position, the direction and the time. -/
structure Input where
  calibReq : RodCalibReq
  pos : Position
  dir : RodDirection
  tick : BitVec 32

/-- The state machine, and what it has sent so far. -/
structure Logged where
  sm : Machine RodState
  ctx : RodStateCtx
  log : List RodOut

section
variable (F : Binary32) (past : List Input) (i : Input)

def feed (r : Logged) : Machine RodState × RodStateCtx × List RodOut :=
  update F i.pos i.dir i.tick r.sm { r.ctx with calibReq := i.calibReq }

/-- After `RodState_Init` and the updates `past`. -/
def after : Logged :=
  past.foldl (fun r i => ⟨(feed F i r).1, (feed F i r).2.1, r.log ++ (feed F i r).2.2⟩) ⟨⟨.unknown, .unknown⟩, init, []⟩

def sends : List RodOut := (feed F i (after F past)).2.2

def isNotice : RodOut → Bool
  | .arbSendCommand _ => false
  | _ => true

/-- The notices of a run in order. -/
def notices : List RodOut := (after F past).log.filter isNotice

theorem after_concat : after F (past ++ [i]) = ⟨(feed F i (after F past)).1, (feed F i (after F past)).2.1,
    (after F past).log ++ sends F past i⟩ := by
  rw [after, List.foldl_append]
  rfl

theorem notices_concat : notices F (past ++ [i]) = notices F past ++ (sends F past i).filter isNotice := by
  rw [notices, after_concat, List.filter_append]
  rfl

theorem after_notice : Notice (after F past).sm.curState (after F (past ++ [i])).sm.curState (after F past).ctx
    (after F (past ++ [i])).ctx (sends F past i) := by
  rw [after_concat]
  have hsame : ∀ d, limitSent d { (after F past).ctx with calibReq := i.calibReq } = limitSent d (after F past).ctx := by
    intro d
    cases d <;> rfl
  cases update_notice F i.pos i.dir i.tick (after F past).sm { (after F past).ctx with calibReq := i.calibReq } with
  | free hfrom hto hsent houts => exact .free hfrom hto (fun d => (hsent d).trans (hsame d)) houts
  | enter d hfrom hto hsent houts =>
    refine .enter d hfrom hto (fun d' => ?_) ?_
    · rw [← hsame]
      exact hsent d'
    · rw [← hsame]
      exact houts
  | stay d hfrom hto hsent houts => exact .stay d hfrom hto (fun d => (hsent d).trans (hsame d)) houts
  | leave d hfrom hto hsent houts =>
    refine .leave d hfrom hto (fun d' => ?_) houts
    rw [← hsame]
    exact hsent d'

theorem limitState_inj {d d' : Dir} : limitState d = limitState d' ↔ d = d' := by
  cases d <;> cases d' <;> decide

/-- The flags show the limit that the rod is at. -/
theorem limitSent_after (d : Dir) :
    (after F past).ctx.limitSent d = true ↔ (after F past).sm.curState = limitState d := by
  induction past using List.reverseRecOn generalizing d with
  | nil => cases d <;> simp [after, init, limitSent, limitState]
  | append_singleton past i ih =>
    cases after_notice F past i with
    | free hfrom hto hsent =>
      rw [hsent, ih]
      exact iff_of_false (hfrom d) (hto d)
    | stay d' hfrom hto hsent => rw [hsent, ih, hfrom, hto]
    | enter d' hfrom hto hsent =>
      rw [hsent, ih, hto, limitState_inj]
      exact ⟨fun h => (h.resolve_right (hfrom d)).symm, fun h => .inl h.symm⟩
    | leave d' hfrom hto hsent =>
      rw [hsent, ih, hfrom, limitState_inj]
      exact iff_of_false (fun h => h.1 h.2.symm) (hto d)

/-- The notices come in turn, and a limit is open while the rod is at one. -/
theorem notices_alternate : Alternates (· = .limitReleased) (notices F past) ∧
    (Closed (· = .limitReleased) (notices F past) ↔ Free (after F past).sm.curState) := by
  induction past using List.reverseRecOn with
  | nil => exact ⟨alternates_nil _, iff_of_true (closed_nil _) (by simp [after, Free, Dir.forall, limitState])⟩
  | append_singleton past i ih =>
    obtain ⟨halternates, hclosed⟩ := ih
    rw [notices_concat]
    cases after_notice F past i with
    | free hfrom hto hsent houts =>
      rw [houts, List.filter_nil, List.append_nil]
      exact ⟨halternates, iff_of_true (hclosed.mpr hfrom) hto⟩
    | stay d hfrom hto hsent houts =>
      have hopen : ¬Free (after F past).sm.curState := fun h => h d hfrom
      have hopen' : ¬Free (after F (past ++ [i])).sm.curState := fun h => h d hto
      have hnone : (atLimit d false).filter isNotice = [] := rfl
      rw [houts, hnone, List.append_nil]
      exact ⟨halternates, iff_of_false (mt hclosed.mp hopen) hopen'⟩
    | enter d hfrom hto hsent houts =>
      have hnew : (after F past).ctx.limitSent d = false := by
        rw [← Bool.not_eq_true, limitSent_after]
        exact hfrom d
      have hopen' : ¬Free (after F (past ++ [i])).sm.curState := fun h => h d hto
      have hlimit : limitEvent d ≠ .limitReleased := by cases d <;> decide
      have hone : (sends F past i).filter isNotice = [limitEvent d] := by
        rw [houts, hnew]
        cases d <;> rfl
      rw [hone, closed_concat]
      refine ⟨halternates.concat ?_, iff_of_false hlimit hopen'⟩
      exact iff_of_false hlimit (not_not.mpr (hclosed.mpr hfrom))
    | leave d hfrom hto hsent houts =>
      have hopen : ¬Free (after F past).sm.curState := fun h => h d hfrom
      have hone : (released d).filter isNotice = [.limitReleased] := rfl
      rw [houts, hone]
      refine ⟨halternates.concat (iff_of_true rfl (mt hclosed.mp hopen)), ?_⟩
      rw [closed_concat]
      exact iff_of_true rfl hto

/-- A release comes with the command that takes the block of the limit back, and is all that the update sends. -/
theorem sends_released_iff : .limitReleased ∈ sends F past i ↔
    ∃ d, (after F past).sm.curState = limitState d ∧ (after F (past ++ [i])).sm.curState ≠ limitState d ∧
      sends F past i = [.limitReleased, .arbSendCommand (limitCommand d d.unblock)] := by
  constructor
  · intro hin
    cases after_notice F past i with
    | free _ _ _ houts => simp [houts] at hin
    | stay d _ _ _ houts => simp [houts, atLimit] at hin
    | enter d _ _ _ houts =>
      rw [houts] at hin
      cases d <;> split at hin <;> simp [atLimit, limitEvent] at hin
    | leave d hfrom hto _ houts => exact ⟨d, hfrom, hto d, houts⟩
  · rintro ⟨d, -, -, houts⟩
    rw [houts]
    exact List.mem_cons_self

/-- The block of a direction is sent at the limit of it. -/
theorem sends_block_iff (d : Dir) : (∃ msg, .arbSendCommand msg ∈ sends F past i ∧ msg.cmdType = d.block) ↔
    (after F (past ++ [i])).sm.curState = limitState d := by
  have hatLimit : ∀ d' edge, .arbSendCommand (limitCommand d' d'.block) ∈ atLimit d' edge := by
    intro d' edge
    exact List.mem_append_right _ List.mem_cons_self
  constructor
  · rintro ⟨msg, hin, hblock⟩
    have hsends := update_sends F i.pos i.dir i.tick (after F past).sm { (after F past).ctx with calibReq := i.calibReq } hin
    rw [after_concat]
    cases hsends with
    | block d' h =>
      obtain rfl : d' = d := by cases d <;> cases d' <;> first | rfl | cases hblock
      exact h
    | unblock d' h => cases d <;> cases d' <;> cases hblock
    | clearAllow d' => cases d <;> cases d' <;> cases hblock
  · intro hto
    refine ⟨limitCommand d d.block, ?_, rfl⟩
    cases after_notice F past i with
    | free _ hfree | leave _ _ hfree => exact absurd hto (hfree d)
    | stay d' _ hto' _ houts =>
      obtain rfl := limitState_inj.mp (hto'.symm.trans hto)
      exact houts ▸ hatLimit _ _
    | enter d' _ hto' _ houts =>
      obtain rfl := limitState_inj.mp (hto'.symm.trans hto)
      exact houts ▸ List.mem_append_right _ (hatLimit _ _)

/-- The notices of the limits, along every run from `RodState_Init`. -/
theorem limit_notices (F : Binary32) :
    (∀ past d, (after F past).ctx.limitSent d = true ↔ (after F past).sm.curState = limitState d) ∧
    (∀ past, Alternates (· = .limitReleased) (notices F past)) ∧
    (∀ past i, .limitReleased ∈ sends F past i ↔
      ∃ d, (after F past).sm.curState = limitState d ∧ (after F (past ++ [i])).sm.curState ≠ limitState d ∧
        sends F past i = [.limitReleased, .arbSendCommand (limitCommand d d.unblock)]) ∧
    ∀ past i d, (∃ msg, .arbSendCommand msg ∈ sends F past i ∧ msg.cmdType = d.block) ↔
      (after F (past ++ [i])).sm.curState = limitState d :=
  ⟨limitSent_after F, fun past => (notices_alternate F past).1, sends_released_iff F, sends_block_iff F⟩

end

end RodStateCtx

end RodActuator.Rod
