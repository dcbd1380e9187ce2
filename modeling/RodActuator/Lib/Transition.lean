import Mathlib.Data.List.Basic

/-! Labelled transition systems with a partial step function. A run is a list of labels whose steps all are
    possible; the runs of interest are often those whose steps meet a condition on the state before and the
    label. -/

namespace Transition
variable {S L : Type*}

def exec (step : S → L → Option S) (s : S) (ls : List L) : Option S := ls.foldlM step s

/-- The labels lead from `s` to `t`, and every step meets `ok`. -/
inductive Run (step : S → L → Option S) (ok : S → L → Prop) (s : S) : List L → S → Prop where
  | nil : Run step ok s [] s
  | snoc {ls : List L} {t u : S} {l : L} :
      Run step ok s ls t → ok t l → step t l = some u → Run step ok s (ls ++ [l]) u

variable {step : S → L → Option S} {ok ok' : S → L → Prop} {s t u : S} {ls ls' : List L} {l : L}

/-- What holds first and is kept by every step holds along the run. -/
theorem Run.invariant {I : S → Prop} (init : I s)
    (keep : ∀ t l u, I t → ok t l → step t l = some u → I u) (run : Run step ok s ls t) : I t := by
  induction run with
  | nil => exact init
  | snoc _ hok hstep ih => exact keep _ _ _ ih hok hstep

theorem Run.mono (le : ∀ t l, ok t l → ok' t l) (run : Run step ok s ls t) : Run step ok' s ls t := by
  induction run with
  | nil => exact .nil
  | snoc _ hok hstep ih => exact .snoc ih (le _ _ hok) hstep

/-- Two conditions allow the same runs where they agree at every possible step under an invariant of the steps that meet
    them. -/
theorem Run.congr_of_keep {I : S → Prop} (init : I s) (keep : ∀ t l u, I t → ok t l → step t l = some u → I u)
    (iff : ∀ t l u, I t → step t l = some u → (ok t l ↔ ok' t l)) : Run step ok s ls t ↔ Run step ok' s ls t := by
  have himp : ∀ {ok ok' : S → L → Prop}, (∀ t l u, I t → ok t l → step t l = some u → I u) →
      (∀ t l u, I t → step t l = some u → ok t l → ok' t l) → Run step ok s ls t → Run step ok' s ls t := by
    intro ok ok' keep himp run
    induction run with
    | nil => exact .nil
    | snoc run hok hstep ih => exact .snoc ih (himp _ _ _ (run.invariant init keep) hstep hok) hstep
  refine ⟨himp keep fun t l u ht hstep => (iff t l u ht hstep).mp, ?_⟩
  exact himp (fun t l u ht hok hstep => keep t l u ht ((iff t l u ht hstep).mpr hok) hstep)
    fun t l u ht hstep => (iff t l u ht hstep).mpr

/-- Two conditions that agree where an invariant of the steps holds allow the same runs. -/
theorem Run.congr {I : S → Prop} (init : I s) (keep : ∀ t l u, I t → step t l = some u → I u)
    (iff : ∀ t l, I t → (ok t l ↔ ok' t l)) : Run step ok s ls t ↔ Run step ok' s ls t :=
  Run.congr_of_keep init (fun t l u ht _ => keep t l u ht) fun t l _ ht _ => iff t l ht

theorem Run.trans (run : Run step ok s ls t) (run' : Run step ok t ls' u) : Run step ok s (ls ++ ls') u := by
  induction run' with
  | nil => rwa [List.append_nil]
  | snoc _ hok hstep ih =>
    rw [← List.append_assoc]
    exact .snoc ih hok hstep

theorem Run.single (hok : ok s l) (hstep : step s l = some t) : Run step ok s [l] t := .snoc .nil hok hstep

theorem Run.cons (hok : ok s l) (hstep : step s l = some t) (run : Run step ok t ls u) :
    Run step ok s (l :: ls) u := (Run.single hok hstep).trans run

theorem Run.of_exec_step (hexec : exec step s ls = some t) : Run step (fun _ _ => True) s ls t := by
  induction ls generalizing s with
  | nil =>
    cases hexec
    exact .nil
  | cons l ls ih =>
    rw [exec, List.foldlM_cons] at hexec
    obtain ⟨u, hu, hrest⟩ := Option.bind_eq_some_iff.mp hexec
    exact Run.cons trivial hu (ih hrest)

def guarded (step : S → L → Option S) (ok : S → L → Prop) [∀ s l, Decidable (ok s l)] (s : S) (l : L) : Option S :=
  if ok s l then step s l else none

/-- An execution of the guarded steps is a run. -/
theorem Run.of_exec [∀ s l, Decidable (ok s l)] (hexec : exec (guarded step ok) s ls = some t) :
    Run step ok s ls t := by
  induction ls generalizing s with
  | nil =>
    cases hexec
    exact .nil
  | cons l ls ih =>
    rw [exec, List.foldlM_cons] at hexec
    obtain ⟨u, hu, hrest⟩ := Option.bind_eq_some_iff.mp hexec
    unfold guarded at hu
    split at hu
    · rename_i hok
      exact Run.cons hok hu (ih hrest)
    · cases hu

/-- A machine whose steps are matched by those of another follows it through every execution. -/
theorem exec_simulates {S' : Type*} {step' : S' → L → Option S'} {R : S → S' → Prop}
    (sim : ∀ s s' l t, R s s' → step s l = some t → ∃ t', step' s' l = some t' ∧ R t t') {s' : S'} (hR : R s s')
    (hexec : exec step s ls = some t) : ∃ t', exec step' s' ls = some t' ∧ R t t' := by
  induction ls generalizing s s' with
  | nil =>
    cases hexec
    exact ⟨s', rfl, hR⟩
  | cons l ls ih =>
    rw [exec, List.foldlM_cons] at hexec
    obtain ⟨u, hu, hrest⟩ := Option.bind_eq_some_iff.mp hexec
    obtain ⟨u', hu', hRu⟩ := sim s s' l u hR hu
    obtain ⟨t', ht', hRt⟩ := ih hRu hrest
    exact ⟨t', by rw [exec, List.foldlM_cons, hu']; exact ht', hRt⟩

/-- Two machines of which each can do a step when the other can go through the same executions. -/
theorem exec_rel {S' : Type*} {step' : S' → L → Option S'} {R : S → S' → Prop}
    (rel : ∀ s s' l, R s s' → Option.Rel R (step s l) (step' s' l)) {s' : S'} (hR : R s s') (ls : List L) :
    Option.Rel R (exec step s ls) (exec step' s' ls) := by
  induction ls generalizing s s' with
  | nil => exact .some hR
  | cons l ls ih =>
    rw [exec, exec, List.foldlM_cons, List.foldlM_cons]
    have hl := rel s s' l hR
    revert hl
    cases step s l <;> cases step' s' l <;> rintro ⟨⟩
    · exact .none
    · exact ih ‹_›

/-- The same with several steps for one, where both make the same observations. -/
theorem exec_simulates_many {S' L' O : Type*} {step' : S' → L' → Option S'} {R : S → S' → Prop} {obs : L → List O}
    {obs' : L' → List O}
    (sim : ∀ s s' l t, R s s' → step s l = some t →
      ∃ ls' t', exec step' s' ls' = some t' ∧ ls'.flatMap obs' = obs l ∧ R t t') {s' : S'} (hR : R s s')
    (hexec : exec step s ls = some t) :
    ∃ ls' t', exec step' s' ls' = some t' ∧ ls'.flatMap obs' = ls.flatMap obs ∧ R t t' := by
  induction ls generalizing s s' with
  | nil =>
    cases hexec
    exact ⟨[], s', rfl, rfl, hR⟩
  | cons l ls ih =>
    rw [exec, List.foldlM_cons] at hexec
    obtain ⟨u, hu, hrest⟩ := Option.bind_eq_some_iff.mp hexec
    obtain ⟨ls₁, u', hu', hobs₁, hRu⟩ := sim s s' l u hR hu
    obtain ⟨ls₂, t', ht', hobs₂, hRt⟩ := ih hRu hrest
    refine ⟨ls₁ ++ ls₂, t', ?_, ?_, hRt⟩
    · rw [exec, List.foldlM_append]
      rw [exec] at hu'
      rw [hu']
      exact ht'
    · rw [List.flatMap_append, List.flatMap_cons, hobs₁, hobs₂]

/-- An execution that is evaluated ends in a state with the property. -/
theorem exists_of_any {P : S → Prop} [DecidablePred P] {o : Option S} (h : o.any (fun t => decide (P t)) = true) :
    ∃ t, o = some t ∧ P t := by
  cases o with
  | none => cases h
  | some t => exact ⟨t, rfl, of_decide_eq_true h⟩

end Transition
