import RodActuator.Lib.SampleWord
import RodActuator.Power.Polarity

/-! The debounce of the direction. The window is a word of sixteen samples that is compared as a whole, while a
    direction asks for five: what came before the five has a say as long as it is in the word. -/

namespace RodActuator.Power
open Sys SampleWord

structure Scan where
  underVoltage : Bool
  pin : Bool
  deriving DecidableEq, Repr

namespace Polarity

def after (past : List Scan) : Polarity := past.foldl (fun p s => (p.scan s.underVoltage s.pin).1) init

/-! ### The law -/

/-- The samples since the window was last reset, the newest first. -/
def since (past : List Scan) : List Bool := past.foldl (fun h s => if s.underVoltage then [] else s.pin :: h) []

def dirOf (pin : Bool) : PolarityState := if pin then .rev else .fwd

/-- Five equal samples decide. -/
def verdict (h : List Bool) (state : PolarityState) : PolarityState :=
  if Steady polarityWinSize false h then .fwd else if Steady polarityWinSize true h then .rev else state

/-- What a change of the direction sends: one POLARITY_CHG, and the run command of its power input. -/
def announced : PolarityState → List PolarityOut
  | .fwd => turned .powerPos .runFwd
  | .rev => turned .powerNeg .runRev
  | _ => []

/-- The debounce law for a scan that follows the scans `past`. -/
structure Debounced (past : List Scan) (s : Scan) : Prop where
  lost : s.underVoltage = true → (after (past ++ [s])).state = .unpowered ∧ (after (past ++ [s])).win = 0 ∧
    (after (past ++ [s])).cnt = 0 ∧ ((after past).scan s.underVoltage s.pin).2 = []
  state : s.underVoltage = false →
    (after (past ++ [s])).state = verdict (since (past ++ [s])) (after past).state
  told : s.underVoltage = false → ((after past).scan s.underVoltage s.pin).2 =
    if (after (past ++ [s])).state = (after past).state then [] else announced (after (past ++ [s])).state

/-- A steady direction that is not in force yet finds a quiet window. -/
def Clean (past : List Scan) (s : Scan) : Prop :=
  s.underVoltage = false → ∀ pin, Steady polarityWinSize pin (since (past ++ [s])) → (after past).state ≠ dirOf pin →
    Quiet 16 polarityWinSize (since (past ++ [s]))

/-! ### The window -/

/-- The word holds the last sixteen samples. -/
structure Window (h : List Bool) (p : Polarity) : Prop where
  cnt : p.cnt = min polarityWinSize h.length
  win : Shows h p.win

section
variable {h : List Bool} {p : Polarity}

theorem window_nil (p : Polarity) : Window [] { p with win := 0, cnt := 0 } := ⟨rfl, shows_nil⟩

theorem Window.winPush (hw : Window h p) (pin : Bool) : Window (pin :: h) (p.winPush pin) where
  cnt := by
    simp only [Polarity.winPush, hw.cnt, List.length_cons]
    split <;> omega
  win := hw.win.push pin

theorem Window.winFull_iff (hw : Window h p) : p.winFull = true ↔ polarityWinSize ≤ h.length := by
  simp [winFull, hw.cnt]

theorem Window.winAllZero_iff (hw : Window h p) :
    p.winAllZero = true ↔ Steady polarityWinSize false h ∧ Quiet 16 polarityWinSize h := by
  rw [winAllZero, Bool.and_eq_true, beq_iff_eq, hw.winFull_iff]
  exact hw.win.all_zero_iff (by decide)

theorem Window.winAllOne_iff (hw : Window h p) :
    p.winAllOne = true ↔ Steady polarityWinSize true h ∧ Quiet 16 polarityWinSize h := by
  rw [winAllOne, Bool.and_eq_true, beq_iff_eq, hw.winFull_iff]
  exact hw.win.all_one_iff (by decide)

theorem Window.eval_eq (hw : Window h p) : p.eval =
    if Steady polarityWinSize false h ∧ Quiet 16 polarityWinSize h then .fwd
    else if Steady polarityWinSize true h ∧ Quiet 16 polarityWinSize h then .rev else .unknown := by
  unfold eval
  rw [if_congr hw.winAllZero_iff rfl rfl, if_congr hw.winAllOne_iff rfl rfl]

theorem verdict_eq_self_iff (h : List Bool) (state : PolarityState) :
    verdict h state = state ↔ ∀ pin, Steady polarityWinSize pin h → state = dirOf pin := by
  unfold verdict
  split
  · rename_i hfalse
    refine ⟨fun heq pin hpin => ?_, fun hall => (hall false hfalse).symm⟩
    rw [← heq, steady_unique (by decide) hpin hfalse]
    rfl
  · rename_i hfalse
    split
    · rename_i htrue
      refine ⟨fun heq pin hpin => ?_, fun hall => (hall true htrue).symm⟩
      rw [← heq, steady_unique (by decide) hpin htrue]
      rfl
    · rename_i htrue
      refine iff_of_true rfl fun pin hpin => ?_
      cases pin
      · exact absurd hpin hfalse
      · exact absurd hpin htrue

/-- The verdict of a quiet window, or none. -/
theorem Window.eval_quiet (hw : Window h p) (hquiet : Quiet 16 polarityWinSize h) (state : PolarityState) :
    (p.eval = .fwd ∨ p.eval = .rev) ∧ verdict h state = p.eval ∨ p.eval = .unknown ∧ verdict h state = state := by
  rw [hw.eval_eq]
  unfold verdict
  by_cases hfalse : Steady polarityWinSize false h
  · simp [hfalse, hquiet]
  · by_cases htrue : Steady polarityWinSize true h
    · simp [hfalse, htrue, hquiet]
    · simp [hfalse, htrue]

theorem Window.eval_noisy (hw : Window h p) (hquiet : ¬Quiet 16 polarityWinSize h) : p.eval = .unknown := by
  rw [hw.eval_eq, if_neg fun hall => hquiet hall.2, if_neg fun hall => hquiet hall.2]

end

theorem since_concat (past : List Scan) (s : Scan) :
    since (past ++ [s]) = if s.underVoltage then [] else s.pin :: since past := by
  rw [since, List.foldl_append]
  rfl

theorem after_concat (past : List Scan) (s : Scan) :
    after (past ++ [s]) = ((after past).scan s.underVoltage s.pin).1 := by
  rw [after, List.foldl_append]
  rfl

theorem scan_state {p : Polarity} (pin : Bool) :
    (p.scan false pin).1.win = (p.winPush pin).win ∧ (p.scan false pin).1.cnt = (p.winPush pin).cnt := by
  simp only [scan, Bool.false_eq_true, if_false]
  split <;> exact ⟨rfl, rfl⟩

/-- The window is that of the samples since its reset, along every sequence of scans. -/
theorem window_after (past : List Scan) : Window (since past) (after past) := by
  induction past using List.reverseRecOn with
  | nil => exact window_nil init
  | append_singleton past s ih =>
    rw [since_concat, after_concat]
    cases s.underVoltage with
    | true => exact window_nil { after past with state := .unpowered }
    | false =>
      obtain ⟨hwin, hcnt⟩ := scan_state (p := after past) s.pin
      have hpush := ih.winPush s.pin
      exact ⟨hcnt ▸ hpush.cnt, hwin ▸ hpush.win⟩

/-- Outside under-voltage a scan takes the verdict of its window, and tells a new direction. -/
theorem scan_eq (p : Polarity) (pin : Bool) : p.scan false pin =
    if (p.winPush pin).eval = .unknown ∨ (p.winPush pin).eval = p.state then (p.winPush pin, [])
    else ({ p.winPush pin with state := (p.winPush pin).eval }, announced (p.winPush pin).eval) := by
  simp only [scan, Bool.false_eq_true, if_false]
  have hstate : (p.winPush pin).state = p.state := rfl
  rw [hstate]
  split
  · rfl
  · cases (p.winPush pin).eval <;> rfl

/-- The debounce law holds at exactly the scans at which a new steady direction finds a quiet window. -/
theorem debounced_iff (past : List Scan) (s : Scan) : Debounced past s ↔ Clean past s := by
  obtain ⟨underVoltage, pin⟩ := s
  have hafter := after_concat past ⟨underVoltage, pin⟩
  have hsince := since_concat past ⟨underVoltage, pin⟩
  cases underVoltage with
  | true =>
    refine iff_of_true ⟨fun _ => ?_, fun h => Bool.noConfusion h, fun h => Bool.noConfusion h⟩ fun h => Bool.noConfusion h
    rw [hafter]
    exact ⟨rfl, rfl, rfl, rfl⟩
  | false =>
    have hw := (window_after past).winPush pin
    have hscan := scan_eq (after past) pin
    simp only [Bool.false_eq_true, if_false] at hafter hsince
    by_cases hquiet : Quiet 16 polarityWinSize (pin :: since past)
    · refine iff_of_true ⟨fun h => Bool.noConfusion h, fun _ => ?_, fun _ => ?_⟩ fun _ _ _ _ => hsince ▸ hquiet
      · rw [hafter, hscan, hsince]
        rcases hw.eval_quiet hquiet (after past).state with ⟨heval, hverdict⟩ | ⟨heval, hverdict⟩
        · rw [hverdict]
          split
          · rename_i hsame
            rcases hsame with hsame | hsame
            · rcases heval with heval | heval <;> rw [heval] at hsame <;> cases hsame
            · exact hsame.symm
          · rfl
        · rw [hverdict, if_pos (.inl heval)]
          rfl
      · rw [hafter, hscan]
        split
        · exact (if_pos rfl).symm
        · rename_i hnew
          exact (if_neg fun hsame => hnew (.inr hsame)).symm
    · have hnone := hw.eval_noisy hquiet
      rw [if_pos (.inl hnone)] at hscan
      rw [hscan] at hafter
      have hstay : (after (past ++ [⟨false, pin⟩])).state = (after past).state := by
        rw [hafter]
        rfl
      have hlaw := verdict_eq_self_iff (pin :: since past) (after past).state
      refine ⟨fun h _ b hsteady hne => ?_, fun hclean => ⟨fun h => Bool.noConfusion h, fun _ => ?_, fun _ => ?_⟩⟩
      · have hverdict := h.state rfl
        rw [hstay, hsince] at hverdict
        exact absurd (hlaw.mp hverdict.symm b (hsince ▸ hsteady)) hne
      · rw [hstay, hsince]
        refine (hlaw.mpr fun b hsteady => ?_).symm
        by_contra hne
        exact hquiet (hsince ▸ hclean rfl b (hsince ▸ hsteady) hne)
      · rw [hscan, hstay]
        exact (if_pos rfl).symm

/-- A single 1 before five 0 holds FWD back, and five 1 are not REV if another 1 came shortly before them. -/
theorem debounce_misses :
    let one : Scan := ⟨false, true⟩
    let zero : Scan := ⟨false, false⟩
    ¬Debounced (one :: List.replicate 4 zero) zero ∧ ¬Debounced ([one, zero] ++ List.replicate 4 one) one := by
  intro one zero
  exact ⟨fun h => absurd (h.state rfl) (by decide), fun h => absurd (h.state rfl) (by decide)⟩

end Polarity

end RodActuator.Power
