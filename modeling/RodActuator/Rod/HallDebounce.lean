import RodActuator.Rod.Hall

/-! The debounce of the limit sensors. The windows are words of sixteen samples that are compared as a whole, while three
    samples are to decide: a limit waits for the word to be clear of older samples, and a fault is over, for the sensors,
    as soon as it lasts longer than three samples. -/

namespace RodActuator.Rod
open Sys SampleWord

/-- The pins at a scan. -/
structure Pins where
  mx : Bool
  mn : Bool
  deriving DecidableEq, Repr

namespace Pins

def bothLow (s : Pins) : Bool := !(s.mx || s.mn)

end Pins

namespace RodHall

def after (past : List Pins) : RodHall := past.foldl (fun r s => (r.scan s.mx s.mn).1) init

/-- The event of the fault is sent at a scan. -/
def sends (r : RodHall) (s : Pins) : Bool := SysEvt.rodLimitFault.isIn (r.scan s.mx s.mn).2

/-- How often the fault has been sent. -/
def sent (past : List Pins) : Nat :=
  (past.foldl (fun t s => ((t.1.scan s.mx s.mn).1, if t.1.sends s then t.2 + 1 else t.2)) (init, 0)).2

/-! ### The law -/

/-- The samples of a signal, the newest first. -/
def since (signal : Pins → Bool) (past : List Pins) : List Bool := past.reverse.map signal

/-- Three equal samples decide. -/
def verdict (h : List Bool) (state : Bool) : Bool :=
  if Steady rodHallWinSize true h then true else if Steady rodHallWinSize false h then false else state

/-- The law for a scan that follows the scans `past`. -/
structure Debounced (past : List Pins) (s : Pins) : Prop where
  atMax : (after (past ++ [s])).isAtMax = verdict (since Pins.mx (past ++ [s])) (after past).isAtMax
  atMin : (after (past ++ [s])).isAtMin = verdict (since Pins.mn (past ++ [s])) (after past).isAtMin
  fault : (after (past ++ [s])).isFault = true ↔ Steady rodHallWinSize true (since Pins.bothLow (past ++ [s]))
  once : sent (past ++ [s]) = longRuns rodHallWinSize (since Pins.bothLow (past ++ [s]))

/-- Three equal samples that are to change the state find a word without older 1, and so does a fault. -/
structure Clean (past : List Pins) (s : Pins) : Prop where
  atMax : ∀ pin, Steady rodHallWinSize pin (since Pins.mx (past ++ [s])) → (after past).isAtMax ≠ pin →
    Quiet 16 rodHallWinSize (since Pins.mx (past ++ [s]))
  atMin : ∀ pin, Steady rodHallWinSize pin (since Pins.mn (past ++ [s])) → (after past).isAtMin ≠ pin →
    Quiet 16 rodHallWinSize (since Pins.mn (past ++ [s]))
  fault : Steady rodHallWinSize true (since Pins.bothLow (past ++ [s])) →
    Quiet 16 rodHallWinSize (since Pins.bothLow (past ++ [s]))

/-! ### The windows -/

theorem after_concat (past : List Pins) (s : Pins) : after (past ++ [s]) = ((after past).scan s.mx s.mn).1 := by
  rw [after, List.foldl_append]
  rfl

theorem sent_concat (past : List Pins) (s : Pins) :
    sent (past ++ [s]) = if (after past).sends s then sent past + 1 else sent past := by
  have hpair : ∀ past : List Pins, past.foldl (fun t s =>
      ((t.1.scan s.mx s.mn).1, if t.1.sends s then t.2 + 1 else t.2)) (init, 0) = (after past, sent past) := by
    intro past
    induction past using List.reverseRecOn with
    | nil => rfl
    | append_singleton past s ih =>
      rw [after_concat, sent, List.foldl_append, ih]
      rfl
  rw [sent, List.foldl_append, hpair]
  rfl

theorem since_concat (signal : Pins → Bool) (past : List Pins) (s : Pins) :
    since signal (past ++ [s]) = signal s :: since signal past := by
  rw [since, List.reverse_append]
  rfl

/-- The window holds the samples. -/
structure Held (h : List Bool) (w : RodHallWin) : Prop where
  cnt : w.cnt = min rodHallWinSize h.length
  win : Shows h w.win

section
variable {h : List Bool} {w : RodHallWin}

theorem Held.push (hheld : Held h w) (bit : Bool) : Held (bit :: h) (w.push bit) where
  cnt := by
    simp only [RodHallWin.push, hheld.cnt, List.length_cons]
    split <;> omega
  win := hheld.win.push bit

theorem Held.full_iff (hheld : Held h w) : rodHallWinSize ≤ w.cnt ↔ rodHallWinSize ≤ h.length := by
  rw [hheld.cnt]
  omega

theorem Held.allOne_iff (hheld : Held h w) :
    w.allOne = true ↔ Steady rodHallWinSize true h ∧ Quiet 16 rodHallWinSize h := by
  rw [← hheld.win.all_one_iff (by decide), ← hheld.full_iff]
  simp [RodHallWin.allOne]

theorem Held.allZero_iff (hheld : Held h w) :
    w.allZero = true ↔ Steady rodHallWinSize false h ∧ Quiet 16 rodHallWinSize h := by
  rw [← hheld.win.all_zero_iff (by decide), ← hheld.full_iff]
  simp [RodHallWin.allZero]

/-- A window gives the verdict of its newest samples unless these are to change the state and older ones are in the
    way. -/
theorem Held.settled_iff (hheld : Held h w) (state : Bool) : w.settled state = verdict h state ↔
    ∀ pin, Steady rodHallWinSize pin h → state ≠ pin → Quiet 16 rodHallWinSize h := by
  unfold RodHallWin.settled verdict
  rw [if_congr hheld.allOne_iff rfl rfl, if_congr hheld.allZero_iff rfl rfl]
  by_cases hquiet : Quiet 16 rodHallWinSize h
  · simp [hquiet]
  · simp only [hquiet, and_false, if_false, imp_false, not_not]
    split
    · rename_i hone
      refine ⟨fun heq pin hpin => ?_, fun hall => hall true hone⟩
      rw [heq]
      exact steady_unique (by decide) hone hpin
    · rename_i hone
      split
      · rename_i hzero
        refine ⟨fun heq pin hpin => ?_, fun hall => hall false hzero⟩
        rw [heq]
        exact steady_unique (by decide) hzero hpin
      · rename_i hzero
        refine iff_of_true rfl fun pin hpin => ?_
        cases pin
        · exact absurd hpin hzero
        · exact absurd hpin hone

end

/-- The three windows along every sequence of scans. -/
theorem held_after (past : List Pins) : Held (since Pins.mx past) (after past).maxWin ∧
    Held (since Pins.mn past) (after past).minWin ∧ Held (since Pins.bothLow past) (after past).ftWin := by
  induction past using List.reverseRecOn with
  | nil => exact ⟨⟨rfl, shows_nil⟩, ⟨rfl, shows_nil⟩, ⟨rfl, shows_nil⟩⟩
  | append_singleton past s ih =>
    obtain ⟨hmax, hmin, hft⟩ := ih
    rw [since_concat, since_concat, since_concat, after_concat]
    exact ⟨hmax.push s.mx, hmin.push s.mn, hft.push s.bothLow⟩

theorem fault_after (past : List Pins) : (after past).isFault = true ↔
    Steady rodHallWinSize true (since Pins.bothLow past) ∧ Quiet 16 rodHallWinSize (since Pins.bothLow past) := by
  rcases past.eq_nil_or_concat' with rfl | ⟨past, s, rfl⟩
  · exact iff_of_false Bool.false_ne_true fun hall => by simpa [since] using hall.1 0 (by decide)
  · rw [← (held_after (past ++ [s])).2.2.allOne_iff, after_concat]
    rfl

/-! ### One scan and all scans -/

section
variable {past : List Pins} {s : Pins}

/-- But for the event, the law holds at exactly the clean scans. -/
theorem clean_iff : ((after (past ++ [s])).isAtMax = verdict (since Pins.mx (past ++ [s])) (after past).isAtMax ∧
    (after (past ++ [s])).isAtMin = verdict (since Pins.mn (past ++ [s])) (after past).isAtMin ∧
    ((after (past ++ [s])).isFault = true ↔ Steady rodHallWinSize true (since Pins.bothLow (past ++ [s])))) ↔
    Clean past s := by
  obtain ⟨hmax, hmin, -⟩ := held_after (past ++ [s])
  have hatMax : (after (past ++ [s])).isAtMax = (after (past ++ [s])).maxWin.settled (after past).isAtMax := by
    rw [after_concat]
    rfl
  have hatMin : (after (past ++ [s])).isAtMin = (after (past ++ [s])).minWin.settled (after past).isAtMin := by
    rw [after_concat]
    rfl
  rw [hatMax, hatMin, hmax.settled_iff, hmin.settled_iff, fault_after, and_iff_left_iff_imp]
  exact ⟨fun ⟨hmax, hmin, hfault⟩ => ⟨hmax, hmin, hfault⟩, fun h => ⟨h.atMax, h.atMin, h.fault⟩⟩

theorem sends_iff : (after past).sends s = true ↔
    (after (past ++ [s])).isFault = true ∧ ¬(after past).isFault = true := by
  rw [after_concat]
  unfold sends scan isFault
  dsimp only
  split
  · rename_i hsends
    exact iff_of_true (SysEvt.isIn_mask _) hsends
  · rename_i hkeeps
    exact iff_of_false (by simp) hkeeps

/-- Where all scans are clean, the fault is sent once in each long run of both pins low. -/
theorem sent_eq_longRuns (past : List Pins) (hclean : ∀ pre s, pre ++ [s] <+: past → Clean pre s) :
    sent past = longRuns rodHallWinSize (since Pins.bothLow past) := by
  induction past using List.reverseRecOn with
  | nil => rfl
  | append_singleton past s ih =>
    have hlast := hclean past s (List.prefix_refl _)
    have hfault := hlast.fault
    have hsends := @sends_iff past s
    rw [fault_after, fault_after] at hsends
    rw [sent_concat, ih fun pre x hpre => hclean pre x (hpre.trans (List.prefix_append _ _)), since_concat,
      longRuns_cons (by decide)]
    rw [since_concat] at hfault hsends
    -- The third sample of the run before it is the oldest that a quiet word excludes.
    have hexclusive : Quiet 16 rodHallWinSize (s.bothLow :: since Pins.bothLow past) →
        ¬Steady rodHallWinSize true (since Pins.bothLow past) := fun hquiet hsteady =>
      hquiet 3 (by decide) (by decide) (by simpa using hsteady 2 (by decide))
    by_cases hsteady : Steady rodHallWinSize true (s.bothLow :: since Pins.bothLow past)
    · have hquiet := hfault hsteady
      have hnot := hexclusive hquiet
      rw [if_pos (hsends.mpr ⟨⟨hsteady, hquiet⟩, fun hall => hnot hall.1⟩), if_pos ⟨hsteady, hnot⟩]
    · rw [if_neg fun h => hsteady (hsends.mp h).1.1, if_neg fun h => hsteady h.1]
      rfl

end

/-- The law holds at every scan of a sequence if and only if every scan is clean. -/
theorem scans_debounced_iff (scans : List Pins) : (∀ past s, past ++ [s] <+: scans → Debounced past s) ↔
    ∀ past s, past ++ [s] <+: scans → Clean past s := by
  constructor
  · intro hlaw past s hpre
    have h := hlaw past s hpre
    exact clean_iff.mp ⟨h.atMax, h.atMin, h.fault⟩
  · intro hclean past s hpre
    obtain ⟨hmax, hmin, hfault⟩ := clean_iff.mpr (hclean past s hpre)
    exact ⟨hmax, hmin, hfault, sent_eq_longRuns _ fun pre x hx => hclean pre x (hx.trans hpre)⟩

/-- Both pins low for four scans: the fault is over at the fourth. -/
theorem fault_over_at_fourth_scan :
    let low : Pins := ⟨false, false⟩
    (after (List.replicate 3 low)).isFault = true ∧ (after (List.replicate 4 low)).isFault = false ∧
      ¬Debounced (List.replicate 3 low) low := by
  intro low
  refine ⟨by decide, by decide, fun h => ?_⟩
  have hfault := h.fault.mpr (by decide)
  revert hfault
  decide

end RodHall

end RodActuator.Rod
