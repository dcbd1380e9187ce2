import Mathlib.Data.List.Infix

/-! Runs at the end of a history. Whether an entry is good may depend on what came before it; a counter that is
    raised at each good entry and set to zero at each other holds the length of the run that the history ends.
    Some entries do not count, and lengthen no run. -/

namespace Streak
variable {α : Type*} (counts : α → Bool) (good : List α → α → Prop)

/-- The history ends with `n` entries that count, and all since the first of them are good, each after what came
    before it. -/
def EndsRun (n : Nat) (l : List α) : Prop :=
  ∃ pre run, pre ++ run = l ∧ run.countP counts = n ∧ ∀ mid y, mid ++ [y] <+: run → good (pre ++ mid) y

theorem endsRun_zero (l : List α) : EndsRun counts good 0 l :=
  ⟨l, [], List.append_nil l, rfl, fun _ _ h => absurd (List.prefix_nil.mp h) (by simp)⟩

theorem not_endsRun_nil (n : Nat) : ¬EndsRun counts good (n + 1) [] := by
  rintro ⟨pre, run, happ, hlen, -⟩
  obtain ⟨-, rfl⟩ := List.append_eq_nil_iff.mp happ
  cases hlen

variable {counts good}

theorem EndsRun.concat {n : Nat} {l : List α} {y : α} (h : EndsRun counts good n l) (hgood : good l y) :
    EndsRun counts good (n + [y].countP counts) (l ++ [y]) := by
  obtain ⟨pre, run, rfl, rfl, hall⟩ := h
  refine ⟨pre, run ++ [y], (List.append_assoc _ _ _).symm, List.countP_append, fun mid z hmid => ?_⟩
  rcases List.prefix_concat_iff.mp hmid with heq | hmid
  · obtain ⟨rfl, hzy⟩ := List.append_inj' heq rfl
    obtain rfl := List.singleton_inj.mp hzy
    exact hgood
  · exact hall mid z hmid

theorem EndsRun.of_concat {n : Nat} {l : List α} {y : α} (h : EndsRun counts good (n + 1) (l ++ [y])) :
    good l y ∧ EndsRun counts good (n + 1 - [y].countP counts) l := by
  obtain ⟨pre, run, happ, hlen, hall⟩ := h
  obtain rfl | ⟨run, x, rfl⟩ := run.eq_nil_or_concat'
  · cases hlen
  · rw [← List.append_assoc] at happ
    obtain ⟨rfl, hxy⟩ := List.append_inj' happ rfl
    obtain rfl := List.singleton_inj.mp hxy
    rw [List.countP_append] at hlen
    refine ⟨hall run x (List.prefix_refl _), pre, run, rfl, by omega, fun mid z hmid => ?_⟩
    exact hall mid z (hmid.trans (List.prefix_append _ _))

variable (counts good)

/-- The length of the run that a history ends, its newest entry first. -/
def streakRev [∀ past y, Decidable (good past y)] : List α → Nat
  | [] => 0
  | y :: past => if good past.reverse y then streakRev past + [y].countP counts else 0

/-- The length of the run that the history ends. -/
def streak [∀ past y, Decidable (good past y)] (l : List α) : Nat := streakRev counts good l.reverse

variable [∀ past y, Decidable (good past y)]

@[simp] theorem streak_nil : streak counts good [] = 0 := rfl

@[simp] theorem streak_concat (l : List α) (y : α) :
    streak counts good (l ++ [y]) = if good l y then streak counts good l + [y].countP counts else 0 := by
  simp [streak, streakRev]

theorem le_streak_iff (n : Nat) (l : List α) : n ≤ streak counts good l ↔ EndsRun counts good n l := by
  induction l using List.reverseRecOn generalizing n with
  | nil =>
    cases n with
    | zero => exact iff_of_true (Nat.zero_le _) (endsRun_zero counts good [])
    | succ n => exact iff_of_false (by simp) (not_endsRun_nil counts good n)
  | append_singleton l y ih =>
    cases n with
    | zero => exact iff_of_true (Nat.zero_le _) (endsRun_zero counts good _)
    | succ n =>
      rw [streak_concat]
      split
      · rename_i hgood
        refine ⟨fun hle => ?_, fun hrun => ?_⟩
        · have hrun := ((ih (n + 1 - [y].countP counts)).mp (by omega)).concat hgood
          have hone : [y].countP counts ≤ 1 := List.countP_le_length
          rwa [Nat.sub_add_cancel (by omega)] at hrun
        · have hle := (ih _).mpr hrun.of_concat.2
          omega
      · rename_i hbad
        exact iff_of_false (by simp) fun hrun => hbad hrun.of_concat.1

/-- Where every entry counts, the run is empty after an entry that is not good. -/
theorem streak_eq_zero_iff (l : List α) :
    streak (fun _ => true) good l = 0 ↔ ∀ past y, l = past ++ [y] → ¬good past y := by
  rcases l.eq_nil_or_concat' with rfl | ⟨past, y, rfl⟩
  · simp
  · rw [streak_concat]
    constructor
    · intro hzero past' y' heq hgood
      obtain ⟨rfl, hy⟩ := List.append_inj' heq rfl
      obtain rfl := List.singleton_inj.mp hy
      rw [if_pos hgood] at hzero
      simp at hzero
    · exact fun hall => if_neg (hall past y rfl)

end Streak
