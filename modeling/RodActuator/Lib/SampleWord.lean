import Mathlib.Data.BitVec
import Mathlib.Data.List.Basic

/-! Samples of one bit in a word: each new sample is shifted in at the bottom, and the word shows the newest of them. A
    program that compares the whole word sees more samples than the few it asks for. -/

namespace SampleWord
variable {w : Nat}

def push (bit : Bool) (word : BitVec w) : BitVec w := (word <<< 1) ||| (BitVec.ofBool bit).setWidth w

/-- The word shows the newest samples; the history has its newest sample first. -/
def Shows (h : List Bool) (word : BitVec w) : Prop := ∀ i < w, word.getLsbD i = true ↔ h[i]? = some true

/-- The newest `size` samples are there and equal. -/
def Steady (size : Nat) (bit : Bool) (h : List Bool) : Prop := ∀ i < size, h[i]? = some bit

instance (size : Nat) (bit : Bool) (h : List Bool) : Decidable (Steady size bit h) :=
  inferInstanceAs (Decidable (∀ _ < _, _))

/-- The samples before the newest `size`, as far as a word of `w` bits goes back, are all 0. -/
def Quiet (w size : Nat) (h : List Bool) : Prop := ∀ i < w, size ≤ i → h[i]? ≠ some true

instance (w size : Nat) (h : List Bool) : Decidable (Quiet w size h) := inferInstanceAs (Decidable (∀ _ < _, _))

/-- The number of maximal runs of 1 that are at least `size` long. -/
def longRuns (size : Nat) (h : List Bool) : Nat := (h.splitOn false).countP fun run => size ≤ run.length

section
variable {size : Nat} {h : List Bool} {word : BitVec w} {bit : Bool}

theorem shows_nil : Shows [] (0 : BitVec w) := by simp [Shows]

theorem Shows.push (hshows : Shows h word) (bit : Bool) : Shows (bit :: h) (push bit word) := by
  intro i hi
  cases i with
  | zero => cases bit <;> simp [SampleWord.push, hi]
  | succ i =>
    have hold := hshows i (by omega)
    have hnew : ((BitVec.ofBool bit).setWidth w).getLsbD (i + 1) = false := by
      rw [BitVec.getLsbD_setWidth, BitVec.getLsbD_of_ge _ _ (by omega), Bool.and_false]
    simp only [SampleWord.push, BitVec.getLsbD_or, hnew, Bool.or_false, List.getElem?_cons_succ]
    rw [← hold, BitVec.getLsbD_shiftLeft]
    simp [hi]

theorem Steady.le_length (hsteady : Steady size bit h) : size ≤ h.length := by
  cases size with
  | zero => exact Nat.zero_le _
  | succ size =>
    obtain ⟨hlt, -⟩ := List.getElem?_eq_some_iff.mp (hsteady size (Nat.lt_succ_self _))
    exact hlt

/-- A full word of 0 asks for more than the newest samples. -/
theorem Shows.all_zero_iff (hshows : Shows h word) (hsize : size ≤ w) :
    size ≤ h.length ∧ word = 0 ↔ Steady size false h ∧ Quiet w size h := by
  have hzero : word = 0 ↔ ∀ i < w, h[i]? ≠ some true := by
    refine ⟨fun heq i hi htrue => ?_, fun hall => BitVec.eq_of_getLsbD_eq fun i hi => ?_⟩
    · have hbit := (hshows i hi).mpr htrue
      simp [heq] at hbit
    · have hbit : word.getLsbD i = false := Bool.eq_false_of_not_eq_true (mt (hshows i hi).mp (hall i hi))
      simpa using hbit
  rw [hzero]
  refine ⟨fun ⟨hfull, hall⟩ => ⟨fun i hi => ?_, fun i hi _ => hall i hi⟩, fun ⟨hsteady, hquiet⟩ =>
    ⟨hsteady.le_length, fun i hi => ?_⟩⟩
  · have hlt : i < h.length := Nat.lt_of_lt_of_le hi hfull
    have hne := hall i (Nat.lt_of_lt_of_le hi hsize)
    rw [List.getElem?_eq_getElem hlt] at hne ⊢
    cases hx : h[i] <;> simp_all
  · by_cases hnew : i < size
    · simp [hsteady i hnew]
    · exact hquiet i hi (Nat.le_of_not_lt hnew)

theorem Shows.all_one_iff (hshows : Shows h word) (hsize : size ≤ w) :
    size ≤ h.length ∧ word = BitVec.ofNat w (2 ^ size - 1) ↔ Steady size true h ∧ Quiet w size h := by
  have hones : ∀ i < w, (BitVec.ofNat w (2 ^ size - 1)).getLsbD i = decide (i < size) := by
    intro i hi
    rw [BitVec.getLsbD_ofNat, Nat.testBit_two_pow_sub_one]
    simp [hi]
  have hone : word = BitVec.ofNat w (2 ^ size - 1) ↔ ∀ i < w, (h[i]? = some true ↔ i < size) := by
    refine ⟨fun heq i hi => ?_, fun hall => BitVec.eq_of_getLsbD_eq fun i hi => ?_⟩
    · rw [← hshows i hi, heq, hones i hi, decide_eq_true_iff]
    · rw [hones i hi, Bool.eq_iff_iff, hshows i hi, hall i hi, decide_eq_true_iff]
  rw [hone]
  refine ⟨fun ⟨_, hall⟩ => ⟨fun i hi => ?_, fun i hi hold => ?_⟩, fun ⟨hsteady, hquiet⟩ =>
    ⟨hsteady.le_length, fun i hi => ?_⟩⟩
  · exact (hall i (Nat.lt_of_lt_of_le hi hsize)).mpr hi
  · exact fun htrue => absurd ((hall i hi).mp htrue) (Nat.not_lt_of_le hold)
  · refine ⟨fun htrue => ?_, fun hlt => hsteady i hlt⟩
    by_contra hold
    exact hquiet i hi (Nat.le_of_not_lt hold) htrue

theorem steady_unique {bit' : Bool} (hsize : 0 < size) (hs : Steady size bit h) (hs' : Steady size bit' h) :
    bit = bit' := by
  have h₀ := hs 0 hsize
  rw [hs' 0 hsize] at h₀
  exact (Option.some.inj h₀).symm

/-! ### Runs -/

theorem steady_cons_succ : Steady (size + 1) bit (bit :: h) ↔ Steady size bit h := by
  refine ⟨fun hall i hi => by simpa using hall (i + 1) (by omega), fun hall i hi => ?_⟩
  cases i with
  | zero => rfl
  | succ i => simpa using hall i (by omega)

/-- The newest samples are 1 as far as the newest run goes. -/
theorem steady_iff_head (size : Nat) (h : List Bool) :
    Steady size true h ↔ ∀ run ∈ (h.splitOn false).head?, size ≤ run.length := by
  induction h generalizing size with
  | nil =>
    cases size with
    | zero => simp [Steady]
    | succ size =>
      have hnot : ¬Steady (size + 1) true [] := fun hall => by simpa using hall 0 (by omega)
      simp [hnot]
  | cons bit h ih =>
    rw [List.splitOn_eq_splitOnP, List.splitOnP_cons_eq_if_modifyHead, ← List.splitOn_eq_splitOnP]
    cases bit with
    | false =>
      cases size with
      | zero => simp [Steady]
      | succ size =>
        have hnot : ¬Steady (size + 1) true (false :: h) := fun hall => by simpa using hall 0 (by omega)
        simp [hnot]
    | true =>
      cases size with
      | zero => simp [Steady]
      | succ size =>
        rw [steady_cons_succ, ih]
        cases h.splitOn false <;> simp

/-- A sample makes one more long run exactly where it makes the newest run long. -/
theorem longRuns_cons (hsize : 0 < size) (bit : Bool) (h : List Bool) : longRuns size (bit :: h) =
    longRuns size h + if Steady size true (bit :: h) ∧ ¬Steady size true h then 1 else 0 := by
  simp only [steady_iff_head]
  unfold longRuns
  rw [List.splitOn_eq_splitOnP, List.splitOnP_cons_eq_if_modifyHead, ← List.splitOn_eq_splitOnP]
  cases bit with
  | false =>
    have hne : ¬size ≤ 0 := Nat.not_le_of_lt hsize
    simp [hne]
  | true =>
    obtain ⟨run, runs, hruns⟩ := List.exists_cons_of_ne_nil (List.splitOn_ne_nil false h)
    have hsep : (true == false) = false := rfl
    simp only [hruns, hsep, Bool.false_eq_true, if_false, List.modifyHead_cons, List.countP_cons, List.length_cons,
      List.head?_cons, Option.mem_def, Option.some.injEq, forall_eq', decide_eq_true_eq]
    split_ifs <;> omega

end

end SampleWord
