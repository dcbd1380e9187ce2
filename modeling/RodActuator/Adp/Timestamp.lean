import Mathlib.Data.List.Infix
import RodActuator.Adp.Timebase

/-! The timestamp, along every sequence of updates. Each update rounds its gap down to whole microseconds, so that the
    timestamp falls behind by less than one microsecond an update; a gap that the conversion cannot hold is read as
    a shorter one. -/

namespace RodActuator.Adp
namespace Timer6

/-- The timer with the counts since the start of the counter. -/
structure Clocked where
  count : Nat
  timer : Timer6

/-- An update `gap` counts after the last one. -/
def Clocked.update (c : Clocked) (gap : Nat) : Clocked :=
  ⟨c.count + gap, c.timer.updateTimestamp (BitVec.ofNat 16 (c.count + gap))⟩

/-- After an update at the count `count₀`, and further ones with the gaps `past`. -/
def after (timerFreq : BitVec 32) (count₀ : Nat) (past : List Nat) : Clocked :=
  past.foldl Clocked.update ⟨count₀, (init timerFreq).updateTimestamp (BitVec.ofNat 16 count₀)⟩

/-- The microseconds that an update adds. -/
def converted (timerFreq : BitVec 32) (count₀ : Nat) (past : List Nat) (gap : Nat) : BitVec 32 :=
  let c := after timerFreq count₀ past
  c.timer.deltaToUs (countsBetween c.timer.lastTimer6Counter (shown (c.count + gap)))

/-- The timestamp is at most the microseconds that have elapsed since the first update, and falls behind them by less
    than the number of updates; the counts stand for the microseconds times the frequency. -/
def Tracks (timerFreq : BitVec 32) (count₀ : Nat) (past : List Nat) : Prop :=
  let us := (after timerFreq count₀ past).timer.totalElapsedUs.toNat
  us * timerFreq.toNat ≤ past.sum * 1000000 ∧ past.sum * 1000000 < (us + (past.length + 1)) * timerFreq.toNat

structure Exact (timerFreq : BitVec 32) (count₀ : Nat) (gaps : List Nat) : Prop where
  conversions : ∀ past gap, past ++ [gap] <+: gaps →
    (converted timerFreq count₀ past gap).toNat = gap * 1000000 / timerFreq.toNat
  timestamp : ∀ past, past <+: gaps → Tracks timerFreq count₀ past

/-- The gaps in whole microseconds. -/
def wholeUs (timerFreq : BitVec 32) (past : List Nat) : Nat :=
  (past.map fun gap => gap * 1000000 / timerFreq.toNat).sum

/-- The microseconds fit into the 64 bits of the timestamp, or there were more updates than what it lost as it wrapped. -/
def Unwrapped (timerFreq : BitVec 32) (past : List Nat) : Prop :=
  wholeUs timerFreq past < 2 ^ 64 ∨
    past.sum * 1000000 < (wholeUs timerFreq past % 2 ^ 64 + (past.length + 1)) * timerFreq.toNat

structure InRange (timerFreq : BitVec 32) (gaps : List Nat) : Prop where
  short : ∀ gap ∈ gaps, gap ≤ 4294
  unwrapped : ∀ past, past <+: gaps → Unwrapped timerFreq past

/-! ### The updates -/

variable {timerFreq : BitVec 32} {count₀ : Nat} {past gaps : List Nat} {gap : Nat}

theorem after_concat : after timerFreq count₀ (past ++ [gap]) = (after timerFreq count₀ past).update gap := by
  rw [after, List.foldl_append]
  rfl

/-- After the first update, the last counter is the one of the last update. -/
theorem after_spec (timerFreq : BitVec 32) (count₀ : Nat) (past : List Nat) :
    (after timerFreq count₀ past).timer.timerFreq = timerFreq ∧
      (after timerFreq count₀ past).timer.timestampInitialized = true ∧
      (after timerFreq count₀ past).timer.lastTimer6Counter = shown (after timerFreq count₀ past).count := by
  induction past using List.reverseRecOn with
  | nil => exact ⟨rfl, rfl, rfl⟩
  | append_singleton past gap ih =>
    obtain ⟨hfreq, hinit, -⟩ := ih
    rw [after_concat]
    simp [Clocked.update, updateTimestamp, hinit, hfreq, shown]

theorem total_concat : (after timerFreq count₀ (past ++ [gap])).timer.totalElapsedUs =
    (after timerFreq count₀ past).timer.totalElapsedUs + (converted timerFreq count₀ past gap).setWidth 64 := by
  have hinit := (after_spec timerFreq count₀ past).2.1
  rw [after_concat]
  simp only [Clocked.update, updateTimestamp, hinit, converted, shown]
  rfl

/-- A gap of less than a period is converted right if and only if it has at most 4294 counts. -/
theorem converted_iff (hfreq : 1000000 ≤ timerFreq.toNat) (count₀ : Nat) (past : List Nat) (hgap : gap < 65536) :
    (converted timerFreq count₀ past gap).toNat = gap * 1000000 / timerFreq.toNat ↔ gap ≤ 4294 := by
  obtain ⟨htimer, -, hlast⟩ := after_spec timerFreq count₀ past
  have hdelta := countsBetween_shown (after timerFreq count₀ past).count gap
  rw [← hlast, Nat.mod_eq_of_lt hgap] at hdelta
  have hexact := deltaToUs_exact_iff (t := (after timerFreq count₀ past).timer) (by rw [htimer]; omega)
    (countsBetween (after timerFreq count₀ past).timer.lastTimer6Counter (shown ((after timerFreq count₀ past).count + gap)))
  rwa [hdelta, htimer] at hexact

/-- Where the conversions are exact, the timestamp is the sum of the whole microseconds in 64 bits. -/
theorem total_eq (hfreq : 1000000 ≤ timerFreq.toNat) (hgaps : ∀ gap ∈ past, gap ≤ 4294) :
    (after timerFreq count₀ past).timer.totalElapsedUs.toNat = wholeUs timerFreq past % 2 ^ 64 := by
  induction past using List.reverseRecOn with
  | nil => rfl
  | append_singleton past gap ih =>
    have hgap : gap ≤ 4294 := hgaps gap (by simp)
    have hconverted := (converted_iff hfreq count₀ past (by omega)).mpr hgap
    have hlt := (converted timerFreq count₀ past gap).isLt
    rw [total_concat, BitVec.toNat_add, ih fun gap h => hgaps gap (List.mem_append_left _ h), BitVec.toNat_setWidth,
      hconverted, wholeUs, wholeUs, List.map_append, List.sum_append, List.map_singleton, List.sum_singleton]
    omega

/-- Rounding down loses less than one microsecond for each gap. -/
theorem wholeUs_bounds (hfreq : 0 < timerFreq.toNat) (past : List Nat) :
    wholeUs timerFreq past * timerFreq.toNat ≤ past.sum * 1000000 ∧
      past.sum * 1000000 ≤ (wholeUs timerFreq past + past.length) * timerFreq.toNat := by
  induction past with
  | nil => simp [wholeUs]
  | cons gap past ih =>
    have hdiv := Nat.div_mul_le_self (gap * 1000000) timerFreq.toNat
    have hlt := Nat.lt_div_mul_add (a := gap * 1000000) hfreq
    simp only [wholeUs, List.map_cons, List.sum_cons, List.length_cons, Nat.add_mul, Nat.one_mul] at ih ⊢
    omega

theorem mem_iff_concat : gap ∈ gaps ↔ ∃ past, past ++ [gap] <+: gaps := by
  constructor
  · intro hmem
    obtain ⟨past, rest, rfl⟩ := List.append_of_mem hmem
    exact ⟨past, rest, by simp⟩
  · rintro ⟨past, h⟩
    exact h.subset (by simp)

/-- Where the conversions so far are exact, the timestamp keeps up unless it wraps. -/
theorem tracks_iff (hfreq : 1000000 ≤ timerFreq.toNat) (hgaps : ∀ gap ∈ past, gap ≤ 4294) :
    Tracks timerFreq count₀ past ↔ Unwrapped timerFreq past := by
  have hpos : 0 < timerFreq.toNat := by omega
  obtain ⟨hle, hge⟩ := wholeUs_bounds hpos past
  have hmod : wholeUs timerFreq past % 2 ^ 64 * timerFreq.toNat ≤ wholeUs timerFreq past * timerFreq.toNat :=
    Nat.mul_le_mul_right _ (Nat.mod_le _ _)
  rw [Tracks, total_eq hfreq hgaps]
  refine ⟨fun h => .inr h.2, fun h => ⟨hmod.trans hle, ?_⟩⟩
  rcases h with hfits | hmany
  · rw [Nat.mod_eq_of_lt hfits]
    simp only [Nat.add_mul, Nat.one_mul] at hge ⊢
    omega
  · exact hmany

/-- The timebase is exact for exactly the sequences of gaps that the conversion can hold, until the timestamp wraps. -/
theorem exact_iff (timerFreq : BitVec 32) (hfreq : 1000000 ≤ timerFreq.toNat) (count₀ : Nat) (gaps : List Nat)
    (hgaps : ∀ gap ∈ gaps, gap < 65536) : Exact timerFreq count₀ gaps ↔ InRange timerFreq gaps := by
  have hshort : (∀ past gap, past ++ [gap] <+: gaps →
      (converted timerFreq count₀ past gap).toNat = gap * 1000000 / timerFreq.toNat) ↔ ∀ gap ∈ gaps, gap ≤ 4294 := by
    constructor
    · intro h gap hmem
      obtain ⟨past, hpre⟩ := mem_iff_concat.mp hmem
      exact (converted_iff hfreq count₀ past (hgaps gap hmem)).mp (h past gap hpre)
    · intro h past gap hpre
      have hmem := mem_iff_concat.mpr ⟨past, hpre⟩
      exact (converted_iff hfreq count₀ past (hgaps gap hmem)).mpr (h gap hmem)
  constructor
  · rintro ⟨hconversions, htimestamp⟩
    have hall := hshort.mp hconversions
    exact ⟨hall, fun past hpre =>
      (tracks_iff hfreq fun gap h => hall gap (hpre.subset h)).mp (htimestamp past hpre)⟩
  · rintro ⟨hall, hunwrapped⟩
    exact ⟨hshort.mpr hall, fun past hpre =>
      (tracks_iff hfreq fun gap h => hall gap (hpre.subset h)).mpr (hunwrapped past hpre)⟩

/-- The counter at 3.125 MHz, updated after each millisecond. -/
theorem exact_each_ms : Exact 3125000 65000 [3125, 3125] := by
  refine (exact_iff 3125000 (by decide) 65000 [3125, 3125] (by decide)).mpr ⟨by decide, fun past hpre => .inl ?_⟩
  have hle : past ∈ [3125, 3125].inits := (List.mem_inits _ _).mpr hpre
  have hall : ∀ past ∈ [3125, 3125].inits, wholeUs 3125000 past < 2 ^ 64 := by decide
  exact hall past hle

/-- The counter at 3.125 MHz, updated after 10 ms: the timestamp goes on by 379 microseconds. -/
theorem timestamp_of_10ms : (after 3125000 0 [31250]).timer.totalElapsedUs = 379 ∧
    31250 * 1000000 / 3125000 = 10000 ∧ ¬Exact 3125000 0 [31250] := by
  refine ⟨by decide, by decide, fun hexact => ?_⟩
  have htracks := (hexact.timestamp [31250] (List.prefix_refl _)).2
  revert htracks
  decide

end Timer6

end RodActuator.Adp
