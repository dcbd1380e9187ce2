import RodActuator.Lib.Ieee754
import RodActuator.Lib.Transition
import RodActuator.Motor.Hall

/-! The intervals between the edges of the hall sensors, against the counts that have passed. The counter wraps every
    21 ms and the conversion every 1.4 ms, so that a longer gap is read as a shorter one. -/

namespace RodActuator.Motor
open Adp Binary32 Transition Timer6

/-- PCLK0 of 200 MHz by 64. -/
def hallTimerFreq : BitVec 32 := 3125000

/-- The sensors, the counts since the start of the counter, and when the last edge was. -/
structure Timed where
  count : Nat
  lastEdge : Option Nat
  hall : Hall

/-- An edge of a sensor, or an update of the timestamp by a thread, `gap` counts after what happened last. -/
inductive Act where
  | hallA (gap : Nat)
  | hallB (invertDir aHigh bHigh : Bool) (gap : Nat)
  | updateTimestamp (gap : Nat)
  deriving DecidableEq, Repr

namespace Timed

/-- The timebase and the sensors after their start, whatever the sensors hold. -/
def start (count₀ : Nat) (inst : MotorHallInst) : Timed :=
  ⟨count₀, none, ⟨{ inst with valid := true }, Timer6.init hallTimerFreq⟩⟩

def step (F : Binary32) (s : Timed) : Act → Option Timed
  | .hallA gap =>
    some ⟨s.count + gap, some (s.count + gap), s.hall.hallA (BitVec.ofNat 16 (s.count + gap))⟩
  | .hallB invertDir aHigh bHigh gap =>
    some ⟨s.count + gap, some (s.count + gap), s.hall.hallB F invertDir aHigh bHigh (BitVec.ofNat 16 (s.count + gap))⟩
  | .updateTimestamp gap =>
    some ⟨s.count + gap, s.lastEdge, { s.hall with
      timer := s.hall.timer.updateTimestamp (BitVec.ofNat 16 (s.count + gap)) }⟩

/-- The counts between an edge and the edge before it. -/
def edgeGap (s : Timed) : Act → Option Nat
  | .hallA gap | .hallB _ _ _ gap => s.lastEdge.map fun last => s.count + gap - last
  | .updateTimestamp _ => none

/-- At most 200 ms. -/
def Within (s : Timed) (a : Act) : Prop := ∀ gap ∈ s.edgeGap a, gap ≤ 625000

/-- An interval that is accepted is the true gap in whole microseconds, and a gap of 50 to 200000 microseconds is
    accepted; the counts stand for the microseconds times the frequency. -/
def TrueInterval (F : Binary32) (s : Timed) (a : Act) : Prop :=
  ∀ gap ∈ s.edgeGap a, ∀ s', step F s a = some s' →
    (s'.hall.inst.pulseCounter ≠ s.hall.inst.pulseCounter →
      s'.hall.inst.lastPulseInterval.toNat = gap * 1000000 / hallTimerFreq.toNat) ∧
    (50 * hallTimerFreq.toNat ≤ gap * 1000000 ∧ gap * 1000000 ≤ 200000 * hallTimerFreq.toNat →
      s'.hall.inst.pulseCounter ≠ s.hall.inst.pulseCounter)

/-- At most 4294 counts, which is less than 1.4 ms. -/
def Short (s : Timed) (a : Act) : Prop := ∀ gap ∈ s.edgeGap a, gap ≤ 4294

/-- The timebase measures from the last edge. -/
structure Measures (s : Timed) : Prop where
  valid : s.hall.inst.valid = true
  freq : s.hall.timer.timerFreq = hallTimerFreq
  last : ∀ last ∈ s.lastEdge, last ≤ s.count ∧ s.hall.timer.lastCounter = shown last

/-! ### One edge -/

variable {F : Binary32} {s s' : Timed} {a : Act}

theorem Measures.count_of_gap {gap gap' : Nat} (h : Measures s)
    (hgap : gap ∈ s.lastEdge.map fun last => s.count + gap' - last) : ∃ last ∈ s.lastEdge, s.count + gap' = last + gap := by
  obtain ⟨last, hlast, rfl⟩ := Option.map_eq_some_iff.mp hgap
  have hle := (h.last last hlast).1
  exact ⟨last, hlast, by omega⟩

/-- What an edge does, whichever sensor it comes from. -/
theorem step_edge {gap : Nat} (h : Measures s) (hgap : gap ∈ s.edgeGap a) (hstep : step F s a = some s') :
    ∃ last, last ∈ s.lastEdge ∧ s'.count = last + gap ∧
      Hall.Stores (BitVec.ofNat 16 (last + gap)) s.hall s'.hall := by
  cases a with
  | hallA gap' =>
    obtain ⟨last, hlast, hcount⟩ := h.count_of_gap hgap
    cases hstep
    refine ⟨last, hlast, hcount, ?_⟩
    rw [← hcount]
    exact Hall.stores_hallA h.valid
  | hallB invertDir aHigh bHigh gap' =>
    obtain ⟨last, hlast, hcount⟩ := h.count_of_gap hgap
    cases hstep
    refine ⟨last, hlast, hcount, ?_⟩
    rw [← hcount]
    exact Hall.stores_hallB F invertDir aHigh bHigh h.valid
  | updateTimestamp => cases hgap

/-- The interval that an edge reads: whole periods of the counter and of the product are lost. -/
theorem toNat_intervalUs {last gap : Nat} (h : Measures s) (hlast : last ∈ s.lastEdge) :
    (Hall.intervalUs (BitVec.ofNat 16 (last + gap)) s.hall).toNat =
      gap % 65536 * 1000000 % 2 ^ 32 / hallTimerFreq.toNat := by
  have hfreq : 0 < s.hall.timer.timerFreq.toNat := by
    rw [h.freq]
    decide
  have hdelta : (s.hall.timer.getDelta (BitVec.ofNat 16 (last + gap))).1.toNat = gap % 65536 := by
    rw [← countsBetween_shown last gap, ← (h.last last hlast).2]
    rfl
  rw [Hall.intervalUs, toNat_deltaToUs hfreq, hdelta, h.freq]

/-- Among the gaps of at most 200 ms, those of at most 4294 counts are read right. -/
theorem read_right_iff {gap us : Nat} (hgap : gap ≤ 625000) (hus : us = gap % 65536 * 1000000 % 2 ^ 32 / 3125000) :
    (50 ≤ us ∧ us ≤ 200000 → us = gap * 1000000 / 3125000) ∧
        (50 * 3125000 ≤ gap * 1000000 ∧ gap * 1000000 ≤ 200000 * 3125000 → 50 ≤ us ∧ us ≤ 200000) ↔
      gap ≤ 4294 := by
  constructor
  · rintro ⟨hright, haccepts⟩
    by_contra hlong
    have hin := haccepts (by omega)
    -- The interval is below 1375 µs, which a gap beyond the period of the counter is not.
    have heq := hright hin
    have hshort : us < 1375 := by omega
    have hperiod : gap < 65536 := by omega
    rw [Nat.mod_eq_of_lt hperiod] at hus
    have hfits := (mod_div_eq_iff (by omega) (by omega)).mp (hus.symm.trans heq)
    omega
  · intro hshort
    have hperiod : gap < 65536 := by omega
    have hfits : gap * 1000000 < 2 ^ 32 := by omega
    rw [Nat.mod_eq_of_lt hperiod, Nat.mod_eq_of_lt hfits] at hus
    omega

theorem trueInterval_iff (h : Measures s) (hwithin : Within s a) : TrueInterval F s a ↔ Short s a := by
  refine forall_congr' fun gap => forall_congr' fun hgap => ?_
  obtain ⟨s', hstep⟩ : ∃ s', step F s a = some s' := by cases a <;> exact ⟨_, rfl⟩
  obtain ⟨last, hlast, -, hstores⟩ := step_edge h hgap hstep
  have hwindow : Hall.InWindow (Hall.intervalUs (BitVec.ofNat 16 (last + gap)) s.hall) ↔
      50 ≤ (Hall.intervalUs (BitVec.ofNat 16 (last + gap)) s.hall).toNat ∧
        (Hall.intervalUs (BitVec.ofNat 16 (last + gap)) s.hall).toNat ≤ 200000 := Iff.rfl
  have hfreq : hallTimerFreq.toNat = 3125000 := rfl
  rw [← read_right_iff (hwithin gap hgap) (toNat_intervalUs h hlast), ← hwindow]
  simp only [hstep, Option.some.injEq, forall_eq', hstores.counts_iff, hfreq]
  refine and_congr (forall_congr' fun hin => ?_) Iff.rfl
  rw [(hstores.accepted hin).2]

/-- An edge makes the timebase measure from it. -/
theorem Measures.edge (h : Measures s) {count : Nat} {hall : Hall}
    (hstores : Hall.Stores (BitVec.ofNat 16 count) s.hall hall) : Measures ⟨count, some count, hall⟩ := by
  refine ⟨hstores.valid.trans h.valid, ?_, fun last hlast => ?_⟩
  · rw [hstores.timer]
    exact h.freq
  · obtain rfl := Option.some.inj hlast
    refine ⟨Nat.le_refl _, ?_⟩
    rw [hstores.timer]
    rfl

theorem measures_step (h : Measures s) (hstep : step F s a = some s') : Measures s' := by
  cases a with
  | hallA gap =>
    cases hstep
    exact h.edge (Hall.stores_hallA h.valid)
  | hallB invertDir aHigh bHigh gap =>
    cases hstep
    exact h.edge (Hall.stores_hallB F invertDir aHigh bHigh h.valid)
  | updateTimestamp gap =>
    cases hstep
    have hkept : (s.hall.timer.updateTimestamp (BitVec.ofNat 16 (s.count + gap))).timerFreq = s.hall.timer.timerFreq ∧
        (s.hall.timer.updateTimestamp (BitVec.ofNat 16 (s.count + gap))).lastCounter = s.hall.timer.lastCounter := by
      unfold updateTimestamp
      split <;> exact ⟨rfl, rfl⟩
    refine ⟨h.valid, hkept.1.trans h.freq, fun last hlast => ?_⟩
    obtain ⟨hle, hcounter⟩ := h.last last hlast
    exact ⟨Nat.le_add_right_of_le hle, hkept.2.trans hcounter⟩

theorem measures_start (count₀ : Nat) (inst : MotorHallInst) : Measures (start count₀ inst) :=
  ⟨rfl, rfl, fun _ h => by cases h⟩

/-- Along the runs whose edges are at most 200 ms apart, the intervals are true exactly where every gap has at most
    4294 counts. -/
theorem true_intervals_iff (F : Binary32) (count₀ : Nat) (inst : MotorHallInst) (as : List Act) (s : Timed) :
    Run (step F) (fun s a => Within s a ∧ TrueInterval F s a) (start count₀ inst) as s ↔
      Run (step F) Short (start count₀ inst) as s := by
  refine Run.congr (measures_start count₀ inst) (fun _ _ _ h hstep => measures_step h hstep) fun s a h => ?_
  refine ⟨fun ⟨hwithin, htrue⟩ => (trueInterval_iff h hwithin).mp htrue, fun hshort => ?_⟩
  have hwithin : Within s a := fun gap hgap => (hshort gap hgap).trans (by decide)
  exact ⟨hwithin, (trueInterval_iff h hwithin).mpr hshort⟩

/-- Two edges 2 ms apart: the interval is stored as 625 microseconds. -/
theorem interval_of_2ms :
    ∃ s s', exec (step ieee) (start 0 MotorHallInst.init) [.hallA 1000] = some s ∧
      step ieee s (.hallB false true false 6250) = some s' ∧ s.edgeGap (.hallB false true false 6250) = some 6250 ∧
      s'.hall.inst.pulseCounter = 2 ∧ s'.hall.inst.lastPulseInterval = 625 ∧
      Within s (.hallB false true false 6250) ∧ ¬TrueInterval ieee s (.hallB false true false 6250) := by
  refine ⟨_, _, rfl, rfl, rfl, by decide +kernel, by decide +kernel, fun gap hgap => ?_, fun htrue => ?_⟩
  · obtain rfl := Option.some.inj hgap
    decide
  · have hstored := (htrue 6250 rfl _ rfl).1 (by decide +kernel)
    revert hstored
    decide +kernel

end Timed

end RodActuator.Motor
