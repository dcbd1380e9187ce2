import Mathlib.Data.BitVec
import Mathlib.Algebra.BigOperators.Group.List.Basic

/-! The microsecond timebase (`Adp/hc32_drv_timer.c`) over a 16-bit counter that runs freely. Counts become
    microseconds by a product of 32 bits, which holds the microseconds of 4294 counts and no more. -/

namespace RodActuator.Adp

structure Timer6 where
  timerFreq : BitVec 32
  lastCounter : BitVec 32
  deltaCounter : BitVec 32
  totalElapsedUs : BitVec 64
  lastTimer6Counter : BitVec 32
  timestampInitialized : Bool
  deriving DecidableEq, Repr

namespace Timer6

/-- After `Timer6_Timebase_Init` at power-up. -/
def init (timerFreq : BitVec 32) : Timer6 := ⟨timerFreq, 0, 0, 0, 0, false⟩

/-- The counts from a value of the counter to a later one. -/
def countsBetween (last current : BitVec 32) : BitVec 32 :=
  if last ≤ current then current - last else 65536 - last + current

def getDelta (counter : BitVec 16) (t : Timer6) : BitVec 32 × Timer6 :=
  let delta := countsBetween t.lastCounter (counter.setWidth 32)
  (delta, { t with lastCounter := counter.setWidth 32, deltaCounter := delta })

def deltaToUs (deltaCounter : BitVec 32) (t : Timer6) : BitVec 32 :=
  if t.timerFreq = 0 then 0 else deltaCounter * 1000000 / t.timerFreq

def updateTimestamp (counter : BitVec 16) (t : Timer6) : Timer6 :=
  if !t.timestampInitialized then
    { t with lastTimer6Counter := counter.setWidth 32, timestampInitialized := true }
  else
    let delta := countsBetween t.lastTimer6Counter (counter.setWidth 32)
    { t with
      totalElapsedUs := t.totalElapsedUs + (t.deltaToUs delta).setWidth 64
      lastTimer6Counter := counter.setWidth 32 }

/-! ### One conversion -/

/-- What the counter shows after `count` counts, read as 32 bits. -/
def shown (count : Nat) : BitVec 32 := (BitVec.ofNat 16 count).setWidth 32

theorem toNat_shown (count : Nat) : (shown count).toNat = count % 65536 := by
  have hlt : count % 65536 < 2 ^ 32 := by omega
  rw [shown, BitVec.toNat_setWidth, BitVec.toNat_ofNat, Nat.mod_eq_of_lt hlt]

/-- The wrap of the counter hides whole periods. -/
theorem countsBetween_shown (count gap : Nat) :
    (countsBetween (shown count) (shown (count + gap))).toNat = gap % 65536 := by
  have hlast := toNat_shown count
  have hcurrent := toNat_shown (count + gap)
  have hperiod : (65536 : BitVec 32).toNat = 65536 := rfl
  unfold countsBetween
  split
  · rename_i hle
    rw [BitVec.toNat_sub_of_le hle, hlast, hcurrent]
    rw [BitVec.le_def] at hle
    omega
  · rename_i hlt
    rw [BitVec.le_def] at hlt
    have hle : shown count ≤ 65536 := by
      rw [BitVec.le_def]
      omega
    rw [BitVec.toNat_add, BitVec.toNat_sub_of_le hle, hlast, hcurrent, hperiod]
    omega

/-- A product that is cut off at `m` gives the right quotient only if it is not cut off. -/
theorem mod_div_eq_iff {x m f : Nat} (hf : 0 < f) (hm : f ≤ m) : x % m / f = x / f ↔ x < m := by
  constructor
  · intro heq
    by_contra hge
    have hq : 1 ≤ x / m := (Nat.one_le_div_iff (by omega)).mpr (by omega)
    have hx : x % m + f ≤ x := by
      have hdiv := Nat.mod_add_div x m
      have hmul : m ≤ m * (x / m) := Nat.le_mul_of_pos_right m hq
      omega
    have hle := Nat.div_le_div_right (c := f) hx
    rw [Nat.add_div_right _ hf] at hle
    omega
  · exact fun hlt => by rw [Nat.mod_eq_of_lt hlt]

variable {t : Timer6}

theorem toNat_deltaToUs (hfreq : 0 < t.timerFreq.toNat) (delta : BitVec 32) :
    (t.deltaToUs delta).toNat = delta.toNat * 1000000 % 2 ^ 32 / t.timerFreq.toNat := by
  have hne : t.timerFreq ≠ 0 := by
    intro hzero
    simp [hzero] at hfreq
  rw [deltaToUs, if_neg hne, BitVec.toNat_udiv, BitVec.toNat_mul]
  rfl

/-- A conversion is exact for at most 4294 counts. -/
theorem deltaToUs_exact_iff (hfreq : 0 < t.timerFreq.toNat) (delta : BitVec 32) :
    (t.deltaToUs delta).toNat = delta.toNat * 1000000 / t.timerFreq.toNat ↔ delta.toNat ≤ 4294 := by
  rw [toNat_deltaToUs hfreq, mod_div_eq_iff hfreq t.timerFreq.isLt.le]
  omega

end Timer6

end RodActuator.Adp
