import Mathlib.Data.Nat.Digits.Defs
import Mathlib.Tactic.Ring

/-! The digits of a number, as `_PrintUnsigned` of `RTT/SEGGER_RTT_printf.c` finds them: a first loop counts them, a second
    looks for the weight of the highest one, and a third divides them off from there. -/

namespace RodActuator.Rtt

/-- The loop that counts the digits of the number; a 32-bit number has at most 32. -/
def countDigits (base : Nat) : Nat → Nat → Nat
  | 0, _ => 1
  | fuel + 1, number => if base ≤ number then countDigits base fuel (number / base) + 1 else 1

/-- The loop that looks for the weight of the highest digit, with at least `numDigits` digits. The weight wraps. -/
def topWeight (v base : Nat) : Nat → Nat → Nat → Nat
  | 0, _, digit => digit
  | fuel + 1, numDigits, digit =>
    if 1 < numDigits then topWeight v base fuel (numDigits - 1) (digit * base % 2 ^ 32)
    else if v / digit < base then digit
    else topWeight v base fuel numDigits (digit * base % 2 ^ 32)

/-- The loop that divides the digits off, the highest first. -/
def divideDigits (base : Nat) : Nat → Nat → Nat → List Nat
  | 0, _, _ => []
  | fuel + 1, v, digit =>
    v / digit :: if digit / base = 0 then [] else divideDigits base fuel (v - v / digit * digit) (digit / base)

def numWidth (base v numDigits : Nat) : Nat := max (countDigits base 32 v) numDigits

/-- The digits that are printed, the highest first. -/
def numeral (base v numDigits : Nat) : List Nat := divideDigits base 32 v (topWeight v base (numDigits + 32) numDigits 1)

variable {base v numDigits : Nat}

theorem lt_pow_fuel (hbase : 2 ≤ base) (hv : v < 2 ^ 32) : v < base ^ (32 + 1) :=
  hv.trans_le ((Nat.pow_le_pow_left hbase 32).trans (Nat.pow_le_pow_right (by omega) (by decide)))

/-- A number of `w` digits lies between two powers of the base. -/
theorem countDigits_spec (hbase : 2 ≤ base) {fuel : Nat} (hv : v < base ^ (fuel + 1)) :
    0 < countDigits base fuel v ∧ v < base ^ countDigits base fuel v ∧
      (countDigits base fuel v = 1 ∨ base ^ (countDigits base fuel v - 1) ≤ v) := by
  induction fuel generalizing v with
  | zero => exact ⟨Nat.one_pos, hv, .inl rfl⟩
  | succ fuel ih =>
    unfold countDigits
    by_cases hle : base ≤ v
    · have hdiv : v / base < base ^ (fuel + 1) := by
        rw [Nat.div_lt_iff_lt_mul (by omega), ← Nat.pow_succ]
        exact hv
      obtain ⟨hpos, hlt, hge⟩ := ih hdiv
      rw [if_pos hle, Nat.add_sub_cancel]
      refine ⟨Nat.succ_pos _, ?_, .inr ?_⟩
      · rw [Nat.pow_succ]
        exact (Nat.div_lt_iff_lt_mul (by omega)).mp hlt
      · rcases hge with hone | hge
        · rw [hone, Nat.pow_one]
          exact hle
        · rw [← Nat.sub_add_cancel hpos, Nat.pow_succ]
          exact (Nat.le_div_iff_mul_le (by omega)).mp hge
    · rw [if_neg hle]
      exact ⟨Nat.one_pos, by rw [Nat.pow_one]; omega, .inl rfl⟩

/-- From the weight of a low digit the loop goes up to that of the highest one. -/
theorem topWeight_eq (hbase : 2 ≤ base) (hv : v < 2 ^ 32) {w : Nat} (hlt : v < base ^ w) (hge : w = 1 ∨ base ^ (w - 1) ≤ v)
    {j fuel : Nat} (hprec : base ^ (j + (numDigits - 1)) < 2 ^ 32) (hfuel : numDigits + 32 ≤ fuel + j) :
    topWeight v base fuel numDigits (base ^ j) = base ^ max (j + (numDigits - 1)) (w - 1) := by
  have hj : base ^ j ≤ base ^ (j + (numDigits - 1)) := Nat.pow_le_pow_right (by omega) (Nat.le_add_right ..)
  have hjlt : j < 32 := (Nat.pow_lt_pow_iff_right (a := 2) (by decide)).mp
    ((Nat.pow_le_pow_left hbase j).trans_lt (hj.trans_lt hprec))
  induction fuel generalizing numDigits j with
  | zero => omega
  | succ fuel ih =>
    unfold topWeight
    by_cases hmore : 1 < numDigits
    · have hnext : j + (numDigits - 1) = j + 1 + (numDigits - 1 - 1) := by omega
      have hle : base ^ (j + 1) ≤ base ^ (j + 1 + (numDigits - 1 - 1)) :=
        Nat.pow_le_pow_right (by omega) (Nat.le_add_right ..)
      rw [hnext] at hprec
      rw [if_pos hmore, ← Nat.pow_succ, Nat.mod_eq_of_lt (hle.trans_lt hprec), hnext]
      refine ih hprec (by omega) hle ?_
      exact (Nat.pow_lt_pow_iff_right (a := 2) (by decide)).mp
        ((Nat.pow_le_pow_left hbase _).trans_lt (hle.trans_lt hprec))
    · have hzero : numDigits - 1 = 0 := by omega
      have hpow : 0 < base ^ j := Nat.pow_pos (by omega)
      rw [if_neg hmore, hzero, Nat.add_zero]
      by_cases hhigh : v / base ^ j < base
      · have hin : v < base ^ (j + 1) := by
          rw [Nat.pow_succ, Nat.mul_comm]
          exact (Nat.div_lt_iff_lt_mul hpow).mp hhigh
        have hw : w - 1 ≤ j := by
          rcases hge with hone | hge
          · omega
          · exact Nat.lt_succ_iff.mp ((Nat.pow_lt_pow_iff_right (by omega)).mp (hge.trans_lt hin))
        rw [if_pos hhigh, Nat.max_eq_left hw]
      · have hle : base ^ (j + 1) ≤ v := by
          rw [Nat.pow_succ, Nat.mul_comm]
          exact (Nat.le_div_iff_mul_le hpow).mp (Nat.le_of_not_lt hhigh)
        have hw : j + 1 < w := (Nat.pow_lt_pow_iff_right (by omega)).mp (hle.trans_lt hlt)
        have hsmall : base ^ (j + 1) < 2 ^ 32 := hle.trans_lt hv
        rw [if_neg hhigh, ← Nat.pow_succ, Nat.mod_eq_of_lt hsmall,
          ih (j := j + 1) (by rw [hzero]; exact hsmall) (by omega) (by rw [hzero])
            ((Nat.pow_lt_pow_iff_right (a := 2) (by decide)).mp ((Nat.pow_le_pow_left hbase _).trans_lt hsmall)), hzero,
          show max (j + 1 + 0) (w - 1) = max j (w - 1) by omega]

theorem divideDigits_spec (hbase : 2 ≤ base) {k fuel : Nat} (hv : v < base ^ (k + 1)) (hfuel : k < fuel) :
    (divideDigits base fuel v (base ^ k)).length = k + 1 ∧ (∀ d ∈ divideDigits base fuel v (base ^ k), d < base) ∧
      Nat.ofDigits base (divideDigits base fuel v (base ^ k)).reverse = v := by
  induction k generalizing fuel v with
  | zero =>
    obtain ⟨fuel, rfl⟩ : ∃ m, fuel = m + 1 := ⟨fuel - 1, by omega⟩
    rw [Nat.pow_one] at hv
    unfold divideDigits
    rw [Nat.pow_zero, Nat.div_one, if_pos (Nat.div_eq_of_lt (by omega))]
    refine ⟨rfl, fun d hd => ?_, Nat.ofDigits_singleton⟩
    rw [List.mem_singleton.mp hd]
    exact hv
  | succ k ih =>
    obtain ⟨fuel, rfl⟩ : ∃ m, fuel = m + 1 := ⟨fuel - 1, by omega⟩
    have hpow : 0 < base ^ k := Nat.pow_pos (by omega)
    have hpow' : 0 < base ^ (k + 1) := Nat.pow_pos (by omega)
    have hweight : base ^ (k + 1) / base = base ^ k := by rw [Nat.pow_succ, Nat.mul_div_cancel _ (by omega)]
    have hrest : v - v / base ^ (k + 1) * base ^ (k + 1) = v % base ^ (k + 1) := by
      exact Nat.sub_eq_of_eq_add' (Nat.div_add_mod' v _).symm
    obtain ⟨hlen, hdigits, hvalue⟩ := ih (v := v % base ^ (k + 1)) (Nat.mod_lt _ hpow') (show k < fuel by omega)
    unfold divideDigits
    rw [hweight, if_neg (by omega), hrest]
    refine ⟨by rw [List.length_cons, hlen], fun d hd => ?_, ?_⟩
    · rcases List.mem_cons.mp hd with rfl | hd
      · rw [Nat.div_lt_iff_lt_mul hpow', Nat.mul_comm, ← Nat.pow_succ]
        exact hv
      · exact hdigits d hd
    · rw [Nat.ofDigits_reverse_cons, hvalue, hlen, Nat.mod_add_div]

/-- While the weight of the highest digit does not wrap, the digits are those of the number, with zeros in front up to
    the precision. -/
theorem numeral_spec (hbase : 2 ≤ base) (hv : v < 2 ^ 32) (hprec : base ^ (numDigits - 1) < 2 ^ 32) :
    (numeral base v numDigits).length = numWidth base v numDigits ∧ (∀ d ∈ numeral base v numDigits, d < base) ∧
      Nat.ofDigits base (numeral base v numDigits).reverse = v := by
  obtain ⟨hpos, hlt, hge⟩ := countDigits_spec hbase (lt_pow_fuel hbase hv)
  have htop := topWeight_eq hbase hv hlt hge (j := 0) (show base ^ (0 + (numDigits - 1)) < 2 ^ 32 by rwa [Nat.zero_add])
    (show numDigits + 32 ≤ numDigits + 32 + 0 from Nat.le_refl _)
  have hk : max (0 + (numDigits - 1)) (countDigits base 32 v - 1) + 1 = numWidth base v numDigits := by
    unfold numWidth
    omega
  rw [numeral, ← Nat.pow_zero base, htop, ← hk]
  refine divideDigits_spec hbase (hlt.trans_le (Nat.pow_le_pow_right (by omega) (by omega))) ?_
  refine (Nat.pow_lt_pow_iff_right (a := 2) (by decide)).mp ((Nat.pow_le_pow_left hbase _).trans_lt ?_)
  rcases Nat.le_total (0 + (numDigits - 1)) (countDigits base 32 v - 1) with hle | hle
  · rw [Nat.max_eq_right hle]
    rcases hge with hone | hge
    · rw [hone, Nat.sub_self, Nat.pow_zero]
      exact Nat.one_lt_two_pow (by decide)
    · exact hge.trans_lt hv
  · rw [Nat.max_eq_left hle, Nat.zero_add]
    exact hprec

end RodActuator.Rtt
