import Mathlib.Tactic.Ring
import RodActuator.Lib.Ieee754

/-! Bounds of single precision results by whole numbers. A whole number below `2 ^ 24` is a single precision number, and
    rounding does not pass it; so bounds of the exact result are bounds of the rounded one. -/

namespace Binary32.Ieee

/-! ### The order of the values -/

theorem scaled_le_succ (k : Nat) : scaled k ≤ scaled (k + 1) := by
  unfold scaled
  by_cases hsub : k + 1 < 2 ^ 23
  · rw [if_pos hsub, if_pos (by omega)]
    omega
  · rw [if_neg hsub]
    by_cases hlast : k + 1 = 2 ^ 23
    · have hfirst : (2 ^ 23 + 2 ^ 23 % 2 ^ 23) * 2 ^ (2 ^ 23 / 2 ^ 23 - 1) = 2 ^ 23 := by decide
      rw [if_pos (by omega), hlast, hfirst]
      omega
    · rw [if_neg (by omega)]
      by_cases hcarry : (k + 1) % 2 ^ 23 = 0
      · -- The significand is full, and the exponent goes up.
        have hdiv : (k + 1) / 2 ^ 23 - 1 = k / 2 ^ 23 - 1 + 1 := by omega
        have hpow : 2 ^ (k / 2 ^ 23 - 1 + 1) = 2 * 2 ^ (k / 2 ^ 23 - 1) := Nat.pow_succ'
        rw [hcarry, hdiv, hpow, ← Nat.mul_assoc]
        exact Nat.mul_le_mul_right _ (by omega)
      · have hdiv : (k + 1) / 2 ^ 23 = k / 2 ^ 23 := by omega
        rw [hdiv]
        exact Nat.mul_le_mul_right _ (by omega)

theorem scaled_mono {k l : Nat} (h : k ≤ l) : scaled k ≤ scaled l := monotone_nat_of_le_succ scaled_le_succ h

/-- The units of one. -/
def unit : Nat := 2 ^ 149

theorem unit_pos : 0 < unit := Nat.two_pow_pos 149

/-- A whole number below `2 ^ 24` is the value of a magnitude. -/
theorem exists_scaled_eq {n : Nat} (h : n < 2 ^ 24) : ∃ k, k < infMagnitude ∧ scaled k = n * unit := by
  rcases Nat.eq_zero_or_pos n with rfl | hpos
  · exact ⟨0, by decide, by simp [scaled]⟩
  · have hlog : n.log2 ≤ 23 := by
      have hlt := (Nat.log2_lt hpos.ne').mpr h
      omega
    -- The significand is `n`, moved up to 24 bits.
    have hlow : 2 ^ 23 ≤ n * 2 ^ (23 - n.log2) := calc
      2 ^ 23 = 2 ^ n.log2 * 2 ^ (23 - n.log2) := by rw [← Nat.pow_add, Nat.add_sub_cancel' hlog]
      _ ≤ n * 2 ^ (23 - n.log2) := Nat.mul_le_mul_right _ (Nat.log2_self_le hpos.ne')
    have hhigh : n * 2 ^ (23 - n.log2) < 2 ^ 24 := calc
      n * 2 ^ (23 - n.log2) < 2 ^ (n.log2 + 1) * 2 ^ (23 - n.log2) :=
        Nat.mul_lt_mul_of_pos_right Nat.lt_log2_self (Nat.two_pow_pos _)
      _ = 2 ^ 24 := by
        rw [← Nat.pow_add]
        congr 1
        omega
    have hvalue : n * 2 ^ (23 - n.log2) * 2 ^ (126 + n.log2) = n * unit := by
      rw [Nat.mul_assoc, ← Nat.pow_add, unit]
      congr 2
      omega
    generalize n * 2 ^ (23 - n.log2) = p at hlow hhigh hvalue
    refine ⟨(126 + n.log2) * 2 ^ 23 + p, by unfold infMagnitude; omega, ?_⟩
    have hdiv : ((126 + n.log2) * 2 ^ 23 + p) / 2 ^ 23 - 1 = 126 + n.log2 := by omega
    have hmod : 2 ^ 23 + ((126 + n.log2) * 2 ^ 23 + p) % 2 ^ 23 = p := by omega
    rw [scaled, if_neg (by omega), hdiv, hmod, hvalue]

/-! ### Bounds -/

/-- A number that is not negative and lies between two whole numbers. -/
structure Between (lo hi : Nat) (x : Single) : Prop where
  sign : negative x = false
  finite : magnitude x < infMagnitude
  lower : lo * unit ≤ scaled (magnitude x)
  upper : scaled (magnitude x) ≤ hi * unit

section
variable {a b c d lo hi n : Nat} {x y : Single}

theorem Between.not_nan (h : Between lo hi x) : isNaN x = false := by
  have hfinite := h.finite
  simp only [isNaN, decide_eq_false_iff_not]
  omega

theorem Between.not_inf (h : Between lo hi x) : isInf x = false := by
  have hfinite := h.finite
  simp only [isInf, beq_eq_false_iff_ne]
  omega

theorem Between.magnitude_pos (h : Between lo hi x) (hlo : 0 < lo) : 0 < magnitude x := by
  by_contra hzero
  have hlower := h.lower
  have hprod := Nat.mul_pos hlo unit_pos
  rw [Nat.eq_zero_of_not_pos hzero] at hlower
  exact absurd (Nat.lt_of_lt_of_le hprod hlower) (by simp [scaled])

/-- Rounding stays between the whole numbers. -/
theorem between_round {num den : Nat} (hden : 0 < den) (hhi : hi < 2 ^ 24) (hlower : lo * unit * den ≤ num)
    (hupper : num ≤ hi * unit * den) : Between lo hi (pattern false (roundMagnitude num den)) := by
  have hle : lo * unit * den ≤ hi * unit * den := hlower.trans hupper
  have hlohi : lo ≤ hi := Nat.le_of_mul_le_mul_right (Nat.le_of_mul_le_mul_right hle hden) unit_pos
  obtain ⟨k, hk, hkvalue⟩ := exists_scaled_eq (Nat.lt_of_le_of_lt hlohi hhi)
  obtain ⟨l, hl, hlvalue⟩ := exists_scaled_eq hhi
  rw [← hkvalue] at hlower
  rw [← hlvalue] at hupper
  have hbelow := le_roundMagnitude hden hk.le hlower
  have habove := roundMagnitude_le hden hupper
  have hmag := magnitude_pattern false (roundMagnitude_lt num den)
  refine ⟨negative_pattern false (roundMagnitude_lt num den), ?_, ?_, ?_⟩ <;> rw [hmag]
  · omega
  · rw [← hkvalue]
    exact scaled_mono hbelow
  · rw [← hlvalue]
    exact scaled_mono habove

theorem between_ofInt (hhi : hi < 2 ^ 24) (hlo : lo ≤ n) (hn : n ≤ hi) : Between lo hi (ofInt n) := by
  have hsign : decide ((n : Int) < 0) = false := by simp
  rw [ofInt, hsign, Int.natAbs_natCast]
  refine between_round Nat.one_pos hhi ?_ ?_ <;> rw [Nat.mul_one]
  · exact Nat.mul_le_mul_right _ hlo
  · exact Nat.mul_le_mul_right _ hn

theorem between_mul (hx : Between a b x) (hy : Between c d y) (hsmall : b * d < 2 ^ 24) :
    Between (a * c) (b * d) (mul x y) := by
  have hmul : mul x y = pattern false (roundMagnitude (scaled (magnitude x) * scaled (magnitude y)) unit) := by
    simp [mul, hx.not_nan, hy.not_nan, hx.not_inf, hy.not_inf, hx.sign, hy.sign, unit]
  rw [hmul]
  refine between_round unit_pos hsmall ?_ ?_
  · calc
      a * c * unit * unit = a * unit * (c * unit) := by ring
      _ ≤ scaled (magnitude x) * scaled (magnitude y) := Nat.mul_le_mul hx.lower hy.lower
  · calc
      scaled (magnitude x) * scaled (magnitude y) ≤ b * unit * (d * unit) := Nat.mul_le_mul hx.upper hy.upper
      _ = b * d * unit * unit := by ring

theorem between_div (hx : Between a b x) (hy : Between c d y) (hc : 0 < c) (hhi : hi < 2 ^ 24) (hlower : lo * d ≤ a)
    (hupper : b ≤ hi * c) : Between lo hi (div x y) := by
  have hpos := hy.magnitude_pos hc
  have hdiv : div x y = pattern false (roundMagnitude (scaled (magnitude x) * unit) (scaled (magnitude y))) := by
    simp [div, hx.not_nan, hy.not_nan, hx.not_inf, hy.not_inf, hx.sign, hy.sign, unit, hpos.ne']
  rw [hdiv]
  refine between_round (scaled_pos hpos) hhi ?_ ?_
  · calc
      lo * unit * scaled (magnitude y) ≤ lo * unit * (d * unit) := Nat.mul_le_mul_left _ hy.upper
      _ = lo * d * unit * unit := by ring
      _ ≤ a * unit * unit := Nat.mul_le_mul_right _ (Nat.mul_le_mul_right _ hlower)
      _ ≤ scaled (magnitude x) * unit := Nat.mul_le_mul_right _ hx.lower
  · calc
      scaled (magnitude x) * unit ≤ b * unit * unit := Nat.mul_le_mul_right _ hx.upper
      _ ≤ hi * c * unit * unit := Nat.mul_le_mul_right _ (Nat.mul_le_mul_right _ hupper)
      _ = hi * unit * (c * unit) := by ring
      _ ≤ hi * unit * scaled (magnitude y) := Nat.mul_le_mul_left _ hy.lower

theorem between_toUInt32 (h : Between lo hi x) (hhi : hi < 2 ^ 32) :
    lo ≤ (toUInt32 x).toNat ∧ (toUInt32 x).toNat ≤ hi := by
  have hlower : lo ≤ scaled (magnitude x) / unit := (Nat.le_div_iff_mul_le unit_pos).mpr h.lower
  have hupper : scaled (magnitude x) / unit ≤ hi := Nat.div_le_of_le_mul (by rw [Nat.mul_comm]; exact h.upper)
  rw [toUInt32, h.not_nan, h.sign]
  simp only [Bool.or_self, Bool.false_eq_true, if_false, BitVec.toNat_ofNat]
  rw [unit] at hlower hupper
  omega

theorem Between.pos (h : Between lo hi x) (hlo : 0 < lo) : lt zero x = true := by
  have hpos := h.magnitude_pos hlo
  refine lt_iff.mpr ⟨rfl, h.not_nan, ?_⟩
  rw [key, key, h.sign]
  exact Int.natCast_pos.mpr hpos

end

end Binary32.Ieee
