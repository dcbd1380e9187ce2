import Mathlib.Data.Int.Order.Basic
import RodActuator.Lib.Binary32

/-! IEEE 754 single precision, rounded to nearest with ties to even. A finite number is a whole multiple of
    `2 ^ -149`, so a sum is exact over the integers before it is rounded; and the patterns of one sign are
    ordered like their values, so rounding looks for the nearest pattern. -/

namespace Binary32.Ieee

/-! ### Patterns -/

def negative (x : Single) : Bool := x.msb

/-- The pattern without its sign. -/
def magnitude (x : Single) : Nat := x.toNat % 2 ^ 31

def infMagnitude : Nat := 0x7F800000

def isNaN (x : Single) : Bool := infMagnitude < magnitude x

def isInf (x : Single) : Bool := magnitude x == infMagnitude

def quietNaN : Single := 0x7FC00000#32

def pattern (neg : Bool) (k : Nat) : Single := BitVec.ofNat 32 (if neg then 2 ^ 31 + k else k)

def opposite (x : Single) : Single := pattern (!negative x) (magnitude x)

/-- The place of a pattern in the order of the numbers. -/
def key (x : Single) : Int := if negative x then -(magnitude x : Int) else magnitude x

/-! ### Values -/

/-- The value of a finite magnitude in units of `2 ^ -149`. -/
def scaled (k : Nat) : Nat := if k < 2 ^ 23 then k else (2 ^ 23 + k % 2 ^ 23) * 2 ^ (k / 2 ^ 23 - 1)

def value (x : Single) : Int := if negative x then -(scaled (magnitude x) : Int) else scaled (magnitude x)

/-- The magnitude nearest to `num / den` units; what is too large becomes infinite. -/
def roundMagnitude (num den : Nat) : Nat :=
  let s := (num / den).log2 - 23
  let unit := den * 2 ^ s
  let up := if unit < 2 * (num % unit) ∨ unit = 2 * (num % unit) ∧ num / unit % 2 = 1 then 1 else 0
  min (s * 2 ^ 23 + num / unit + up) infMagnitude

/-! ### Operations -/

def addFinite (a b : Single) : Single :=
  let z := value a + value b
  if z = 0 then pattern (negative a && negative b) 0 else pattern (z < 0) (roundMagnitude z.natAbs 1)

def add (a b : Single) : Single :=
  if isNaN a || isNaN b then quietNaN
  else if isInf a then (if isInf b && negative a != negative b then quietNaN else a)
  else if isInf b then b
  else addFinite a b

def mul (a b : Single) : Single :=
  let neg := negative a != negative b
  if isNaN a || isNaN b then quietNaN
  else if isInf a || isInf b then
    if magnitude a = 0 ∨ magnitude b = 0 then quietNaN else pattern neg infMagnitude
  else pattern neg (roundMagnitude (scaled (magnitude a) * scaled (magnitude b)) (2 ^ 149))

def div (a b : Single) : Single :=
  let neg := negative a != negative b
  if isNaN a || isNaN b || (isInf a && isInf b) || (magnitude a == 0 && magnitude b == 0) then quietNaN
  else if isInf a || magnitude b == 0 then pattern neg infMagnitude
  else if isInf b then pattern neg 0
  else pattern neg (roundMagnitude (scaled (magnitude a) * 2 ^ 149) (scaled (magnitude b)))

def lt (a b : Single) : Bool := !isNaN a && !isNaN b && key a < key b

def ofInt (n : Int) : Single := pattern (n < 0) (roundMagnitude (n.natAbs * 2 ^ 149) 1)

/-- The whole number towards zero; what is out of range becomes the nearest in it. -/
def toUInt32 (x : Single) : BitVec 32 :=
  if isNaN x || negative x then 0 else BitVec.ofNat 32 (min (scaled (magnitude x) / 2 ^ 149) (2 ^ 32 - 1))

def sub (a b : Single) : Single := add a (opposite b)

def le (a b : Single) : Bool := !isNaN a && !isNaN b && key a ≤ key b

/-! ### Rounding does not pass a number -/

/-- A finite magnitude is a significand below `2 ^ 24` and an exponent. -/
theorem scaled_eq (k : Nat) : ∃ m t, k = t * 2 ^ 23 + m ∧ scaled k = m * 2 ^ t ∧ m < 2 ^ 24 ∧ (t = 0 ∨ 2 ^ 23 ≤ m) := by
  unfold scaled
  split
  · exact ⟨k, 0, by omega, by omega, by omega, .inl rfl⟩
  · refine ⟨2 ^ 23 + k % 2 ^ 23, k / 2 ^ 23 - 1, by omega, rfl, by omega, .inr (by omega)⟩

/-- What the shift of a rounding is. -/
theorem shift_spec (n : Nat) : n < 2 ^ (n.log2 - 23 + 24) ∧ (0 < n.log2 - 23 → 2 ^ (n.log2 - 23 + 23) ≤ n) := by
  constructor
  · refine Nat.lt_of_lt_of_le Nat.lt_log2_self (Nat.pow_le_pow_right (by decide) ?_)
    omega
  · intro hpos
    have hne : n ≠ 0 := by
      rintro rfl
      simp at hpos
    have hlog : n.log2 - 23 + 23 = n.log2 := by omega
    rw [hlog]
    exact Nat.log2_self_le hne

section
variable {k n d : Nat}

theorem le_roundMagnitude (hd : 0 < d) (hk : k ≤ infMagnitude) (h : scaled k * d ≤ n) :
    k ≤ roundMagnitude n d := by
  obtain ⟨m, t, rfl, hvalue, hm, hnormal⟩ := scaled_eq k
  rw [hvalue, ← Nat.le_div_iff_mul_le hd] at h
  simp only [roundMagnitude, ← Nat.div_div_eq_div_mul]
  obtain ⟨hlt, hle⟩ := shift_spec (n / d)
  generalize (n / d).log2 - 23 = s at hlt hle
  refine Nat.le_min.mpr ⟨?_, hk⟩
  refine Nat.le_trans ?_ (Nat.le_add_right _ _)
  rcases Nat.lt_trichotomy t s with hts | rfl | hst
  · -- Below the exponent of the quotient every magnitude is smaller.
    have hbig : 2 ^ 23 ≤ n / d / 2 ^ s := by
      rw [Nat.le_div_iff_mul_le (Nat.two_pow_pos s), ← Nat.pow_add, Nat.add_comm]
      exact hle (by omega)
    omega
  · have hdiv : m ≤ n / d / 2 ^ t := (Nat.le_div_iff_mul_le (Nat.two_pow_pos t)).mpr h
    omega
  · have hm23 : 2 ^ 23 ≤ m := by omega
    have hbig : 2 ^ (s + 24) ≤ m * 2 ^ t := calc
      2 ^ (s + 24) ≤ 2 ^ (23 + t) := Nat.pow_le_pow_right (by decide) (by omega)
      _ = 2 ^ 23 * 2 ^ t := Nat.pow_add 2 23 t
      _ ≤ m * 2 ^ t := Nat.mul_le_mul_right _ hm23
    omega

theorem roundMagnitude_le (hd : 0 < d) (h : n ≤ scaled k * d) : roundMagnitude n d ≤ k := by
  obtain ⟨m, t, rfl, hvalue, hm, hnormal⟩ := scaled_eq k
  rw [hvalue] at h
  have hquotient : n / d ≤ m * 2 ^ t := Nat.div_le_of_le_mul (by rwa [Nat.mul_comm])
  simp only [roundMagnitude, ← Nat.div_div_eq_div_mul]
  obtain ⟨hlt, hle⟩ := shift_spec (n / d)
  generalize (n / d).log2 - 23 = s at hlt hle
  refine Nat.le_trans (Nat.min_le_left _ _) ?_
  rcases Nat.lt_trichotomy t s with hts | rfl | hst
  · have hsmall : m * 2 ^ t < 2 ^ (s + 23) := calc
      m * 2 ^ t < 2 ^ 24 * 2 ^ t := Nat.mul_lt_mul_of_pos_right hm (Nat.two_pow_pos t)
      _ = 2 ^ (24 + t) := (Nat.pow_add 2 24 t).symm
      _ ≤ 2 ^ (s + 23) := Nat.pow_le_pow_right (by decide) (by omega)
    have hbig := hle (by omega)
    omega
  · -- The quotient is below the significand, or equal to it with nothing left to round.
    have hquot : n / d / 2 ^ t ≤ m := Nat.div_le_of_le_mul (by rwa [Nat.mul_comm])
    rcases Nat.lt_or_eq_of_le hquot with hless | heq
    · split <;> omega
    · have hsplit := Nat.div_add_mod n (d * 2 ^ t)
      have hproduct : m * 2 ^ t * d = d * 2 ^ t * m := by rw [Nat.mul_comm m, Nat.mul_comm d, Nat.mul_right_comm]
      rw [← Nat.div_div_eq_div_mul, heq] at hsplit
      have hrest : n % (d * 2 ^ t) = 0 := by omega
      have hpos := Nat.mul_pos hd (Nat.two_pow_pos t)
      rw [hrest, if_neg (by omega)]
      omega
  · have hquot : n / d / 2 ^ s < 2 ^ 24 := by
      rw [Nat.div_lt_iff_lt_mul (Nat.two_pow_pos s), ← Nat.pow_add, Nat.add_comm]
      exact hlt
    have hm23 : 2 ^ 23 ≤ m := by omega
    split <;> omega

theorem roundMagnitude_lt (n d : Nat) : roundMagnitude n d < 2 ^ 31 :=
  Nat.lt_of_le_of_lt (Nat.min_le_right _ _) (by decide)

end

/-! ### Order -/

theorem lt_iff {a b : Single} : lt a b = true ↔ isNaN a = false ∧ isNaN b = false ∧ key a < key b := by
  simp [lt, and_assoc]

theorem le_iff {a b : Single} : le a b = true ↔ isNaN a = false ∧ isNaN b = false ∧ key a ≤ key b := by
  simp [le, and_assoc]

theorem magnitude_le {x : Single} (h : isNaN x = false) : magnitude x ≤ infMagnitude := by
  simpa [isNaN] using h

/-- A sum over the integers, rounded to the order of the patterns. -/
def roundKey (z : Int) : Int := if z < 0 then -(roundMagnitude z.natAbs 1 : Int) else roundMagnitude z.natAbs 1

section
variable {x : Single} {z : Int}

theorem key_le_roundKey (hx : isNaN x = false) (h : value x ≤ z) : key x ≤ roundKey z := by
  have hmag := magnitude_le hx
  unfold value at h
  unfold key roundKey
  split at h
  · rename_i hneg
    rw [if_pos hneg]
    split
    · have hround := roundMagnitude_le (k := magnitude x) (n := z.natAbs) Nat.one_pos (by omega)
      omega
    · omega
  · rename_i hneg
    rw [if_neg hneg, if_neg (by omega)]
    have hround := le_roundMagnitude (n := z.natAbs) Nat.one_pos hmag (by omega)
    omega

theorem roundKey_le_key (hx : isNaN x = false) (h : z ≤ value x) : roundKey z ≤ key x := by
  have hmag := magnitude_le hx
  unfold value at h
  unfold key roundKey
  split at h
  · rename_i hneg
    rw [if_pos hneg]
    split
    · have hround := le_roundMagnitude (n := z.natAbs) Nat.one_pos hmag (by omega)
      omega
    · -- Both are zero.
      have hmagzero := le_roundMagnitude (n := 0) Nat.one_pos hmag (by omega)
      have hround := roundMagnitude_le (k := 0) (n := z.natAbs) Nat.one_pos (by simp [scaled]; omega)
      have hnone := roundMagnitude_le (k := 0) (n := 0) Nat.one_pos (by simp [scaled])
      omega
  · rename_i hneg
    rw [if_neg hneg]
    split
    · omega
    · have hround := roundMagnitude_le (k := magnitude x) (n := z.natAbs) Nat.one_pos (by omega)
      omega

end

theorem negative_pattern (neg : Bool) {k : Nat} (hk : k < 2 ^ 31) : negative (pattern neg k) = neg := by
  cases neg <;> simp [negative, pattern, BitVec.msb_eq_decide] <;> omega

theorem magnitude_pattern (neg : Bool) {k : Nat} (hk : k < 2 ^ 31) : magnitude (pattern neg k) = k := by
  cases neg <;> simp [magnitude, pattern] <;> omega

theorem key_pattern (neg : Bool) {k : Nat} (hk : k < 2 ^ 31) : key (pattern neg k) = if neg then -(k : Int) else k := by
  rw [key, negative_pattern neg hk, magnitude_pattern neg hk]

theorem key_addFinite (a b : Single) : key (addFinite a b) = roundKey (value a + value b) := by
  unfold addFinite
  dsimp only
  split
  · rename_i hzero
    rw [hzero, key_pattern _ (by decide)]
    simp [roundKey, roundMagnitude, infMagnitude]
  · rw [key_pattern _ (roundMagnitude_lt _ _), roundKey]
    simp

theorem key_opposite (x : Single) : key (opposite x) = -key x := by
  have hmag : magnitude x < 2 ^ 31 := Nat.mod_lt _ (by decide)
  rw [opposite, key_pattern _ hmag, key]
  cases negative x <;> simp

theorem scaled_pos {k : Nat} (h : 0 < k) : 0 < scaled k := by
  unfold scaled
  split
  · exact h
  · exact Nat.mul_pos (by omega) (Nat.two_pow_pos _)

theorem value_pos {x : Single} (h : 0 < key x) : 0 < value x := by
  unfold key at h
  unfold value
  split at h
  · omega
  · rename_i hneg
    rw [if_neg hneg]
    have hpos := scaled_pos (k := magnitude x) (by omega)
    omega

theorem value_neg {x : Single} (h : key x < 0) : value x < 0 := by
  unfold key at h
  unfold value
  split at h
  · rename_i hneg
    rw [if_pos hneg]
    have hpos := scaled_pos (k := magnitude x) (by omega)
    omega
  · omega

/-- A sum that is a number is of numbers, and it is one of them, an infinite one, or the rounded sum. -/
theorem add_cases {a b : Single} (h : isNaN (add a b) = false) : isNaN a = false ∧ isNaN b = false ∧
    (add a b = a ∨ add a b = b ∧ isInf b = true ∨ key (add a b) = roundKey (value a + value b)) := by
  unfold add at h ⊢
  by_cases hnan : (isNaN a || isNaN b) = true
  · rw [if_pos hnan] at h
    exact absurd h (by decide)
  · rw [if_neg hnan] at h ⊢
    have hnums : isNaN a = false ∧ isNaN b = false := by simpa using hnan
    refine ⟨hnums.1, hnums.2, ?_⟩
    by_cases ha : isInf a = true
    · rw [if_pos ha] at h ⊢
      split at h
      · exact absurd h (by decide)
      · rename_i hsame
        rw [if_neg hsame]
        exact .inl rfl
    · rw [if_neg ha]
      by_cases hb : isInf b = true
      · rw [if_pos hb]
        exact .inr (.inl ⟨rfl, hb⟩)
      · rw [if_neg hb]
        exact .inr (.inr (key_addFinite a b))

theorem key_of_isInf {x : Single} (h : isInf x = true) : key x = infMagnitude ∨ key x = -infMagnitude := by
  have hmag : magnitude x = infMagnitude := by simpa [isInf] using h
  unfold key
  rw [hmag]
  split
  · exact .inr rfl
  · exact .inl rfl

theorem key_bounds {x : Single} (h : isNaN x = false) : -(infMagnitude : Int) ≤ key x ∧ key x ≤ infMagnitude := by
  have hmag := magnitude_le h
  unfold key
  split <;> omega

/-- Adding something positive does not lead below. -/
theorem key_le_add {a b : Single} (hb : 0 < key b) (h : isNaN (add a b) = false) :
    isNaN a = false ∧ key a ≤ key (add a b) := by
  obtain ⟨ha, -, hadd | ⟨hadd, hinf⟩ | hadd⟩ := add_cases h
  · exact ⟨ha, Int.le_of_eq (congrArg key hadd).symm⟩
  · have hbound := (key_bounds ha).2
    rw [hadd]
    rcases key_of_isInf hinf with hkey | hkey <;> exact ⟨ha, by omega⟩
  · rw [hadd]
    have hpos := value_pos hb
    exact ⟨ha, key_le_roundKey ha (by omega)⟩

/-- Subtracting something positive does not lead above. -/
theorem key_sub_le {a b : Single} (hb : 0 < key b) (h : isNaN (sub a b) = false) :
    isNaN a = false ∧ key (sub a b) ≤ key a := by
  unfold sub at h ⊢
  have hopp : key (opposite b) < 0 := by
    rw [key_opposite]
    omega
  obtain ⟨ha, -, hadd | ⟨hadd, hinf⟩ | hadd⟩ := add_cases h
  · exact ⟨ha, Int.le_of_eq (congrArg key hadd)⟩
  · have hbound := (key_bounds ha).1
    rw [hadd]
    rcases key_of_isInf hinf with hkey | hkey <;> exact ⟨ha, by omega⟩
  · rw [hadd]
    have hneg := value_neg hopp
    exact ⟨ha, roundKey_le_key ha (by omega)⟩

end Binary32.Ieee

namespace Binary32

/-- The operations of a machine that follows the standard. -/
def ieee : Binary32 := ⟨Ieee.ofInt, Ieee.add, Ieee.sub, Ieee.mul, Ieee.div, Ieee.lt, Ieee.le⟩

def ieeeFpu : Fpu := { ieee with toUInt32 := Ieee.toUInt32 }

end Binary32
