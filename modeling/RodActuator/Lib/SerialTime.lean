import Mathlib.Data.BitVec

/-! Times that are kept by their last bits. Two of them that are close together are compared by their difference: it is
    small when the first is no earlier than the second, and large when it is earlier. -/

namespace SerialTime
variable {w x y half : Nat}

theorem sub_of_le (h : y ≤ x) : BitVec.ofNat w x - BitVec.ofNat w y = BitVec.ofNat w (x - y) := by
  obtain ⟨d, rfl⟩ := Nat.exists_eq_add_of_le h
  rw [BitVec.ofNat_add, Nat.add_sub_cancel_left, BitVec.add_comm, BitVec.add_sub_cancel]

theorem toNat_sub_of_le (h : y ≤ x) (hlt : x - y < 2 ^ w) : (BitVec.ofNat w x - BitVec.ofNat w y).toNat = x - y := by
  rw [sub_of_le h, BitVec.toNat_ofNat, Nat.mod_eq_of_lt hlt]

theorem toNat_sub_of_lt (h : x < y) (hlt : y - x < 2 ^ w) :
    (BitVec.ofNat w x - BitVec.ofNat w y).toNat = 2 ^ w - (y - x) := by
  have hneg : BitVec.ofNat w x - BitVec.ofNat w y = -(BitVec.ofNat w y - BitVec.ofNat w x) := (neg_sub _ _).symm
  have hpos : 0 < y - x := Nat.sub_pos_of_lt h
  rw [hneg, BitVec.toNat_neg, toNat_sub_of_le h.le hlt, Nat.mod_eq_of_lt (Nat.sub_lt (Nat.two_pow_pos w) hpos)]

theorem sub_eq_zero_iff (hxy : x < y + 2 ^ w) (hyx : y < x + 2 ^ w) :
    BitVec.ofNat w x - BitVec.ofNat w y = 0#w ↔ x = y := by
  rw [← BitVec.toNat_inj, BitVec.toNat_ofNat, Nat.zero_mod]
  rcases Nat.lt_or_ge x y with h | h
  · rw [toNat_sub_of_lt h (by omega)]
    omega
  · rw [toNat_sub_of_le h (by omega)]
    omega

/-- Times less than half of all apart. -/
theorem sub_lt_iff (hhalf : 2 * half ≤ 2 ^ w) (hxy : x < y + half) (hyx : y ≤ x + half) :
    (BitVec.ofNat w x - BitVec.ofNat w y).toNat < half ↔ y ≤ x := by
  rcases Nat.lt_or_ge x y with h | h
  · rw [toNat_sub_of_lt h (by omega)]
    omega
  · rw [toNat_sub_of_le h (by omega)]
    omega

end SerialTime
