import Mathlib.Algebra.GroupWithZero.Nat
import RodActuator.Lib.FixedArray

/-! A ring: an array of fixed size with the place of the next store and the number of stored values. It holds the
    newest values of an unbounded history, and the value behind the newest is the oldest one that is left. -/

namespace Ring
variable {α : Type*} {n : Nat}
open FixedArray (load store load_of_lt store_of_lt)

/-- The place that is `i` places before the one of the newest value. -/
def place (n idx i : Nat) : Nat := (idx + n - 1 - i) % n

/-- The array holds the newest values of the history, which has its newest value first. -/
structure Holds (h : List α) (mem : Fin n → α) (idx cnt : Nat) : Prop where
  idx_lt : idx < n
  cnt_eq : cnt = min h.length n
  cell : ∀ i < cnt, load mem (place n idx i) = h[i]?

variable {h : List α} {mem : Fin n → α} {idx cnt : Nat}

theorem holds_nil (hn : 0 < n) (mem : Fin n → α) : Holds [] mem 0 0 := ⟨hn, by simp, by simp⟩

theorem place_next_zero (hidx : idx < n) : place n ((idx + 1) % n) 0 = idx := by
  unfold place
  rcases Nat.lt_or_eq_of_le (Nat.succ_le_of_lt hidx) with hlt | heq
  · rw [Nat.mod_eq_of_lt hlt, Nat.sub_zero, show idx + 1 + n - 1 = idx + n by omega, Nat.add_mod_right,
      Nat.mod_eq_of_lt hidx]
  · rw [show idx + 1 = n from heq, Nat.mod_self, Nat.zero_add, Nat.sub_zero, Nat.mod_eq_of_lt (by omega)]
    omega

theorem place_next_succ (hidx : idx < n) {i : Nat} (hi : i + 1 < n) :
    place n ((idx + 1) % n) (i + 1) = place n idx i ∧ place n idx i ≠ idx := by
  unfold place
  rcases Nat.lt_or_eq_of_le (Nat.succ_le_of_lt hidx) with hlt | heq
  · rw [Nat.mod_eq_of_lt hlt, show idx + 1 + n - 1 - (i + 1) = idx + n - 1 - i by omega]
    refine ⟨rfl, ?_⟩
    by_cases hwrap : i < idx
    · rw [show idx + n - 1 - i = idx - 1 - i + n by omega, Nat.add_mod_right, Nat.mod_eq_of_lt (by omega)]
      omega
    · rw [Nat.mod_eq_of_lt (by omega)]
      omega
  · rw [show idx + 1 = n from heq, Nat.mod_self, Nat.zero_add, Nat.mod_eq_of_lt (by omega),
      show idx + n - 1 - i = n - 1 - (i + 1) + n by omega, Nat.add_mod_right, Nat.mod_eq_of_lt (by omega)]
    exact ⟨rfl, by omega⟩

theorem place_lt (hn : 0 < n) (idx i : Nat) : place n idx i < n := Nat.mod_lt _ hn

/-- In a full ring the next store replaces the oldest value. -/
theorem Holds.oldest (hring : Holds h mem idx cnt) (hfull : cnt = n) : load mem idx = h[n - 1]? := by
  have hidx := hring.idx_lt
  have hcell := hring.cell (n - 1) (by omega)
  rwa [place, show idx + n - 1 - (n - 1) = idx by omega, Nat.mod_eq_of_lt hidx] at hcell

theorem Holds.push (hring : Holds h mem idx cnt) (a : α) : ∃ mem', store mem idx a = some mem' ∧
    Holds (a :: h) mem' ((idx + 1) % n) (if cnt < n then cnt + 1 else cnt) := by
  have hidx := hring.idx_lt
  have hpos : 0 < n := by omega
  refine ⟨_, store_of_lt hidx a, Nat.mod_lt _ hpos, ?_, fun i hi => ?_⟩
  · rw [hring.cnt_eq, List.length_cons]
    split <;> omega
  · cases i with
    | zero =>
      rw [place_next_zero hidx, load_of_lt hidx]
      simp
    | succ i =>
      have hcnt := hring.cnt_eq
      have hle : i < cnt ∧ i + 1 < n := by split at hi <;> omega
      obtain ⟨hplace, hne⟩ := place_next_succ hidx hle.2
      have hlt := place_lt hpos idx i
      rw [hplace, load_of_lt hlt, Function.update_of_ne fun heq => hne (congrArg Fin.val heq), ← load_of_lt hlt,
        hring.cell i hle.1, List.getElem?_cons_succ]

/-- The sum of the newest `n` values, when one more comes and, of `n`, the oldest goes. -/
theorem sum_take_cons (a : Nat) (h : List Nat) (hn : 0 < n) :
    ((a :: h).take n).sum + (h[n - 1]?.getD 0) = a + (h.take n).sum := by
  obtain ⟨n, rfl⟩ : ∃ m, n = m + 1 := ⟨n - 1, by omega⟩
  rw [List.take_succ_cons, List.sum_cons, List.take_add_one, List.sum_append, Nat.add_sub_cancel]
  cases h[n]? <;> simp [Nat.add_assoc]

end Ring
