import Mathlib.Data.List.Basic
import RodActuator.Lib.FixedArray

/-! A stretch of an endless stream in a ring of `n` cells: the element at the position `p` lies in the cell `p % n`. A
    stretch that is shorter than the ring takes another element behind it, and gives elements up in front. -/

namespace Stretch
variable {α : Type*} {n : Nat}
open FixedArray (load store load_of_lt store_of_lt)

/-- The ring holds the list from the position `p` on. -/
def Holds (mem : Fin n → α) (p : Nat) (l : List α) : Prop := ∀ i < l.length, load mem ((p + i) % n) = l[i]?

/-- The cells of the positions from `p` on. -/
def cells (n p k : Nat) : List Nat := (List.range' p k).map (· % n)

variable {mem : Fin n → α} {p : Nat} {l : List α}

theorem holds_nil (mem : Fin n → α) (p : Nat) : Holds mem p [] := fun _ hi => absurd hi (Nat.not_lt_zero _)

theorem cell_ne {i j : Nat} (hij : i < j) (hj : j < n) : (p + i) % n ≠ (p + j) % n := by
  intro h
  have hzero := Nat.sub_mod_eq_zero_of_mod_eq h.symm
  rw [Nat.add_sub_add_left, Nat.mod_eq_of_lt (by omega)] at hzero
  omega

theorem Holds.store (h : Holds mem p l) (hroom : l.length < n) (a : α) :
    ∃ mem', store mem ((p + l.length) % n) a = some mem' ∧ Holds mem' p (l ++ [a]) := by
  have hlt : ∀ i, (p + i) % n < n := fun i => Nat.mod_lt _ (by omega)
  refine ⟨_, store_of_lt (hlt _) a, fun i hi => ?_⟩
  rw [load_of_lt (hlt i)]
  rw [List.length_append, List.length_singleton] at hi
  rcases Nat.lt_succ_iff_lt_or_eq.mp hi with hi | rfl
  · rw [Function.update_of_ne fun heq => cell_ne hi hroom (congrArg Fin.val heq), ← load_of_lt (hlt i), h i hi,
      List.getElem?_append_left hi]
  · rw [Function.update_self, List.getElem?_concat_length]

theorem Holds.drop (h : Holds mem p l) (k : Nat) : Holds mem (p + k) (l.drop k) := by
  intro i hi
  rw [List.length_drop] at hi
  rw [Nat.add_assoc, h (k + i) (by omega), List.getElem?_drop]

theorem cells_succ (n p k : Nat) : cells n p (k + 1) = p % n :: cells n (p + 1) k := rfl

theorem cells_append (n p j k : Nat) : cells n p j ++ cells n (p + j) k = cells n p (j + k) := by
  rw [cells, cells, ← List.map_append, List.range'_append_1, cells]

@[simp] theorem length_cells (n p k : Nat) : (cells n p k).length = k := by
  rw [cells, List.length_map, List.length_range']

/-- Up to the end of the ring the cells follow one another. -/
theorem cells_eq_range {off k : Nat} (hoff : p % n = off) (hfit : off + k ≤ n) : cells n p k = List.range' off k := by
  induction k generalizing p off with
  | zero => rfl
  | succ k ih =>
    rw [cells_succ, List.range'_succ, hoff]
    cases k with
    | zero => rfl
    | succ k => rw [ih (p := p + 1) (by rw [Nat.add_mod, hoff, Nat.mod_eq_of_lt (a := 1) (by omega),
        Nat.mod_eq_of_lt (by omega)]) (by omega)]

/-- At the end of the ring they start again. -/
theorem cells_eq_wrap {off k : Nat} (hoff : p % n = off) (hn : 0 < n) (hpast : n ≤ off + k) (hfit : k ≤ n) :
    cells n p k = List.range' off (n - off) ++ List.range' 0 (k - (n - off)) := by
  have hlt : off < n := hoff ▸ Nat.mod_lt _ hn
  have hzero : (p + (n - off)) % n = 0 := by
    rw [← Nat.mod_add_mod, hoff, Nat.add_sub_cancel' (Nat.le_of_lt hlt), Nat.mod_self]
  rw [← cells_eq_range hoff (by omega), ← cells_eq_range hzero (by omega), cells_append]
  congr 1
  omega

end Stretch
