import Mathlib.Data.List.Basic
import Mathlib.Logic.Function.Basic

/-! Lists in an array of fixed size, as C code keeps them: the elements in front, the rest of the array zero, and
    loops that move elements to make or close a gap. Every access is checked, so that a loop that runs gives no
    access out of bounds. -/

namespace FixedArray
variable {α : Type*} {n : Nat}

def load (mem : Fin n → α) (i : Nat) : Option α := if h : i < n then some (mem ⟨i, h⟩) else none

def store (mem : Fin n → α) (i : Nat) (a : α) : Option (Fin n → α) :=
  if h : i < n then some (Function.update mem ⟨i, h⟩ a) else none

def move (mem : Fin n → α) (src dst : Nat) : Option (Fin n → α) := (load mem src).bind (store mem dst)

/-- Moves `count` elements, the first of them from `j + 1`, down by one place, the lowest first. -/
def shiftDown (mem : Fin n → α) (j : Nat) : Nat → Option (Fin n → α)
  | 0 => some mem
  | count + 1 => (move mem (j + 1) j).bind fun mem => shiftDown mem (j + 1) count

/-- Moves `count` elements, the last of them from `i - 1`, up by one place, the highest first. -/
def shiftUp (mem : Fin n → α) (i : Nat) : Nat → Option (Fin n → α)
  | 0 => some mem
  | count + 1 => (move mem (i - 1) i).bind fun mem => shiftUp mem (i - 1) count

/-- The first of `count` elements from `i` on with the property. -/
def find (p : α → Bool) (mem : Fin n → α) (i : Nat) : Nat → Option (Option Nat)
  | 0 => some none
  | count + 1 => (load mem i).bind fun a => if p a then some (some i) else find p mem (i + 1) count

/-- The array holds the list, and behind it `zero`. -/
structure Holds (zero : α) (l : List α) (mem : Fin n → α) : Prop where
  fits : l.length ≤ n
  cell : ∀ i : Fin n, mem i = l.getD i zero

theorem load_of_lt {mem : Fin n → α} {i : Nat} (h : i < n) : load mem i = some (mem ⟨i, h⟩) := dif_pos h

theorem store_of_lt {mem : Fin n → α} {i : Nat} (h : i < n) (a : α) :
    store mem i a = some (Function.update mem ⟨i, h⟩ a) := dif_pos h

theorem move_of_lt {mem : Fin n → α} {src dst : Nat} (hs : src < n) (hd : dst < n) :
    move mem src dst = some (Function.update mem ⟨dst, hd⟩ (mem ⟨src, hs⟩)) := by
  rw [move, load_of_lt hs, Option.bind_some, store_of_lt hd]

theorem shiftDown_spec (mem : Fin n → α) (j count : Nat) (h : j + count < n) :
    ∃ mem', shiftDown mem j count = some mem' ∧
      ∀ i : Fin n, mem' i = if hi : j ≤ i ∧ i < j + count then mem ⟨i + 1, by omega⟩ else mem i := by
  induction count generalizing mem j with
  | zero => exact ⟨mem, rfl, fun i => by rw [dif_neg (by omega)]⟩
  | succ count ih =>
    rw [shiftDown, move_of_lt (by omega) (by omega), Option.bind_some]
    obtain ⟨mem', hrun, hcell⟩ := ih (Function.update mem ⟨j, by omega⟩ (mem ⟨j + 1, by omega⟩)) (j + 1) (by omega)
    refine ⟨mem', hrun, fun i => ?_⟩
    rw [hcell i]
    by_cases hij : (i : Nat) = j
    · subst hij
      rw [dif_neg (by omega), dif_pos (by omega)]
      exact Function.update_self ..
    · have hne : i ≠ ⟨j, by omega⟩ := fun heq => hij (congrArg Fin.val heq)
      by_cases hin : j + 1 ≤ i ∧ i < j + 1 + count
      · have hne' : (⟨i + 1, by omega⟩ : Fin n) ≠ ⟨j, by omega⟩ := fun heq => by
          have := congrArg Fin.val heq
          simp only at this
          omega
        rw [dif_pos hin, dif_pos (by omega), Function.update_of_ne hne']
      · rw [dif_neg hin, dif_neg (by omega), Function.update_of_ne hne]

theorem shiftUp_spec (mem : Fin n → α) (i count : Nat) (hc : count ≤ i) (h : i < n) :
    ∃ mem', shiftUp mem i count = some mem' ∧
      ∀ k : Fin n, mem' k = if hk : i - count < k ∧ k ≤ i then mem ⟨k - 1, by omega⟩ else mem k := by
  induction count generalizing mem i with
  | zero => exact ⟨mem, rfl, fun k => by rw [dif_neg (by omega)]⟩
  | succ count ih =>
    rw [shiftUp, move_of_lt (by omega) h, Option.bind_some]
    obtain ⟨mem', hrun, hcell⟩ := ih (Function.update mem ⟨i, h⟩ (mem ⟨i - 1, by omega⟩)) (i - 1) (by omega) (by omega)
    refine ⟨mem', hrun, fun k => ?_⟩
    rw [hcell k]
    by_cases hki : (k : Nat) = i
    · subst hki
      rw [dif_neg (by omega), dif_pos (by omega)]
      exact Function.update_self ..
    · have hne : k ≠ ⟨i, h⟩ := fun heq => hki (congrArg Fin.val heq)
      by_cases hin : i - 1 - count < k ∧ k ≤ i - 1
      · have hne' : (⟨k - 1, by omega⟩ : Fin n) ≠ ⟨i, h⟩ := fun heq => by
          have := congrArg Fin.val heq
          simp only at this
          omega
        rw [dif_pos hin, dif_pos (by omega), Function.update_of_ne hne']
      · rw [dif_neg hin, dif_neg (by omega), Function.update_of_ne hne]

section
variable {zero : α} {l : List α} {mem : Fin n → α}

theorem Holds.nil : Holds zero [] (fun _ : Fin n => zero) := ⟨Nat.zero_le _, fun _ => rfl⟩

theorem Holds.load (h : Holds zero l mem) {i : Nat} (hi : i < l.length) : load mem i = some (l.get ⟨i, hi⟩) := by
  rw [load_of_lt (Nat.lt_of_lt_of_le hi h.fits), h.cell]
  simp [hi]

theorem Holds.find_from (h : Holds zero l mem) (p : α → Bool) {i : Nat} (hi : i ≤ l.length) :
    find p mem i (l.length - i) = some (((l.drop i).findIdx? p).map (· + i)) := by
  induction hk : l.length - i generalizing i with
  | zero =>
    rw [find, List.drop_of_length_le (by omega)]
    rfl
  | succ k ih =>
    have hlt : i < l.length := by omega
    rw [find, h.load hlt, Option.bind_some, List.drop_eq_getElem_cons hlt, List.findIdx?_cons]
    split
    · rename_i hp
      simp at hp
      simp [hp]
    · rename_i hp
      simp at hp
      rw [ih (by omega) (by omega)]
      simp only [hp, Bool.false_eq_true, if_false, Option.map_map]
      congr 2
      funext x
      simp only [Function.comp]
      omega

theorem Holds.find (h : Holds zero l mem) (p : α → Bool) : find p mem 0 l.length = some (l.findIdx? p) := by
  have hfrom := h.find_from p (Nat.zero_le _)
  simpa using hfrom

/-- Closing the gap at `i`: the elements behind it move down, and the last place becomes zero. -/
theorem Holds.erase (h : Holds zero l mem) {i : Nat} (hi : i < l.length) :
    ∃ mem' mem'', shiftDown mem i (l.length - 1 - i) = some mem' ∧ store mem' (l.length - 1) zero = some mem'' ∧
      Holds zero (l.eraseIdx i) mem'' := by
  have hfits := h.fits
  obtain ⟨mem', hrun, hcell⟩ := shiftDown_spec mem i (l.length - 1 - i) (by omega)
  refine ⟨mem', _, hrun, store_of_lt (by omega) zero, ?_, fun k => ?_⟩
  · rw [List.length_eraseIdx_of_lt hi]
    omega
  · by_cases hk : (k : Nat) = l.length - 1
    · have hlen : (l.eraseIdx i).length ≤ k := by
        rw [List.length_eraseIdx_of_lt hi]
        omega
      have hlast : k = ⟨l.length - 1, by omega⟩ := Fin.ext hk
      rw [List.getD_eq_getElem?_getD, List.getElem?_eq_none hlen, hlast]
      exact Function.update_self ..
    · rw [Function.update_of_ne (fun heq => hk (congrArg Fin.val heq)), hcell k, List.getD_eq_getElem?_getD,
        List.getElem?_eraseIdx]
      by_cases hin : i ≤ k ∧ k < i + (l.length - 1 - i)
      · rw [dif_pos hin, h.cell, if_neg (by omega), List.getD_eq_getElem?_getD]
      · rw [dif_neg hin, h.cell, List.getD_eq_getElem?_getD]
        split
        · rfl
        · rw [List.getElem?_eq_none (by omega), List.getElem?_eq_none (by omega)]

/-- Making a gap at `i` and storing there. -/
theorem Holds.insert (h : Holds zero l mem) {i : Nat} (hi : i ≤ l.length) (hroom : l.length < n) (a : α) :
    ∃ mem' mem'', shiftUp mem l.length (l.length - i) = some mem' ∧ store mem' i a = some mem'' ∧
      Holds zero (l.insertIdx i a) mem'' := by
  obtain ⟨mem', hrun, hcell⟩ := shiftUp_spec mem l.length (l.length - i) (by omega) hroom
  refine ⟨mem', _, hrun, store_of_lt (by omega) a, ?_, fun k => ?_⟩
  · rw [List.length_insertIdx_of_le_length hi]
    omega
  · rw [List.getD_eq_getElem?_getD, List.getElem?_insertIdx]
    by_cases hk : (k : Nat) = i
    · have heq : k = ⟨i, by omega⟩ := Fin.ext hk
      rw [if_neg (by omega), if_pos hk, if_pos (by omega), heq]
      exact Function.update_self ..
    · rw [Function.update_of_ne (fun heq => hk (congrArg Fin.val heq)), hcell k]
      by_cases hin : l.length - (l.length - i) < k ∧ k ≤ l.length
      · rw [dif_pos hin, h.cell, if_neg (by omega), if_neg hk, List.getD_eq_getElem?_getD]
      · rw [dif_neg hin, h.cell, List.getD_eq_getElem?_getD, if_neg hk]
        split
        · rfl
        · rw [List.getElem?_eq_none (by omega), List.getElem?_eq_none (by omega)]

theorem Holds.concat (h : Holds zero l mem) (hroom : l.length < n) (a : α) :
    ∃ mem', store mem l.length a = some mem' ∧ Holds zero (l ++ [a]) mem' := by
  obtain ⟨mem', mem'', hrun, hstore, hholds⟩ := h.insert (Nat.le_refl _) hroom a
  rw [Nat.sub_self, shiftUp] at hrun
  cases hrun
  rw [List.insertIdx_length_self] at hholds
  exact ⟨mem'', hstore, hholds⟩

end

end FixedArray
