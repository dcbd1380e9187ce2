import Mathlib.Data.List.Basic
import Mathlib.Logic.Function.Basic

/-! Singly linked lists in a pool of cells. Each cell has one link, and a list is what the links lead through from a
    first cell; a store into a cell that is not in the list leaves the list as it is. -/

namespace LinkedList
variable {α : Type*}

/-- From `p` the links lead through the cells of `l`, in this order, and then to no cell. -/
def Chain (next : α → Option α) : Option α → List α → Prop
  | p, [] => p = none
  | p, a :: l => p = some a ∧ Chain next (next a) l

variable {next : α → Option α} {p : Option α} {a b : α} {l : List α}

theorem Chain.head?_eq (h : Chain next p l) : l.head? = p := by
  cases l with
  | nil => exact h.symm
  | cons a l => exact h.1.symm

theorem Chain.eq_nil (h : Chain next none l) : l = [] := List.head?_eq_none_iff.mp h.head?_eq

theorem Chain.exists_cons (h : Chain next (some a) l) : ∃ l', l = a :: l' ∧ Chain next (next a) l' := by
  cases l with
  | nil => cases h
  | cons b l =>
    obtain ⟨hab, hl⟩ := h
    cases hab
    exact ⟨l, rfl, hl⟩

variable [DecidableEq α]

theorem Chain.update (h : Chain next p l) (hb : b ∉ l) (q : Option α) : Chain (Function.update next b q) p l := by
  induction l generalizing p with
  | nil => exact h
  | cons a l ih =>
    obtain ⟨hba, hbl⟩ := not_or.mp (mt List.mem_cons.mpr hb)
    refine ⟨h.1, ?_⟩
    rw [Function.update_of_ne (Ne.symm hba)]
    exact ih h.2 hbl

/-- A cell that links to the first one becomes the first. -/
theorem Chain.push (h : Chain next p l) (ha : a ∉ l) : Chain (Function.update next a p) (some a) (a :: l) := by
  refine ⟨rfl, ?_⟩
  rw [Function.update_self]
  exact h.update ha p

/-- Behind the last cell comes one that links to none. -/
theorem Chain.concat (h : Chain next p (l ++ [b])) (hb : b ∉ l) (ha : a ∉ l ++ [b]) (hlink : next a = none) :
    Chain (Function.update next b (some a)) p (l ++ [b] ++ [a]) := by
  induction l generalizing p with
  | nil =>
    have hne : a ≠ b := fun heq => ha (heq ▸ List.mem_singleton_self b)
    refine ⟨h.1, ?_, ?_⟩
    · exact Function.update_self ..
    · rwa [Chain, Function.update_of_ne hne]
  | cons c l ih =>
    obtain ⟨hbc, hbl⟩ := not_or.mp (mt List.mem_cons.mpr hb)
    refine ⟨h.1, ?_⟩
    rw [Function.update_of_ne (Ne.symm hbc)]
    exact ih h.2 hbl fun hmem => ha (List.mem_cons_of_mem c hmem)

end LinkedList
