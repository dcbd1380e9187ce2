import Mathlib.Data.List.MinMax
import Mathlib.Data.List.Perm.Basic

/-! Insertion into a list that is sorted by a key, behind the elements of the same key. The elements that
    arrived stay in the order of their keys and, among equal keys, of their arrival, so the first one is the
    earliest of the least key. -/

namespace StableInsert
variable {α : Type*} (key : α → Nat)

/-- Inserts `a` in front of the first element of a larger key. -/
def insert (a : α) : List α → List α
  | [] => [a]
  | b :: l => if key a < key b then a :: b :: l else b :: insert a l

/-- Inserts the elements of `l` in their order. -/
def arrange (l : List α) : List α := l.foldl (fun q a => insert key a q) []

theorem arrange_concat (l : List α) (a : α) : arrange key (l ++ [a]) = insert key a (arrange key l) := by
  simp [arrange]

theorem insert_map {β : Type*} (f : β → α) (b : β) (q : List β) :
    insert key (f b) (q.map f) = (insert (fun x => key (f x)) b q).map f := by
  induction q with
  | nil => rfl
  | cons c q ih =>
    rw [List.map_cons, insert, insert, ih]
    split <;> rfl

/-- The place of an inserted element: in front of the first of a larger key, or at the end. -/
theorem insert_eq_insertIdx (a : α) (q : List α) :
    insert key a q = q.insertIdx ((q.findIdx? fun b => key a < key b).getD q.length) a := by
  induction q with
  | nil => rfl
  | cons b q ih =>
    rw [insert, List.findIdx?_cons]
    by_cases hlt : key a < key b
    · simp [hlt]
    · rw [if_neg hlt, ih]
      cases q.findIdx? fun b => key a < key b <;> simp [hlt]

theorem insert_perm (a : α) (q : List α) : (insert key a q).Perm (a :: q) := by
  induction q with
  | nil => exact List.Perm.refl _
  | cons b q ih =>
    rw [insert]
    split
    · exact List.Perm.refl _
    · exact (ih.cons b).trans (List.Perm.swap a b q)

theorem arrange_perm (l : List α) : (arrange key l).Perm l := by
  induction l using List.reverseRecOn with
  | nil => exact List.Perm.refl _
  | append_singleton l a ih =>
    rw [arrange_concat]
    exact (insert_perm key a _).trans ((ih.cons a).trans (List.perm_append_singleton a l).symm)

theorem sorted_insert (a : α) {q : List α} (h : q.Pairwise fun x y => key x ≤ key y) :
    (insert key a q).Pairwise fun x y => key x ≤ key y := by
  induction q with
  | nil => simp [insert]
  | cons b q ih =>
    obtain ⟨hb, hq⟩ := List.pairwise_cons.mp h
    rw [insert]
    split
    · rename_i hlt
      refine List.pairwise_cons.mpr ⟨fun x hx => ?_, h⟩
      rcases List.mem_cons.mp hx with rfl | hx
      · exact Nat.le_of_lt hlt
      · exact Nat.le_trans (Nat.le_of_lt hlt) (hb x hx)
    · rename_i hge
      refine List.pairwise_cons.mpr ⟨fun x hx => ?_, ih hq⟩
      rcases List.mem_cons.mp ((insert_perm key a q).mem_iff.mp hx) with rfl | hx
      · exact Nat.not_lt.mp hge
      · exact hb x hx

theorem sorted_arrange (l : List α) : (arrange key l).Pairwise fun x y => key x ≤ key y := by
  induction l using List.reverseRecOn with
  | nil => exact List.Pairwise.nil
  | append_singleton l a ih =>
    rw [arrange_concat]
    exact sorted_insert key a ih

/-- A relation that puts `a` behind the elements of no larger key and in front of the others. -/
theorem pairwise_insert {R : α → α → Prop} {a : α} {q : List α} (h : q.Pairwise R)
    (sorted : q.Pairwise fun x y => key x ≤ key y) (behind : ∀ b ∈ q, key b ≤ key a → R b a)
    (front : ∀ b ∈ q, key a < key b → R a b) : (insert key a q).Pairwise R := by
  induction q with
  | nil => simp [insert]
  | cons b q ih =>
    obtain ⟨hb, hq⟩ := List.pairwise_cons.mp h
    obtain ⟨hkey, hsorted⟩ := List.pairwise_cons.mp sorted
    rw [insert]
    split
    · rename_i hlt
      refine List.pairwise_cons.mpr ⟨fun x hx => front x hx ?_, h⟩
      rcases List.mem_cons.mp hx with rfl | hx
      · exact hlt
      · exact Nat.lt_of_lt_of_le hlt (hkey x hx)
    · rename_i hge
      have hrest := ih hq hsorted (fun x hx => behind x (List.mem_cons_of_mem b hx))
        fun x hx => front x (List.mem_cons_of_mem b hx)
      refine List.pairwise_cons.mpr ⟨fun x hx => ?_, hrest⟩
      rcases List.mem_cons.mp ((insert_perm key a q).mem_iff.mp hx) with rfl | hx
      · exact behind b List.mem_cons_self (Nat.not_lt.mp hge)
      · exact hb x hx

theorem head?_insert (a : α) (q : List α) : ∃ b, (insert key a q).head? = some b ∧ key b ≤ key a := by
  cases q with
  | nil => exact ⟨a, rfl, Nat.le_refl _⟩
  | cons b q =>
    rw [insert]
    split
    · exact ⟨a, rfl, Nat.le_refl _⟩
    · exact ⟨b, rfl, Nat.not_lt.mp ‹_›⟩

theorem insert_of_lt {a : α} {q : List α} (h : ∀ b ∈ q, key a < key b) : insert key a q = a :: q := by
  cases q with
  | nil => rfl
  | cons b q => rw [insert, if_pos (h b List.mem_cons_self)]

theorem insert_of_le {a : α} {q : List α} (h : ∀ b ∈ q, key b ≤ key a) : insert key a q = q ++ [a] := by
  induction q with
  | nil => rfl
  | cons b q ih =>
    rw [insert, if_neg (Nat.not_lt.mpr (h b List.mem_cons_self)), ih fun x hx => h x (List.mem_cons_of_mem b hx)]
    rfl

/-- Elements of one key stay in the order of their arrival. -/
theorem arrange_of_le {l : List α} (h : ∀ a ∈ l, ∀ b ∈ l, key a ≤ key b) : arrange key l = l := by
  induction l using List.reverseRecOn with
  | nil => rfl
  | append_singleton l a ih =>
    have hl : arrange key l = l := ih fun x hx y hy => h x (List.mem_append_left _ hx) y (List.mem_append_left _ hy)
    rw [arrange_concat, hl]
    exact insert_of_le key fun b hb => h b (List.mem_append_left _ hb) a (List.mem_append_right _ (List.mem_singleton.mpr rfl))

theorem filter_insert (p : α → Bool) (a : α) {q : List α} (h : q.Pairwise fun x y => key x ≤ key y) :
    (insert key a q).filter p = if p a then insert key a (q.filter p) else q.filter p := by
  induction q with
  | nil => cases hp : p a <;> simp [insert, hp]
  | cons b q ih =>
    obtain ⟨hb, hq⟩ := List.pairwise_cons.mp h
    rw [insert]
    by_cases hlt : key a < key b
    · -- Every element that the filter keeps has a larger key.
      have hall : ∀ x ∈ (b :: q).filter p, key a < key x := fun x hx => by
        rcases List.mem_cons.mp (List.mem_of_mem_filter hx) with rfl | hx
        · exact hlt
        · exact Nat.lt_of_lt_of_le hlt (hb x hx)
      rw [if_pos hlt, insert_of_lt key hall]
      cases hp : p a <;> simp [hp]
    · rw [if_neg hlt]
      cases hpb : p b <;> cases hpa : p a <;> simp [hpb, hpa, insert, hlt, ih hq]

theorem filter_arrange (p : α → Bool) (l : List α) : (arrange key l).filter p = arrange key (l.filter p) := by
  induction l using List.reverseRecOn with
  | nil => rfl
  | append_singleton l a ih =>
    rw [arrange_concat, filter_insert key p a (sorted_arrange key l), ih, List.filter_append]
    cases hp : p a
    · simp [hp]
    · rw [List.filter_singleton, hp, if_pos rfl, cond_true, arrange_concat]

/-- The first element is the earliest of the least key. -/
theorem head?_arrange (l : List α) : (arrange key l).head? = l.argmin key := by
  induction l using List.reverseRecOn with
  | nil => rfl
  | append_singleton l a ih =>
    rw [arrange_concat, List.argmin_concat, ← ih]
    cases arrange key l with
    | nil => rfl
    | cons b q =>
      rw [insert]
      split <;> simp_all

/-- Among the elements of its key it is the first. -/
theorem head?_filter_argmin {l : List α} {m : α} (h : l.argmin key = some m) :
    (l.filter fun a => key a = key m).head? = some m := by
  have hconst : ∀ a ∈ l.filter (fun a => key a = key m), ∀ b ∈ l.filter (fun a => key a = key m), key a ≤ key b := by
    intro a ha b hb
    have hka := of_decide_eq_true (List.mem_filter.mp ha).2
    have hkb := of_decide_eq_true (List.mem_filter.mp hb).2
    exact (hka.trans hkb.symm).le
  rw [← arrange_of_le key hconst, ← filter_arrange]
  rw [← head?_arrange] at h
  obtain ⟨q, hq⟩ := List.head?_eq_some_iff.mp h
  rw [hq, List.filter_cons, decide_eq_true rfl]
  rfl

end StableInsert
