import Mathlib.Algebra.GroupWithZero.Nat
import Mathlib.Data.List.Chain

/-! A heap as a list of blocks. Each block has a header of a fixed size in front of its bytes and is used or free, and the
    blocks lie behind each other. -/

structure HeapBlock where
  used : Bool
  len : Nat
  deriving DecidableEq, Repr

namespace HeapBlock
variable {h c d e k n p q r : Nat} {b x : HeapBlock} {bs pre mid post : List HeapBlock}

/-- The bytes of the blocks with their headers. -/
def width (h : Nat) : List HeapBlock → Nat
  | [] => 0
  | b :: bs => h + b.len + width h bs

/-- The same of the used blocks. -/
def usedWidth (h : Nat) : List HeapBlock → Nat
  | [] => 0
  | b :: bs => (if b.used then h + b.len else 0) + usedWidth h bs

/-- Where the first free block is, or the end. -/
def firstFree (h c : Nat) : List HeapBlock → Nat
  | [] => c
  | b :: bs => if b.used then firstFree h (c + h + b.len) bs else c

/-- The blocks with the places of their headers. -/
def places (h c : Nat) : List HeapBlock → List (Nat × HeapBlock)
  | [] => []
  | b :: bs => (c, b) :: places h (c + h + b.len) bs

def usedPlaces (h c : Nat) (bs : List HeapBlock) : List (Nat × HeapBlock) := (places h c bs).filter fun x => x.2.used

/-- Where the blocks start, and the end. -/
def boundaries (h c : Nat) : List HeapBlock → List Nat
  | [] => [c]
  | b :: bs => c :: boundaries h (c + h + b.len) bs

/-- Free neighbours have become one block. -/
inductive Merge (h : Nat) (bs : List HeapBlock) : List HeapBlock → Prop
  | refl : Merge h bs bs
  | step {pre post : List HeapBlock} {n k : Nat} (merge : Merge h bs (pre ++ ⟨false, n⟩ :: ⟨false, k⟩ :: post)) :
      Merge h bs (pre ++ ⟨false, n + h + k⟩ :: post)

/-- Of two neighbours one is used. -/
def Coalesced (bs : List HeapBlock) : Prop := (bs.map used).IsChain fun a b => a = true ∨ b = true

@[simp] theorem width_nil : width h [] = 0 := rfl
@[simp] theorem width_cons : width h (b :: bs) = h + b.len + width h bs := rfl
@[simp] theorem usedWidth_nil : usedWidth h [] = 0 := rfl
@[simp] theorem usedWidth_cons : usedWidth h (b :: bs) = (if b.used then h + b.len else 0) + usedWidth h bs := rfl
@[simp] theorem places_nil : places h c [] = [] := rfl
@[simp] theorem places_cons : places h c (b :: bs) = (c, b) :: places h (c + h + b.len) bs := rfl

@[simp] theorem width_append : width h (pre ++ post) = width h pre + width h post := by
  induction pre with
  | nil => simp
  | cons b pre ih => simp [ih, Nat.add_assoc]

@[simp] theorem usedWidth_append : usedWidth h (pre ++ post) = usedWidth h pre + usedWidth h post := by
  induction pre with
  | nil => simp
  | cons b pre ih => simp [ih, Nat.add_assoc]

@[simp] theorem places_append : places h c (pre ++ post) = places h c pre ++ places h (c + width h pre) post := by
  induction pre generalizing c with
  | nil => simp
  | cons b pre ih => simp [ih, Nat.add_assoc]

@[simp] theorem usedPlaces_used : usedPlaces h c (⟨true, n⟩ :: bs) = (c, ⟨true, n⟩) :: usedPlaces h (c + h + n) bs := rfl

@[simp] theorem usedPlaces_free : usedPlaces h c (⟨false, n⟩ :: bs) = usedPlaces h (c + h + n) bs := rfl

@[simp] theorem usedPlaces_append :
    usedPlaces h c (pre ++ post) = usedPlaces h c pre ++ usedPlaces h (c + width h pre) post := by
  rw [usedPlaces, places_append, List.filter_append]
  rfl

theorem mem_usedPlaces : (p, b) ∈ usedPlaces h c bs ↔ (p, b) ∈ places h c bs ∧ b.used = true := List.mem_filter

theorem Merge.usedPlaces {bs' : List HeapBlock} (merge : Merge h bs bs') : usedPlaces h c bs' = usedPlaces h c bs := by
  induction merge with
  | refl => rfl
  | @step pre post n k _ ih =>
    rw [← ih, usedPlaces_append, usedPlaces_append, usedPlaces_free, usedPlaces_free, usedPlaces_free]
    congr 2
    omega

theorem Merge.dvd {m : Nat} {bs' : List HeapBlock} (merge : Merge h bs bs') (hh : m ∣ h) (hlen : ∀ b ∈ bs, m ∣ b.len) :
    ∀ b ∈ bs', m ∣ b.len := by
  induction merge with
  | refl => exact hlen
  | @step pre post n k _ ih =>
    intro b hb
    rcases List.mem_append.mp hb with hb | hb
    · exact ih b (List.mem_append_left _ hb)
    · rcases List.mem_cons.mp hb with rfl | hb
      · exact Nat.dvd_add (Nat.dvd_add (ih ⟨false, n⟩ (by simp)) hh) (ih ⟨false, k⟩ (by simp))
      · exact ih b (List.mem_append_right _ (List.mem_cons_of_mem _ (List.mem_cons_of_mem _ hb)))

theorem Merge.trans {bs' bs'' : List HeapBlock} (merge : Merge h bs bs') (merge' : Merge h bs' bs'') : Merge h bs bs'' := by
  induction merge' with
  | refl => exact merge
  | step _ ih => exact .step ih

theorem length_mul_le : h * bs.length ≤ width h bs := by
  induction bs with
  | nil => exact Nat.le_refl _
  | cons b bs ih =>
    rw [List.length_cons, Nat.mul_succ, width_cons]
    omega

theorem dvd_width {m : Nat} (hh : m ∣ h) (hlen : ∀ b ∈ bs, m ∣ b.len) : m ∣ width h bs := by
  induction bs with
  | nil => exact Nat.dvd_zero m
  | cons b bs ih =>
    obtain ⟨hb, hbs⟩ := List.forall_mem_cons.mp hlen
    exact Nat.dvd_add (Nat.dvd_add hh hb) (ih hbs)

/-- Either the front is used throughout, or the first free block is in it, whatever follows. -/
theorem firstFree_append_cases (hh : 0 < h) (c : Nat) (pre : List HeapBlock) :
    (∀ post, firstFree h c (pre ++ post) = firstFree h (c + width h pre) post) ∨
      ∃ v < c + width h pre, ∀ post, firstFree h c (pre ++ post) = v := by
  induction pre generalizing c with
  | nil => exact .inl fun post => rfl
  | cons b pre ih =>
    have hwidth : c + width h (b :: pre) = c + h + b.len + width h pre := by
      rw [width_cons]
      omega
    rw [hwidth]
    by_cases hb : b.used = true
    · simp only [List.cons_append, firstFree, hb, if_true]
      exact ih (c + h + b.len)
    · refine .inr ⟨c, by omega, fun post => ?_⟩
      rw [List.cons_append, firstFree, if_neg hb]

theorem firstFree_free : firstFree h c (⟨false, n⟩ :: bs) = c := rfl

theorem le_firstFree : c ≤ firstFree h c bs := by
  induction bs generalizing c with
  | nil => exact Nat.le_refl c
  | cons b bs ih =>
    rw [firstFree]
    split
    · have := ih (c := c + h + b.len)
      omega
    · exact Nat.le_refl c

/-- The used blocks in front of the first free one. -/
theorem firstFree_split (h c : Nat) (bs : List HeapBlock) :
    ∃ pre post, bs = pre ++ post ∧ (∀ b ∈ pre, b.used = true) ∧ firstFree h c bs = c + width h pre ∧
      ∀ b ∈ post.head?, b.used = false := by
  induction bs generalizing c with
  | nil => exact ⟨[], [], rfl, List.forall_mem_nil _, rfl, fun b hb => absurd hb (Option.not_mem_none b)⟩
  | cons b bs ih =>
    by_cases hb : b.used = true
    · obtain ⟨pre, post, rfl, hused, hfirst, hhead⟩ := ih (c + h + b.len)
      refine ⟨b :: pre, post, rfl, List.forall_mem_cons.mpr ⟨hb, hused⟩, ?_, hhead⟩
      rw [firstFree, if_pos hb, hfirst, width_cons]
      omega
    · refine ⟨[], b :: bs, rfl, List.forall_mem_nil _, if_neg hb, fun x hx => ?_⟩
      rw [List.head?_cons, Option.mem_some_iff] at hx
      rwa [← hx, ← Bool.not_eq_true]

theorem split_of_mem_places (hp : (p, b) ∈ places h c bs) : ∃ pre post, bs = pre ++ b :: post ∧ p = c + width h pre := by
  induction bs generalizing c with
  | nil => cases hp
  | cons x bs ih =>
    rcases List.mem_cons.mp hp with heq | hp
    · cases heq
      exact ⟨[], bs, rfl, rfl⟩
    · obtain ⟨pre, post, rfl, rfl⟩ := ih hp
      refine ⟨x :: pre, post, rfl, ?_⟩
      rw [width_cons]
      omega

theorem le_of_mem_places (hp : (p, b) ∈ places h c bs) : c ≤ p ∧ p + h + b.len ≤ c + width h bs := by
  induction bs generalizing c with
  | nil => cases hp
  | cons x bs ih =>
    rw [width_cons]
    rcases List.mem_cons.mp hp with heq | hp
    · cases heq
      omega
    · have := ih hp
      omega

theorem coalesced_cons_cons : Coalesced (b :: x :: bs) ↔ (b.used = true ∨ x.used = true) ∧ Coalesced (x :: bs) :=
  List.isChain_cons_cons

theorem Coalesced.of_cons (hbs : Coalesced (b :: bs)) : Coalesced bs := List.IsChain.tail hbs

theorem coalesced_split : Coalesced (pre ++ b :: post) ↔ Coalesced (pre ++ [b]) ∧ Coalesced (b :: post) := by
  rw [Coalesced, List.map_append, List.map_cons, List.isChain_split, Coalesced, List.map_append]
  rfl

theorem coalesced_append_left (hbs : Coalesced (pre ++ post)) : Coalesced pre := by
  rw [Coalesced, List.map_append] at hbs
  exact hbs.left_of_append

/-- A used block goes with every neighbour. -/
theorem Coalesced.concat_used (hpre : Coalesced (pre ++ [b])) (hx : x.used = true) : Coalesced (pre ++ [x]) := by
  rw [Coalesced, List.map_append, List.isChain_append] at hpre ⊢
  refine ⟨hpre.1, List.isChain_singleton _, fun u _ v hv => .inr ?_⟩
  rw [List.map_singleton, List.head?_cons, Option.mem_some_iff] at hv
  rw [← hv, hx]

theorem Coalesced.concat_congr (hpre : Coalesced (pre ++ [b])) (hx : x.used = b.used) : Coalesced (pre ++ [x]) := by
  rwa [Coalesced, List.map_append, List.map_singleton, hx, ← List.map_singleton, ← List.map_append]

theorem Coalesced.cons_congr (hpost : Coalesced (b :: post)) (hx : x.used = b.used) : Coalesced (x :: post) := by
  rwa [Coalesced, List.map_cons, hx, ← List.map_cons]

theorem Coalesced.cons_used (hpost : Coalesced post) (hx : x.used = true) : Coalesced (x :: post) := by
  cases post with
  | nil => exact List.isChain_singleton _
  | cons y post => exact coalesced_cons_cons.mpr ⟨.inl hx, hpost⟩

/-- Blocks that are all free are one block at most. -/
theorem Coalesced.length_le_one (hbs : Coalesced bs) (hfree : ∀ b ∈ bs, b.used = false) : bs.length ≤ 1 := by
  rcases bs with _ | ⟨b, _ | ⟨x, bs⟩⟩
  · exact Nat.zero_le 1
  · exact Nat.le_refl 1
  · rcases (coalesced_cons_cons.mp hbs).1 with h | h
    · rw [hfree b (by simp)] at h
      cases h
    · rw [hfree x (by simp)] at h
      cases h

/-- A range without a used block lies in one free block. -/
theorem Coalesced.fits (hbs : Coalesced bs) (hlow : c ≤ d) (hhigh : d + h + n ≤ c + width h bs)
    (hgap : ∀ p b, (p, b) ∈ places h c bs → b.used = true → p + h + b.len ≤ d ∨ d + h + n ≤ p) (hh : 0 < h) :
    ∃ b ∈ bs, b.used = false ∧ n ≤ b.len := by
  induction bs generalizing c with
  | nil =>
    rw [width_nil] at hhigh
    omega
  | cons x bs ih =>
    rw [width_cons] at hhigh
    have hrest : ∀ p b, (p, b) ∈ places h (c + h + x.len) bs → b.used = true → p + h + b.len ≤ d ∨ d + h + n ≤ p :=
      fun p b hp => hgap p b (List.mem_cons_of_mem _ hp)
    by_cases hnext : c + h + x.len ≤ d
    · obtain ⟨b, hb, hfree, hlen⟩ := ih (hbs.of_cons) hnext (by omega) hrest
      exact ⟨b, List.mem_cons_of_mem _ hb, hfree, hlen⟩
    · have hx : x.used = false := by
        rw [← Bool.not_eq_true]
        intro hx
        rcases hgap c x (by simp) hx with hle | hle <;> omega
      refine ⟨x, List.mem_cons_self, hx, ?_⟩
      cases bs with
      | nil =>
        rw [width_nil] at hhigh
        omega
      | cons y bs =>
        have hy : y.used = true := by
          rcases (coalesced_cons_cons.mp hbs).1 with h | h
          · rw [hx] at h
            cases h
          · exact h
        rcases hrest (c + h + x.len) y (by simp) hy with hle | hle <;> omega

/-! ### The boundaries -/

theorem boundaries_append :
    boundaries h c (pre ++ post) = (places h c pre).map Prod.fst ++ boundaries h (c + width h pre) post := by
  induction pre generalizing c with
  | nil => rfl
  | cons b pre ih =>
    rw [List.cons_append, boundaries, ih, places_cons, List.map_cons, width_cons, List.cons_append]
    congr 3
    omega

theorem boundaries_flag (u v : Bool) :
    boundaries h c (pre ++ ⟨u, n⟩ :: post) = boundaries h c (pre ++ ⟨v, n⟩ :: post) := by
  rw [boundaries_append, boundaries_append]
  rfl

theorem mem_boundaries_self : c ∈ boundaries h c bs := by
  cases bs with
  | nil => exact List.mem_singleton_self c
  | cons b bs => exact List.mem_cons_self

theorem width_mem_boundaries : c + width h pre ∈ boundaries h c (pre ++ post) := by
  rw [boundaries_append]
  exact List.mem_append_right _ mem_boundaries_self

theorem fst_mem_boundaries (hp : (p, b) ∈ places h c bs) : p ∈ boundaries h c bs := by
  obtain ⟨pre, post, rfl, rfl⟩ := split_of_mem_places hp
  exact width_mem_boundaries

theorem le_of_mem_boundaries (hp : p ∈ boundaries h c bs) : c ≤ p := by
  induction bs generalizing c with
  | nil => exact (List.mem_singleton.mp hp).ge
  | cons b bs ih =>
    rcases List.mem_cons.mp hp with rfl | hp
    · exact Nat.le_refl p
    · have := ih hp
      omega

/-- No block starts inside of another. -/
theorem boundary_apart (hq : q ∈ boundaries h c bs) (hp : (p, b) ∈ places h c bs) : q ≤ p ∨ p + h + b.len ≤ q := by
  induction bs generalizing c with
  | nil => cases hp
  | cons x bs ih =>
    have hle := (le_of_mem_places hp).1
    rcases List.mem_cons.mp hq with rfl | hq
    · exact .inl hle
    · rcases List.mem_cons.mp hp with heq | hp
      · cases heq
        exact .inr (le_of_mem_boundaries hq)
      · exact ih hq hp

theorem Merge.boundaries {bs' : List HeapBlock} (merge : Merge h bs bs') (hp : p ∈ boundaries h c bs') :
    p ∈ boundaries h c bs := by
  induction merge with
  | refl => exact hp
  | @step pre post n k _ ih =>
    refine ih ?_
    rw [boundaries_append, List.mem_append] at hp ⊢
    rcases hp with hp | hp
    · exact .inl hp
    · rcases List.mem_cons.mp hp with rfl | hp
      · exact .inr List.mem_cons_self
      · refine .inr (List.mem_cons_of_mem _ (List.mem_cons_of_mem _ ?_))
        dsimp only at hp ⊢
        rwa [show c + width h pre + h + (n + h + k) = c + width h pre + h + n + h + k by omega] at hp

end HeapBlock
