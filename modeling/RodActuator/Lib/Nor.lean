import Mathlib.Data.List.Basic
import Mathlib.Data.BitVec

/-! NOR memory. A program operation can only clear bits of a word, an erase operation sets every bit
    of a block. Each operation has a number, and an outcome says which operations take effect: an
    operation without effect leaves the memory as it was and is reported as failed. A power cut is the
    outcome in which no operation takes effect from some number on. -/

namespace Nor
variable {w : Nat}

/-- The word at each address, and how many operations were issued so far. -/
structure Device (w : Nat) where
  mem : Nat → BitVec w
  ops : Nat

/-- Which program and erase operations take effect, by their number. -/
structure Outcome where
  prog : Nat → Bool
  erase : Nat → Bool

def Outcome.all : Outcome := ⟨fun _ => true, fun _ => true⟩

theorem Outcome.erase_all (t : Nat) : Outcome.all.erase t = true := rfl

def Outcome.cut (n : Nat) : Outcome := ⟨fun t => decide (t < n), fun t => decide (t < n)⟩

def program (ok : Outcome) (d : Device w) (a : Nat) (v : BitVec w) : Device w × Bool :=
  let m := if ok.prog d.ops then Function.update d.mem a (d.mem a &&& v) else d.mem
  (⟨m, d.ops + 1⟩, ok.prog d.ops && m a == v)

/-- Erases the block of addresses that `block` selects. -/
def erase (ok : Outcome) (d : Device w) (block : Nat → Bool) : Device w × Bool :=
  (⟨if ok.erase d.ops then fun x => if block x then BitVec.allOnes w else d.mem x else d.mem, d.ops + 1⟩,
    ok.erase d.ops)

/-- Programs consecutive words, `stride` apart, up to the first that fails. -/
def writeWords (ok : Outcome) (stride : Nat) (d : Device w) (a : Nat) : List (BitVec w) → Device w × Bool
  | [] => (d, true)
  | v :: vs =>
    if (program ok d a v).2 then writeWords ok stride (program ok d a v).1 (a + stride) vs
    else ((program ok d a v).1, false)

def readWords (m : Nat → BitVec w) (stride a : Nat) : Nat → List (BitVec w)
  | 0 => []
  | n + 1 => m a :: readWords m stride (a + stride) n

/-- What `old` becomes when the first `j` words of `new` are programmed over it. -/
def torn : Nat → List (BitVec w) → List (BitVec w) → List (BitVec w)
  | j + 1, o :: old, v :: new => (o &&& v) :: torn j old new
  | _, old, _ => old

/-! ### Reading -/

@[simp] theorem readWords_length (m : Nat → BitVec w) (stride a n : Nat) :
    (readWords m stride a n).length = n := by
  induction n generalizing a with
  | zero => rfl
  | succ n ih => simp [readWords, ih]

theorem readWords_getElem? (m : Nat → BitVec w) (stride a : Nat) {n i : Nat} (hi : i < n) :
    (readWords m stride a n)[i]? = some (m (a + i * stride)) := by
  induction n generalizing a i with
  | zero => omega
  | succ n ih =>
    cases i with
    | zero => simp [readWords]
    | succ i =>
      simp only [readWords, List.getElem?_cons_succ]
      rw [ih (a + stride) (by omega), Nat.add_assoc, Nat.succ_mul, Nat.add_comm stride]

theorem readWords_congr {m m' : Nat → BitVec w} {stride a n : Nat}
    (h : ∀ i < n, m (a + i * stride) = m' (a + i * stride)) :
    readWords m stride a n = readWords m' stride a n := by
  induction n generalizing a with
  | zero => rfl
  | succ n ih =>
    simp only [readWords]
    rw [ih fun i hi => ?_, show m a = m' a by simpa using h 0 (by omega)]
    have := h (i + 1) (by omega)
    rwa [Nat.succ_mul, Nat.add_comm (i * stride), ← Nat.add_assoc] at this

theorem readWords_eq_replicate {m : Nat → BitVec w} {stride a n : Nat} {v : BitVec w}
    (h : ∀ i < n, m (a + i * stride) = v) : readWords m stride a n = List.replicate n v := by
  apply List.ext_getElem?
  intro i
  by_cases hi : i < n
  · rw [readWords_getElem? m stride a hi, h i hi, List.getElem?_replicate, if_pos hi]
  · rw [List.getElem?_eq_none (by simpa using hi), List.getElem?_eq_none (by simpa using hi)]

/-! ### Torn words -/

@[simp] theorem torn_zero (old new : List (BitVec w)) : torn 0 old new = old := by
  cases old <;> rfl

@[simp] theorem torn_length (j : Nat) (old new : List (BitVec w)) : (torn j old new).length = old.length := by
  induction j, old, new using torn.induct <;> simp_all [torn]

theorem torn_of_le {j : Nat} {old : List (BitVec w)} (new : List (BitVec w)) (h : old.length ≤ j) :
    torn j old new = torn old.length old new := by
  induction old generalizing j new with
  | nil => cases j <;> rfl
  | cons o old ih =>
    obtain ⟨j, rfl⟩ := Nat.exists_eq_succ_of_ne_zero (Nat.ne_of_gt (Nat.lt_of_lt_of_le (Nat.succ_pos _) h))
    cases new with
    | nil => rfl
    | cons v new => rw [torn, List.length_cons, torn, ih new (by simpa using h)]

theorem torn_min (j : Nat) (old new : List (BitVec w)) : torn (min j old.length) old new = torn j old new := by
  rcases Nat.le_total j old.length with h | h
  · rw [min_eq_left h]
  · rw [min_eq_right h, torn_of_le new h]

theorem torn_getElem? (j : Nat) (old new : List (BitVec w)) (i : Nat) :
    (torn j old new)[i]? = old[i]? ∨
      ∃ o v, old[i]? = some o ∧ new[i]? = some v ∧ (torn j old new)[i]? = some (o &&& v) := by
  induction j, old, new using torn.induct generalizing i with
  | case1 j o old v new ih =>
    cases i with
    | zero => exact Or.inr ⟨o, v, rfl, rfl, rfl⟩
    | succ i => simpa [torn] using ih i
  | case2 j old new h => exact Or.inl (by rw [torn]; exact h)

theorem torn_getElem?_same {j i : Nat} {old new : List (BitVec w)} {v : BitVec w} (ho : old[i]? = some v)
    (hn : new[i]? = some v) : (torn j old new)[i]? = some v := by
  rcases torn_getElem? j old new i with h | ⟨o, u, ho', hn', h⟩
  · rw [h, ho]
  · rw [ho] at ho'
    rw [hn] at hn'
    cases ho'
    cases hn'
    rw [h, BitVec.and_self]

theorem torn_erased (j : Nat) (new : List (BitVec w)) :
    torn j (List.replicate new.length (BitVec.allOnes w)) new =
      new.take j ++ List.replicate (new.length - j) (BitVec.allOnes w) := by
  induction new generalizing j with
  | nil => cases j <;> simp [torn]
  | cons v new ih =>
    cases j with
    | zero => rfl
    | succ j => simp [List.replicate_succ, torn, ih, BitVec.allOnes_and]

/-! ### Programming -/

@[simp] theorem program_ops (ok : Outcome) (d : Device w) (a : Nat) (v : BitVec w) :
    (program ok d a v).1.ops = d.ops + 1 := rfl

theorem program_mem_of_ne (ok : Outcome) (d : Device w) {a x : Nat} (v : BitVec w) (h : x ≠ a) :
    (program ok d a v).1.mem x = d.mem x := by
  simp only [program]
  split
  · exact Function.update_of_ne h _ _
  · rfl

theorem program_mem_self (ok : Outcome) (d : Device w) (a : Nat) (v : BitVec w) :
    (program ok d a v).1.mem a = if ok.prog d.ops then d.mem a &&& v else d.mem a := by
  simp only [program]
  split
  · simp
  · rfl

theorem program_ok_iff {ok : Outcome} {d : Device w} {a : Nat} {v : BitVec w} :
    (program ok d a v).2 = true ↔ ok.prog d.ops = true ∧ d.mem a &&& v = v := by
  cases h : ok.prog d.ops <;> simp [program, h]

theorem program_mem_of_ok {ok : Outcome} {d : Device w} {a : Nat} {v : BitVec w}
    (h : (program ok d a v).2 = true) : (program ok d a v).1.mem a = v := by
  obtain ⟨h1, h2⟩ := program_ok_iff.mp h
  rw [program_mem_self, h1, if_pos rfl, h2]

theorem erase_mem_of_not (ok : Outcome) (d : Device w) {block : Nat → Bool} {x : Nat} (h : block x = false) :
    (erase ok d block).1.mem x = d.mem x := by
  cases hok : ok.erase d.ops <;> simp [erase, hok, h]

theorem writeWords_frame (ok : Outcome) (stride : Nat) (d : Device w) (a : Nat) (vs : List (BitVec w)) {x : Nat}
    (h : ∀ i < vs.length, x ≠ a + i * stride) : (writeWords ok stride d a vs).1.mem x = d.mem x := by
  induction vs generalizing d a with
  | nil => rfl
  | cons v vs ih =>
    have hx : x ≠ a := by simpa using h 0 (by simp)
    simp only [writeWords]
    split
    · rw [ih, program_mem_of_ne ok d v hx]
      intro i hi
      have := h (i + 1) (by simpa using hi)
      rwa [Nat.succ_mul, Nat.add_comm (i * stride), ← Nat.add_assoc] at this
    · exact program_mem_of_ne ok d v hx

/-- Whatever the outcome, writing `vs` leaves the words there were with a first part of `vs` programmed
    over them, at least one word of it when the first program takes effect; a write that reports success
    leaves `vs`. -/
theorem writeWords_torn (ok : Outcome) {stride : Nat} (hs : 0 < stride) (d : Device w) (a : Nat)
    (vs : List (BitVec w)) :
    ∃ j, readWords (writeWords ok stride d a vs).1.mem stride a vs.length =
        torn j (readWords d.mem stride a vs.length) vs ∧
      (ok.prog d.ops = true → 0 < vs.length → 0 < j) ∧
      ((writeWords ok stride d a vs).2 = true →
        readWords (writeWords ok stride d a vs).1.mem stride a vs.length = vs) := by
  induction vs generalizing d a with
  | nil => exact ⟨0, rfl, fun _ h => h, fun _ => rfl⟩
  | cons v vs ih =>
    -- The words after the first are not at its address, so programming it leaves them.
    have later : readWords (program ok d a v).1.mem stride (a + stride) vs.length =
        readWords d.mem stride (a + stride) vs.length :=
      readWords_congr fun i _ => program_mem_of_ne ok d v (by omega)
    simp only [writeWords, List.length_cons, readWords]
    by_cases h : (program ok d a v).2 = true
    · simp only [h, ↓reduceIte]
      obtain ⟨j, ht, -, hok⟩ := ih (program ok d a v).1 (a + stride)
      have hfirst : (writeWords ok stride (program ok d a v).1 (a + stride) vs).1.mem a = v := by
        rw [writeWords_frame ok stride _ _ vs (by intro i _; omega)]
        exact program_mem_of_ok h
      refine ⟨j + 1, ?_, fun _ _ => Nat.succ_pos j, fun hr => ?_⟩
      · rw [hfirst, ht, later, torn, (program_ok_iff.mp h).2]
      · rw [hfirst, hok hr]
    · simp only [h, Bool.false_eq_true, ↓reduceIte, false_implies, and_true]
      rw [later, program_mem_self]
      by_cases hp : ok.prog d.ops = true
      · exact ⟨1, by simp [hp, torn], fun _ _ => Nat.one_pos⟩
      · exact ⟨0, by simp [hp], fun h => absurd h hp⟩

/-- Over erased words every program that takes effect succeeds. -/
theorem writeWords_erased {ok : Outcome} {stride : Nat} (hs : 0 < stride) {d : Device w} {a : Nat}
    {vs : List (BitVec w)} (he : readWords d.mem stride a vs.length = List.replicate vs.length (BitVec.allOnes w))
    (hp : ∀ t, d.ops ≤ t → t < d.ops + vs.length → ok.prog t = true) :
    (writeWords ok stride d a vs).2 = true := by
  induction vs generalizing d a with
  | nil => rfl
  | cons v vs ih =>
    simp only [List.length_cons, readWords, List.replicate_succ, List.cons.injEq] at he
    have h : (program ok d a v).2 = true :=
      program_ok_iff.mpr ⟨hp _ (Nat.le_refl _) (by simp), by rw [he.1, BitVec.allOnes_and]⟩
    simp only [writeWords, h, ↓reduceIte]
    apply ih
    · rw [← he.2]
      exact readWords_congr fun i _ => program_mem_of_ne ok d v (by omega)
    · intro t h1 h2
      simp only [program_ops] at h1 h2
      exact hp t (by omega) (by simp only [List.length_cons]; omega)

/-- A write over erased words that fails leaves a proper first part of its words. -/
theorem writeWords_erased_failed (ok : Outcome) {stride : Nat} (hs : 0 < stride) (d : Device w) (a : Nat)
    {vs : List (BitVec w)} (he : readWords d.mem stride a vs.length = List.replicate vs.length (BitVec.allOnes w))
    (hfail : (writeWords ok stride d a vs).2 = false) :
    ∃ j < vs.length, readWords (writeWords ok stride d a vs).1.mem stride a vs.length =
      torn j (readWords d.mem stride a vs.length) vs := by
  induction vs generalizing d a with
  | nil => cases hfail
  | cons v vs ih =>
    simp only [List.length_cons, readWords, List.replicate_succ, List.cons.injEq] at he
    have later : readWords (program ok d a v).1.mem stride (a + stride) vs.length =
        readWords d.mem stride (a + stride) vs.length :=
      readWords_congr fun i _ => program_mem_of_ne ok d v (by omega)
    simp only [writeWords, List.length_cons, readWords] at hfail ⊢
    by_cases h : (program ok d a v).2 = true
    · simp only [h, ↓reduceIte] at hfail ⊢
      obtain ⟨j, hj, ht⟩ := ih (program ok d a v).1 (a + stride) (by rw [later, he.2]) hfail
      have hfirst : (writeWords ok stride (program ok d a v).1 (a + stride) vs).1.mem a = v := by
        rw [writeWords_frame ok stride _ _ vs (by intro i _; omega)]
        exact program_mem_of_ok h
      refine ⟨j + 1, Nat.succ_lt_succ hj, ?_⟩
      rw [hfirst, ht, later, torn, (program_ok_iff.mp h).2]
    · -- The words are erased, so the program had no effect.
      have hprog : ok.prog d.ops = false := by
        rw [← Bool.not_eq_true]
        exact fun hp => h (program_ok_iff.mpr ⟨hp, by rw [he.1, BitVec.allOnes_and]⟩)
      simp only [h, Bool.false_eq_true, ↓reduceIte]
      refine ⟨0, Nat.succ_pos _, ?_⟩
      rw [later, program_mem_self, hprog, torn_zero]
      rfl

/-! ### Lost power -/

/-- No program or erase takes effect from operation `n` on. -/
def Outcome.Dead (ok : Outcome) (n : Nat) : Prop := ∀ t, n ≤ t → ok.prog t = false ∧ ok.erase t = false

theorem Outcome.Dead.mono {ok : Outcome} {n n' : Nat} (h : ok.Dead n) (hn : n ≤ n') : ok.Dead n' :=
  fun t ht => h t (Nat.le_trans hn ht)

theorem Outcome.cut_dead (n : Nat) : (Outcome.cut n).Dead n := fun t ht => by
  simp [Outcome.cut, Nat.not_lt.mpr ht]

theorem erase_dead {ok : Outcome} {d : Device w} (h : ok.Dead d.ops) (block : Nat → Bool) :
    (erase ok d block).1.mem = d.mem := by
  simp [erase, (h d.ops (Nat.le_refl _)).2]

theorem writeWords_missed {ok : Outcome} {d : Device w} (h : ok.prog d.ops = false) (stride a : Nat)
    {vs : List (BitVec w)} (hvs : vs ≠ []) :
    (writeWords ok stride d a vs).1.mem = d.mem ∧ (writeWords ok stride d a vs).2 = false := by
  cases vs with
  | nil => exact absurd rfl hvs
  | cons v vs => simp [writeWords, program, h]

theorem writeWords_dead {ok : Outcome} {d : Device w} (h : ok.Dead d.ops) (stride a : Nat) (vs : List (BitVec w)) :
    (writeWords ok stride d a vs).1.mem = d.mem := by
  rcases eq_or_ne vs [] with rfl | hvs
  · rfl
  · exact (writeWords_missed (h d.ops (Nat.le_refl _)).1 stride a hvs).1

/-- How many words of `new` are programmed over `old` when every program takes effect: those up to the
    first that the words there cannot take. -/
def reach : List (BitVec w) → List (BitVec w) → Nat
  | o :: old, v :: new => if o &&& v = v then reach old new + 1 else 1
  | _, _ => 0

theorem reach_erased (new : List (BitVec w)) :
    reach (List.replicate new.length (BitVec.allOnes w)) new = new.length := by
  induction new with
  | nil => rfl
  | cons v new ih => simp [List.replicate_succ, reach, ih, BitVec.allOnes_and]

theorem writeWords_cut (n : Nat) {stride : Nat} (hs : 0 < stride) (d : Device w) (a : Nat) (vs : List (BitVec w)) :
    readWords (writeWords (.cut n) stride d a vs).1.mem stride a vs.length =
      torn (min (n - d.ops) (reach (readWords d.mem stride a vs.length) vs))
        (readWords d.mem stride a vs.length) vs := by
  induction vs generalizing d a with
  | nil => simp [readWords, torn]
  | cons v vs ih =>
    have later : readWords (program (.cut n) d a v).1.mem stride (a + stride) vs.length =
        readWords d.mem stride (a + stride) vs.length :=
      readWords_congr fun i _ => program_mem_of_ne (.cut n) d v (by omega)
    simp only [writeWords, List.length_cons, readWords, reach]
    by_cases hn : d.ops < n
    · have hprog : (Outcome.cut n).prog d.ops = true := by simpa [Outcome.cut] using hn
      by_cases hv : d.mem a &&& v = v
      · have h : (program (.cut n) d a v).2 = true := program_ok_iff.mpr ⟨hprog, hv⟩
        have hfirst : (writeWords (.cut n) stride (program (.cut n) d a v).1 (a + stride) vs).1.mem a = v := by
          rw [writeWords_frame _ stride _ _ vs (by intro i _; omega)]
          exact program_mem_of_ok h
        simp only [h, hv, ↓reduceIte]
        rw [hfirst, ih, later, program_ops, show n - d.ops = n - (d.ops + 1) + 1 by omega, Nat.add_min_add_right, torn,
          hv]
      · have h : ¬(program (.cut n) d a v).2 = true := fun h => hv (program_ok_iff.mp h).2
        simp only [h, hv, Bool.false_eq_true, ↓reduceIte]
        rw [later, program_mem_self, if_pos hprog, min_eq_right (by omega), torn, torn_zero]
    · have h : ¬(program (.cut n) d a v).2 = true := fun h => by
        have := (program_ok_iff.mp h).1
        simp only [Outcome.cut, decide_eq_true_eq] at this
        exact hn this
      simp only [h, Bool.false_eq_true, ↓reduceIte]
      rw [later, program_mem_self, if_neg (by simpa [Outcome.cut] using hn), Nat.sub_eq_zero_of_le (by omega),
        Nat.zero_min, torn_zero]

theorem writeWords_before_cut {n stride : Nat} (hs : 0 < stride) (d : Device w) (a : Nat) (vs : List (BitVec w))
    (h : d.ops + reach (readWords d.mem stride a vs.length) vs ≤ n) :
    writeWords (.cut n) stride d a vs = writeWords .all stride d a vs ∧
      (writeWords .all stride d a vs).1.ops = d.ops + reach (readWords d.mem stride a vs.length) vs := by
  induction vs generalizing d a with
  | nil => exact ⟨rfl, rfl⟩
  | cons v vs ih =>
    simp only [List.length_cons, readWords, reach] at h ⊢
    have hlt : d.ops < n := by
      split at h <;> omega
    have heq : program (.cut n) d a v = program .all d a v := by
      simp [program, Outcome.cut, Outcome.all, hlt]
    have later : readWords (program .all d a v).1.mem stride (a + stride) vs.length =
        readWords d.mem stride (a + stride) vs.length :=
      readWords_congr fun i _ => program_mem_of_ne .all d v (by omega)
    simp only [writeWords, heq]
    by_cases hv : d.mem a &&& v = v
    · have hok : (program .all d a v).2 = true := program_ok_iff.mpr ⟨rfl, hv⟩
      simp only [hv, ↓reduceIte] at h
      obtain ⟨h1, h2⟩ := ih (program .all d a v).1 (a + stride) (by rw [later, program_ops]; omega)
      simp only [hok, hv, ↓reduceIte]
      refine ⟨h1, ?_⟩
      rw [h2, later, program_ops]
      omega
    · have hok : ¬(program .all d a v).2 = true := fun h => hv (program_ok_iff.mp h).2
      simp [hok, hv]

theorem writeWords_cut_ops {n stride : Nat} (hs : 0 < stride) {d : Device w} {a : Nat} {vs : List (BitVec w)}
    (h : n ≤ d.ops + reach (readWords d.mem stride a vs.length) vs) :
    n ≤ (writeWords (.cut n) stride d a vs).1.ops := by
  induction vs generalizing d a with
  | nil => exact h
  | cons v vs ih =>
    have later : readWords (program (.cut n) d a v).1.mem stride (a + stride) vs.length =
        readWords d.mem stride (a + stride) vs.length :=
      readWords_congr fun i _ => program_mem_of_ne (.cut n) d v (by omega)
    simp only [List.length_cons, readWords, reach] at h
    simp only [writeWords]
    split
    · rename_i hok
      rw [if_pos (program_ok_iff.mp hok).2] at h
      apply ih
      rw [later, program_ops]
      omega
    · rename_i hok
      rw [program_ops]
      by_cases hn : d.ops < n
      · have hv : ¬d.mem a &&& v = v := fun hv => hok (program_ok_iff.mpr ⟨by simpa [Outcome.cut] using hn, hv⟩)
        rw [if_neg hv] at h
        exact h
      · omega

/-- In the first word in which they differ, `old` has no bit that `new` lacks. -/
def Harmless (old new : List (BitVec w)) : Prop :=
  ∀ i o v, old[i]? = some o → new[i]? = some v → old.take i = new.take i → o &&& v = o

theorem harmless_cons {o v : BitVec w} {old new : List (BitVec w)} :
    Harmless (o :: old) (v :: new) ↔ o &&& v = o ∧ (o = v → Harmless old new) := by
  constructor
  · intro h
    refine ⟨h 0 o v rfl rfl rfl, fun heq i o' v' ho hv htake => ?_⟩
    exact h (i + 1) o' v' ho hv (by rw [List.take_succ_cons, List.take_succ_cons, heq, htake])
  · rintro ⟨h1, h2⟩ i o' v' ho hv htake
    cases i with
    | zero =>
      cases ho
      cases hv
      exact h1
    | succ i =>
      rw [List.take_succ_cons, List.take_succ_cons, List.cons.injEq] at htake
      exact h2 htake.1 i o' v' ho hv htake.2

/-- Exactly then no stopped write of `new` over `old` changes it. -/
theorem harmless_iff {old new : List (BitVec w)} (hlen : old.length = new.length) :
    Harmless old new ↔ ∀ j ≤ reach old new, torn j old new = old := by
  induction old generalizing new with
  | nil => simp [Harmless, torn]
  | cons o old ih =>
    cases new with
    | nil => simp at hlen
    | cons v new =>
      have hlen' : old.length = new.length := by simpa using hlen
      rw [harmless_cons, reach]
      constructor
      · rintro ⟨h1, h2⟩ j hj
        cases j with
        | zero => rfl
        | succ j =>
          rw [torn, h1]
          congr 1
          split at hj
          · rename_i hv
            exact (ih hlen').mp (h2 (h1.symm.trans hv)) j (by omega)
          · obtain rfl : j = 0 := by omega
            exact torn_zero _ _
      · intro h
        have h1 : o &&& v = o := by
          have := h 1 (by split <;> omega)
          rw [torn, List.cons.injEq] at this
          exact this.1
        refine ⟨h1, fun heq => (ih hlen').mpr fun j hj => ?_⟩
        have := h (j + 1) (by rw [if_pos (by rw [h1, heq])]; omega)
        rw [torn, List.cons.injEq] at this
        exact this.2

theorem writeWords_ops_le (ok : Outcome) (stride : Nat) (d : Device w) (a : Nat) (vs : List (BitVec w)) :
    d.ops ≤ (writeWords ok stride d a vs).1.ops := by
  induction vs generalizing d a with
  | nil => exact Nat.le_refl _
  | cons v vs ih =>
    simp only [writeWords]
    split
    · exact Nat.le_trans (by simp) (ih _ _)
    · simp

end Nor
